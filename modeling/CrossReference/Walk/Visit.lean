import CrossReference.Condition.Evaluate
import CrossReference.ParseTree.Form
import CrossReference.Walk.Frame
import CrossReference.Walk.Qualified

/-!
# Visiting nodes

`visit` adds to the state what a node contributes and gives the frames of the nodes that remain to
be visited, in source order.
-/

set_option autoImplicit false

namespace CrossReference.Walk

open ParseTree

abbrev Visited := State × List Frame

/-- Visit the nodes of a list one after the other and collect the frames that remain. -/
def visitEach (step : State → ParseTree → Visited) : List ParseTree → State → Visited
  | [], state => (state, [])
  | tree :: rest, state =>
      let (stepped, frames) := step state tree
      let (final, later) := visitEach step rest stepped
      (final, frames ++ later)

def childFrames (tree : ParseTree) (context : Context) : List Frame :=
  tree.namedChildren.map (Frame.child tree context .plain)

variable (source : List Char)

def visitUse (state : State) (tree : ParseTree) (context : Context) (space : NameSpace)
    (effect : Effect) : Visited :=
  (state.noteUse source tree context space effect,
    (QualifiedName.ofTree tree).extras.map (Frame.apart context))

def visitQualified (state : State) (tree : ParseTree) (context : Context) (kind : SymbolKind)
    (typeRef : Option TypeRef) : (State × Option Nat) × List Frame :=
  (state.declareQualified source tree context kind typeRef,
    (QualifiedName.ofTree tree).extras.map (Frame.apart context))

def declaratorMode (kind : SymbolKind) (typeRef : Option TypeRef) (parameters : Option Nat)
    (child : ParseTree) : Mode :=
  if child.field = "declarator" then .declarator kind typeRef parameters else .plain

/-- A function, which has a scope for its parameters and its body.  The scope of a function that
is defined outside of its class lies in that of the class. -/
def visitFunction (state : State) (tree : ParseTree) (context : Context) : Visited :=
  let (opened, inner) := state.openDeclaration tree.kind context
  let owner := (tree.child? "declarator").bind fun declarator =>
    State.ownerScope? source opened declarator context
  let (pushed, scope) := opened.pushScope .function (owner.getD context.scope)
  (pushed, tree.namedChildren.map fun child =>
    if child.field = "declarator" then
      Frame.child tree inner (.declarator .function none (some scope)) child
    else if child.field = "body" then Frame.child tree (inner.within scope) .body child
    else if child.kind = "field_initializer_list" then
      Frame.child tree (inner.within scope) .plain child
    else Frame.child tree inner .plain child)

def visitDeclaration (state : State) (tree : ParseTree) (context : Context) (kind : SymbolKind) :
    Visited :=
  let (opened, inner) := state.openDeclaration tree.kind context
  (opened, tree.namedChildren.map fun child =>
    Frame.child tree inner (declaratorMode kind tree.declaredType? none child) child)

/-- A specifier that names a tag without declaring it. -/
def visitElaborated (state : State) (tree : ParseTree) (context : Context) : Visited :=
  visitEach
    (fun state child =>
      if child.field = "name" && (isPlainName child.kind || isQualified child.kind) then
        visitUse source state child context .tag .none
      else (state, [Frame.child tree context .plain child]))
    tree.namedChildren state

/-- Declare the name of a class or enum.  A specialization shares the symbol of its template. -/
def visitTag (state : State) (tree : ParseTree) (inner : Context) (declareIn : Nat)
    (kind : SymbolKind) (allowTemplate : Bool) : (State × Option Nat) × List Frame :=
  match tree.child? "name" with
  | none => ((state, none), [])
  | some name =>
      if isQualified name.kind then visitQualified source state name inner kind none
      else if allowTemplate && name.kind = "template_type" then
        let frames := (name.child? "arguments").toList.map (Frame.apart inner)
        match name.child? "name" with
        | some plain => (state.declare source plain inner declareIn kind none, frames)
        | none => ((state, none), frames)
      else (state.declare source name inner declareIn kind none, [])

def visitClassPart (tree : ParseTree) (inner : Context) (scope : Nat) (state : State)
    (child : ParseTree) : Visited :=
  if child.field = "name" then (state, [])
  else if child.field = "body" then
    (state, [Frame.child tree (inner.within scope) .plain child])
  else if child.kind = "base_class_clause" then
    visitEach
      (fun state base =>
        if base.kind = "type_identifier" || base.kind = "template_type" ||
            isQualified base.kind then
          visitUse source state base inner .qualifier (.base scope)
        else (state, [Frame.child child inner .plain base]))
      child.namedChildren state
  else (state, [Frame.child tree inner .plain child])

def visitClass (state : State) (tree : ParseTree) (context : Context) (kind : SymbolKind)
    (declaresTag : Bool) : Visited :=
  let hasBody := (tree.child? "body").isSome
  if !hasBody && !declaresTag then visitElaborated source state tree context
  else
    let (opened, inner) := state.openDeclaration tree.kind context
    let ((declared, binding), frames) :=
      visitTag source opened tree inner context.declareIn kind true
    if !hasBody then (declared, frames)
    else
      let (entered, scope) := declared.openMembers binding .classBody context.scope
      let (final, later) :=
        visitEach (visitClassPart source tree inner scope) tree.namedChildren
          (entered.noteSpecifier tree scope)
      (final, frames ++ later)

/-- An enum.  Enumerators are declared around it, unless it is scoped. -/
def visitEnum (state : State) (tree : ParseTree) (context : Context) (declaresTag : Bool) :
    Visited :=
  let hasBody := (tree.child? "body").isSome
  if !hasBody && !declaresTag then visitElaborated source state tree context
  else
    let (opened, inner) := state.openDeclaration tree.kind context
    let ((declared, binding), frames) :=
      visitTag source opened tree inner context.declareIn .enumName false
    let (entered, enumerators) :=
      if hasBody then
        let (entered, scope) := declared.openMembers binding .namespaceBody context.scope
        let isScoped := tree.hasToken "class" || tree.hasToken "struct"
        (entered.noteSpecifier tree scope,
          { inner with
            scope := scope
            declareIn := if isScoped then scope else context.declareIn })
      else (declared, inner)
    (entered, frames ++ (tree.namedChildren.filter (·.field ≠ "name")).map fun child =>
      Frame.child tree (if child.field = "body" then enumerators else inner) .plain child)

/-- An enumerator.  One that is declared around its enum is also a member of the enum. -/
def visitEnumerator (state : State) (tree : ParseTree) (context : Context) : Visited :=
  let (opened, inner) := state.openDeclaration tree.kind context
  visitEach
    (fun state child =>
      if child.field ≠ "name" then (state, [Frame.child tree inner .plain child])
      else
        let (declared, binding) :=
          state.declare source child inner context.declareIn .enumerator none
        match binding with
        | some binding =>
            if context.scope ≠ context.declareIn then
              ({ declared with
                  scopes := declared.scopes.declare context.scope .ordinary (child.text source)
                    binding child.start }, [])
            else (declared, [])
        | none => (declared, []))
    tree.namedChildren opened

/-- Declare the segments of the name of a namespace, each inside the one before it. -/
def visitNamespaceSegments (inner : Context) :
    List ParseTree → State → Nat → State × Nat
  | [], state, scope => (state, scope)
  | segment :: rest, state, scope =>
      let (declared, binding) := state.declare source segment inner scope .namespaceName none
      let (entered, members) := declared.openMembers binding .namespaceBody scope
      visitNamespaceSegments inner rest entered members

def visitNamespace (state : State) (tree : ParseTree) (context : Context) : Visited :=
  let (opened, inner) := state.openDeclaration tree.kind context
  let segments :=
    match tree.child? "name" with
    | some name => name.namespaceSegments
    | none => []
  let (declared, scope) :=
    visitNamespaceSegments source inner segments opened context.declareIn
  (declared, (tree.namedChildren.filter (·.field ≠ "name")).map fun child =>
    Frame.child tree (if child.field = "body" then inner.within scope else inner) .plain child)

/-- A template.  Its parameters have a scope of their own, and what it declares lands in the scope
around it. -/
def visitTemplate (state : State) (tree : ParseTree) (context : Context) : Visited :=
  let (opened, inner) := state.openDeclaration tree.kind context
  let (pushed, scope) := opened.pushScope .templateHead context.scope
  (pushed, tree.namedChildren.map fun child =>
    Frame.child tree
      (if child.field = "parameters" then inner.within scope else { inner with scope := scope })
      .plain child)

def visitTypeParameter (state : State) (tree : ParseTree) (context : Context) : Visited :=
  let (opened, inner) := state.openDeclaration tree.kind context
  visitEach
    (fun state child =>
      if child.field ≠ "default_type" && child.field ≠ "default_value" &&
          child.kind = "type_identifier" then
        ((state.declare source child inner context.declareIn .templateParameter none).1, [])
      else (state, [Frame.child tree inner .plain child]))
    tree.namedChildren opened

def visitAlias (state : State) (tree : ParseTree) (context : Context) : Visited :=
  let (opened, inner) := state.openDeclaration tree.kind context
  visitEach
    (fun state child =>
      if child.field = "name" then
        ((state.declare source child inner context.declareIn .typeAlias tree.declaredType?).1, [])
      else (state, [Frame.child tree inner .plain child]))
    tree.namedChildren opened

def visitUsing (state : State) (tree : ParseTree) (context : Context) : Visited :=
  let (opened, inner) := state.openDeclaration tree.kind context
  let effect : Effect :=
    if tree.hasToken "namespace" then .usingNamespace context.declareIn
    else .usingDeclaration context.declareIn tree.stop
  visitEach
    (fun state child =>
      if isPlainName child.kind || isQualified child.kind then
        visitUse source state child inner .ordinary effect
      else (state, [Frame.child tree inner .plain child]))
    tree.namedChildren opened

def definedValue? (tree : ParseTree) : Option Int64 :=
  if tree.kind = "preproc_def" then
    match tree.child? "value" with
    | some body => Condition.bodyValue? (body.text source).toList
    | none => some 1
  else none

/-- Add the span that a definition of a macro begins; the macro gets a symbol with its first
definition. -/
def State.defineMacro (state : State) (name : String) (start : Nat) : State × Nat :=
  match state.macros.find? (·.1 = name) with
  | some (_, entry) =>
      ({ state with
          macros := state.macros.map fun (other, entry) =>
            if other = name then (other, { entry with spans := entry.spans ++ [⟨start, none⟩] })
            else (other, entry) },
        entry.binding)
  | none =>
      let (added, binding) := state.addSymbol name .macroName
      ({ added with macros := added.macros ++ [(name, ⟨binding, [⟨start, none⟩]⟩)] }, binding)

/-- A definition of a macro, valid from its end on.  Only a definition that is compiled in counts in
conditions. -/
def visitMacroDefinition (state : State) (tree : ParseTree) (context : Context) : State :=
  let (opened, inner) := state.openDeclaration tree.kind context
  match tree.child? "name" with
  | none => opened
  | some nameTree =>
      let (named, name) := opened.addName source nameTree inner true
      let text := nameTree.text source
      if text.isEmpty then named
      else
        let (defined, binding) := named.defineMacro text tree.stop
        let bound := defined.setBinding name (some binding)
        if context.active then
          { bound with macroValues := bound.macroValues.define text (definedValue? source tree) }
        else bound

/-- Spans of which the last one ends at a position, unless it has ended before. -/
def endLast (position : Nat) : List MacroSpan → List MacroSpan
  | [] => []
  | [span] => [{ span with stop := span.stop <|> some position }]
  | span :: rest => span :: endLast position rest

def visitDirective (state : State) (tree : ParseTree) (context : Context) : State :=
  let part (name : String) : Option String :=
    (tree.child? name).bind fun child =>
      (child.text? source).map fun text => String.ofList (Text.trim text.toList)
  if part "directive" ≠ some "#undef" then state
  else
    match part "argument" with
    | none => state
    | some name =>
        let ended := { state with
          macros := state.macros.map fun (other, entry) =>
            if other = name then (other, { entry with spans := endLast tree.start entry.spans })
            else (other, entry) }
        if context.active then
          { ended with macroValues := ended.macroValues.undefine name }
        else ended

/-- Whether a branch of a condition is kept, if that can be decided.  A branch without a condition
is. -/
def branchHolds? (state : State) (tree : ParseTree) : Option Bool :=
  if tree.kind = "preproc_if" || tree.kind = "preproc_elif" then
    match tree.child? "condition" with
    | some condition =>
        (Condition.evaluate source state.macroValues condition).map fun value => value ≠ 0
    | none => none
  else if tree.kind = "preproc_ifdef" || tree.kind = "preproc_elifdef" then
    let negated :=
      match tree.children with
      | token :: _ => "ndef".toList.isSuffixOf token.kind.toList
      | [] => false
    match (tree.child? "name").bind (·.text? source) with
    | some name => some (state.macroValues.isDefined name != negated)
    | none => none
  else some true

/-- A branch of a condition and its alternatives.  A branch that cannot be decided is kept, and the
alternatives after it are not. -/
def visitConditional (state : State) (tree : ParseTree) (context : Context) (taken : Bool) :
    Visited :=
  let holds := branchHolds? source state tree
  let branch := { context with active := context.active && !taken && holds != some false }
  let takenAfter := taken || holds.getD true
  (state, tree.namedChildren.map fun child =>
    if child.field = "condition" || child.field = "name" then
      Frame.child tree context .plain child
    else if child.field = "alternative" then
      Frame.child tree context (.branch takenAfter) child
    else Frame.child tree branch .plain child)

def visitBlock (state : State) (tree : ParseTree) (context : Context) : Visited :=
  let (pushed, scope) := state.pushScope .block context.scope
  let inner := context.within scope
  if tree.kind ≠ "for_range_loop" then (pushed, childFrames tree inner)
  else
    (pushed, tree.namedChildren.map fun child =>
      Frame.child tree inner (declaratorMode .variable tree.declaredType? none child) child)

def visitLambda (state : State) (tree : ParseTree) (context : Context) : Visited :=
  let (pushed, scope) := state.pushScope .function context.scope
  let inner := context.within scope
  (pushed, tree.namedChildren.map fun child =>
    if child.field = "declarator" then Frame.child tree inner .plain child
    else if child.field = "body" then Frame.child tree inner .body child
    else Frame.child tree context .plain child)

/-- The object that an expression denotes, if it is a name or the current object, possibly behind
parentheses, dereferences and subscripts. -/
def objectOf? (scopes : Scopes) (scope : Nat) (tree : ParseTree) : Option ObjectRef :=
  if tree.kind = "identifier" then some (.name tree.id)
  else if tree.kind = "field_expression" then
    (tree.child? "field").map fun field => .name field.id
  else if tree.kind = "this" then (scopes.enclosingClass scope).map .class
  else if tree.kind = "parenthesized_expression" then
    match _found : tree.namedChildren with
    | inner :: _ => objectOf? scopes scope inner
    | [] => none
  else if tree.kind = "pointer_expression" || tree.kind = "subscript_expression" then
    match _found : tree.child? "argument" with
    | some inner => objectOf? scopes scope inner
    | none => none
  else if isQualified tree.kind then
    (QualifiedName.ofTree tree).segments.getLast?.map fun last => .name last.id
  else none
termination_by tree.size
decreasing_by
  · exact size_lt_of_mem (mem_of_mem_namedChildren (by simp [_found]))
  · exact size_lt_of_child? _found

def visitMemberAccess (state : State) (tree : ParseTree) (context : Context) : Visited :=
  let object := (tree.child? "argument").bind (objectOf? state.scopes context.scope)
  (state, tree.namedChildren.map fun child =>
    Frame.child tree context (if child.field = "field" then .member object else .plain) child)

def visitPlain (state : State) (tree : ParseTree) (declaresTag : Bool) (context : Context) :
    Visited :=
  match tree.form with
  | .silent => (state, [])
  | .function => visitFunction source state tree context
  | .declaration kind => visitDeclaration state tree context kind
  | .classSpecifier kind => visitClass source state tree context kind declaresTag
  | .enumSpecifier => visitEnum source state tree context declaresTag
  | .enumerator => visitEnumerator source state tree context
  | .namespaceDefinition => visitNamespace source state tree context
  | .template => visitTemplate state tree context
  | .typeParameter => visitTypeParameter source state tree context
  | .alias => visitAlias source state tree context
  | .usingDeclaration => visitUsing source state tree context
  | .macroDefinition => (visitMacroDefinition source state tree context, [])
  | .directive => (visitDirective source state tree context, [])
  | .conditional => visitConditional source state tree context false
  | .block => visitBlock state tree context
  | .lambda => visitLambda state tree context
  | .memberAccess => visitMemberAccess state tree context
  | .name => visitUse source state tree context .ordinary .none
  | .transparent => (state, childFrames tree context)

def functionDeclaratorKinds : List String :=
  ["function_declarator", "function_field_declarator", "function_type_declarator",
    "abstract_function_declarator"]

/-- The declarator of a function.  What it declares is a function, unless it declares a parameter
or an alias; its parameters land in a scope of their own. -/
def visitFunctionDeclarator (state : State) (tree : ParseTree) (context : Context)
    (kind : SymbolKind) (typeRef : Option TypeRef) (parameters : Option Nat) : Visited :=
  let declared :=
    match kind with
    | .variable | .field => .function
    | other => other
  let (pushed, scope) :=
    match parameters with
    | some scope => (state, scope)
    | none => state.pushScope .function context.scope
  (pushed, tree.namedChildren.map fun child =>
    if child.field = "declarator" then
      Frame.child tree context (.declarator declared typeRef none) child
    else if child.field = "parameters" then Frame.child tree (context.within scope) .plain child
    else Frame.child tree { context with scope := scope } .plain child)

def visitDeclarator (state : State) (frame : Frame) (kind : SymbolKind)
    (typeRef : Option TypeRef) (parameters : Option Nat) : Visited :=
  let tree := frame.tree
  let context := frame.context
  if isPlainName tree.kind then
    ((state.declare source tree context context.declareIn kind typeRef).1, [])
  else if isQualified tree.kind then
    let ((declared, _), frames) := visitQualified source state tree context kind typeRef
    (declared, frames)
  else if tree.kind ∈ functionDeclaratorKinds then
    visitFunctionDeclarator state tree context kind typeRef parameters
  else if tree.kind = "init_declarator" then
    (state, tree.namedChildren.map fun child =>
      Frame.child tree context (declaratorMode kind typeRef parameters child) child)
  else if tree.kind = "template_function" then
    let declared :=
      match tree.child? "name" with
      | some name => (state.declare source name context context.declareIn kind typeRef).1
      | none => state
    (declared, (tree.child? "arguments").toList.map (Frame.apart context))
  else if tree.kind = "structured_binding_declarator" then
    ((tree.namedChildren.filter (·.kind = "identifier")).foldl
      (fun state child => (state.declare source child context context.declareIn .variable none).1)
      state, [])
  else if isDeclaratorKind tree.kind then
    let inner : Option Nat := tree.innerDeclarator?.map ParseTree.id
    (state, tree.namedChildren.map fun child =>
      Frame.child tree context
        (if some child.id = inner then .declarator kind typeRef parameters else .plain) child)
  else (state, [{ frame with mode := .plain }])

def visit (state : State) (frame : Frame) : Visited :=
  match frame.mode with
  | .plain => visitPlain source state frame.tree frame.declaresTag frame.context
  | .body => (state, childFrames frame.tree frame.context)
  | .declarator kind typeRef parameters =>
      visitDeclarator source state frame kind typeRef parameters
  | .member object =>
      if frame.tree.kind = "field_identifier" then
        let (named, name) := state.addName source frame.tree frame.context false
        ({ named with members := named.members.push ⟨name, object⟩ }, [])
      else visitPlain source state frame.tree frame.declaresTag frame.context
  | .branch taken => visitConditional source state frame.tree frame.context taken

end CrossReference.Walk
