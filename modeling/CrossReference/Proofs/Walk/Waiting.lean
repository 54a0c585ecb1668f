import CrossReference.Proofs.Walk.Nodes
import CrossReference.Proofs.Walk.Resolve

/-!
# Uses that begin to wait

A visit lets the uses of some nodes wait for the end of the walk, in source order.
`Frame.usedNames` lists these nodes with the name spaces in which they are searched.
-/

set_option autoImplicit false

namespace CrossReference.Walk

open ParseTree

/-! ## The names that a visit uses -/

def elaboratedNames (tree : ParseTree) : List ParseTree :=
  tree.namedChildren.filter fun child =>
    child.field = "name" && (isPlainName child.kind || isQualified child.kind)

def namesOfBases (clause : ParseTree) : List ParseTree :=
  clause.namedChildren.filter fun base =>
    base.kind = "type_identifier" || base.kind = "template_type" || isQualified base.kind

def basesOfPart (child : ParseTree) : List ParseTree :=
  if child.field = "name" || child.field = "body" then []
  else if child.kind = "base_class_clause" then namesOfBases child
  else []

def namesOfUsing (tree : ParseTree) : List ParseTree :=
  tree.namedChildren.filter fun child => isPlainName child.kind || isQualified child.kind

def Frame.formUses (frame : Frame) : List (ParseTree × NameSpace) :=
  let hasBody := (frame.tree.child? "body").isSome
  match frame.tree.form with
  | .classSpecifier _ =>
      if hasBody then
        (frame.tree.namedChildren.flatMap basesOfPart).map (·, .qualifier)
      else if frame.declaresTag then []
      else (elaboratedNames frame.tree).map (·, .tag)
  | .enumSpecifier =>
      if hasBody || frame.declaresTag then [] else (elaboratedNames frame.tree).map (·, .tag)
  | .usingDeclaration => (namesOfUsing frame.tree).map (·, .ordinary)
  | .name => [(frame.tree, .ordinary)]
  | .silent | .function | .declaration _ | .enumerator | .namespaceDefinition | .template
  | .typeParameter | .alias | .macroDefinition | .directive | .conditional | .block | .lambda
  | .memberAccess | .transparent => []

/-- The names that a visit of a frame uses, each with the name space of its last segment. -/
def Frame.usedNames (frame : Frame) : List (ParseTree × NameSpace) :=
  match frame.mode with
  | .plain => frame.formUses
  | .member _ => if frame.tree.kind = "field_identifier" then [] else frame.formUses
  | .body | .declarator _ _ _ | .branch _ => []

/-! ## Uses that begin to wait -/

/-- In a change the uses of the nodes of a list begin to wait, in its order.  Accessed members may
begin to wait as well. -/
inductive Awaits (source : List Char) : List (ParseTree × NameSpace) → State → State → Prop where
  | quiet {before after : State} (grows : State.Grows before after)
      (uses : after.uses = before.uses) (members : after.members = before.members) :
      Awaits source [] before after
  /-- Only ordinary names are declared anew by their use. -/
  | use (state : State) (tree : ParseTree) (context : Context) (space : NameSpace)
      (effect : Effect)
      (regular : ∀ into position, effect = .usingDeclaration into position → space = .ordinary) :
      Awaits source [(tree, space)] state (state.noteUse source tree context space effect)
  | member (state : State) (tree : ParseTree) (context : Context) (object : Option ObjectRef) :
      Awaits source [] state
        { (state.addName source tree context false).1 with
          members := state.members.push ⟨state.names.size, object⟩ }
  | append {first last : List (ParseTree × NameSpace)} {before middle after : State}
      (begun : Awaits source first before middle) (ended : Awaits source last middle after) :
      Awaits source (first ++ last) before after

namespace Awaits

variable {source : List Char} {used : List (ParseTree × NameSpace)} {before middle after : State}

theorem refl (state : State) : Awaits source [] state state :=
  .quiet (.refl state) rfl rfl

theorem quiet_before (quiet : Awaits source [] before middle)
    (awaits : Awaits source used middle after) : Awaits source used before after :=
  quiet.append awaits

end Awaits

section Visits

variable (source : List Char) (state : State) (tree : ParseTree) (context : Context)

theorem awaits_openDeclaration (kind : String) :
    Awaits source [] state (state.openDeclaration kind context).1 :=
  .quiet (State.openDeclaration_grows state kind context) (by simp) (by simp)

theorem awaits_pushScope (kind : ScopeKind) (parent : Nat) :
    Awaits source [] state (state.pushScope kind parent).1 :=
  .quiet (.of_same rfl rfl rfl fun _ => rfl) rfl rfl

theorem awaits_openMembers (binding : Option Nat) (kind : ScopeKind) (parent : Nat) :
    Awaits source [] state (state.openMembers binding kind parent).1 :=
  .quiet (State.openMembers_grows state binding kind parent) (by simp) (by simp)

theorem awaits_noteSpecifier (scope : Nat) :
    Awaits source [] state (state.noteSpecifier tree scope) :=
  .quiet (.of_same rfl rfl rfl fun _ => rfl) rfl rfl

theorem awaits_declare (scope : Nat) (kind : SymbolKind) (typeRef : Option TypeRef) :
    Awaits source [] state (state.declare source tree context scope kind typeRef).1 := by
  have declares := State.declare_declares source state tree context scope kind typeRef
  exact .quiet declares.grows declares.uses declares.members

theorem awaits_declareQualified (kind : SymbolKind) (typeRef : Option TypeRef) :
    Awaits source [] state (state.declareQualified source tree context kind typeRef).1 := by
  obtain same | ⟨middle, last, notes, declares⟩ :=
    State.declareQualified_declares source state tree context kind typeRef
  · rw [same]
    exact .refl state
  · exact (Awaits.quiet notes.grows notes.uses notes.members).append
      (.quiet declares.grows declares.uses declares.members)

theorem awaits_visitEach {step : State → ParseTree → Visited}
    {used : ParseTree → List (ParseTree × NameSpace)}
    (each : ∀ state tree, Awaits source (used tree) state (step state tree).1)
    (trees : List ParseTree) (state : State) :
    Awaits source (trees.flatMap used) state (visitEach step trees state).1 := by
  induction trees generalizing state with
  | nil => exact .refl state
  | cons tree rest ih => exact (each state tree).append (ih _)

theorem awaits_visitEach_filter {step : State → ParseTree → Visited} {test : ParseTree → Bool}
    {space : NameSpace}
    (each : ∀ state tree, Awaits source (if test tree then [(tree, space)] else []) state
      (step state tree).1) (trees : List ParseTree) (state : State) :
    Awaits source ((trees.filter test).map (·, space)) state (visitEach step trees state).1 := by
  have all := awaits_visitEach source each trees state
  rw [← flatMap_ite_singleton, List.map_flatMap]
  convert all using 2
  funext tree
  split <;> rfl

theorem awaits_visitEach_nothing {step : State → ParseTree → Visited}
    (each : ∀ state tree, Awaits source [] state (step state tree).1) (trees : List ParseTree)
    (state : State) :
    Awaits source [] state (visitEach step trees state).1 := by
  have all := awaits_visitEach source each trees state
  rwa [List.flatMap_eq_nil_iff.2 fun _ _ => rfl] at all

theorem awaits_visitFunction :
    Awaits source [] state (visitFunction source state tree context).1 :=
  (awaits_openDeclaration source state context _).append (awaits_pushScope source _ _ _)

theorem awaits_visitElaborated :
    Awaits source ((elaboratedNames tree).map (·, .tag)) state
      (visitElaborated source state tree context).1 := by
  apply awaits_visitEach_filter
  intro state child
  split
  · exact .use state child context .tag .none nofun
  · exact .refl state

theorem awaits_visitTag (inner : Context) (declareIn : Nat) (kind : SymbolKind)
    (allowTemplate : Bool) :
    Awaits source [] state (visitTag source state tree inner declareIn kind allowTemplate).1.1 := by
  unfold visitTag
  split
  · exact .refl state
  · split
    · exact awaits_declareQualified source state _ inner kind none
    · split
      · simp only
        split
        · exact awaits_declare source state _ inner declareIn kind none
        · exact .refl state
      · exact awaits_declare source state _ inner declareIn kind none

theorem awaits_visitClassPart (inner : Context) (scope : Nat) (child : ParseTree) :
    Awaits source ((basesOfPart child).map (·, .qualifier)) state
      (visitClassPart source tree inner scope state child).1 := by
  unfold visitClassPart basesOfPart
  by_cases isName : child.field = "name"
  · simpa [isName] using Awaits.refl state
  · by_cases isBody : child.field = "body"
    · simpa [isBody] using Awaits.refl state
    · simp only [isName, isBody, decide_false, Bool.or_self, Bool.false_eq_true, if_false]
      split
      · apply awaits_visitEach_filter
        intro state base
        split
        · exact .use state base inner .qualifier _ nofun
        · exact .refl state
      · exact .refl state

theorem awaits_visitEnumerator :
    Awaits source [] state (visitEnumerator source state tree context).1 := by
  apply (awaits_openDeclaration source state context tree.kind).quiet_before
  apply awaits_visitEach_nothing
  intro current child
  split
  · exact .refl current
  · have declared := awaits_declare source current child
      (state.openDeclaration tree.kind context).2 context.declareIn .enumerator none
    have shared (declared : State) (scopes : Scopes) :
        Awaits source [] declared { declared with scopes := scopes } :=
      .quiet (.of_same rfl rfl rfl fun _ => rfl) rfl rfl
    simp only
    split
    · split
      · exact declared.append (shared _ _)
      · exact declared
    · exact declared

theorem awaits_visitNamespaceSegments (inner : Context) (segments : List ParseTree)
    (scope : Nat) :
    Awaits source [] state (visitNamespaceSegments source inner segments state scope).1 := by
  induction segments generalizing state scope with
  | nil => exact .refl state
  | cons segment rest ih =>
    have declared := awaits_declare source state segment inner scope .namespaceName none
    have entered := declared.append (awaits_openMembers source _
      (state.declare source segment inner scope .namespaceName none).2 .namespaceBody scope)
    exact entered.append (ih _ _)

theorem awaits_visitTypeParameter :
    Awaits source [] state (visitTypeParameter source state tree context).1 := by
  apply (awaits_openDeclaration source state context tree.kind).quiet_before
  apply awaits_visitEach_nothing
  intro current child
  split
  · exact awaits_declare source current child _ _ .templateParameter none
  · exact .refl current

theorem awaits_visitAlias : Awaits source [] state (visitAlias source state tree context).1 := by
  apply (awaits_openDeclaration source state context tree.kind).quiet_before
  apply awaits_visitEach_nothing
  intro current child
  split
  · exact awaits_declare source current child _ _ .typeAlias _
  · exact .refl current

theorem awaits_visitUsing :
    Awaits source ((namesOfUsing tree).map (·, .ordinary)) state
      (visitUsing source state tree context).1 := by
  apply (awaits_openDeclaration source state context tree.kind).quiet_before
  apply awaits_visitEach_filter
  intro current child
  split
  · exact .use current child _ .ordinary _ fun _ _ _ => rfl
  · exact .refl current

theorem awaits_visitMacroDefinition :
    Awaits source [] state (visitMacroDefinition source state tree context) := by
  apply (awaits_openDeclaration source state context tree.kind).quiet_before
  unfold visitMacroDefinition
  simp only
  generalize (state.openDeclaration tree.kind context).2 = inner
  generalize (state.openDeclaration tree.kind context).1 = begun
  split
  · exact .refl begun
  · rename_i nameTree found
    split
    · have defines := State.addName_defines source begun nameTree inner
      exact .quiet defines.grows defines.uses defines.members
    · have defines (values : Condition.Macros) :=
        defineMacro_defines source begun nameTree inner tree.stop values rfl
      split <;> exact .quiet (defines _).grows (defines _).uses (defines _).members

theorem awaits_visitDirective :
    Awaits source [] state (visitDirective source state tree context) := by
  unfold visitDirective
  simp only
  split
  · exact .refl state
  · split
    · exact .refl state
    · split <;> exact .quiet (.of_same rfl rfl rfl fun _ => rfl) rfl rfl

theorem awaits_declareEach (scope : Nat) (kind : SymbolKind) (trees : List ParseTree) :
    Awaits source [] state (trees.foldl
      (fun state child => (state.declare source child context scope kind none).1) state) := by
  induction trees generalizing state with
  | nil => exact .refl state
  | cons tree rest ih =>
    exact (awaits_declare source state tree context scope kind none).append (ih _)

theorem awaits_visitClass (kind : SymbolKind) (declaresTag : Bool) :
    Awaits source
      (if (tree.child? "body").isSome then
        (tree.namedChildren.flatMap basesOfPart).map (·, .qualifier)
      else if declaresTag then []
      else (elaboratedNames tree).map (·, .tag)) state
      (visitClass source state tree context kind declaresTag).1 := by
  have tagged := (awaits_openDeclaration source state context tree.kind).append
    (awaits_visitTag source (state.openDeclaration tree.kind context).1 tree
      (state.openDeclaration tree.kind context).2 context.declareIn kind true)
  unfold visitClass
  by_cases hasBody : (tree.child? "body").isSome = true
  · simp only [hasBody, Bool.not_true, Bool.false_and, Bool.false_eq_true, if_false, if_true]
    rw [List.map_flatMap]
    have entered (binding : Option Nat) := tagged.append
      (awaits_openMembers source _ binding .classBody context.scope)
    have parts (inner : Context) (scope : Nat) := awaits_visitEach source
      (fun current child => awaits_visitClassPart source current tree inner scope child)
      tree.namedChildren
    exact ((entered _).append (awaits_noteSpecifier source _ _ _)).append (parts _ _ _)
  · simp only [hasBody, Bool.not_false, Bool.true_and, Bool.false_eq_true, if_false, if_true]
    cases declaresTag with
    | false => simpa using awaits_visitElaborated source state tree context
    | true => simpa using tagged

theorem awaits_visitEnum (declaresTag : Bool) :
    Awaits source
      (if (tree.child? "body").isSome || declaresTag then []
      else (elaboratedNames tree).map (·, .tag)) state
      (visitEnum source state tree context declaresTag).1 := by
  have tagged := (awaits_openDeclaration source state context tree.kind).append
    (awaits_visitTag source (state.openDeclaration tree.kind context).1 tree
      (state.openDeclaration tree.kind context).2 context.declareIn .enumName false)
  unfold visitEnum
  by_cases hasBody : (tree.child? "body").isSome = true
  · simp only [hasBody, Bool.not_true, Bool.false_and, Bool.true_or, Bool.false_eq_true, if_false,
      if_true]
    have entered (binding : Option Nat) := tagged.append
      (awaits_openMembers source _ binding .namespaceBody context.scope)
    exact (entered _).append (awaits_noteSpecifier source _ _ _)
  · simp only [hasBody, Bool.not_false, Bool.true_and, Bool.false_or, Bool.false_eq_true, if_false]
    cases declaresTag with
    | false => simpa using awaits_visitElaborated source state tree context
    | true => simpa using tagged

theorem awaits_visitFunctionDeclarator (kind : SymbolKind) (typeRef : Option TypeRef)
    (parameters : Option Nat) :
    Awaits source [] state
      (visitFunctionDeclarator state tree context kind typeRef parameters).1 := by
  cases parameters with
  | some scope => exact .refl state
  | none => exact awaits_pushScope source state _ _

theorem awaits_visitDeclarator (frame : Frame) (kind : SymbolKind) (typeRef : Option TypeRef)
    (parameters : Option Nat) :
    Awaits source [] state (visitDeclarator source state frame kind typeRef parameters).1 := by
  unfold visitDeclarator
  simp only
  split
  · exact awaits_declare source state frame.tree frame.context _ kind typeRef
  · split
    · exact awaits_declareQualified source state frame.tree frame.context kind typeRef
    · split
      · exact awaits_visitFunctionDeclarator source state frame.tree frame.context kind typeRef
          parameters
      · split
        · exact .refl state
        · split
          · split
            · exact awaits_declare source state _ frame.context _ kind typeRef
            · exact .refl state
          · split
            · exact awaits_declareEach source state frame.context _ .variable _
            · split <;> exact .refl state

theorem awaits_visitBlock : Awaits source [] state (visitBlock state tree context).1 := by
  unfold visitBlock
  simp only
  split <;> exact awaits_pushScope source state _ _

theorem awaits_visitPlain (frame : Frame) :
    Awaits source frame.formUses state
      (visitPlain source state frame.tree frame.declaresTag frame.context).1 := by
  unfold Frame.formUses visitPlain
  cases form : frame.tree.form with
  | silent => exact .refl state
  | function => exact awaits_visitFunction source state frame.tree frame.context
  | declaration kind => exact awaits_openDeclaration source state frame.context frame.tree.kind
  | classSpecifier kind =>
    exact awaits_visitClass source state frame.tree frame.context kind frame.declaresTag
  | enumSpecifier => exact awaits_visitEnum source state frame.tree frame.context frame.declaresTag
  | enumerator => exact awaits_visitEnumerator source state frame.tree frame.context
  | namespaceDefinition =>
    exact (awaits_openDeclaration source state frame.context frame.tree.kind).append
      (awaits_visitNamespaceSegments source _ _ _ _)
  | template =>
    exact (awaits_openDeclaration source state frame.context frame.tree.kind).append
      (awaits_pushScope source _ _ _)
  | typeParameter => exact awaits_visitTypeParameter source state frame.tree frame.context
  | «alias» => exact awaits_visitAlias source state frame.tree frame.context
  | usingDeclaration => exact awaits_visitUsing source state frame.tree frame.context
  | macroDefinition => exact awaits_visitMacroDefinition source state frame.tree frame.context
  | directive => exact awaits_visitDirective source state frame.tree frame.context
  | conditional => exact .refl state
  | block => exact awaits_visitBlock source state frame.tree frame.context
  | lambda => exact awaits_pushScope source state _ _
  | memberAccess => exact .refl state
  | name => exact .use state frame.tree frame.context .ordinary .none nofun
  | transparent => exact .refl state

/-- In a visit of a frame the uses of the names that it uses begin to wait. -/
theorem visit_awaits (frame : Frame) :
    Awaits source frame.usedNames state (visit source state frame).1 := by
  unfold Frame.usedNames visit
  cases manner : frame.mode with
  | plain => exact awaits_visitPlain source state frame
  | body => exact .refl state
  | declarator kind typeRef parameters => exact awaits_visitDeclarator source state frame _ _ _
  | member object =>
    simp only
    split
    · exact .member state frame.tree frame.context object
    · exact awaits_visitPlain source state frame
  | branch taken => exact .refl state

end Visits

end CrossReference.Walk
