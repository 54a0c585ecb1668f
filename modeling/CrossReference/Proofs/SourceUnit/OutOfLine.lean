import CrossReference.Proofs.SourceUnit.FunctionParameters
import CrossReference.Proofs.Walk.OwnerScope

/-!
# Bodies out of line

The body of a function that is defined outside of its class or namespace is walked in a scope inside
of that of the owner, and the owner is the scope that holds the member.  The body of a class that is
defined out of line is walked in a scope where the definition stands, and sees the members of its
owner only from there.
-/

set_option autoImplicit false

namespace CrossReference.Walk

open ParseTree State

/-! ## Definitions of functions -/

/-- After the visit of a definition a walk comes to a node as the name that is declared by the
definition. -/
structure NameReached (source : List Char) (state : State) (frame : Frame) (name : ParseTree)
    (kind : SymbolKind) (later : State) (next : Frame) : Prop where
  reached : ∃ done rest, Reaches source (visit source state frame).1 (visit source state frame).2
    done later (next :: rest)
  isName : next.tree = name
  manner : ∃ parameters, next.mode = .declarator kind none parameters
  scope : next.context.scope = frame.context.scope

section Function

variable {source : List Char} {language : Language} {tree : ParseTree}
  {visited waiting : List Frame} {state : State} {frame : Frame}

/-- A qualified name that is visited as a declarator is declared. -/
theorem NameReached.visit_eq {name : ParseTree} {kind : SymbolKind} {later : State} {next : Frame}
    (named : NameReached source state frame name kind later next)
    (qualified : isQualified name.kind = true) :
    (visit source later next).1 =
      (later.declareQualified source name next.context kind none).1 := by
  obtain ⟨parameters, mode⟩ := named.manner
  obtain rfl := named.isName
  have noPlainName : isPlainName next.tree.kind = false := by
    by_contra isName
    rw [isQualified_of_isPlainName (by simpa using isName)] at qualified
    cases qualified
  simp only [visit, mode, visitDeclarator, noPlainName, qualified, Bool.false_eq_true, if_false,
    if_true, visitQualified]

theorem exists_nameReached (manner : frame.mode = .plain ∨ ∃ object, frame.mode = .member object)
    (form : frame.tree.form = .function) {declarator name : ParseTree} {depth : Nat}
    (isPart : declarator ∈ frame.tree.namedChildren) (isDeclarator : declarator.field = "declarator")
    (inner : InnerAt declarator depth name) :
    ∃ kind later next, NameReached source state frame name kind later next := by
  obtain ⟨before, after, parts⟩ := List.append_of_mem isPart
  obtain ⟨first, rest, done, later, next, _, kind, left, -, reached, isName, scope, mode⟩ :=
    exists_innerAt_of_function manner form parts isDeclarator inner
  have whole : Reaches source (visit source state frame).1 (first ++ rest) [] _ _ := .start
  refine ⟨kind, later, next, ⟨⟨_, _, left ▸ whole.stretch reached⟩, isName, ⟨_, mode⟩, scope⟩⟩

variable (moment : Reaches source (State.initial (language = .cpp)) [Frame.root tree] visited state
    (frame :: waiting))

include moment

/-- A declarator has the owner before and after the declaration around it is begun. -/
theorem ownerScope?_of_opened {context : Context} (same : context.scope = frame.context.scope)
    (declarator : ParseTree) :
    ownerScope? source (state.openDeclaration frame.tree.kind frame.context).1 declarator context =
      ownerScope? source state declarator frame.context := by
  have opened : ComesTo source language tree _ := .during moment (edits_openDeclaration state)
  have begun : Still state (state.openDeclaration frame.tree.kind frame.context).1 :=
    .of_same (by simp) (by simp [memberScope?])
  have made := (moment.under.2 frame List.mem_cons_self).context.scope
  exact ownerScope?_eq_of_still begun moment.named.apart opened.apart moment.membersApart same made
    declarator

theorem owner?_eq {declarator : ParseTree}
    (isDeclarator : frame.tree.child? "declarator" = some declarator) :
    frame.owner? source state = ownerScope? source state declarator frame.context := by
  rw [Frame.owner?, isDeclarator, Option.bind_some]
  exact ownerScope?_of_opened moment rfl declarator

/-- If nothing is declared before its name, a definition has found the owner that the declaration of
the name finds. -/
theorem NameReached.owner_eq {declarator name : ParseTree} {kind : SymbolKind} {later : State}
    {next : Frame} (named : NameReached source state frame name kind later next)
    (isDeclarator : frame.tree.child? "declarator" = some declarator)
    (uses : AddsUses state later) :
    frame.owner? source state = ownerScope? source later declarator next.context := by
  obtain ⟨done, rest, reached⟩ := named.reached
  have whole := moment.visit.stretch reached
  have made := (moment.under.2 frame List.mem_cons_self).context.scope
  have still := ((visit_idles source state frame).trans reached.idles).still uses
  rw [owner?_eq moment isDeclarator]
  exact (ownerScope?_eq_of_still still moment.named.apart whole.named.apart moment.membersApart
    named.scope made declarator).symm

/-- The body of a function is walked in a scope that lies in that of the owner, if there is one. -/
theorem exists_body_of_function
    (manner : frame.mode = .plain ∨ ∃ object, frame.mode = .member object)
    (form : frame.tree.form = .function) {body : ParseTree}
    (isPart : body ∈ frame.tree.namedChildren) (isBody : body.field = "body") :
    ∃ entrance ∈ (visit source state frame).2,
      entrance.tree = body ∧ entrance.mode = .body ∧ entrance.context.scope = state.scopes.next ∧
      ∃ here, (SourceUnit.walked source language tree).scopes.all[state.scopes.next]? = some here ∧
        here.parent = some ((frame.owner? source state).getD frame.context.scope) := by
  have pushed : (visit source state frame).1.scopes.all[state.scopes.next]? =
      some (Scope.fresh .function (some ((frame.owner? source state).getD frame.context.scope))) := by
    rw [scopes_of_function manner form]
    exact Array.getElem?_push_size
  obtain ⟨here, isHere, grown⟩ := moment.visit.scopes_extend.scopes _ _ pushed
  exact ⟨_, body_mem_visit_of_function manner form isPart isBody, rfl, rfl, rfl, here, isHere,
    grown.parent⟩

end Function

/-- In every state that a walk comes to, a qualified declarator has an owner exactly where the
declaration of its name binds the name, and then it is bound to a member of that owner.  So the body
of a function, unless something is declared before the name of the function, is walked in a scope
that lies in the one that holds the member to which the name is bound. -/
theorem declarators_have_one_owner (source : List Char) (language : Language) (tree : ParseTree) :
    let walked := SourceUnit.walked source language tree
    (∀ state, ComesTo source language tree state →
      ∀ context declarator name last kind typeRef,
        declarator.declaratorName? = some name → isQualified name.kind = true →
        (QualifiedName.ofTree name).segments.getLast? = some last → last.text source ≠ "" →
          let owner? := ownerScope? source state declarator context
          let declared := state.declareQualified source name context kind typeRef
          owner?.isSome = declared.2.isSome ∧
            ∀ owner, owner? = some owner → BindsMember source declared last kind owner) ∧
    ∀ visited waiting state frame,
      Reaches source (State.initial (language = .cpp)) [Frame.root tree] visited state
        (frame :: waiting) →
      (frame.mode = .plain ∨ ∃ object, frame.mode = .member object) →
      frame.tree.form = .function →
      ∀ declarator name last, declarator ∈ frame.tree.namedChildren →
        frame.tree.child? "declarator" = some declarator →
        declarator.declaratorName? = some name → isQualified name.kind = true →
        (QualifiedName.ofTree name).segments.getLast? = some last → last.text source ≠ "" →
          (∀ depth, InnerAt declarator depth name →
            ∃ kind later next, NameReached source state frame name kind later next) ∧
          ∀ kind later next, NameReached source state frame name kind later next →
            AddsUses state later →
              let declared := later.declareQualified source name next.context kind none
              (visit source later next).1 = declared.1 ∧
              ∀ body ∈ frame.tree.namedChildren, body.field = "body" →
                ∃ entrance ∈ (visit source state frame).2,
                  entrance.tree = body ∧ entrance.mode = .body ∧
                  ∃ here parent, walked.scopes.all[entrance.context.scope]? = some here ∧
                    here.parent = some parent ∧
                    (declared.2.isSome = true → BindsMember source declared last kind parent) := by
  intro walked
  refine ⟨?_, ?_⟩
  · intro state comes context declarator name last kind typeRef named qualified isLast spelled
    exact ownerScope?_binds context kind typeRef comes.apart comes.membersApart named qualified
      isLast spelled
  · intro visited waiting state frame moment manner form declarator name last isPart isDeclarator
      named qualified isLast spelled
    refine ⟨fun depth inner => ?_, fun kind later next reached uses => ?_⟩
    · have field : declarator.field = "declarator" := by simpa using List.find?_some isDeclarator
      exact exists_nameReached manner form isPart field inner
    · obtain ⟨done, rest, between⟩ := reached.reached
      have whole := moment.visit.stretch between
      have same := reached.owner_eq moment isDeclarator uses
      obtain ⟨agree, binds⟩ := ownerScope?_binds next.context kind none whole.named.apart
        whole.membersApart named qualified isLast spelled
      refine ⟨reached.visit_eq qualified, fun body isThere isBody => ?_⟩
      obtain ⟨entrance, left, isEntrance, mode, scope, here, isHere, isParent⟩ :=
        exists_body_of_function moment manner form isThere isBody
      refine ⟨entrance, left, isEntrance, mode, here, _, scope ▸ isHere, isParent, fun bound => ?_⟩
      obtain ⟨owner, owned⟩ := Option.isSome_iff_exists.1 (agree.trans bound)
      rw [same, owned]
      exact binds owner owned

/-! ### A function of a class that is defined behind it -/

/-- A class with a type, a class and a function for members, of which the class and the function are
defined behind it.  Both definitions use the type. -/
def memberText : List Char :=
  "struct A{typedef int T;struct B;int f();};int A::f(){T t;}struct A::B{T v;};".toList

def outerClass : ParseTree :=
  ruleNode 1 "struct_specifier" "" 0 41
    [ruleNode 2 "type_identifier" "name" 7 8 [],
      ruleNode 3 "field_declaration_list" "body" 8 41
        [ruleNode 4 "type_definition" "" 9 23
            [ruleNode 5 "primitive_type" "type" 17 20 [],
              ruleNode 6 "type_identifier" "declarator" 21 22 []],
          ruleNode 7 "field_declaration" "" 23 32
            [ruleNode 8 "struct_specifier" "type" 23 31
              [ruleNode 9 "type_identifier" "name" 30 31 []]],
          ruleNode 10 "field_declaration" "" 32 40
            [ruleNode 11 "primitive_type" "type" 32 35 [],
              ruleNode 12 "function_declarator" "declarator" 36 39
                [ruleNode 13 "field_identifier" "declarator" 36 37 [],
                  ruleNode 14 "parameter_list" "parameters" 37 39 []]]]]

def functionType : ParseTree := ruleNode 16 "primitive_type" "type" 42 45 []

def functionMember : ParseTree := ruleNode 20 "identifier" "name" 49 50 []

def functionName : ParseTree :=
  ruleNode 18 "qualified_identifier" "declarator" 46 50
    [ruleNode 19 "namespace_identifier" "scope" 46 47 [], functionMember]

def functionDeclarator : ParseTree :=
  ruleNode 17 "function_declarator" "declarator" 46 52
    [functionName, ruleNode 21 "parameter_list" "parameters" 50 52 []]

def functionUse : ParseTree := ruleNode 24 "type_identifier" "type" 53 54 []

def functionLocal : ParseTree :=
  ruleNode 23 "declaration" "" 53 57
    [functionUse, ruleNode 25 "identifier" "declarator" 55 56 []]

def functionBody : ParseTree := ruleNode 22 "compound_statement" "body" 52 58 [functionLocal]

def memberFunction : ParseTree :=
  ruleNode 15 "function_definition" "" 42 58 [functionType, functionDeclarator, functionBody]

def classMember : ParseTree := ruleNode 29 "type_identifier" "name" 68 69 []

def className : ParseTree :=
  ruleNode 27 "qualified_identifier" "name" 65 69
    [ruleNode 28 "namespace_identifier" "scope" 65 66 [], classMember]

def classUse : ParseTree := ruleNode 32 "type_identifier" "type" 70 71 []

def classField : ParseTree :=
  ruleNode 31 "field_declaration" "" 70 74
    [classUse, ruleNode 33 "field_identifier" "declarator" 72 73 []]

def classBody : ParseTree := ruleNode 30 "field_declaration_list" "body" 69 75 [classField]

def memberClass : ParseTree := ruleNode 26 "struct_specifier" "" 58 75 [className, classBody]

def memberTree : ParseTree :=
  ruleNode 0 "translation_unit" "" 0 76 [outerClass, memberFunction, memberClass]

def memberPart (part : ParseTree) : Frame := ⟨part, true, .file, .plain⟩

theorem visit_memberTree (state : State) :
    visit memberText state (Frame.root memberTree) =
      (state, [memberPart outerClass] ++ [memberPart memberFunction, memberPart memberClass]) := by
  have form : memberTree.form = .transparent := by decide
  simp only [visit, Frame.root, visitPlain, form]
  rfl

def afterOuterClass : State :=
  run memberText (State.initial (Language.cpp = .cpp)) [memberPart outerClass]

theorem exists_moment_of_memberFunction :
    ∃ visited, Reaches memberText (State.initial (Language.cpp = .cpp)) [Frame.root memberTree]
      visited afterOuterClass [memberPart memberFunction, memberPart memberClass] := by
  have begun : Reaches memberText (State.initial (Language.cpp = .cpp)) [Frame.root memberTree] []
    _ _ := .start
  have visited : Reaches memberText (State.initial (Language.cpp = .cpp)) [Frame.root memberTree] _ _
    ([memberPart outerClass] ++ [memberPart memberFunction, memberPart memberClass]) :=
      begun.visit_eq (visit_memberTree _)
  exact visited.exists_past

theorem declaratorName?_functionDeclarator :
    functionDeclarator.declaratorName? = some functionName := by
  have inner : functionDeclarator.innerDeclarator? = some functionName := rfl
  rw [declaratorName?, if_neg (by decide)]
  split
  · rename_i found isFound
    obtain rfl := Option.some.inj (inner.symm.trans isFound)
    rw [declaratorName?, if_pos (by decide)]
  · rename_i missing
    rw [inner] at missing
    cases missing

def functionBegun : State := (visit memberText afterOuterClass (memberPart memberFunction)).1

def functionContext : Context := (afterOuterClass.openDeclaration memberFunction.kind .file).2

/-- Where the definition of the function begins, the first scope that is free is its own, and the
class is the owner of its name. -/
theorem afterOuterClass_facts :
    ownerScope? memberText afterOuterClass functionDeclarator .file = some 1 ∧
      afterOuterClass.scopes.next = 3 ∧ functionMember.text memberText ≠ "" ∧
      (functionBegun.declareQualified memberText functionName functionContext .function
        none).2.isSome = true := by
  decide +kernel

def memberFunctionPart (part : ParseTree) : Frame :=
  functionPart memberFunction functionContext afterOuterClass.scopes.next part

def functionNameFrame : Frame :=
  Frame.child functionDeclarator functionContext (.declarator .function none none) functionName

theorem visit_memberFunction :
    (visit memberText afterOuterClass (memberPart memberFunction)).2 =
      [memberFunctionPart functionType, memberFunctionPart functionDeclarator] ++
        [memberFunctionPart functionBody] := by
  rw [visit_of_function memberText _ (.inl rfl) (by decide)]
  rfl

theorem visit_functionType (state : State) :
    visit memberText state (memberFunctionPart functionType) = (state, []) := by
  have form : functionType.form = .silent := by decide
  have part : memberFunctionPart functionType =
    Frame.child memberFunction functionContext .plain functionType := rfl
  simp only [visit, part, Frame.child, visitPlain, form]

theorem visit_functionDeclarator (state : State) :
    visit memberText state (memberFunctionPart functionDeclarator) =
      (state, functionNameFrame :: [Frame.child functionDeclarator
        (functionContext.within afterOuterClass.scopes.next) .plain
        (ruleNode 21 "parameter_list" "parameters" 50 52 [])]) := by
  have isFunction : functionDeclarator.kind ∈ functionDeclaratorKinds := by decide
  have part : memberFunctionPart functionDeclarator =
    Frame.child memberFunction functionContext
      (.declarator .function none (some afterOuterClass.scopes.next)) functionDeclarator := rfl
  rw [part]
  simp only [visit, Frame.child]
  rw [visitDeclarator_of_function isFunction]
  rfl

theorem nameReached_functionName :
    NameReached memberText afterOuterClass (memberPart memberFunction) functionName .function
      functionBegun functionNameFrame := by
  have begun : Reaches memberText functionBegun
      (visit memberText afterOuterClass (memberPart memberFunction)).2 [] _ _ := .start
  rw [visit_memberFunction] at begun
  have typed := begun.visit_eq (visit_functionType _)
  have reached := typed.visit_eq (visit_functionDeclarator _)
  exact ⟨⟨_, _, visit_memberFunction ▸ reached⟩, rfl, ⟨none, rfl⟩, rfl⟩

/-- The class is the owner of the function where its definition begins, holds the member to which the
name is bound, and has the scope of the body inside of its own. -/
theorem function_out_of_line_has_owner :
    let walked := SourceUnit.walked memberText .cpp memberTree
    ∃ (entrance : Frame) (here : Scope) (owner parent : Nat),
      ownerScope? memberText afterOuterClass functionDeclarator .file = some owner ∧
      BindsMember memberText
        (afterOuterClass.declareQualified memberText functionName .file .function none)
        functionMember .function owner ∧
      entrance ∈ (visit memberText afterOuterClass (memberPart memberFunction)).2 ∧
      entrance.tree = functionBody ∧
      walked.scopes.all[entrance.context.scope]? = some here ∧ here.parent = some parent ∧
      BindsMember memberText
        (functionBegun.declareQualified memberText functionName functionContext .function none)
        functionMember .function parent := by
  intro walked
  obtain ⟨agree, bodies⟩ := declarators_have_one_owner memberText .cpp memberTree
  obtain ⟨visited, moment⟩ := exists_moment_of_memberFunction
  have qualified : isQualified functionName.kind = true := by decide
  have isLast : (QualifiedName.ofTree functionName).segments.getLast? = some functionMember := by
    rw [ofTree_of_plain qualified rfl rfl (by decide) (by decide) (by decide) (by decide)]
    rfl
  obtain ⟨owned, -, spelled, bound⟩ := afterOuterClass_facts
  obtain ⟨-, binds⟩ := agree afterOuterClass (.between moment) .file functionDeclarator functionName
    functionMember .function none declaratorName?_functionDeclarator qualified isLast spelled
  obtain ⟨-, declared⟩ := bodies _ _ _ _ moment (.inl rfl) (by decide) functionDeclarator functionName
    functionMember (List.mem_cons_of_mem _ List.mem_cons_self) rfl declaratorName?_functionDeclarator
    qualified isLast spelled
  have uses : AddsUses afterOuterClass functionBegun := by
    refine plain_of_names_eq ?_
    rw [functionBegun, visit_of_function memberText _ (.inl rfl) (by decide)]
    simp [pushScope]
  obtain ⟨-, held⟩ := declared .function functionBegun functionNameFrame nameReached_functionName uses
  obtain ⟨entrance, left, isEntrance, -, here, parent, isHere, isParent, member⟩ :=
    held functionBody (List.mem_cons_of_mem _ (List.mem_cons_of_mem _ List.mem_cons_self)) rfl
  exact ⟨entrance, here, 1, parent, owned, binds 1 owned, left, isEntrance, isHere, isParent,
    member bound⟩

/-! ## Definitions of classes -/

theorem exists_declareQualified_unopened {source : List Char} {state : State} {context : Context}
    {name last : ParseTree} (kind : SymbolKind) (typeRef : Option TypeRef) {owner : Nat}
    (apart : state.scopes.Apart state.head?)
    (isLast : (QualifiedName.ofTree name).segments.getLast? = some last)
    (spelled : last.text source ≠ "")
    (owned : (state.prefixed source name context).owner? = some owner)
    (unopened : ∀ binding, state.scopes.local? kind.space (last.text source) owner = some binding →
      state.memberScope? binding = none) :
    ∃ binding, (state.declareQualified source name context kind typeRef).2 = some binding ∧
      (state.declareQualified source name context kind typeRef).1.memberScope? binding = none := by
  have notes := prefixed_notesNames source state name context
  rw [declareQualified_of_owner apart isLast owned]
  generalize (state.prefixed source name context).state = noted at notes
  obtain ⟨result, -⟩ := settle_settles source noted last context owner kind typeRef
    (noted.scopes.local? kind.space (last.text source) owner) spelled (.inl rfl)
  have members := (declare_declares source noted last context owner kind typeRef).memberScopes
  rw [← declare_eq_settle] at result
  refine ⟨_, result, (members _).trans ((notes.memberScopes _).trans ?_)⟩
  rw [notes.scopes, notes.symbols]
  cases found : state.scopes.local? kind.space (last.text source) owner with
  | some binding => exact unopened binding found
  | none => simp [memberScope?]

section Class

variable {source : List Char} {language : Language} {tree : ParseTree}
  {visited waiting : List Frame} {state : State} {frame : Frame} {kind : SymbolKind}
  {body name last : ParseTree} {owner : Nat}

/-- A class with a qualified name is declared among the members of an owner, but its own members get
a scope where it stands. -/
theorem visit_of_class (source : List Char) (state : State)
    (manner : frame.mode = .plain ∨ ∃ object, frame.mode = .member object)
    (form : frame.tree.form = .classSpecifier kind)
    (hasBody : (frame.tree.child? "body").isSome = true)
    (isName : frame.tree.child? "name" = some name) (qualified : isQualified name.kind = true) :
    visit source state frame =
      (let (opened, inner) := state.openDeclaration frame.tree.kind frame.context
       let (declared, binding) := opened.declareQualified source name inner kind none
       let (entered, scope) := declared.openMembers binding .classBody frame.context.scope
       let (final, later) := visitEach (visitClassPart source frame.tree inner scope)
         frame.tree.namedChildren (entered.noteSpecifier frame.tree scope)
       (final, (QualifiedName.ofTree name).extras.map (Frame.apart inner) ++ later)) := by
  rw [visit_of_form frame manner (by rw [form]; exact nofun)]
  simp only [visitPlain, form, visitClass, visitTag, visitQualified, hasBody, isName, qualified,
    Bool.not_true, Bool.false_and, Bool.false_eq_true, if_false, if_true]

variable (moment : Reaches source (State.initial (language = .cpp)) [Frame.root tree] visited state
    (frame :: waiting))

include moment

/-- The declaration of a qualified name, once that of its class is begun, has the owner that the name
had before. -/
theorem owner?_of_opened (qualified : isQualified name.kind = true)
    (isLast : (QualifiedName.ofTree name).segments.getLast? = some last)
    (owned : ownerScope? source state name frame.context = some owner) :
    ((state.openDeclaration frame.tree.kind frame.context).1.prefixed source name
      (state.openDeclaration frame.tree.kind frame.context).2).owner? = some owner := by
  have opened : ComesTo source language tree _ := .during moment (edits_openDeclaration state)
  have named : name.declaratorName? = some name := by
    rw [declaratorName?, qualified, Bool.or_true, Bool.true_or, if_pos rfl]
  have segmented : (QualifiedName.ofTree name).segments ≠ [] := by
    intro none
    simp [none] at isLast
  have same : (state.openDeclaration frame.tree.kind frame.context).2.scope = frame.context.scope :=
    rfl
  rw [← ownerScope?_eq_owner? opened.apart named qualified segmented, ← owned]
  exact ownerScope?_of_opened moment same name

/-- The body of a class that is defined out of line is walked in a scope that lies in that of the
definition. -/
theorem exists_body_of_class
    (manner : frame.mode = .plain ∨ ∃ object, frame.mode = .member object)
    (form : frame.tree.form = .classSpecifier kind)
    (isPart : body ∈ frame.tree.namedChildren) (isBody : body.field = "body")
    (isName : frame.tree.child? "name" = some name) (qualified : isQualified name.kind = true)
    (isLast : (QualifiedName.ofTree name).segments.getLast? = some last)
    (spelled : last.text source ≠ "")
    (owned : ownerScope? source state name frame.context = some owner)
    (unopened : ∀ binding, state.scopes.local? kind.space (last.text source) owner = some binding →
      state.memberScope? binding = none) :
    ∃ entrance ∈ (visit source state frame).2,
      entrance.tree = body ∧ entrance.mode = .plain ∧ entrance.context.scope = state.scopes.next ∧
      ∃ here, (SourceUnit.walked source language tree).scopes.all[state.scopes.next]? = some here ∧
        here.parent = some frame.context.scope := by
  have hasBody : (frame.tree.child? "body").isSome = true :=
    List.find?_isSome.2 ⟨body, mem_of_mem_namedChildren isPart, by simpa using isBody⟩
  have toEnd := moment.visit.scopes_extend
  have opened : ComesTo source language tree _ := .during moment (edits_openDeclaration state)
  have ownedToo := owner?_of_opened moment qualified isLast owned
  obtain ⟨binding, bound, noMembers⟩ := exists_declareQualified_unopened kind none opened.apart
    isLast spelled ownedToo (by simpa [memberScope?] using unopened)
  have next : (declareQualified source (state.openDeclaration frame.tree.kind frame.context).1 name
      (state.openDeclaration frame.tree.kind frame.context).2 kind none).1.scopes.next =
        state.scopes.next := by
    obtain same | ⟨middle, last, notes, declares⟩ := declareQualified_declares source
      (state.openDeclaration frame.tree.kind frame.context).1 name
      (state.openDeclaration frame.tree.kind frame.context).2 kind none
    · rw [same, openDeclaration_scopes]
    · rw [declares.next_eq, notes.scopes, openDeclaration_scopes]
  rw [visit_of_class source state manner form hasBody isName qualified] at toEnd ⊢
  simp only at toEnd ⊢
  generalize declareQualified source (state.openDeclaration frame.tree.kind frame.context).1 name
    (state.openDeclaration frame.tree.kind frame.context).2 kind none = declared at *
  generalize (state.openDeclaration frame.tree.kind frame.context).2 = inner at *
  obtain ⟨scope, isMembers, -⟩ | ⟨pushed, isNext, -⟩ :=
    openMembers_cases declared.1 declared.2 .classBody frame.context.scope
  · rw [bound, Option.bind_some, noMembers] at isMembers
    cases isMembers
  generalize declared.1.openMembers declared.2 .classBody frame.context.scope = members at *
  obtain ⟨entered, scope⟩ := members
  rw [next] at isNext
  simp only at pushed isNext
  subst isNext
  refine ⟨Frame.child frame.tree (inner.within state.scopes.next) .plain body, ?_, rfl, rfl, rfl, ?_⟩
  · refine List.mem_append_right _ (mem_visitEach isPart (fun current => ?_) _)
    have noName : body.field ≠ "name" := by simp [isBody]
    simp only [visitClassPart, if_neg noName, if_pos isBody]
    exact List.mem_cons_self
  · have isThere : entered.scopes.all[state.scopes.next]? =
        some (Scope.fresh .classBody (some frame.context.scope)) := by
      rw [pushed, ← next]
      exact Array.getElem?_push_size
    have parts (begun : State) : Edits source frame begun
        (visitEach (visitClassPart source frame.tree inner state.scopes.next)
          frame.tree.namedChildren begun).1 :=
      edits_visitEach (fun current child => edits_visitClassPart frame.tree inner _ current child) _
    obtain ⟨here, isHere, grown⟩ := ((parts _).scopes_extend.trans toEnd).scopes _ _ isThere
    exact ⟨here, isHere, grown.parent⟩

end Class

/-! ## What bodies see -/

/-- A use in the body of a function that is defined out of line is looked up inside of the scope of
the owner, and is bound to what the owner has for its first segment unless a macro or a scope in
between hides that.  A use in the body of a class that is defined out of line is looked up inside of
the scope of the owner only if the definition itself stands there. -/
theorem bodies_out_of_line {source : List Char} {language : Language} {tree : ParseTree}
    {visited waiting : List Frame} {state : State} {frame : Frame}
    (moment : Reaches source (State.initial (language = .cpp)) [Frame.root tree] visited state
      (frame :: waiting))
    (manner : frame.mode = .plain ∨ ∃ object, frame.mode = .member object) {body : ParseTree}
    (isPart : body ∈ frame.tree.namedChildren) (isBody : body.field = "body") :
    let walked := SourceUnit.walked source language tree
    let scope := state.scopes.next
    (∀ owner, frame.tree.form = .function → frame.owner? source state = some owner →
      ∃ entrance ∈ (visit source state frame).2,
        entrance.tree = body ∧ entrance.mode = .body ∧ entrance.context.scope = scope ∧
        ∀ use, UsedInside source language tree scope [entrance] use →
          walked.scopes.Encloses owner use.scope ∧
          ∀ first entry, use.names.head? = some first → use.isGlobal = false →
            walked.scopes.entry? use.firstSpace (walked.spelling first) owner = some entry →
            OpenWay walked use (walked.spelling first) owner →
              walked.resolve.binding? first = some entry.binding) ∧
    ∀ kind name last owner, frame.tree.form = .classSpecifier kind →
      frame.tree.child? "name" = some name → isQualified name.kind = true →
      (QualifiedName.ofTree name).segments.getLast? = some last → last.text source ≠ "" →
      ownerScope? source state name frame.context = some owner →
      (∀ binding, state.scopes.local? kind.space (last.text source) owner = some binding →
        state.memberScope? binding = none) →
        ∃ entrance ∈ (visit source state frame).2,
          entrance.tree = body ∧ entrance.mode = .plain ∧ entrance.context.scope = scope ∧
          ∀ use, UsedInside source language tree scope [entrance] use →
            (walked.scopes.Encloses owner use.scope ↔
              walked.scopes.Encloses owner frame.context.scope) := by
  intro walked scope
  have nested := walked_nested source language tree
  have only {entrance : Frame} (isScope : entrance.context.scope = scope) :
      ∀ first ∈ [entrance], walked.scopes.Encloses scope first.context.scope := by
    intro first isFirst
    rw [List.mem_singleton.1 isFirst, isScope]
    exact .self
  refine ⟨fun owner form owned => ?_, fun kind name last owner form isName qualified isLast spelled
    owned unopened => ?_⟩
  · obtain ⟨entrance, left, isEntrance, mode, isScope, here, isHere, isParent⟩ :=
      exists_body_of_function moment manner form isPart isBody
    rw [owned, Option.getD_some] at isParent
    have around : walked.scopes.Encloses owner scope := .inside isHere isParent .self
    refine ⟨entrance, left, isEntrance, mode, isScope, fun use used => ?_⟩
    have inside := around.trans (used.encloses (only isScope))
    refine ⟨inside, fun first entry isFirst notGlobal known isOpen => ?_⟩
    refine binding?_of_openWay rfl used.waits isFirst notGlobal inside known ?_ isOpen
    intro later isLater ordered
    obtain ⟨declarator, isDeclarator, -⟩ := Option.bind_eq_some_iff.1 owned
    obtain ⟨found, there, unordered⟩ :=
      moment.owner_unordered ((owner?_eq moment isDeclarator).symm.trans owned)
    obtain ⟨kept, isKept, grown⟩ := moment.scopes_extend.scopes owner found there
    obtain rfl := Option.some.inj (isKept.symm.trans isLater)
    rw [grown.kind, unordered] at ordered
    cases ordered
  · obtain ⟨entrance, left, isEntrance, mode, isScope, here, isHere, isParent⟩ :=
      exists_body_of_class moment manner form isPart isBody isName qualified isLast spelled owned
        unopened
    refine ⟨entrance, left, isEntrance, mode, isScope, fun use used => ?_⟩
    have inside := used.encloses (only isScope)
    constructor
    · intro around
      have made : owner < scope :=
        ownerScope?_lt moment.membersApart.made moment.membersApart.file owned
      have between := around.of_le nested inside (Nat.le_of_lt made)
      exact between.of_parent isHere isParent (Nat.ne_of_lt made)
    · intro around
      have outside : walked.scopes.Encloses frame.context.scope scope :=
        .inside isHere isParent .self
      exact (around.trans outside).trans inside

/-! ### The bodies of a function and of a class that are defined behind their owner -/

theorem usedInside_of_declaration {source : List Char} {language : Language} {tree : ParseTree}
    {visited waiting : List Frame} {state : State} {entrance : Frame}
    (moment : Reaches source (State.initial (language = .cpp)) [Frame.root tree] visited state
      (entrance :: waiting))
    {home : Nat} (isHome : entrance.context.scope = home)
    (opens : visit source state entrance = (state, childFrames entrance.tree entrance.context))
    {declaration type : ParseTree} {kind : SymbolKind} {others rest : List ParseTree}
    (first : entrance.tree.namedChildren = declaration :: others)
    (form : declaration.form = .declaration kind)
    (begins : declaration.namedChildren = type :: rest) (isType : type.field ≠ "declarator")
    (isName : type.form = .name) {use : PendingUse}
    (noted : let (opened, inner) := state.openDeclaration declaration.kind entrance.context
      use ∉ opened.uses ∧ use ∈ (opened.noteUse source type inner .ordinary .none).uses) :
    UsedInside source language tree home [entrance] use := by
  subst isHome
  let top := Frame.child entrance.tree entrance.context .plain declaration
  let inner := (state.openDeclaration declaration.kind entrance.context).2
  let next := Frame.child declaration inner .plain type
  have toDeclaration := moment.visit_eq opens
  rw [childFrames, first, List.map_cons, List.cons_append] at toDeclaration
  have isTop : top ∈ (visit source state entrance).2 := by
    rw [opens, childFrames, first]
    exact List.mem_cons_self
  have insideTop : Inside source language tree entrance.context.scope [entrance] top :=
    .visit (.left List.mem_cons_self) moment isTop fun departs => departs.outside .self
  have declared : visit source state top =
      ((state.openDeclaration declaration.kind entrance.context).1,
        next :: rest.map fun child =>
          Frame.child declaration inner (declaratorMode kind declaration.declaredType? none child)
            child) := by
    have mode (typeRef : Option TypeRef) : declaratorMode kind typeRef none type = .plain :=
      if_neg isType
    simp only [visit, top, Frame.child, visitPlain, form, visitDeclaration, begins, List.map_cons,
      mode]
    rfl
  have isNext : next ∈ (visit source state top).2 := declared ▸ List.mem_cons_self
  have insideNext : Inside source language tree entrance.context.scope [entrance] next :=
    .visit insideTop toDeclaration isNext fun departs => departs.outside .self
  obtain ⟨isNew, isNoted⟩ := noted
  refine ⟨_, _, next, _, toDeclaration.visit_eq declared, insideNext, isNew, ?_⟩
  simp only [visit, next, Frame.child, visitPlain, isName, visitUse]
  exact isNoted

theorem eq_of_mem_visit_memberFunction {entrance : Frame}
    (left : entrance ∈ (visit memberText afterOuterClass (memberPart memberFunction)).2)
    (isBody : entrance.tree = functionBody) : entrance = memberFunctionPart functionBody := by
  rw [visit_memberFunction] at left
  have other {part : ParseTree} (different : part.kind ≠ functionBody.kind) :
      entrance ≠ memberFunctionPart part := by
    rintro rfl
    rw [memberFunctionPart, functionPart_tree] at isBody
    exact different (congrArg ParseTree.kind isBody)
  simpa [other (by decide : functionType.kind ≠ functionBody.kind),
    other (by decide : functionDeclarator.kind ≠ functionBody.kind)] using left

def beforeFunctionBody : State :=
  run memberText functionBegun [memberFunctionPart functionType,
    memberFunctionPart functionDeclarator]

theorem exists_moment_of_functionBody :
    ∃ visited, Reaches memberText (State.initial (Language.cpp = .cpp)) [Frame.root memberTree]
      visited beforeFunctionBody [memberFunctionPart functionBody, memberPart memberClass] := by
  obtain ⟨visited, moment⟩ := exists_moment_of_memberFunction
  have begun := moment.visit
  rw [visit_memberFunction, List.append_assoc] at begun
  exact begun.exists_past

def useInFunction : PendingUse := ⟨[6], .ordinary, false, 3, 53, .none⟩

def useInClass : PendingUse := ⟨[10], .ordinary, false, 4, 70, .none⟩

theorem usedInside_useInFunction :
    UsedInside memberText .cpp memberTree 3 [memberFunctionPart functionBody] useInFunction := by
  obtain ⟨visited, moment⟩ := exists_moment_of_functionBody
  have scope : (memberFunctionPart functionBody).context.scope = 3 := afterOuterClass_facts.2.1
  have form : functionLocal.form = .declaration .variable := by decide
  refine usedInside_of_declaration moment scope rfl rfl form rfl (by decide) (by decide) ?_
  decide +kernel

def afterMemberFunction : State := run memberText afterOuterClass [memberPart memberFunction]

theorem exists_moment_of_memberClass :
    ∃ visited, Reaches memberText (State.initial (Language.cpp = .cpp)) [Frame.root memberTree]
      visited afterMemberFunction [memberPart memberClass] := by
  obtain ⟨visited, moment⟩ := exists_moment_of_memberFunction
  have waits : Reaches memberText (State.initial (Language.cpp = .cpp)) [Frame.root memberTree] _ _
    ([memberPart memberFunction] ++ [memberPart memberClass]) := moment
  exact waits.exists_past

/-- Where the definition of the class begins, its owner knows it without a scope for members, and the
first scope that is free becomes that. -/
theorem afterMemberFunction_facts :
    ownerScope? memberText afterMemberFunction className .file = some 1 ∧
      afterMemberFunction.scopes.next = 4 ∧ classMember.text memberText ≠ "" ∧
      afterMemberFunction.scopes.local? SymbolKind.structName.space
        (classMember.text memberText) 1 = some 2 ∧
      afterMemberFunction.memberScope? 2 = none ∧
      (let (opened, inner) := afterMemberFunction.openDeclaration memberClass.kind .file
       let (declared, binding) := opened.declareQualified memberText className inner .structName none
       (declared.openMembers binding .classBody Scopes.file).2) =
        afterMemberFunction.scopes.next := by
  decide +kernel

def classEntrance : Frame :=
  Frame.child memberClass
    ((afterMemberFunction.openDeclaration memberClass.kind .file).2.within
      afterMemberFunction.scopes.next) .plain classBody

theorem visit_memberClass :
    (visit memberText afterMemberFunction (memberPart memberClass)).2 = [classEntrance] := by
  have qualified : isQualified className.kind = true := by decide
  have form : memberClass.form = .classSpecifier .structName := by decide
  rw [visit_of_class memberText afterMemberFunction (.inl rfl) form rfl rfl qualified,
    ofTree_of_plain qualified rfl rfl (by decide) (by decide) (by decide) (by decide)]
  obtain ⟨-, -, -, -, -, scope⟩ := afterMemberFunction_facts
  rw [classEntrance, ← scope]
  rfl

theorem usedInside_useInClass :
    UsedInside memberText .cpp memberTree 4 [classEntrance] useInClass := by
  obtain ⟨visited, moment⟩ := exists_moment_of_memberClass
  have begun := moment.visit
  rw [visit_memberClass, List.singleton_append] at begun
  have scope : classEntrance.context.scope = 4 := afterMemberFunction_facts.2.1
  have form : classBody.form = .transparent := by decide
  have formToo : classField.form = .declaration .field := by decide
  have opens (state : State) : visit memberText state classEntrance =
      (state, childFrames classEntrance.tree classEntrance.context) := by
    simp only [visit, classEntrance, Frame.child, visitPlain, form]
  refine usedInside_of_declaration begun scope (opens _) rfl formToo rfl (by decide) (by decide) ?_
  decide +kernel

theorem memberTree_facts :
    let walked := SourceUnit.walked memberText .cpp memberTree
    walked.spelling 6 = "T" ∧
      (walked.scopes.entry? .ordinary "T" 1).map ScopeEntry.binding = some 1 ∧
      walked.macroAt? "T" 53 = none ∧
      walked.resolve.scopes.all[3]?.map (fun here =>
        (here.parent, walked.resolve.scopes.seenFrom? .ordinary "T" 53 here)) =
          some (some 1, none) ∧
      walked.resolve.binding? 10 = none := by
  decide +kernel

/-- Both bodies use the type of the owner, and only that of the function lies inside of it. -/
theorem type_of_owner_is_bound_in_function_alone :
    let walked := SourceUnit.walked memberText .cpp memberTree
    (∃ (entrance : Frame) (owner : Nat),
      (memberPart memberFunction).owner? memberText afterOuterClass = some owner ∧
      entrance.tree = functionBody ∧
      UsedInside memberText .cpp memberTree afterOuterClass.scopes.next [entrance] useInFunction ∧
      walked.scopes.Encloses owner useInFunction.scope ∧ OpenWay walked useInFunction "T" owner ∧
      walked.resolve.binding? 6 = some 1) ∧
    ∃ (entrance : Frame) (owner : Nat),
      ownerScope? memberText afterMemberFunction className .file = some owner ∧
      entrance.tree = classBody ∧
      UsedInside memberText .cpp memberTree afterMemberFunction.scopes.next [entrance] useInClass ∧
      ¬ walked.scopes.Encloses owner useInClass.scope ∧ walked.resolve.binding? 10 = none := by
  intro walked
  obtain ⟨spelled, known, noMacro, between, unbound⟩ := memberTree_facts
  constructor
  · obtain ⟨visited, moment⟩ := exists_moment_of_memberFunction
    obtain ⟨found, next, -, -⟩ := afterOuterClass_facts
    have owned := (owner?_eq moment rfl).trans found
    obtain ⟨bound, -⟩ := bodies_out_of_line moment (.inl rfl)
      (List.mem_cons_of_mem _ (List.mem_cons_of_mem _ List.mem_cons_self) :
        functionBody ∈ memberFunction.namedChildren) rfl
    obtain ⟨entry, isEntry, isBinding⟩ := Option.map_eq_some_iff.1 known
    obtain ⟨here, isHere, found⟩ := Option.map_eq_some_iff.1 between
    obtain ⟨isParent, unseen⟩ := Prod.mk.inj found
    have isOpen : OpenWay walked useInFunction "T" 1 :=
      openWay_of_parent rfl noMacro isHere isParent unseen
    obtain ⟨entrance, left, isEntrance, -, -, uses⟩ := bound 1 (by decide) owned
    obtain rfl := eq_of_mem_visit_memberFunction left isEntrance
    have used := usedInside_useInFunction
    rw [← next] at used
    obtain ⟨inside, binds⟩ := uses useInFunction used
    have isBound := binds 6 entry rfl rfl (spelled ▸ isEntry) (spelled ▸ isOpen)
    exact ⟨_, 1, owned, isEntrance, used, inside, isOpen, isBound.trans (congrArg some isBinding)⟩
  · obtain ⟨visited, moment⟩ := exists_moment_of_memberClass
    obtain ⟨-, apart⟩ := bodies_out_of_line moment (.inl rfl)
      (List.mem_cons_of_mem _ List.mem_cons_self : classBody ∈ memberClass.namedChildren) rfl
    have qualified : isQualified className.kind = true := by decide
    have isLast : (QualifiedName.ofTree className).segments.getLast? = some classMember := by
      rw [ofTree_of_plain qualified rfl rfl (by decide) (by decide) (by decide) (by decide)]
      rfl
    obtain ⟨owned, next, spelled, known, noMembers, -⟩ := afterMemberFunction_facts
    obtain ⟨entrance, left, isEntrance, -, -, uses⟩ := apart .structName className classMember 1
      (by decide) rfl qualified isLast spelled owned fun binding isKnown => by
        obtain rfl := Option.some.inj (known.symm.trans isKnown)
        exact noMembers
    rw [visit_memberClass, List.mem_singleton] at left
    subst left
    have used := usedInside_useInClass
    rw [← next] at used
    refine ⟨_, 1, owned, isEntrance, used, fun around => ?_, unbound⟩
    have outside := ((uses useInClass used).1 around).le (walked_nested _ _ _)
    exact absurd outside (by decide)

end CrossReference.Walk
