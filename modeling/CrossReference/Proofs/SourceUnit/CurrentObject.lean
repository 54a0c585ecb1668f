import CrossReference.Proofs.ParseTree.Descent
import CrossReference.Proofs.SourceUnit.MemberChains
import CrossReference.Proofs.SourceUnit.OutOfLine
import CrossReference.Proofs.Walk.ClassAround

/-!
# The current object

A member that is accessed through `this` is looked up in the class around the function.  That is the
class with the function among its members, wherever the function is defined, if the scope of the
members has been made for a class.
-/

set_option autoImplicit false

namespace CrossReference

open ParseTree Walk

namespace Walk

open State

/-! ## Accesses through the current object -/

structure ThisAccess (tree field : ParseTree) : Prop where
  kind : tree.kind = "field_expression"
  isThis : ∃ argument, tree.child? "argument" = some argument ∧ argument.kind = "this"
  isPart : field ∈ tree.namedChildren
  isField : field.field = "field"
  isPlain : field.kind = "field_identifier"

/-- The object of such an access is the class around it. -/
theorem ThisAccess.object_eq {tree field : ParseTree} (isAccess : ThisAccess tree field)
    (scopes : Scopes) (scope : Nat) :
    (tree.child? "argument").bind (objectOf? scopes scope) =
      (scopes.enclosingClass scope).map .class := by
  obtain ⟨argument, isArgument, isThis⟩ := isAccess.isThis
  rw [isArgument, Option.bind_some, objectOf?, if_neg (by rw [isThis]; decide),
    if_neg (by rw [isThis]; decide), if_pos isThis]

theorem State.objectScope?_of_class (state : State) (around : Option Nat) :
    state.objectScope? (around.map .class) = around := by
  cases around <;> rfl

section Walks

variable {source : List Char} {language : Language} {tree : ParseTree}
  {visited waiting : List Frame} {state : State} {frame : Frame}

/-- A member that is accessed through `this` is bound to what the class around the access has for
its name. -/
theorem Reaches.binding?_of_this (distinct : tree.ids.Nodup)
    (moment : Reaches source (State.initial (language = .cpp)) [Frame.root tree] visited state
      (frame :: waiting)) (plain : frame.mode = .plain) {field : ParseTree}
    (isAccess : ThisAccess frame.tree field) :
    let walked := SourceUnit.walked source language tree
    ∃ member, OccursAs source walked field member ∧
      walked.resolve.binding? member =
        (walked.scopes.enclosingClass frame.context.scope).bind
          (walked.resolve.scopes.lookupMember .ordinary (field.text source)) := by
  intro walked
  have left := @left_of_access source state frame field plain isAccess.kind isAccess.isPart
  rw [if_pos isAccess.isField, isAccess.object_eq] at left
  obtain ⟨_, later, _, reached⟩ := moment.exists_next left
  obtain ⟨occurs, waits⟩ := reached.member_waits distinct rfl isAccess.isPlain
  obtain ⟨earlier, others, split⟩ := List.append_of_mem (Array.mem_def.1 waits)
  have bound := (walked_waitsApart source language tree).member_binding? split
  have rebinds := walked_rebinds source language tree
  have spelled : walked.resolve.spelling later.names.size = field.text source :=
    (rebinds.spelling_eq (lt_size_of_place occurs.place)).trans occurs.spelling_eq
  have around : walked.scopes.enclosingClass frame.context.scope =
      state.scopes.enclosingClass frame.context.scope :=
    moment.scopes_extend.enclosingClass_eq moment.nested (walked_nested source language tree)
      (moment.under.2 frame List.mem_cons_self).context.scope
  refine ⟨later.names.size, occurs, ?_⟩
  rw [around, ← spelled, bound, objectScope?_of_class]

/-! ## Functions and classes -/

/-- A class that is written out has a scope for its members after its name, in which the body is
walked. -/
theorem exists_entered_of_class (source : List Char) (state : State)
    (manner : frame.mode = .plain ∨ ∃ object, frame.mode = .member object) {kind : SymbolKind}
    (form : frame.tree.form = .classSpecifier kind) {body : ParseTree}
    (isPart : body ∈ frame.tree.namedChildren) (isBody : body.field = "body") :
    ∃ declared binding, Edits source frame state declared ∧
      declared.scopes.next = state.scopes.next ∧
      let members := declared.openMembers binding .classBody frame.context.scope
      members.1.scopes.Extends (visit source state frame).1.scopes ∧
        ∃ entrance ∈ (visit source state frame).2, entrance.tree = body ∧ entrance.mode = .plain ∧
          entrance.context.scope = members.2 := by
  have hasBody : (frame.tree.child? "body").isSome = true :=
    List.find?_isSome.2 ⟨body, mem_of_mem_namedChildren isPart, by simpa using isBody⟩
  have isKind : frame.declaredKind? = some kind := by
    unfold Frame.declaredKind?
    rcases manner with plain | ⟨object, member⟩
    · rw [plain, form]
      rfl
    · rw [member, form]
      rfl
  have edits : Edits source frame state _ := (edits_openDeclaration state).trans
    (edits_visitTag (state.openDeclaration frame.tree.kind frame.context).1 frame.tree
      (state.openDeclaration frame.tree.kind frame.context).2 frame.context.declareIn true isKind)
  have next : (visitTag source (state.openDeclaration frame.tree.kind frame.context).1 frame.tree
      (state.openDeclaration frame.tree.kind frame.context).2 frame.context.declareIn kind
      true).1.1.scopes.next = state.scopes.next :=
    (next_visitTag frame.tree _ frame.context.declareIn kind true).trans
      (congrArg Scopes.next (openDeclaration_scopes state frame.tree.kind frame.context))
  rw [visit_of_form frame manner (by rw [form]; exact nofun)]
  simp only [visitPlain, form, visitClass, hasBody, Bool.not_true, Bool.false_and,
    Bool.false_eq_true, if_false]
  generalize visitTag source (state.openDeclaration frame.tree.kind frame.context).1 frame.tree
    (state.openDeclaration frame.tree.kind frame.context).2 frame.context.declareIn kind true =
      tag at edits next ⊢
  obtain ⟨⟨declared, binding⟩, frames⟩ := tag
  refine ⟨declared, binding, edits, next, ?_⟩
  generalize declared.openMembers binding .classBody frame.context.scope = members
  obtain ⟨entered, scope⟩ := members
  have parts (begun : State) : Edits source frame begun
      (visitEach (visitClassPart source frame.tree
        (state.openDeclaration frame.tree.kind frame.context).2 scope)
        frame.tree.namedChildren begun).1 :=
    edits_visitEach (fun current child => edits_visitClassPart frame.tree _ _ current child) _
  refine ⟨(parts (entered.noteSpecifier frame.tree scope)).scopes_extend,
    Frame.child frame.tree ((state.openDeclaration frame.tree.kind frame.context).2.within scope)
      .plain body, ?_, rfl, rfl, rfl⟩
  refine List.mem_append_right _ (mem_visitEach isPart (fun current => ?_) _)
  have noName : body.field ≠ "name" := by simp [isBody]
  simp only [visitClassPart, if_neg noName, if_pos isBody]
  exact List.mem_cons_self

/-- The body of a class is walked in the scope of its members, which is that of a class if it has
been made for this one. -/
theorem exists_members_of_class
    (moment : Reaches source (State.initial (language = .cpp)) [Frame.root tree] visited state
      (frame :: waiting))
    (manner : frame.mode = .plain ∨ ∃ object, frame.mode = .member object) {kind : SymbolKind}
    (form : frame.tree.form = .classSpecifier kind) {body : ParseTree}
    (isPart : body ∈ frame.tree.namedChildren) (isBody : body.field = "body") :
    ∃ entrance ∈ (visit source state frame).2, entrance.tree = body ∧ entrance.mode = .plain ∧
      ∃ here, (SourceUnit.walked source language tree).scopes.all[entrance.context.scope]? =
          some here ∧
        (state.scopes.next ≤ entrance.context.scope → here.kind = .classBody) := by
  obtain ⟨declared, binding, edits, next, toEnd, entrance, left, isEntrance, mode, isScope⟩ :=
    exists_entered_of_class source state manner form isPart isBody
  have members := edits.membersMade moment.under.1
  have made := (moment.visit.under.2 entrance (List.mem_append_left _ left)).context.scope
  obtain ⟨found, there⟩ := Scopes.exists_of_lt_next made
  obtain ⟨here, isHere, kept⟩ := moment.visit.scopes_extend.scopes _ _ there
  refine ⟨entrance, left, isEntrance, mode, here, isHere, fun isNew => ?_⟩
  rw [isScope] at isNew there
  obtain ⟨scope, isMembers, same⟩ | ⟨pushed, isNext, -⟩ :=
    openMembers_cases declared binding .classBody frame.context.scope
  · obtain ⟨owner, -, isScope⟩ := Option.bind_eq_some_iff.1 isMembers
    have old := members owner scope isScope
    rw [same] at isNew
    omega
  · have pushedHere : (declared.openMembers binding .classBody frame.context.scope).1.scopes.all[
        (declared.openMembers binding .classBody frame.context.scope).2]? =
          some (Scope.fresh .classBody (some frame.context.scope)) := by
      rw [pushed, isNext]
      exact Array.getElem?_push_size
    obtain ⟨later, isLater, keptClass⟩ := toEnd.scopes _ _ pushedHere
    obtain rfl := Option.some.inj (there.symm.trans isLater)
    exact kept.kind.trans keptClass.kind

/-- The body of a function is in the class that the owner of the function is in. -/
theorem enclosingClass_of_body
    (moment : Reaches source (State.initial (language = .cpp)) [Frame.root tree] visited state
      (frame :: waiting))
    (manner : frame.mode = .plain ∨ ∃ object, frame.mode = .member object)
    (form : frame.tree.form = .function) :
    (SourceUnit.walked source language tree).scopes.enclosingClass state.scopes.next =
      (SourceUnit.walked source language tree).scopes.enclosingClass
        ((frame.owner? source state).getD frame.context.scope) := by
  have pushed : (visit source state frame).1.scopes.all[state.scopes.next]? =
      some (Scope.fresh .function (some ((frame.owner? source state).getD frame.context.scope))) := by
    rw [scopes_of_function manner form]
    exact Array.getElem?_push_size
  obtain ⟨here, isHere, kept⟩ := moment.visit.scopes_extend.scopes _ _ pushed
  have isOther : here.kind ≠ .classBody := by
    rw [kept.kind]
    exact nofun
  exact Scopes.enclosingClass_of_parent (walked_nested source language tree) isHere isOther
    kept.parent

end Walks

/-- A member that is accessed through `this` in the body of a function is bound to what the owner of
the function has for its name, if the scope of the owner is that of a class, and otherwise to what
the class around that scope has.  The owner is the one that the name of the function leads to, or
else the one in the body of which the function is defined.  A class has a scope of its own kind for
its members if its definition is the one that they get their scope with. -/
theorem this_denotes_owner_of_function {source : List Char} {language : Language}
    {tree : ParseTree} (distinct : tree.ids.Nodup) :
    let walked := SourceUnit.walked source language tree
    ∀ visited waiting state frame body,
      Reaches source (State.initial (language = .cpp)) [Frame.root tree] visited state
        (frame :: waiting) →
      (frame.mode = .plain ∨ ∃ object, frame.mode = .member object) →
      body ∈ frame.tree.namedChildren → body.field = "body" →
        (∀ kind, frame.tree.form = .classSpecifier kind →
          ∃ entrance ∈ (visit source state frame).2,
            entrance.tree = body ∧ entrance.mode = .plain ∧
            ∃ here, walked.scopes.all[entrance.context.scope]? = some here ∧
              (state.scopes.next ≤ entrance.context.scope → here.kind = .classBody)) ∧
        (frame.tree.form = .function →
          ∃ entrance ∈ (visit source state frame).2,
            entrance.tree = body ∧ entrance.mode = .body ∧
            ∀ top owner here, SharesClass source language tree [top] frame →
              (frame.owner? source state).getD top.context.scope = owner →
              walked.scopes.all[owner]? = some here →
                ∀ before after later access field,
                  Reaches source (State.initial (language = .cpp)) [Frame.root tree] before later
                    (access :: after) →
                  SharesClass source language tree [entrance] access →
                  access.mode = .plain → ThisAccess access.tree field →
                    ∃ member, OccursAs source walked field member ∧
                      walked.resolve.binding? member =
                        (if here.kind = .classBody then some owner
                          else here.parent.bind walked.scopes.enclosingClass).bind
                          (walked.resolve.scopes.lookupMember .ordinary (field.text source))) := by
  intro walked visited waiting state frame body moment manner isPart isBody
  refine ⟨fun kind form => exists_members_of_class moment manner form isPart isBody,
    fun form => ?_⟩
  obtain ⟨entrance, left, isEntrance, mode, isScope, -⟩ :=
    exists_body_of_function moment manner form isPart isBody
  refine ⟨entrance, left, isEntrance, mode, ?_⟩
  intro top owner here shares isOwner isHere before after later access field atAccess inBody plain
    isAccess
  obtain ⟨member, occurs, bound⟩ := atAccess.binding?_of_this distinct plain isAccess
  have ofOwner : walked.scopes.enclosingClass access.context.scope =
      walked.scopes.enclosingClass owner :=
    calc walked.scopes.enclosingClass access.context.scope
      _ = walked.scopes.enclosingClass entrance.context.scope := inBody.enclosingClass_eq
      _ = walked.scopes.enclosingClass ((frame.owner? source state).getD frame.context.scope) := by
        rw [isScope, enclosingClass_of_body moment manner form]
      _ = walked.scopes.enclosingClass owner := by
        subst isOwner
        cases frame.owner? source state with
        | some outer => rfl
        | none => exact shares.enclosingClass_eq
  refine ⟨member, occurs, ?_⟩
  rw [bound, ofOwner, Scopes.enclosingClass_eq (walked_nested source language tree) isHere]

/-! ### A class with the name of an enum -/

/-- An enum in one branch of a condition, a class with its name in the other one, and a class with a
name of its own.  Both classes have a function that accesses a member. -/
def namesakeText : List Char :=
  ("#ifdef E\nenum S{a};\n#else\nstruct S{int m;int f(){return this->m;}};\n#endif\n" ++
    "struct T{int m;int f(){return this->m;}};").toList

def currentEnum : ParseTree :=
  ruleNode 3 "enum_specifier" "" 9 18
    [ruleNode 4 "type_identifier" "name" 14 15 [],
      ruleNode 5 "enumerator_list" "body" 15 18
        [ruleNode 6 "enumerator" "" 16 17 [ruleNode 7 "identifier" "name" 16 17 []]]]

def accessedField (id start : Nat) : ParseTree :=
  ruleNode (id + 14) "field_identifier" "field" (start + 36) (start + 37) []

def accessOfThis (id start : Nat) : ParseTree :=
  ruleNode (id + 12) "field_expression" "" (start + 30) (start + 37)
    [ruleNode (id + 13) "this" "argument" (start + 30) (start + 34) [], accessedField id start]

def accessReturn (id start : Nat) : ParseTree :=
  ruleNode (id + 11) "return_statement" "" (start + 23) (start + 38) [accessOfThis id start]

def accessBody (id start : Nat) : ParseTree :=
  ruleNode (id + 10) "compound_statement" "body" (start + 22) (start + 39) [accessReturn id start]

def functionNameOf (id start : Nat) : ParseTree :=
  ruleNode (id + 8) "field_identifier" "declarator" (start + 19) (start + 20) []

def accessDeclarator (id start : Nat) : ParseTree :=
  ruleNode (id + 7) "function_declarator" "declarator" (start + 19) (start + 22)
    [functionNameOf id start,
      ruleNode (id + 9) "parameter_list" "parameters" (start + 20) (start + 22) []]

def accessFunction (id start : Nat) : ParseTree :=
  ruleNode (id + 5) "function_definition" "" (start + 15) (start + 39)
    [ruleNode (id + 6) "primitive_type" "type" (start + 15) (start + 18) [],
      accessDeclarator id start, accessBody id start]

def currentMembers (id start : Nat) : ParseTree :=
  ruleNode (id + 2) "field_declaration_list" "body" (start + 8) (start + 40)
    [ruleNode (id + 3) "field_declaration" "" (start + 9) (start + 15)
        [ruleNode (id + 4) "primitive_type" "type" (start + 9) (start + 12) [],
          ruleNode (id + 15) "field_identifier" "declarator" (start + 13) (start + 14) []],
      accessFunction id start]

def currentClass (id start : Nat) : ParseTree :=
  ruleNode id "struct_specifier" "" start (start + 40)
    [ruleNode (id + 1) "type_identifier" "name" (start + 7) (start + 8) [], currentMembers id start]

def otherBranch : ParseTree := ruleNode 8 "preproc_else" "alternative" 20 67 [currentClass 9 26]

def namesakeBranches : ParseTree :=
  ruleNode 1 "preproc_ifdef" "" 0 74
    [ruleNode 2 "identifier" "name" 7 8 [], currentEnum, otherBranch]

def namesakeTree : ParseTree :=
  ruleNode 0 "translation_unit" "" 0 116 [namesakeBranches, currentClass 25 75]

def namesakePart (part : ParseTree) : Frame := ⟨part, true, .file, .plain⟩

def enumPart (part : ParseTree) (active : Bool) : Frame :=
  Frame.child namesakeBranches { Context.file with active := active } .plain part

def stateAtNamesake : State :=
  run namesakeText (State.initial (Language.cpp = .cpp))
    [enumPart (ruleNode 2 "identifier" "name" 7 8 []) true, enumPart currentEnum false]

def stateAtOther : State := run namesakeText stateAtNamesake [namesakePart (currentClass 9 26)]

theorem exists_moments_of_classes :
    (∃ visited waiting, Reaches namesakeText (State.initial (Language.cpp = .cpp))
      [Frame.root namesakeTree] visited stateAtNamesake
      (namesakePart (currentClass 9 26) :: waiting)) ∧
    ∃ visited waiting, Reaches namesakeText (State.initial (Language.cpp = .cpp))
      [Frame.root namesakeTree] visited stateAtOther
      (namesakePart (currentClass 25 75) :: waiting) := by
  have begun : Reaches namesakeText (State.initial (Language.cpp = .cpp))
    [Frame.root namesakeTree] [] _ _ := .start
  have file (state : State) : visit namesakeText state (Frame.root namesakeTree) =
      (state, [namesakePart namesakeBranches, namesakePart (currentClass 25 75)]) := by
    have form : namesakeTree.form = .transparent := by decide
    simp only [visit, Frame.root, visitPlain, form]
    rfl
  have first (state : State)
      (holds : branchHolds? namesakeText state namesakeBranches = some false) :
      visit namesakeText state (namesakePart namesakeBranches) =
        (state,
          [enumPart (ruleNode 2 "identifier" "name" 7 8 []) true, enumPart currentEnum false] ++
          [Frame.child namesakeBranches .file (.branch false) otherBranch]) := by
    have form : namesakeBranches.form = .conditional := by decide
    simp only [visit, namesakePart, visitPlain, form, visitConditional, holds]
    rfl
  have other (state : State) :
      visit namesakeText state (Frame.child namesakeBranches .file (.branch false) otherBranch) =
        (state, [namesakePart (currentClass 9 26)]) := by
    have holds : branchHolds? namesakeText state otherBranch = some true := rfl
    simp only [visit, Frame.child, visitConditional, holds]
    rfl
  have entered : Reaches namesakeText (State.initial (Language.cpp = .cpp))
      [Frame.root namesakeTree] _ _
      ([enumPart (ruleNode 2 "identifier" "name" 7 8 []) true, enumPart currentEnum false] ++
        [Frame.child namesakeBranches .file (.branch false) otherBranch,
          namesakePart (currentClass 25 75)]) :=
    (begun.visit_eq (file _)).visit_eq (first _ (by decide +kernel))
  obtain ⟨_, atOther⟩ := entered.exists_past
  have namesake : Reaches namesakeText (State.initial (Language.cpp = .cpp))
      [Frame.root namesakeTree] _ _
      ([namesakePart (currentClass 9 26)] ++ [namesakePart (currentClass 25 75)]) :=
    atOther.visit_eq (other _)
  obtain ⟨_, last⟩ := namesake.exists_past
  exact ⟨⟨_, _, namesake⟩, _, _, last⟩

section Namesake

variable {visited waiting : List Frame} {state : State} {id start : Nat} {entrance : Frame}

theorem exists_function_below
    (moment : Reaches namesakeText (State.initial (Language.cpp = .cpp))
      [Frame.root namesakeTree] visited state (entrance :: waiting))
    (isMembers : entrance.tree = currentMembers id start)
    (plain : entrance.mode = .plain) :
    ∃ before after later next, Reaches namesakeText (State.initial (Language.cpp = .cpp))
        [Frame.root namesakeTree] before later (next :: after) ∧
      next.tree = accessFunction id start ∧ next.mode = .plain ∧
      SharesClass namesakeText .cpp namesakeTree [entrance] next := by
  have form : entrance.tree.form = .transparent := by
    rw [isMembers]
    exact (by decide : Form.ofKind "field_declaration_list" = .transparent)
  have isChild : accessFunction id start ∈ entrance.tree.namedChildren := by
    rw [isMembers]
    exact List.mem_cons_of_mem _ List.mem_cons_self
  exact (SharesClass.first List.mem_cons_self).exists_child moment (.inl ⟨form, plain⟩) isChild

theorem exists_access_below
    (moment : Reaches namesakeText (State.initial (Language.cpp = .cpp))
      [Frame.root namesakeTree] visited state (entrance :: waiting))
    (isBody : entrance.tree = accessBody id start)
    (body : entrance.mode = .body) :
    ∃ before after later next, Reaches namesakeText (State.initial (Language.cpp = .cpp))
        [Frame.root namesakeTree] before later (next :: after) ∧
      next.tree = accessOfThis id start ∧ next.mode = .plain ∧
      SharesClass namesakeText .cpp namesakeTree [entrance] next := by
  have form : entrance.tree.form = .block := by
    rw [isBody]
    exact (by decide : Form.ofKind "compound_statement" = .block)
  have isChild : accessReturn id start ∈ entrance.tree.namedChildren := by
    rw [isBody]
    exact List.mem_cons_self
  obtain ⟨_, _, _, between, reached, isReturn, plain, shares⟩ :=
    (SharesClass.first List.mem_cons_self).exists_child moment (.inr ⟨form, body⟩) isChild
  have formOfReturn : between.tree.form = .transparent := by
    rw [isReturn]
    exact (by decide : Form.ofKind "return_statement" = .transparent)
  have isInner : accessOfThis id start ∈ between.tree.namedChildren := by
    rw [isReturn]
    exact List.mem_cons_self
  exact shares.exists_child reached (.inl ⟨formOfReturn, plain⟩) isInner

theorem owner?_accessFunction {frame : Frame} (isFunction : frame.tree = accessFunction id start) :
    frame.owner? namesakeText state = none := by
  have outside : isDeclaredName (accessDeclarator id start).kind = false :=
    (by decide : isDeclaredName "function_declarator" = false)
  have isName : isDeclaredName (functionNameOf id start).kind = true :=
    (by decide : isDeclaredName "field_identifier" = true)
  have named : (accessDeclarator id start).declaratorName? = some (functionNameOf id start) :=
    (declaratorName?_of_inner outside rfl).trans (declaratorName?_of_name isName)
  have isDeclarator : frame.tree.child? "declarator" = some (accessDeclarator id start) := by
    rw [isFunction]
    rfl
  rw [Frame.owner?, isDeclarator, Option.bind_some, ownerScope?, named]
  rfl

end Namesake

/-- The class with the name of the enum has no scope of its own kind, and the access in it stays
unbound, though the class has the member.  The access in the other class is bound to the member. -/
theorem this_denotes_class_but_no_namesake_of_enum :
    let walked := SourceUnit.walked namesakeText .cpp namesakeTree
    namesakeTree.ids.Nodup ∧
    ∃ namesake other, OccursAs namesakeText walked (accessedField 9 26) namesake ∧
      OccursAs namesakeText walked (accessedField 25 75) other ∧
      walked.scopes.all[1]?.map (·.kind) = some .namespaceBody ∧
      walked.resolve.scopes.lookupMember .ordinary "m" 1 = some 2 ∧
      walked.resolve.binding? namesake = none ∧
      walked.scopes.all[3]?.map (·.kind) = some .classBody ∧
      walked.resolve.scopes.lookupMember .ordinary "m" 3 = some 5 ∧
      walked.resolve.binding? other = some 5 := by
  intro walked
  have distinct : namesakeTree.ids.Nodup := by decide +kernel
  have form : Form.ofKind "struct_specifier" = .classSpecifier .structName := by decide
  have formOfFunction : Form.ofKind "function_definition" = .function := by decide
  have bound {visited waiting : List Frame} {state : State} {id start scope : Nat} {here : Scope}
      (moment : Reaches namesakeText (State.initial (Language.cpp = .cpp)) [Frame.root namesakeTree]
        visited state (namesakePart (currentClass id start) :: waiting))
      (scopes : ∀ next ∈ (visit namesakeText state (namesakePart (currentClass id start))).2,
        next.context.scope = scope) (isHere : walked.scopes.all[scope]? = some here) :
      ∃ member, OccursAs namesakeText walked (accessedField id start) member ∧
        walked.resolve.binding? member =
          (if here.kind = .classBody then some scope
            else here.parent.bind walked.scopes.enclosingClass).bind
            (walked.resolve.scopes.lookupMember .ordinary
              ((accessedField id start).text namesakeText)) := by
    obtain ⟨classes, -⟩ := this_denotes_owner_of_function distinct _ _ _ _ _ moment (.inl rfl)
      (List.mem_cons_of_mem _ List.mem_cons_self) (rfl : (currentMembers id start).field = "body")
    obtain ⟨members, left, isMembers, plain, -⟩ := classes .structName form
    obtain ⟨_, _, _, atMembers⟩ := moment.exists_next left
    obtain ⟨_, _, _, function, atFunction, isFunction, plainFunction, shares⟩ :=
      exists_function_below atMembers isMembers plain
    have isBody : accessBody id start ∈ function.tree.namedChildren := by
      rw [isFunction]
      exact List.mem_cons_of_mem _ (List.mem_cons_of_mem _ List.mem_cons_self)
    obtain ⟨-, functions⟩ := this_denotes_owner_of_function distinct _ _ _ _ _ atFunction
      (.inl plainFunction) isBody (rfl : (accessBody id start).field = "body")
    obtain ⟨entrance, inFunction, isEntrance, body, accesses⟩ :=
      functions (by rw [isFunction]; exact formOfFunction)
    obtain ⟨_, _, _, atBody⟩ := atFunction.exists_next inFunction
    obtain ⟨_, _, _, access, atAccess, isAccess, plainAccess, inBody⟩ :=
      exists_access_below atBody isEntrance body
    refine accesses members scope here shares ?_ isHere _ _ _ access _ atAccess inBody plainAccess ?_
    · rw [owner?_accessFunction isFunction, Option.getD_none]
      exact scopes members left
    · rw [isAccess]
      exact ⟨rfl, ⟨_, rfl, rfl⟩, List.mem_cons_of_mem _ List.mem_cons_self, rfl, rfl⟩
  obtain ⟨⟨_, _, atNamesake⟩, _, _, atOther⟩ := exists_moments_of_classes
  have inEnum : ∀ next ∈ (visit namesakeText stateAtNamesake (namesakePart (currentClass 9 26))).2,
      next.context.scope = 1 := by
    decide +kernel
  have inClass : ∀ next ∈ (visit namesakeText stateAtOther (namesakePart (currentClass 25 75))).2,
      next.context.scope = 3 := by
    decide +kernel
  have kinds : walked.scopes.all[0]?.map (fun here => (here.kind, here.parent)) =
        some (.file, none) ∧
      walked.scopes.all[1]?.map (fun here => (here.kind, here.parent)) =
        some (.namespaceBody, some 0) ∧
      walked.scopes.all[3]?.map (fun here => (here.kind, here.parent)) =
        some (.classBody, some 0) := by
    decide +kernel
  obtain ⟨ofFile, ofEnum, ofClass⟩ := kinds
  obtain ⟨file, isFile, fileIs⟩ := Option.map_eq_some_iff.1 ofFile
  obtain ⟨enum, isEnum, enumIs⟩ := Option.map_eq_some_iff.1 ofEnum
  obtain ⟨own, isOwn, ownIs⟩ := Option.map_eq_some_iff.1 ofClass
  obtain ⟨fileKind, fileParent⟩ := Prod.mk.inj fileIs
  obtain ⟨enumKind, enumParent⟩ := Prod.mk.inj enumIs
  obtain ⟨ownKind, -⟩ := Prod.mk.inj ownIs
  have noClass : walked.scopes.enclosingClass 0 = none := by
    rw [Scopes.enclosingClass_eq (walked_nested namesakeText .cpp namesakeTree) isFile, fileKind,
      fileParent, if_neg (by decide), Option.bind_none]
  obtain ⟨namesake, isNamesake, unbound⟩ := bound atNamesake inEnum isEnum
  obtain ⟨other, isOther, isBound⟩ := bound atOther inClass isOwn
  have spelled : (accessedField 25 75).text namesakeText = "m" := by decide +kernel
  have known : walked.resolve.scopes.lookupMember .ordinary "m" 1 = some 2 ∧
      walked.resolve.scopes.lookupMember .ordinary "m" 3 = some 5 := by
    decide +kernel
  rw [enumKind, enumParent, if_neg (by decide), Option.bind_some, noClass, Option.bind_none]
    at unbound
  rw [ownKind, if_pos rfl, Option.bind_some, spelled, known.2] at isBound
  exact ⟨distinct, namesake, other, isNamesake, isOther, by rw [isEnum, Option.map_some, enumKind],
    known.1, unbound, by rw [isOwn, Option.map_some, ownKind], known.2, isBound⟩

end Walk

end CrossReference
