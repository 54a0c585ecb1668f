import CrossReference.Proofs.Walk.Bound
import CrossReference.Proofs.Walk.Members

/-!
# A walk that declares nothing

As long as no occurrence is added that declares something, the scopes that are there keep what they
have, and no symbol gets a scope for its members: scopes for members are made for what a visit
declares, or for nothing.
-/

set_option autoImplicit false

namespace CrossReference.Walk

open ParseTree State

/-- The scopes that were there are as they were, and so are the scopes of all members. -/
structure Still (before after : State) : Prop where
  types : after.scopes.tagsAreTypes = before.scopes.tagsAreTypes
  next : before.scopes.next ≤ after.scopes.next
  scopes : ∀ scope < before.scopes.next, after.scopes.all[scope]? = before.scopes.all[scope]?
  memberScopes : ∀ binding, after.memberScope? binding = before.memberScope? binding

namespace Still

variable {before middle after : State}

theorem of_same (scopes : after.scopes = before.scopes)
    (memberScopes : ∀ binding, after.memberScope? binding = before.memberScope? binding) :
    Still before after where
  types := by rw [scopes]
  next := Nat.le_of_eq (by rw [scopes])
  scopes scope _ := by rw [scopes]
  memberScopes := memberScopes

theorem refl (state : State) : Still state state :=
  of_same rfl fun _ => rfl

theorem trans (first : Still before middle) (last : Still middle after) : Still before after where
  types := last.types.trans first.types
  next := Nat.le_trans first.next last.next
  scopes scope known :=
    (last.scopes scope (Nat.lt_of_lt_of_le known first.next)).trans (first.scopes scope known)
  memberScopes binding := (last.memberScopes binding).trans (first.memberScopes binding)

theorem pushScope (state : State) (kind : ScopeKind) (parent : Nat) :
    Still state (state.pushScope kind parent).1 where
  types := rfl
  next := by simp [State.pushScope, Scopes.next, Scopes.push]
  scopes _ known := Array.getElem?_push.trans (if_neg (Nat.ne_of_lt known))
  memberScopes _ := rfl

end Still

/-- Unless something is declared on the way, scopes and members stay as they are. -/
structure Idles (before after : State) : Prop where
  grows : Grows before after
  still : AddsUses before after → Still before after

namespace Idles

variable {source : List Char} {before middle after : State}

theorem of_still (grows : Grows before after) (still : Still before after) : Idles before after :=
  ⟨grows, fun _ => still⟩

theorem of_same (grows : Grows before after) (scopes : after.scopes = before.scopes)
    (memberScopes : ∀ binding, after.memberScope? binding = before.memberScope? binding) :
    Idles before after :=
  .of_still grows (.of_same scopes memberScopes)

theorem refl (state : State) : Idles state state :=
  .of_still (.refl state) (.refl state)

theorem trans (first : Idles before middle) (last : Idles middle after) : Idles before after where
  grows := first.grows.trans last.grows
  still uses := by
    have usesFirst : AddsUses before middle := fun name found new there =>
      uses name found new (last.grows.occurrence_eq there)
    have usesLast : AddsUses middle after := fun name found new there =>
      uses name found (Nat.le_trans first.grows.names new) there
    exact (first.still usesFirst).trans (last.still usesLast)

theorem of_notes (notes : NotesNames before after) : Idles before after :=
  .of_same notes.grows notes.scopes notes.memberScopes

theorem of_declaring {added : NameNode} (earlier : Grows before middle)
    (pushed : middle.names = before.names.push added) (declares : added.declares = true)
    (later : Grows middle after) : Idles before after where
  grows := earlier.trans later
  still uses := by
    have there : middle.names[before.names.size]? = some added := by
      rw [pushed]
      exact Array.getElem?_push_size
    have plain := uses before.names.size added (Nat.le_refl _) (later.occurrence_eq there)
    rw [declares] at plain
    cases plain

theorem of_declares {tree : ParseTree} {kind : SymbolKind} {result : Option Nat}
    (declares : Declares source tree kind result before middle) (later : Grows middle after) :
    Idles before after :=
  .of_declaring declares.grows declares.names rfl later

theorem of_defines {tree : ParseTree} {result : Option Nat}
    (defines : Defines source tree result before after) : Idles before after :=
  .of_declaring defines.grows defines.names rfl (.refl after)

end Idles

/-! ## Visits -/

section Visits

variable (source : List Char) (state : State) (tree : ParseTree) (context : Context)

theorem idles_openDeclaration (kind : String) :
    Idles state (state.openDeclaration kind context).1 :=
  .of_same (openDeclaration_grows state kind context) (by simp) (by simp [memberScope?])

theorem idles_pushScope (kind : ScopeKind) (parent : Nat) :
    Idles state (state.pushScope kind parent).1 :=
  .of_still (.of_same rfl rfl rfl fun _ => rfl) (.pushScope state kind parent)

theorem idles_noteSpecifier (scope : Nat) : Idles state (state.noteSpecifier tree scope) :=
  .of_same (.of_same rfl rfl rfl fun _ => rfl) rfl fun _ => rfl

theorem idles_declare (scope : Nat) (kind : SymbolKind) (typeRef : Option TypeRef) :
    Idles state (state.declare source tree context scope kind typeRef).1 :=
  .of_declares (declare_declares source state tree context scope kind typeRef) (.refl _)

theorem idles_declareQualified (kind : SymbolKind) (typeRef : Option TypeRef) :
    Idles state (state.declareQualified source tree context kind typeRef).1 := by
  obtain same | ⟨middle, last, notes, declares⟩ :=
    declareQualified_declares source state tree context kind typeRef
  · rw [same]
    exact .refl state
  · exact (Idles.of_notes notes).trans (.of_declares declares (.refl _))

theorem idles_visitUse (space : NameSpace) (effect : Effect) :
    Idles state (visitUse source state tree context space effect).1 := by
  obtain ⟨notes, -⟩ := addUses_notesNames source context (QualifiedName.ofTree tree).segments state
  simp only [visitUse, noteUse]
  split
  · exact .of_notes notes
  · exact (Idles.of_notes notes).trans (.of_same (.of_same rfl rfl rfl fun _ => rfl) rfl fun _ => rfl)

theorem idles_visitEach {step : State → ParseTree → Visited} {trees : List ParseTree}
    (each : ∀ state tree, Idles state (step state tree).1) (state : State) :
    Idles state (visitEach step trees state).1 := by
  induction trees generalizing state with
  | nil => exact .refl state
  | cons tree rest ih => exact (each state tree).trans (ih _)

theorem idles_visitElaborated : Idles state (visitElaborated source state tree context).1 := by
  refine idles_visitEach (fun current child => ?_) state
  split
  · exact idles_visitUse source current child context .tag .none
  · exact .refl current

theorem idles_visitClassPart (inner : Context) (scope : Nat) (child : ParseTree) :
    Idles state (visitClassPart source tree inner scope state child).1 := by
  unfold visitClassPart
  split
  · exact .refl state
  · split
    · exact .refl state
    · split
      · refine idles_visitEach (fun current base => ?_) state
        split
        · exact idles_visitUse source current base inner .qualifier _
        · exact .refl current
      · exact .refl state

section Tag

variable (inner : Context) (declareIn : Nat) (kind : SymbolKind) (allowTemplate : Bool)

theorem idles_visitTag :
    Idles state (visitTag source state tree inner declareIn kind allowTemplate).1.1 := by
  obtain same | ⟨middle, name, result, notes, declares⟩ :=
    visitTag_cases source state tree inner declareIn kind allowTemplate
  · rw [same]
    exact .refl state
  · exact (Idles.of_notes notes).trans (.of_declares declares (.refl _))

theorem idles_enterTag (scopeKind : ScopeKind) (parent : Nat) :
    Idles state
      ((visitTag source state tree inner declareIn kind allowTemplate).1.1.openMembers
        (visitTag source state tree inner declareIn kind allowTemplate).1.2 scopeKind parent).1 := by
  obtain same | ⟨middle, name, result, notes, declares⟩ :=
    visitTag_cases source state tree inner declareIn kind allowTemplate
  · rw [same]
    exact idles_pushScope state scopeKind parent
  · exact (Idles.of_notes notes).trans (.of_declares declares (openMembers_grows _ _ _ _))

end Tag

theorem idles_visitClass (kind : SymbolKind) (declaresTag : Bool) :
    Idles state (visitClass source state tree context kind declaresTag).1 := by
  have opened := idles_openDeclaration state context tree.kind
  unfold visitClass
  simp only
  split
  · exact idles_visitElaborated source state tree context
  · split
    · exact opened.trans (idles_visitTag source _ tree _ context.declareIn kind true)
    · have entered := opened.trans
        (idles_enterTag source _ tree (state.openDeclaration tree.kind context).2
          context.declareIn kind true .classBody context.scope)
      have noted (scope : Nat) := entered.trans (idles_noteSpecifier _ tree scope)
      exact (noted _).trans (idles_visitEach
        (fun current child => idles_visitClassPart source current tree _ _ child) _)

theorem idles_visitEnum (declaresTag : Bool) :
    Idles state (visitEnum source state tree context declaresTag).1 := by
  have opened := idles_openDeclaration state context tree.kind
  unfold visitEnum
  simp only
  split
  · exact idles_visitElaborated source state tree context
  · split
    · have entered := opened.trans
        (idles_enterTag source _ tree (state.openDeclaration tree.kind context).2
          context.declareIn .enumName false .namespaceBody context.scope)
      exact entered.trans (idles_noteSpecifier _ tree _)
    · exact opened.trans (idles_visitTag source _ tree _ context.declareIn .enumName false)

theorem idles_visitEnumerator : Idles state (visitEnumerator source state tree context).1 := by
  apply (idles_openDeclaration state context tree.kind).trans
  apply idles_visitEach
  intro current child
  split
  · exact .refl current
  · have declares := declare_declares source current child
      (state.openDeclaration tree.kind context).2 context.declareIn .enumerator none
    simp only
    split
    · split
      · exact .of_declares declares (.of_same rfl rfl rfl fun _ => rfl)
      · exact .of_declares declares (.refl _)
    · exact .of_declares declares (.refl _)

theorem idles_visitNamespaceSegments (inner : Context) (segments : List ParseTree) (scope : Nat) :
    Idles state (visitNamespaceSegments source inner segments state scope).1 := by
  induction segments generalizing state scope with
  | nil => exact .refl state
  | cons segment rest ih =>
    have declares := declare_declares source state segment inner scope .namespaceName none
    exact (Idles.of_declares declares (openMembers_grows _ _ .namespaceBody scope)).trans (ih _ _)

theorem idles_visitNamespace : Idles state (visitNamespace source state tree context).1 :=
  (idles_openDeclaration state context tree.kind).trans
    (idles_visitNamespaceSegments source _ _ _ _)

theorem idles_visitTypeParameter :
    Idles state (visitTypeParameter source state tree context).1 := by
  apply (idles_openDeclaration state context tree.kind).trans
  apply idles_visitEach
  intro current child
  split
  · exact idles_declare source current child _ _ .templateParameter none
  · exact .refl current

theorem idles_visitAlias : Idles state (visitAlias source state tree context).1 := by
  apply (idles_openDeclaration state context tree.kind).trans
  apply idles_visitEach
  intro current child
  split
  · exact idles_declare source current child _ _ .typeAlias _
  · exact .refl current

theorem idles_visitUsing : Idles state (visitUsing source state tree context).1 := by
  apply (idles_openDeclaration state context tree.kind).trans
  apply idles_visitEach
  intro current child
  split
  · exact idles_visitUse source current child _ .ordinary _
  · exact .refl current

theorem idles_visitMacroDefinition :
    Idles state (visitMacroDefinition source state tree context) := by
  have opened := idles_openDeclaration state context tree.kind
  unfold visitMacroDefinition
  simp only
  generalize (state.openDeclaration tree.kind context).2 = inner
  generalize (state.openDeclaration tree.kind context).1 = begun at opened ⊢
  split
  · exact opened
  · rename_i nameTree found
    split
    · exact opened.trans (.of_defines (addName_defines source begun nameTree inner))
    · have defines (values : Condition.Macros) :=
        defineMacro_defines source begun nameTree inner tree.stop values rfl
      split <;> exact opened.trans (.of_defines (defines _))

theorem idles_visitDirective : Idles state (visitDirective source state tree context) := by
  unfold visitDirective
  simp only
  split
  · exact .refl state
  · split
    · exact .refl state
    · split <;> exact .of_same (.of_same rfl rfl rfl fun _ => rfl) rfl fun _ => rfl

theorem idles_visitBlock : Idles state (visitBlock state tree context).1 := by
  unfold visitBlock
  simp only
  split <;> exact idles_pushScope state .block context.scope

theorem idles_declareEach (scope : Nat) (kind : SymbolKind) (trees : List ParseTree) :
    Idles state (trees.foldl
      (fun state child => (state.declare source child context scope kind none).1) state) := by
  induction trees generalizing state with
  | nil => exact .refl state
  | cons tree rest ih =>
    exact (idles_declare source state tree context scope kind none).trans (ih _)

theorem idles_visitDeclarator (frame : Frame) (kind : SymbolKind) (typeRef : Option TypeRef)
    (parameters : Option Nat) :
    Idles state (visitDeclarator source state frame kind typeRef parameters).1 := by
  unfold visitDeclarator
  simp only
  split
  · exact idles_declare source state frame.tree frame.context _ kind typeRef
  · split
    · exact idles_declareQualified source state frame.tree frame.context kind typeRef
    · split
      · cases parameters with
        | some scope => exact .refl state
        | none => exact idles_pushScope state .function frame.context.scope
      · split
        · exact .refl state
        · split
          · split
            · exact idles_declare source state _ frame.context _ kind typeRef
            · exact .refl state
          · split
            · exact idles_declareEach source state frame.context _ .variable _
            · split <;> exact .refl state

theorem idles_visitPlain (declaresTag : Bool) :
    Idles state (visitPlain source state tree declaresTag context).1 := by
  have opened := idles_openDeclaration state context tree.kind
  unfold visitPlain
  split
  · exact .refl state
  · exact opened.trans (idles_pushScope _ .function _)
  · exact opened
  · exact idles_visitClass source state tree context _ declaresTag
  · exact idles_visitEnum source state tree context declaresTag
  · exact idles_visitEnumerator source state tree context
  · exact idles_visitNamespace source state tree context
  · exact opened.trans (idles_pushScope _ .templateHead _)
  · exact idles_visitTypeParameter source state tree context
  · exact idles_visitAlias source state tree context
  · exact idles_visitUsing source state tree context
  · exact idles_visitMacroDefinition source state tree context
  · exact idles_visitDirective source state tree context
  · exact .refl state
  · exact idles_visitBlock state tree context
  · exact idles_pushScope state .function context.scope
  · exact .refl state
  · exact idles_visitUse source state tree context .ordinary .none
  · exact .refl state

/-- A visit that declares nothing leaves scopes and members as they are. -/
theorem visit_idles (frame : Frame) : Idles state (visit source state frame).1 := by
  unfold visit
  split
  · exact idles_visitPlain source state frame.tree frame.context frame.declaresTag
  · exact .refl state
  · exact idles_visitDeclarator source state frame _ _ _
  · split
    · have notes := addName_notesNames source state frame.tree frame.context
      apply (Idles.of_notes notes).trans
      exact .of_same (.of_same rfl rfl rfl fun _ => rfl) rfl fun _ => rfl
    · exact idles_visitPlain source state frame.tree frame.context frame.declaresTag
  · exact .refl state

end Visits

/-- From one moment of a walk to a later one, scopes and members stay as they are unless something
is declared. -/
theorem Reaches.idles {source : List Char} {start state : State}
    {frames visited waiting : List Frame}
    (reached : Reaches source start frames visited state waiting) : Idles start state := by
  induction reached with
  | start => exact .refl start
  | @visit visited waiting state frame _ ih => exact ih.trans (visit_idles source state frame)

end CrossReference.Walk
