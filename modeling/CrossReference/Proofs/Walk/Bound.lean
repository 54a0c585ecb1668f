import CrossReference.Proofs.Walk.NameSpaces

/-!
# Declared names are bound

A name that is declared without a qualifier gets a symbol right away, unless it spells nothing.
Only a name behind a qualifier may stay unbound, as the qualifier may lead nowhere.
-/

set_option autoImplicit false

namespace CrossReference.Walk

open ParseTree State

def hasQualifiedTag (tree : ParseTree) : Bool :=
  match tree.form with
  | .classSpecifier _ | .enumSpecifier =>
      (tree.child? "name").any fun name => isQualified name.kind
  | _ => false

def Frame.declaresQualified (frame : Frame) : Bool :=
  match frame.mode with
  | .plain | .member _ => hasQualifiedTag frame.tree
  | .declarator _ _ _ => isQualified frame.tree.kind
  | .body | .branch _ => false

def AddsUses (before after : State) : Prop :=
  ∀ name found, before.names.size ≤ name → after.names[name]? = some found →
    found.declares = false

theorem Edits.addsUses {source : List Char} {frame : Frame} {before after : State}
    (edits : Edits source frame before after) (nothing : frame.declaredKind? = none) :
    AddsUses before after := by
  have notKind {kind : SymbolKind} (isKind : frame.declaredKind? = some kind) : False := by
    rw [nothing] at isKind
    cases isKind
  induction edits with
  | refl => exact plain_of_names_eq rfl
  | @tail middle after _ last ih =>
    have step : AddsUses middle after := by
      cases last with
      | opened => exact plain_of_names_eq (by simp)
      | noted notes => exact notes.plain
      | declared isKind => exact (notKind isKind).elim
      | shared _ isKind => exact (notKind isKind).elim
      | pushed => exact plain_of_names_eq rfl
      | entered => exact plain_of_names_eq (by simp)
      | specified => exact plain_of_names_eq rfl
      | awaited => exact plain_of_names_eq rfl
      | accessed => exact plain_of_names_eq rfl
      | defined _ isKind => exact (notKind isKind).elim
      | revoked => exact plain_of_names_eq rfl
    intro name found new there
    by_cases known : name < middle.names.size
    · rw [last.grows.occurrences name known] at there
      exact ih name found new there
    · exact step name found (Nat.le_of_not_lt known) there

/-- All that is added and declares something is bound, unless it spells nothing. -/
structure Binds (before after : State) : Prop where
  grows : Grows before after
  bound : ∀ name found, before.names.size ≤ name → after.names[name]? = some found →
    found.declares = true → found.text ≠ "" → found.binding.isSome = true

namespace Binds

variable {before middle after : State}

theorem of_addsUses (grows : Grows before after) (uses : AddsUses before after) :
    Binds before after where
  grows := grows
  bound name found new there declares := by
    rw [uses name found new there] at declares
    cases declares

theorem of_names_eq (grows : Grows before after) (same : after.names = before.names) :
    Binds before after :=
  of_addsUses grows (plain_of_names_eq same)

theorem refl (state : State) : Binds state state :=
  of_names_eq (.refl state) rfl

theorem trans (first : Binds before middle) (last : Binds middle after) : Binds before after where
  grows := first.grows.trans last.grows
  bound name found new there declares spelled := by
    by_cases known : name < middle.names.size
    · rw [last.grows.occurrences name known] at there
      exact first.bound name found new there declares spelled
    · exact last.bound name found (Nat.le_of_not_lt known) there declares spelled

theorem of_push {added : NameNode} (grows : Grows before after)
    (pushed : after.names = before.names.push added)
    (bound : added.text ≠ "" → added.binding.isSome = true) : Binds before after where
  grows := grows
  bound name found new there _ spelled := by
    rw [pushed] at there
    obtain rfl := eq_of_getElem?_push new there
    exact bound spelled

end Binds

section Visits

variable (source : List Char) (state : State) (tree : ParseTree) (context : Context)

theorem binds_openDeclaration (kind : String) :
    Binds state (state.openDeclaration kind context).1 :=
  .of_names_eq (openDeclaration_grows state kind context) (by simp)

theorem binds_openMembers (binding : Option Nat) (kind : ScopeKind) (parent : Nat) :
    Binds state (state.openMembers binding kind parent).1 :=
  .of_names_eq (openMembers_grows state binding kind parent) (by simp)

theorem binds_noteSpecifier (scope : Nat) : Binds state (state.noteSpecifier tree scope) :=
  .of_names_eq (.of_same rfl rfl rfl fun _ => rfl) rfl

theorem binds_declare (scope : Nat) (kind : SymbolKind) (typeRef : Option TypeRef) :
    Binds state (state.declare source tree context scope kind typeRef).1 := by
  have declares := declare_declares source state tree context scope kind typeRef
  apply Binds.of_push declares.grows declares.names
  intro spelled
  obtain ⟨result, -⟩ := settle_settles source state tree context scope kind typeRef
    (state.scopes.local? kind.space (tree.text source) scope) spelled (.inl rfl)
  rw [declare_eq_settle, result]
  rfl

theorem binds_visitEach {step : State → ParseTree → Visited} {trees : List ParseTree}
    (each : ∀ state tree, Binds state (step state tree).1) (state : State) :
    Binds state (visitEach step trees state).1 := by
  induction trees generalizing state with
  | nil => exact .refl state
  | cons tree rest ih => exact (each state tree).trans (ih _)

theorem addsUses_of_edits {before after : State}
    (edits : Edits source ⟨tree, false, context, .body⟩ before after) : AddsUses before after :=
  edits.addsUses rfl

theorem binds_of_edits {before after : State}
    (edits : Edits source ⟨tree, false, context, .body⟩ before after) : Binds before after :=
  .of_addsUses edits.grows.1 (addsUses_of_edits source tree context edits)

theorem binds_visitTag (inner : Context) (declareIn : Nat) (kind : SymbolKind)
    (allowTemplate : Bool)
    (plain : (tree.child? "name").any (fun name => isQualified name.kind) = false) :
    Binds state (visitTag source state tree inner declareIn kind allowTemplate).1.1 := by
  unfold visitTag
  split
  · exact .refl state
  · rename_i name found
    have unqualified : isQualified name.kind = false := by simpa [found] using plain
    rw [if_neg (by simp [unqualified])]
    split
    · simp only
      split
      · exact binds_declare source state _ inner declareIn kind none
      · exact .refl state
    · exact binds_declare source state name inner declareIn kind none

theorem binds_visitClass (kind : SymbolKind) (declaresTag : Bool)
    (plain : (tree.child? "name").any (fun name => isQualified name.kind) = false) :
    Binds state (visitClass source state tree context kind declaresTag).1 := by
  unfold visitClass
  simp only
  split
  · exact binds_of_edits source tree context (edits_visitElaborated state tree context)
  · have opened := binds_openDeclaration state context tree.kind
    have tagged := opened.trans (binds_visitTag source _ tree
      (state.openDeclaration tree.kind context).2 context.declareIn kind true plain)
    split
    · exact tagged
    · have parts (inner : Context) (scope : Nat) (current : State) :
          Binds current
            (visitEach (visitClassPart source tree inner scope) tree.namedChildren current).1 := by
        apply binds_visitEach
        intro current child
        exact binds_of_edits source tree context
          (edits_visitClassPart tree inner scope current child)
      have entered (binding : Option Nat) :=
        tagged.trans (binds_openMembers _ binding .classBody context.scope)
      exact ((entered _).trans (binds_noteSpecifier _ tree _)).trans (parts _ _ _)

theorem binds_visitEnum (declaresTag : Bool)
    (plain : (tree.child? "name").any (fun name => isQualified name.kind) = false) :
    Binds state (visitEnum source state tree context declaresTag).1 := by
  unfold visitEnum
  simp only
  split
  · exact binds_of_edits source tree context (edits_visitElaborated state tree context)
  · have opened := binds_openDeclaration state context tree.kind
    have tagged := opened.trans (binds_visitTag source _ tree
      (state.openDeclaration tree.kind context).2 context.declareIn .enumName false plain)
    split
    · have entered (binding : Option Nat) :=
        tagged.trans (binds_openMembers _ binding .namespaceBody context.scope)
      exact (entered _).trans (binds_noteSpecifier _ tree _)
    · exact tagged

theorem binds_visitEnumerator : Binds state (visitEnumerator source state tree context).1 := by
  apply (binds_openDeclaration state context tree.kind).trans
  apply binds_visitEach
  intro current child
  split
  · exact .refl current
  · have declared := binds_declare source current child
      (state.openDeclaration tree.kind context).2 context.declareIn .enumerator none
    have shared (scopes : Scopes) (declared : State) :
        Binds declared { declared with scopes := scopes } :=
      .of_names_eq (.of_same rfl rfl rfl fun _ => rfl) rfl
    simp only
    split
    · split
      · exact declared.trans (shared _ _)
      · exact declared
    · exact declared

theorem binds_visitNamespaceSegments (inner : Context) (segments : List ParseTree) (scope : Nat) :
    Binds state (visitNamespaceSegments source inner segments state scope).1 := by
  induction segments generalizing state scope with
  | nil => exact .refl state
  | cons segment rest ih =>
    have declared := binds_declare source state segment inner scope .namespaceName none
    exact (declared.trans (binds_openMembers _ _ .namespaceBody scope)).trans (ih _ _)

theorem binds_visitNamespace : Binds state (visitNamespace source state tree context).1 := by
  apply (binds_openDeclaration state context tree.kind).trans
  exact binds_visitNamespaceSegments source _ _ _ _

theorem binds_visitTypeParameter :
    Binds state (visitTypeParameter source state tree context).1 := by
  apply (binds_openDeclaration state context tree.kind).trans
  apply binds_visitEach
  intro current child
  split
  · exact binds_declare source current child _ _ .templateParameter none
  · exact .refl current

theorem binds_visitAlias : Binds state (visitAlias source state tree context).1 := by
  apply (binds_openDeclaration state context tree.kind).trans
  apply binds_visitEach
  intro current child
  split
  · exact binds_declare source current child _ _ .typeAlias _
  · exact .refl current

theorem binds_visitMacroDefinition :
    Binds state (visitMacroDefinition source state tree context) := by
  have opened := binds_openDeclaration state context tree.kind
  unfold visitMacroDefinition
  simp only
  generalize (state.openDeclaration tree.kind context).2 = inner
  generalize (state.openDeclaration tree.kind context).1 = begun at opened ⊢
  split
  · exact opened
  · rename_i nameTree found
    split
    · rename_i unspelled
      have defines := addName_defines source begun nameTree inner
      apply opened.trans
      apply Binds.of_push defines.grows defines.names
      intro spelled
      exact absurd (String.isEmpty_iff.1 unspelled) spelled
    · have binds (values : Condition.Macros) :=
        defineMacro_defines source begun nameTree inner tree.stop values rfl
      have pushed (values : Condition.Macros) :=
        Binds.of_push (binds values).grows (binds values).names fun _ => rfl
      split
      · exact opened.trans (pushed _)
      · exact opened.trans (pushed _)

theorem binds_declareEach (scope : Nat) (kind : SymbolKind) (trees : List ParseTree) :
    Binds state (trees.foldl
      (fun state child => (state.declare source child context scope kind none).1) state) := by
  induction trees generalizing state with
  | nil => exact .refl state
  | cons tree rest ih =>
    exact (binds_declare source state tree context scope kind none).trans (ih _)

theorem visitDirective_quiet :
    Grows state (visitDirective source state tree context) ∧
      (visitDirective source state tree context).names = state.names := by
  unfold visitDirective
  simp only
  split
  · exact ⟨.refl state, rfl⟩
  · split
    · exact ⟨.refl state, rfl⟩
    · split <;> exact ⟨.of_same rfl rfl rfl fun _ => rfl, rfl⟩

theorem binds_visitDeclarator (frame : Frame) (kind : SymbolKind) (typeRef : Option TypeRef)
    (parameters : Option Nat) (plain : isQualified frame.tree.kind = false) :
    Binds state (visitDeclarator source state frame kind typeRef parameters).1 := by
  unfold visitDeclarator
  simp only
  split
  · exact binds_declare source state frame.tree frame.context _ kind typeRef
  · rw [if_neg (by simp [plain])]
    split
    · exact binds_of_edits source frame.tree frame.context
        (edits_visitFunctionDeclarator state frame.tree frame.context kind typeRef parameters)
    · split
      · exact .refl state
      · split
        · split
          · exact binds_declare source state _ frame.context _ kind typeRef
          · exact .refl state
        · split
          · exact binds_declareEach source state frame.context _ .variable _
          · split <;> exact .refl state

theorem binds_visitPlain (declaresTag : Bool) (plain : hasQualifiedTag tree = false) :
    Binds state (visitPlain source state tree declaresTag context).1 := by
  unfold visitPlain
  split
  · exact .refl state
  · exact binds_of_edits source tree context (edits_visitFunction state)
  · exact binds_openDeclaration state context tree.kind
  · rename_i kind form
    apply binds_visitClass
    simpa [hasQualifiedTag, form] using plain
  · rename_i form
    apply binds_visitEnum
    simpa [hasQualifiedTag, form] using plain
  · exact binds_visitEnumerator source state tree context
  · exact binds_visitNamespace source state tree context
  · exact binds_of_edits source tree context (edits_visitTemplate state)
  · exact binds_visitTypeParameter source state tree context
  · exact binds_visitAlias source state tree context
  · exact binds_of_edits source tree context (edits_visitUsing state)
  · exact binds_visitMacroDefinition source state tree context
  · obtain ⟨grows, names⟩ := visitDirective_quiet source state tree context
    exact .of_names_eq grows names
  · exact .refl state
  · exact binds_of_edits source tree context (edits_visitBlock state tree context)
  · exact binds_of_edits source tree context (edits_visitLambda state tree context)
  · exact .refl state
  · exact binds_of_edits source tree context (edits_visitUse state tree context _ _)
  · exact .refl state

/-- What a visit declares without a qualifier is bound, unless it spells nothing. -/
theorem visit_binds (frame : Frame) (plain : frame.declaresQualified = false) :
    Binds state (visit source state frame).1 := by
  unfold Frame.declaresQualified at plain
  unfold visit
  split <;> rename_i manner <;> simp only [manner] at plain
  · exact binds_visitPlain source state frame.tree frame.context frame.declaresTag plain
  · exact .refl state
  · exact binds_visitDeclarator source state frame _ _ _ plain
  · split
    · have notes := addName_notesNames source state frame.tree frame.context
      apply (Binds.of_addsUses notes.grows notes.plain).trans
      exact .of_names_eq (.of_same rfl rfl rfl fun _ => rfl) rfl
    · exact binds_visitPlain source state frame.tree frame.context frame.declaresTag plain
  · exact .refl state

end Visits

end CrossReference.Walk
