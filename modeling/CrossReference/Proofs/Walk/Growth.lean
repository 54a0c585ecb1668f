import CrossReference.Proofs.Walk.Edit
import CrossReference.Proofs.Walk.Reaches

/-!
# What a walk leaves as it is

The state only grows while a walk goes on.  The declarations that a visit adds are compiled in just
as the frame visited, and only definitions of macros and directives change what is known of macros.
-/

set_option autoImplicit false

namespace CrossReference.Walk

open ParseTree Relation

variable {source : List Char} {frame : Frame}

/-! ## Edits -/

theorem Edit.grows {before after : State} (edit : Edit source frame before after) :
    State.Grows before after := by
  cases edit with
  | opened => exact State.openDeclaration_grows _ _ _
  | noted notes => exact notes.grows
  | declared isKind declares => exact declares.grows
  | shared scope isEnumerator declares =>
    exact declares.grows.trans (.of_same rfl rfl rfl fun _ => rfl)
  | pushed => exact .of_same rfl rfl rfl fun _ => rfl
  | entered => exact State.openMembers_grows _ _ _ _
  | specified => exact .of_same rfl rfl rfl fun _ => rfl
  | awaited => exact .of_same rfl rfl rfl fun _ => rfl
  | accessed => exact .of_same rfl rfl rfl fun _ => rfl
  | defined isDirective isKind defines => exact defines.grows
  | revoked => exact .of_same rfl rfl rfl fun _ => rfl

theorem Edit.macros_eq {before after : State} (edit : Edit source frame before after)
    (notDirective : frame.isDirective = false) :
    after.macros = before.macros ∧ after.macroValues = before.macroValues := by
  cases edit with
  | opened => simp
  | noted notes => exact ⟨notes.macros, notes.macroValues⟩
  | declared isKind declares => exact ⟨declares.macros, declares.macroValues⟩
  | shared scope isEnumerator declares => exact ⟨declares.macros, declares.macroValues⟩
  | pushed => exact ⟨rfl, rfl⟩
  | entered => simp
  | specified => exact ⟨rfl, rfl⟩
  | awaited => exact ⟨rfl, rfl⟩
  | accessed => exact ⟨rfl, rfl⟩
  | defined isDirective => exact absurd isDirective (by simp [notDirective])
  | revoked _ _ isDirective => exact absurd isDirective (by simp [notDirective])

theorem Edits.macros_eq {before after : State} (edits : Edits source frame before after)
    (notDirective : frame.isDirective = false) :
    after.macros = before.macros ∧ after.macroValues = before.macroValues := by
  induction edits with
  | refl => exact ⟨rfl, rfl⟩
  | tail _ last ih =>
    obtain ⟨macros, values⟩ := last.macros_eq notDirective
    exact ⟨macros.trans ih.1, values.trans ih.2⟩

/-- All declarations that a state has and an earlier one lacks are compiled in, or none is. -/
def OpensOnly (active : Bool) (before after : State) : Prop :=
  ∀ declaration mark, before.declarations.size ≤ declaration →
    after.mark? declaration = some mark → mark.2 = active

namespace OpensOnly

theorem of_marks {active : Bool} {before after : State}
    (same : ∀ declaration, after.mark? declaration = before.mark? declaration) :
    OpensOnly active before after := by
  intro declaration mark new found
  rw [same, (State.mark?_eq_none_iff before).2 new] at found
  cases found

theorem refl (active : Bool) (state : State) : OpensOnly active state state :=
  of_marks fun _ => rfl

theorem trans {active : Bool} {before middle after : State}
    (first : OpensOnly active before middle) (grows : State.Grows middle after)
    (last : OpensOnly active middle after) : OpensOnly active before after := by
  intro declaration mark new found
  by_cases known : declaration < middle.declarations.size
  · exact first declaration mark new (grows.marks declaration known ▸ found)
  · exact last declaration mark (Nat.le_of_not_lt known) found

theorem openDeclaration (state : State) (kind : String) (context : Context) :
    OpensOnly context.active state (state.openDeclaration kind context).1 := by
  intro declaration mark new found
  rw [State.openDeclaration_mark?] at found
  split at found
  · cases found
    rfl
  · rw [(State.mark?_eq_none_iff state).2 new] at found
    cases found

end OpensOnly

theorem Edit.opensOnly {before after : State} (edit : Edit source frame before after) :
    OpensOnly frame.context.active before after := by
  cases edit with
  | opened => exact .openDeclaration _ _ _
  | noted notes => exact .of_marks notes.marks
  | declared isKind declares => exact .of_marks declares.marks
  | shared scope isEnumerator declares => exact .of_marks declares.marks
  | pushed => exact .of_marks fun _ => rfl
  | entered => exact .of_marks fun _ => by simp [State.mark?]
  | specified => exact .of_marks fun _ => rfl
  | awaited => exact .of_marks fun _ => rfl
  | accessed => exact .of_marks fun _ => rfl
  | defined isDirective isKind defines => exact .of_marks defines.marks
  | revoked => exact .of_marks fun _ => rfl

theorem Edits.grows {before after : State} (edits : Edits source frame before after) :
    State.Grows before after ∧ OpensOnly frame.context.active before after := by
  induction edits with
  | refl => exact ⟨.refl _, .refl _ _⟩
  | tail _ last ih => exact ⟨ih.1.trans last.grows, ih.2.trans last.grows last.opensOnly⟩

/-! ## The whole walk -/

theorem visit_of_isDirective (source : List Char) (state : State)
    (isDirective : frame.isDirective = true) :
    frame.tree.form = .macroDefinition ∧
        visit source state frame =
          (visitMacroDefinition source state frame.tree frame.context, []) ∨
      frame.tree.form = .directive ∧
        visit source state frame = (visitDirective source state frame.tree frame.context, []) := by
  have noName {form : Form} (same : frame.tree.form = form) (other : form ≠ .name) :
      frame.tree.kind ≠ "field_identifier" := by
    intro isName
    rw [ParseTree.form, isName] at same
    exact other (same ▸ by decide)
  unfold Frame.isDirective at isDirective
  unfold visit
  split at isDirective
  · rename_i plain
    simp only [Bool.or_eq_true, decide_eq_true_eq] at isDirective
    rcases isDirective with definition | directive
    · exact .inl ⟨definition, by simp [plain, visitPlain, definition]⟩
    · exact .inr ⟨directive, by simp [plain, visitPlain, directive]⟩
  · rename_i object member
    simp only [Bool.or_eq_true, decide_eq_true_eq] at isDirective
    rcases isDirective with definition | directive
    · have other := noName definition nofun
      exact .inl ⟨definition, by simp [member, visitPlain, definition, other]⟩
    · have other := noName directive nofun
      exact .inr ⟨directive, by simp [member, visitPlain, directive, other]⟩
  all_goals cases isDirective

theorem visit_macros_eq (source : List Char) (state : State) {frame : Frame}
    (notDirective : frame.isDirective = false) :
    (visit source state frame).1.macros = state.macros ∧
      (visit source state frame).1.macroValues = state.macroValues :=
  (edits_visit source state frame).macros_eq notDirective

/-- In a visit the state grows by declarations that are compiled in just as the frame is. -/
theorem visit_grows (source : List Char) (state : State) (frame : Frame) :
    State.Grows state (visit source state frame).1 ∧
      OpensOnly frame.context.active state (visit source state frame).1 :=
  (edits_visit source state frame).grows

/-- What each edit of each frame preserves, a walk preserves. -/
theorem run_invariant {holds : State → Prop}
    (each : ∀ frame before after, Edit source frame before after → holds before → holds after)
    (state : State) (frames : List Frame) (initial : holds state) :
    holds (run source state frames) := by
  fun_induction run source state frames with
  | case1 state => exact initial
  | case2 state frame rest visited ih =>
    exact ih ((edits_visit source state frame).invariant (each frame) initial)

/-- A state only grows while a walk goes on. -/
theorem run_grows (source : List Char) (state : State) (frames : List Frame) :
    State.Grows state (run source state frames) := by
  fun_induction run source state frames with
  | case1 state => exact .refl state
  | case2 state frame rest visited ih => exact (visit_grows source state frame).1.trans ih

end CrossReference.Walk
