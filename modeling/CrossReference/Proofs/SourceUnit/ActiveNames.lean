import CrossReference.Proofs.TranslationUnit.Forest
import CrossReference.Proofs.Walk.Activity

/-!
# Names that are compiled in

A frame that is compiled in has an owner that is.  So a declaration that is begun inside one that is
not compiled in is not compiled in either, however many conditions lie between them, and collecting
only what is compiled in finds the names whose own declaration is.
-/

set_option autoImplicit false

namespace CrossReference

namespace Walk

variable {source : List Char} {state after : State} {frame : Frame} {frames waiting : List Frame}

theorem mem_nestedIn_known {outer inner : Nat} (member : inner ∈ state.nestedIn outer) :
    outer < state.declarations.size := by
  apply Nat.lt_of_not_le
  intro unknown
  simp [State.nestedIn, Array.getElem?_eq_none unknown] at member

theorem exists_mark? {declaration : Nat} (known : declaration < state.declarations.size) :
    ∃ mark, state.mark? declaration = some mark := by
  apply Option.ne_none_iff_exists'.1
  intro none
  have unknown := (State.mark?_eq_none_iff state).1 none
  omega

/-- Between two visits nothing that is compiled in lies inside of what is not, neither a declaration
nor a frame that waits. -/
structure ActiveInside (state : State) (frames : List Frame) : Prop where
  nested : ∀ outer inner mark innerMark, inner ∈ state.nestedIn outer →
    state.mark? outer = some mark → state.mark? inner = some innerMark →
      innerMark.2 = true → mark.2 = true
  known : ∀ outer, ∀ inner ∈ state.nestedIn outer, inner < state.declarations.size
  owners : ∀ frame ∈ frames, ∀ owner, frame.context.owner = some owner →
    ∃ mark, state.mark? owner = some mark ∧ (frame.context.active = true → mark.2 = true)

namespace ActiveInside

theorem start (tagsAreTypes : Bool) (tree : ParseTree) :
    ActiveInside (State.initial tagsAreTypes) [Frame.root tree] where
  nested outer inner mark innerMark member := by simp [State.nestedIn, State.initial] at member
  known outer inner member := by simp [State.nestedIn, State.initial] at member
  owners frame member owner isOwner := by
    rw [List.mem_singleton.1 member] at isOwner
    cases isOwner

theorem owners_of_grows (inside : ActiveInside state frames) (grows : State.Grows state after) :
    ∀ frame ∈ frames, ∀ owner, frame.context.owner = some owner →
      ∃ mark, after.mark? owner = some mark ∧ (frame.context.active = true → mark.2 = true) := by
  intro frame member owner isOwner
  obtain ⟨mark, marked, active⟩ := inside.owners frame member owner isOwner
  exact ⟨mark, grows.mark?_eq marked, active⟩

theorem nested_of_grows (inside : ActiveInside state frames) (grows : State.Grows state after)
    {outer inner : Nat} {mark innerMark : String × Bool} (member : inner ∈ state.nestedIn outer)
    (marked : after.mark? outer = some mark) (innerMarked : after.mark? inner = some innerMark)
    (active : innerMark.2 = true) : mark.2 = true := by
  rw [grows.marks outer (mem_nestedIn_known member)] at marked
  rw [grows.marks inner (inside.known outer inner member)] at innerMarked
  exact inside.nested outer inner mark innerMark member marked innerMarked active

theorem stay (inside : ActiveInside state (frame :: waiting))
    (stays : Stays frame.context.owner state (visit source state frame)) :
    ActiveInside (visit source state frame).1 ((visit source state frame).2 ++ waiting) := by
  obtain ⟨grows, -⟩ := visit_grows source state frame
  have same (outer : Nat) : (visit source state frame).1.nestedIn outer = state.nestedIn outer :=
    stays.fills.under (some outer)
  have owners := inside.owners_of_grows grows
  constructor
  case nested =>
    intro outer inner mark innerMark member marked innerMarked active
    rw [same] at member
    exact inside.nested_of_grows grows member marked innerMarked active
  case known =>
    intro outer inner member
    rw [same] at member
    rw [stays.fills.size]
    exact inside.known outer inner member
  case owners =>
    intro next member owner isOwner
    rcases List.mem_append.1 member with left | waits
    · rw [stays.owners next left] at isOwner
      obtain ⟨mark, marked, active⟩ := owners frame List.mem_cons_self owner isOwner
      obtain ⟨-, isActive⟩ := active_of_mem_visit source left
      exact ⟨mark, marked, fun nextActive => active (isActive nextActive)⟩
    · exact owners next (List.mem_cons_of_mem _ waits) owner isOwner

/-- A declaration that a visit begins is compiled in just as the frame is, and it owns the frames
that are left. -/
theorem begin (inside : ActiveInside state (frame :: waiting))
    (begins : Begins frame.tree frame.context state (visit source state frame)) :
    ActiveInside (visit source state frame).1 ((visit source state frame).2 ++ waiting) := by
  obtain ⟨grows, opens⟩ := visit_grows source state frame
  have size : (visit source state frame).1.declarations.size = state.declarations.size + 1 := by
    rw [begins.fills.size, State.openDeclaration_size]
  have ownerKnown : ∀ declaration, frame.context.owner = some declaration →
      declaration < state.declarations.size := by
    intro declaration isOwner
    obtain ⟨mark, marked, -⟩ := inside.owners frame List.mem_cons_self declaration isOwner
    apply Nat.lt_of_not_le
    intro unknown
    rw [(State.mark?_eq_none_iff state).2 unknown] at marked
    cases marked
  have under (outer : Nat) : (visit source state frame).1.nestedIn outer =
      state.nestedIn outer ++
        if some outer = frame.context.owner then [state.declarations.size] else [] := by
    have filled := begins.fills.under (some outer)
    rw [openDeclaration_under state frame.tree.kind frame.context ownerKnown] at filled
    exact filled
  have owners := inside.owners_of_grows grows
  constructor
  case nested =>
    intro outer inner mark innerMark member marked innerMarked active
    rw [under] at member
    rcases List.mem_append.1 member with old | new
    · exact inside.nested_of_grows grows old marked innerMarked active
    · split at new
      · rename_i isOwner
        rw [List.mem_singleton.1 new] at innerMarked
        have asFrame := opens _ innerMark (Nat.le_refl _) innerMarked
        obtain ⟨ownerMark, ownerMarked, ownerActive⟩ :=
          owners frame List.mem_cons_self outer isOwner.symm
        rw [marked] at ownerMarked
        cases ownerMarked
        exact ownerActive (asFrame.symm.trans active)
      · cases new
  case known =>
    intro outer inner member
    rw [under] at member
    rcases List.mem_append.1 member with old | new
    · have isKnown := inside.known outer inner old
      omega
    · split at new
      · have isNew := List.mem_singleton.1 new
        omega
      · cases new
  case owners =>
    intro next member owner isOwner
    rcases List.mem_append.1 member with left | waits
    · rw [begins.owners next left] at isOwner
      obtain rfl : state.declarations.size = owner := Option.some.inj isOwner
      have isThere : state.declarations.size <
          (visit source state frame).1.declarations.size := by omega
      obtain ⟨mark, marked⟩ := exists_mark? isThere
      have asFrame := opens _ mark (Nat.le_refl _) marked
      obtain ⟨-, isActive⟩ := active_of_mem_visit source left
      exact ⟨mark, marked, fun nextActive => asFrame.trans (isActive nextActive)⟩
    · exact owners next (List.mem_cons_of_mem _ waits) owner isOwner

theorem run (inside : ActiveInside state frames) :
    ActiveInside (run source state frames) [] := by
  fun_induction Walk.run source state frames with
  | case1 state => exact inside
  | case2 state frame rest visited ih =>
    apply ih
    obtain stays | begins := visit_stays_or_begins source state frame
    · exact inside.stay stays
    · exact inside.begin begins

end ActiveInside

end Walk

namespace SourceUnit

open Walk

variable (source : List Char) (language : Language) (withDeclarations : Bool) (tree : ParseTree)

theorem namesApart_ofTree :
    (ofTree source language withDeclarations tree).toTranslationUnit.NamesApart :=
  ⟨(isIndexed_ofTree source language withDeclarations tree).once,
    (isIndexed_ofTree source language withDeclarations tree).apart⟩

theorem topLevel_isInFile (declaration : Nat)
    (isTop : declaration ∈ (ofTree source language withDeclarations tree).topLevel) :
    (ofTree source language withDeclarations tree).toTranslationUnit.isInFile declaration =
      true := by
  have forest := isForest_ofTree source language withDeclarations tree
  have known := List.mem_range.1 (forest.inOrder.mem_of_mem_roots isTop)
  simp only [toTranslationUnit, Array.size_map] at known
  simp [TranslationUnit.isInFile, toTranslationUnit, known]

theorem inheritsActivity_ofTree :
    (ofTree source language withDeclarations tree).toTranslationUnit.InheritsActivity := by
  intro outer inner member inactive
  rw [nested_ofTree] at member
  have inside : ActiveInside (walked source language tree) [] :=
    (ActiveInside.start (language = .cpp) tree).run
  obtain ⟨mark, marked⟩ := exists_mark? (mem_nestedIn_known member)
  obtain ⟨innerMark, innerMarked⟩ := exists_mark? (inside.known outer inner member)
  rw [isActive_eq_of_mark? source marked] at inactive
  rw [isActive_eq_of_mark? source innerMarked, ← Bool.not_eq_true]
  intro active
  rw [inside.nested outer inner mark innerMark member marked innerMarked active] at inactive
  cases inactive

/-- What is nested in an inactive declaration is inactive.  So a collection that leaves out inactive
declarations gives, in order, those of all collected names of which the declaration that they belong
to is active. -/
theorem active_names_are_those_of_active_declarations :
    (∀ outer inner,
      inner ∈ (ofTree source language withDeclarations tree).toTranslationUnit.nested outer →
      (ofTree source language withDeclarations tree).toTranslationUnit.isActive outer = false →
      (ofTree source language withDeclarations tree).toTranslationUnit.isActive inner = false) ∧
    (∀ name declaration,
      (ofTree source language withDeclarations tree).toTranslationUnit.owner? name =
          some declaration ↔
        name ∈ (ofTree source language withDeclarations tree).toTranslationUnit.names
          declaration) ∧
    (ofTree source language withDeclarations tree).toTranslationUnit.declarationNames false =
      ((ofTree source language withDeclarations tree).toTranslationUnit.declarationNames
        true).filter fun name =>
          ((ofTree source language withDeclarations tree).toTranslationUnit.owner? name).any
            (ofTree source language withDeclarations tree).toTranslationUnit.isActive := by
  have lists := namesApart_ofTree source language withDeclarations tree
  have inherits := inheritsActivity_ofTree source language withDeclarations tree
  refine ⟨inherits, fun name declaration => TranslationUnit.owner?_eq_some_iff lists, ?_⟩
  exact TranslationUnit.declarationNames_active
    (isForest_ofTree source language withDeclarations tree) lists
    (topLevel_isInFile source language withDeclarations tree) inherits

end SourceUnit

end CrossReference
