import CrossReference.Proofs.Walk.Homes

/-!
# The scopes of members

A symbol has one scope for its members as soon as that is asked for, and no other symbol has that
scope.  This holds through all edits of a walk, as a scope of members is always the next one to be
made.
-/

set_option autoImplicit false

namespace CrossReference.Walk

open ParseTree State

/-! ## Scopes are only made -/

theorem State.Declares.next_eq {source : List Char} {tree : ParseTree} {kind : SymbolKind}
    {result : Option Nat} {before after : State}
    (declares : Declares source tree kind result before after) :
    after.scopes.next = before.scopes.next := by
  obtain ⟨-, scopes, -⟩ | ⟨scope, existing, -, settles⟩ := declares.symbol
  · rw [scopes]
  · rw [settles.scopes]
    split <;> simp [Scopes.next, Scopes.declare]

theorem Edit.next_le {source : List Char} {frame : Frame} {before after : State}
    (edit : Edit source frame before after) : before.scopes.next ≤ after.scopes.next := by
  cases edit with
  | opened => simp
  | noted notes => exact Nat.le_of_eq (by rw [notes.scopes])
  | declared isKind declares => exact Nat.le_of_eq declares.next_eq.symm
  | shared scope isEnumerator declares =>
    rw [← declares.next_eq]
    simp [Scopes.next, Scopes.declare]
  | pushed kind parent => simp [pushScope, Scopes.next, Scopes.push]
  | entered binding kind parent => exact (keeps_openMembers before binding kind parent).scopes
  | specified => exact Nat.le_refl _
  | awaited => exact Nat.le_refl _
  | accessed => exact Nat.le_refl _
  | defined isDirective isKind defines => exact Nat.le_of_eq (by rw [defines.scopes])
  | revoked => exact Nat.le_refl _

theorem Edits.next_le {source : List Char} {frame : Frame} {before after : State}
    (edits : Edits source frame before after) : before.scopes.next ≤ after.scopes.next := by
  induction edits with
  | refl => exact Nat.le_refl _
  | tail _ last ih => exact Nat.le_trans ih last.next_le

/-! ## Scopes of members have been made -/

def MembersMade (state : State) : Prop :=
  ∀ binding scope, state.memberScope? binding = some scope → scope < state.scopes.next

theorem MembersMade.of_same {before after : State} (members : MembersMade before)
    (same : ∀ binding, after.memberScope? binding = before.memberScope? binding)
    (made : before.scopes.next ≤ after.scopes.next) : MembersMade after :=
  fun binding scope found =>
    Nat.lt_of_lt_of_le (members binding scope (same binding ▸ found)) made

theorem MembersMade.openMembers {state : State} (members : MembersMade state)
    (binding : Option Nat) (kind : ScopeKind) (parent : Nat) :
    MembersMade (state.openMembers binding kind parent).1 := by
  have made := (keeps_openMembers state binding kind parent).scopes
  obtain ⟨scope, -, same⟩ | ⟨pushed, -, known⟩ := openMembers_cases state binding kind parent
  · rw [same]
    exact members
  · intro other scope found
    rcases known other scope found with old | ⟨-, isNext⟩
    · exact Nat.lt_of_lt_of_le (members other scope old) made
    · rw [isNext, pushed]
      simp [Scopes.next, Scopes.push]

theorem Edit.membersMade {source : List Char} {frame : Frame} {before after : State}
    (edit : Edit source frame before after) (members : MembersMade before) :
    MembersMade after := by
  have made := edit.next_le
  cases edit with
  | opened => exact members.of_same (fun _ => by simp [memberScope?]) made
  | noted notes => exact members.of_same notes.memberScopes made
  | declared isKind declares => exact members.of_same declares.memberScopes made
  | shared scope isEnumerator declares => exact members.of_same declares.memberScopes made
  | pushed kind parent => exact members.of_same (fun _ => rfl) made
  | entered binding kind parent => exact members.openMembers binding kind parent
  | specified => exact members.of_same (fun _ => rfl) made
  | awaited => exact members.of_same (fun _ => rfl) made
  | accessed => exact members.of_same (fun _ => rfl) made
  | defined isDirective isKind defines => exact members.of_same defines.memberScopes made
  | revoked => exact members.of_same (fun _ => rfl) made

theorem Edits.membersMade {source : List Char} {frame : Frame} {before after : State}
    (edits : Edits source frame before after) (members : MembersMade before) :
    MembersMade after :=
  edits.invariant (fun _ _ edit => edit.membersMade) members

/-! ## Each scope has the members of one symbol -/

/-- Scopes of members have been made, none is the file scope, and no two symbols share one. -/
structure MembersApart (state : State) : Prop where
  file : Scopes.file < state.scopes.next
  made : ∀ binding scope, state.memberScope? binding = some scope → scope < state.scopes.next
  inner : ∀ binding scope, state.memberScope? binding = some scope → scope ≠ Scopes.file
  apart : ∀ first second scope, state.memberScope? first = some scope →
    state.memberScope? second = some scope → first = second

def KeepsMembers (before after : State) : Prop :=
  ∀ binding scope, before.memberScope? binding = some scope →
    after.memberScope? binding = some scope

theorem openMembers_memberScope? {state : State} {binding : Nat}
    (known : binding < state.symbols.size) (kind : ScopeKind) (parent : Nat) :
    (state.openMembers (some binding) kind parent).1.memberScope? binding =
      some (state.openMembers (some binding) kind parent).2 := by
  unfold openMembers
  split
  · rename_i scope found
    exact found
  · simp [memberScope?, pushScope, Array.getElem?_modify, Array.getElem?_eq_getElem known]

theorem openMembers_keepsMembers (state : State) (binding : Option Nat) (kind : ScopeKind)
    (parent : Nat) : KeepsMembers state (state.openMembers binding kind parent).1 := by
  intro other scope found
  unfold openMembers
  split
  · exact found
  · rename_i unknown
    cases binding with
    | none => exact found
    | some binding =>
      have different : binding ≠ other := by
        rintro rfl
        rw [Option.bind_some, found] at unknown
        cases unknown
      simpa [memberScope?, pushScope, Array.getElem?_modify, different] using found

namespace MembersApart

variable {before after : State}

theorem initial (tagsAreTypes : Bool) : MembersApart (State.initial tagsAreTypes) where
  file := by decide +revert
  made binding scope found := by simp [State.initial, memberScope?] at found
  inner binding scope found := by simp [State.initial, memberScope?] at found
  apart first second scope found := by simp [State.initial, memberScope?] at found

theorem of_same (members : MembersApart before)
    (same : ∀ binding, after.memberScope? binding = before.memberScope? binding)
    (made : before.scopes.next ≤ after.scopes.next) :
    MembersApart after ∧ KeepsMembers before after where
  left :=
    { file := Nat.lt_of_lt_of_le members.file made
      made := fun binding scope found =>
        Nat.lt_of_lt_of_le (members.made binding scope (same binding ▸ found)) made
      inner := fun binding scope found => members.inner binding scope (same binding ▸ found)
      apart := fun first second scope one two =>
        members.apart first second scope (same first ▸ one) (same second ▸ two) }
  right binding _ found := (same binding).trans found

theorem openMembers (members : MembersApart before) (binding : Option Nat) (kind : ScopeKind)
    (parent : Nat) : MembersApart (before.openMembers binding kind parent).1 := by
  obtain ⟨scope, -, same⟩ | ⟨pushed, -, known⟩ := openMembers_cases before binding kind parent
  · rw [same]
    exact members
  have next : (before.openMembers binding kind parent).1.scopes.next = before.scopes.next + 1 := by
    simp [pushed, Scopes.next, Scopes.push]
  refine ⟨?_, ?_, ?_, ?_⟩
  · have file := members.file
    omega
  · intro other scope found
    rcases known other scope found with old | ⟨-, new⟩
    · have made := members.made other scope old
      omega
    · omega
  · intro other scope found
    rcases known other scope found with old | ⟨-, new⟩
    · exact members.inner other scope old
    · have file := members.file
      omega
  · intro first second scope one two
    rcases known first scope one with old | ⟨isFirst, new⟩ <;>
      rcases known second scope two with oldToo | ⟨isSecond, newToo⟩
    · exact members.apart first second scope old oldToo
    · have made := members.made first scope old
      omega
    · have made := members.made second scope oldToo
      omega
    · exact Option.some.inj (isFirst.symm.trans isSecond)

end MembersApart

theorem Edit.membersApart {source : List Char} {frame : Frame} {before after : State}
    (edit : Edit source frame before after) (members : MembersApart before) :
    MembersApart after ∧ KeepsMembers before after := by
  have made := edit.next_le
  cases edit with
  | opened => exact members.of_same (fun _ => by simp [memberScope?]) made
  | noted notes => exact members.of_same notes.memberScopes made
  | declared isKind declares => exact members.of_same declares.memberScopes made
  | shared scope isEnumerator declares => exact members.of_same declares.memberScopes made
  | pushed kind parent => exact members.of_same (fun _ => rfl) made
  | entered binding kind parent =>
    exact ⟨members.openMembers binding kind parent,
      openMembers_keepsMembers before binding kind parent⟩
  | specified => exact members.of_same (fun _ => rfl) made
  | awaited => exact members.of_same (fun _ => rfl) made
  | accessed => exact members.of_same (fun _ => rfl) made
  | defined isDirective isKind defines => exact members.of_same defines.memberScopes made
  | revoked => exact members.of_same (fun _ => rfl) made

theorem Edits.membersApart {source : List Char} {frame : Frame} {before after : State}
    (edits : Edits source frame before after) (members : MembersApart before) :
    MembersApart after ∧ KeepsMembers before after := by
  induction edits with
  | refl => exact ⟨members, fun _ _ => id⟩
  | tail _ last ih =>
    obtain ⟨between, first⟩ := ih
    obtain ⟨final, second⟩ := last.membersApart between
    exact ⟨final, fun binding scope found => second binding scope (first binding scope found)⟩

theorem Reaches.membersApart {source : List Char} {tagsAreTypes : Bool}
    {frames visited waiting : List Frame} {state : State}
    (reached : Reaches source (State.initial tagsAreTypes) frames visited state waiting) :
    MembersApart state :=
  reached.invariant (fun _ state _ => MembersApart state) (.initial tagsAreTypes)
    fun _ state frame _ _ members => ((edits_visit source state frame).membersApart members).1

end CrossReference.Walk
