import CrossReference.Proofs.Walk.NameSpaces

/-!
# The home of a symbol

Without enumerators each symbol is in the tables of one scope only, and what a look-up finds in a
scope it finds there for good.  Both are kept by every edit of a walk: a new symbol is declared in
one scope, and only if nothing was found there.
-/

set_option autoImplicit false

namespace CrossReference.Walk

open ParseTree State

/-- Each symbol is declared in one scope at most, and the scopes of members are there. -/
structure Homed (state : State) : Prop where
  apart : state.scopes.Apart state.head?
  known : ∀ scope binding, state.scopes.HoldsIn scope binding → binding < state.symbols.size
  home : ∀ binding first second, state.scopes.HoldsIn first binding →
    state.scopes.HoldsIn second binding → first = second
  members : ∀ binding scope, state.memberScope? binding = some scope → scope < state.scopes.next

/-- What is there stays, and a look-up in a scope finds what it found. -/
structure Keeps (before after : State) : Prop where
  grows : Grows before after
  scopes : before.scopes.next ≤ after.scopes.next
  looks : ∀ space text scope binding, space ≠ NameSpace.qualifier →
    before.scopes.local? space text scope = some binding →
      after.scopes.local? space text scope = some binding

namespace Keeps

variable {before middle after : State}

theorem refl (state : State) : Keeps state state where
  grows := .refl state
  scopes := Nat.le_refl _
  looks _ _ _ _ _ := id

theorem trans (first : Keeps before middle) (last : Keeps middle after) : Keeps before after where
  grows := first.grows.trans last.grows
  scopes := Nat.le_trans first.scopes last.scopes
  looks space text scope binding plain found :=
    last.looks space text scope binding plain (first.looks space text scope binding plain found)

theorem of_same (grows : Grows before after) (scopes : after.scopes = before.scopes) :
    Keeps before after where
  grows := grows
  scopes := Nat.le_of_eq (by rw [scopes])
  looks _ _ _ _ _ found := by rwa [scopes]

theorem of_push (grows : Grows before after) {kind : ScopeKind} {parent : Option Nat}
    (scopes : after.scopes = before.scopes.push kind parent) : Keeps before after where
  grows := grows
  scopes := by simp [scopes, Scopes.next, Scopes.push]
  looks _ _ _ _ _ found := by
    rw [scopes, Scopes.local?_push]
    exact found

end Keeps

namespace Homed

variable {before after : State}

theorem initial (tagsAreTypes : Bool) : Homed (State.initial tagsAreTypes) where
  apart := .initial _
  known scope binding held := absurd held Scopes.not_holdsIn_initial
  home binding first second held := absurd held Scopes.not_holdsIn_initial
  members binding scope found := by simp [State.initial, memberScope?] at found

theorem of_holdsIn (homed : Homed before) (grows : Grows before after)
    (apart : after.scopes.Apart after.head?)
    (held : ∀ scope binding, after.scopes.HoldsIn scope binding →
      before.scopes.HoldsIn scope binding)
    (members : ∀ binding scope, after.memberScope? binding = some scope →
      scope < after.scopes.next) : Homed after where
  apart := apart
  known scope binding isHeld :=
    Nat.lt_of_lt_of_le (homed.known scope binding (held scope binding isHeld)) grows.symbols
  home binding first second one two :=
    homed.home binding first second (held first binding one) (held second binding two)
  members := members

theorem of_same (homed : Homed before) (grows : Grows before after)
    (scopes : after.scopes = before.scopes)
    (members : ∀ binding, after.memberScope? binding = before.memberScope? binding) :
    Homed after := by
  apply homed.of_holdsIn grows
  · rw [scopes]
    exact homed.apart.mono fun _ _ => grows.head?_eq
  · intro scope binding held
    rwa [scopes] at held
  · intro binding scope found
    rw [members] at found
    rw [scopes]
    exact homed.members binding scope found

theorem of_push (homed : Homed before) (grows : Grows before after) {kind : ScopeKind}
    {parent : Option Nat} (scopes : after.scopes = before.scopes.push kind parent)
    (members : ∀ binding scope, after.memberScope? binding = some scope →
      before.memberScope? binding = some scope ∨ scope = before.scopes.next) : Homed after := by
  have next : after.scopes.next = before.scopes.next + 1 := by
    simp [scopes, Scopes.next, Scopes.push]
  apply homed.of_holdsIn grows
  · rw [scopes]
    exact (homed.apart.mono fun _ _ => grows.head?_eq).push _ _
  · intro scope binding held
    rw [scopes] at held
    exact Scopes.holdsIn_of_push held
  · intro binding scope found
    rcases members binding scope found with old | new
    · have bound := homed.members binding scope old
      omega
    · omega

theorem of_declare (homed : Homed before)
    (apart : after.scopes.Apart after.head?) {scope : Nat} {space : NameSpace} {name : String}
    {position : Nat}
    (scopes : after.scopes =
      before.scopes.declare scope space name before.symbols.size position)
    (size : after.symbols.size = before.symbols.size + 1)
    (members : ∀ binding, after.memberScope? binding = before.memberScope? binding) :
    Homed after := by
  have held (other binding : Nat) (isHeld : after.scopes.HoldsIn other binding) :
      before.scopes.HoldsIn other binding ∨ other = scope ∧ binding = before.symbols.size := by
    rw [scopes] at isHeld
    exact Scopes.holdsIn_of_declare isHeld
  have next : after.scopes.next = before.scopes.next := by
    simp [scopes, Scopes.next, Scopes.declare]
  refine ⟨apart, ?_, ?_, ?_⟩
  · intro other binding isHeld
    rcases held other binding isHeld with old | ⟨-, new⟩
    · have bound := homed.known other binding old
      omega
    · omega
  · intro binding first second one two
    rcases held first binding one with old | ⟨here, new⟩ <;>
      rcases held second binding two with oldToo | ⟨hereToo, newToo⟩
    · exact homed.home binding first second old oldToo
    · have bound := homed.known first binding old
      omega
    · have bound := homed.known second binding oldToo
      omega
    · rw [here, hereToo]
  · intro binding other found
    rw [members] at found
    rw [next]
    exact homed.members binding other found

end Homed

/-! ## Edits -/

section Declarations

variable {source : List Char} {tree : ParseTree} {kind : SymbolKind} {result : Option Nat}
  {before after : State}

theorem State.Declares.homed (declares : Declares source tree kind result before after)
    (homed : Homed before) : Homed after := by
  obtain ⟨-, scopes, -⟩ | ⟨scope, existing, -, settles⟩ := declares.symbol
  · exact homed.of_same declares.grows scopes declares.memberScopes
  · have scopes := settles.scopes
    have size := settles.size
    cases existing with
    | some found => exact homed.of_same declares.grows scopes declares.memberScopes
    | none =>
      exact homed.of_declare (declares.apart homed.apart) scopes size declares.memberScopes

theorem State.Declares.keeps (declares : Declares source tree kind result before after)
    (apart : before.scopes.Apart before.head?) : Keeps before after := by
  obtain ⟨-, scopes, -⟩ | ⟨scope, existing, -, settles⟩ := declares.symbol
  · exact .of_same declares.grows scopes
  · have searched := existing_eq_local? apart settles
    have scopes := settles.scopes
    cases existing with
    | some found => exact .of_same declares.grows scopes
    | none =>
      refine ⟨declares.grows, ?_, ?_⟩
      · simp [scopes, Scopes.next, Scopes.declare]
      · intro space text other binding plain found
        rw [scopes]
        exact Scopes.local?_declare_kept kind.space_ne_qualifier plain searched.symm found

end Declarations

theorem openMembers_cases (state : State) (binding : Option Nat) (kind : ScopeKind)
    (parent : Nat) :
    (∃ scope, binding.bind state.memberScope? = some scope ∧
        state.openMembers binding kind parent = (state, scope)) ∨
      (state.openMembers binding kind parent).1.scopes = state.scopes.push kind (some parent) ∧
        (state.openMembers binding kind parent).2 = state.scopes.next ∧
        ∀ other scope,
          (state.openMembers binding kind parent).1.memberScope? other = some scope →
            state.memberScope? other = some scope ∨
              binding = some other ∧ scope = state.scopes.next := by
  unfold openMembers
  split
  · rename_i scope found
    exact .inl ⟨scope, found, rfl⟩
  · right
    cases binding with
    | none => exact ⟨rfl, rfl, fun _ _ => .inl⟩
    | some binding =>
      refine ⟨rfl, rfl, ?_⟩
      intro other scope found
      simp only [memberScope?, pushScope, Array.getElem?_modify] at found
      by_cases same : binding = other
      · rw [if_pos same] at found
        cases there : state.symbols[other]? with
        | none => simp [there] at found
        | some symbol => exact .inr ⟨by rw [same], by simpa [there] using found.symm⟩
      · rw [if_neg same] at found
        exact .inl found

theorem keeps_openMembers (state : State) (binding : Option Nat) (kind : ScopeKind)
    (parent : Nat) : Keeps state (state.openMembers binding kind parent).1 := by
  have grows := openMembers_grows state binding kind parent
  obtain same | pushed := openMembers_scopes state binding kind parent
  · exact .of_same grows same
  · exact .of_push grows pushed

section Members

variable {state : State} (binding : Option Nat) (kind : ScopeKind) (parent : Nat)

theorem openMembers_lt_next
    (made : ∀ binding scope, state.memberScope? binding = some scope → scope < state.scopes.next) :
    (state.openMembers binding kind parent).2 <
      (state.openMembers binding kind parent).1.scopes.next := by
  obtain ⟨scope, found, same⟩ | ⟨pushed, isNext, -⟩ :=
    openMembers_cases state binding kind parent
  · obtain ⟨owner, -, isScope⟩ := Option.bind_eq_some_iff.1 found
    rw [same]
    exact made owner scope isScope
  · rw [isNext, pushed]
    simp [Scopes.next, Scopes.push]

theorem Homed.openMembers (homed : Homed state) :
    Homed (state.openMembers binding kind parent).1 := by
  have grows := openMembers_grows state binding kind parent
  obtain ⟨scope, -, same⟩ | ⟨pushed, -, members⟩ := openMembers_cases state binding kind parent
  · rw [same]
    exact homed
  · exact homed.of_push grows pushed fun other scope found =>
      (members other scope found).imp_right And.right

end Members

/-- Every edit keeps what look-ups find, if enumerators are not made members of their enum. -/
theorem Edit.keeps {source : List Char} {frame : Frame} {before after : State}
    (edit : Edit source frame before after)
    (unshared : frame.tree.form = .enumerator → frame.declaredKind? ≠ some .enumerator)
    (apart : before.scopes.Apart before.head?) : Keeps before after := by
  have grows := edit.grows
  cases edit with
  | opened => exact .of_same grows (by simp)
  | noted notes => exact .of_same grows notes.scopes
  | declared isKind declares => exact declares.keeps apart
  | shared scope isEnumerator declares form => exact absurd isEnumerator (unshared form)
  | pushed kind parent => exact .of_push grows rfl
  | entered binding kind parent => exact keeps_openMembers before binding kind parent
  | specified => exact .of_same grows rfl
  | awaited => exact .of_same grows rfl
  | accessed => exact .of_same grows rfl
  | defined isDirective isKind defines => exact .of_same grows defines.scopes
  | revoked => exact .of_same grows rfl

theorem Edits.keeps {source : List Char} {frame : Frame} {before after : State}
    (edits : Edits source frame before after)
    (unshared : frame.tree.form = .enumerator → frame.declaredKind? ≠ some .enumerator)
    (apart : before.scopes.Apart before.head?) : Keeps before after := by
  induction edits with
  | refl => exact .refl before
  | tail first last ih => exact ih.trans (last.keeps unshared (Edits.tags first apart).apart)

/-- Every edit but those of enumerators leaves each symbol in its scope. -/
theorem Edit.homed {source : List Char} {frame : Frame} {before after : State}
    (edit : Edit source frame before after) (noEnumerator : frame.tree.form ≠ .enumerator)
    (homed : Homed before) : Homed after := by
  have grows := edit.grows
  cases edit with
  | opened => exact homed.of_same grows (by simp) fun _ => by simp [memberScope?]
  | noted notes =>
    exact homed.of_same grows notes.scopes notes.memberScopes
  | declared isKind declares => exact declares.homed homed
  | shared scope isEnumerator declares form => exact absurd form noEnumerator
  | pushed kind parent => exact homed.of_push grows rfl fun _ _ => .inl
  | entered binding kind parent => exact homed.openMembers binding kind parent
  | specified => exact homed.of_same grows rfl fun _ => rfl
  | awaited => exact homed.of_same grows rfl fun _ => rfl
  | accessed => exact homed.of_same grows rfl fun _ => rfl
  | defined isDirective isKind defines =>
    exact homed.of_same grows defines.scopes defines.memberScopes
  | revoked => exact homed.of_same grows rfl fun _ => rfl

theorem Edits.homed {source : List Char} {frame : Frame} {before after : State}
    (edits : Edits source frame before after) (noEnumerator : frame.tree.form ≠ .enumerator)
    (homed : Homed before) : Homed after ∧ Keeps before after := by
  refine ⟨?_, edits.keeps (fun form => absurd form noEnumerator) homed.apart⟩
  induction edits with
  | refl => exact homed
  | tail _ last ih => exact last.homed noEnumerator ih

end CrossReference.Walk
