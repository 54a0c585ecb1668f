import CrossReference.Proofs.Scope.Later
import CrossReference.Proofs.Walk.FirstSegment

/-!
# What is seen from a scope

A search comes from a scope to those around it, and to those from which these take names.  Names are
only taken from scopes of members.  So a scope that is none, as that of a function or of the head of a
template, is seen from inside of it alone.
-/

set_option autoImplicit false

namespace CrossReference

namespace Scopes

variable {scopes : Scopes} {scope target : Nat}

/-- A search that starts in a scope may come to another one. -/
def Sees (scopes : Scopes) (scope target : Nat) : Prop :=
  ∃ around path, scopes.Encloses around scope ∧ scopes.follow around path = some target

/-- Whatever a search finds is an entry of a scope that is seen. -/
theorem exists_sees_of_lookup {space : NameSpace} {name : String} {position binding : Nat}
    (nested : scopes.Nested)
    (found : scopes.lookup space name position scope = some binding) :
    ∃ target entry, scopes.Sees scope target ∧
      Scopes.entry? scopes space name target = some entry ∧ entry.binding = binding := by
  obtain ⟨home, around, has, -⟩ := (lookup_eq_some_iff nested).1 found
  rcases has with ⟨own, entry, there, isEntry, -, bound⟩ | ⟨-, path, -, offers, -⟩
  · exact ⟨home, entry, ⟨home, [], around, rfl⟩, by simpa [there, Scopes.entry?], bound⟩
  · obtain ⟨target, entry, leads, isEntry, bound⟩ := offers
    exact ⟨target, entry, ⟨home, path, around, leads⟩, isEntry, bound⟩

theorem eq_or_mem_imports_of_follow {path : List Nat}
    (leads : scopes.follow scope path = some target) :
    scope = target ∨ ∃ taker, target ∈ scopes.imports taker := by
  induction path generalizing scope with
  | nil => exact .inl (Option.some.inj leads)
  | cons edge rest ih =>
    obtain ⟨next, isEdge, further⟩ := Option.bind_eq_some_iff.1 leads
    rcases ih further with rfl | taken
    · exact .inr ⟨scope, List.mem_of_getElem? isEdge⟩
    · exact .inr taken

theorem not_sees (outside : ¬ scopes.Encloses target scope)
    (untaken : ∀ taker, target ∉ scopes.imports taker) : ¬ scopes.Sees scope target := by
  rintro ⟨around, path, isAround, leads⟩
  rcases eq_or_mem_imports_of_follow leads with rfl | ⟨taker, taken⟩
  · exact outside isAround
  · exact untaken taker taken

/-- A scope does not lie around what is inside of another one if it is made after that one, and what
is around it before. -/
theorem not_encloses_of_parent_lt {inner parent : Nat} {found : Scope} (nested : scopes.Nested)
    (inside : scopes.Encloses scope inner) (there : scopes.all[target]? = some found)
    (isParent : found.parent = some parent) (earlier : parent < scope) (later : scope < target) :
    ¬ scopes.Encloses target inner := by
  intro around
  have between := inside.of_le nested around (Nat.le_of_lt later)
  have ofParent := between.of_parent there isParent (Nat.ne_of_lt later)
  exact absurd (ofParent.le nested) (Nat.not_le_of_lt earlier)

theorem Extends.encloses_of_lt {before after : Scopes} (grown : before.Extends after)
    (nested : after.Nested) {outer inner : Nat} (around : after.Encloses outer inner)
    (made : inner < before.next) : before.Encloses outer inner := by
  induction around with
  | self => exact .self
  | @inside inner parent later isLater isParent _ ih =>
    obtain ⟨kept, isKept, same⟩ := grown.scopes inner _ (Array.getElem?_eq_getElem made)
    rw [isLater] at isKept
    cases isKept
    have isInside := nested inner later parent isLater isParent
    exact .inside (Array.getElem?_eq_getElem made) (same.parent.symm.trans isParent)
      (ih (Nat.lt_trans isInside made))

theorem mem_imports_of_modify {change : Scope → Scope} {into added taker : Nat}
    (changed : ∀ found, (change found).bases ++ (change found).usings ⊆
      added :: (found.bases ++ found.usings))
    (taken : target ∈ imports { scopes with all := scopes.all.modify into change } taker) :
    target ∈ scopes.imports taker ∨ target = added := by
  by_cases here : into = taker
  · subst here
    cases there : scopes.all[into]? with
    | none => simp [imports, Array.getElem?_modify, there] at taken
    | some found =>
      have among : target ∈ (change found).bases ++ (change found).usings := by
        simpa [imports, Array.getElem?_modify, there] using taken
      simpa [imports, there, or_comm] using changed found among
  · left
    simpa [imports, Array.getElem?_modify, here] using taken

theorem addEdge_subset (scope target : Nat) (edges : List Nat) :
    addEdge scope target edges ⊆ target :: edges := by
  unfold addEdge
  split
  · exact List.subset_cons_self target edges
  · intro edge member
    rcases List.mem_append.1 member with old | new
    · exact List.mem_cons_of_mem _ old
    · exact List.mem_cons.2 (.inl (List.mem_singleton.1 new))

theorem mem_imports_addBase {derived base taker : Nat}
    (taken : target ∈ (scopes.addBase derived base).imports taker) :
    target ∈ scopes.imports taker ∨ target = base := by
  refine mem_imports_of_modify (fun found => ?_) taken
  have added := addEdge_subset derived base found.bases
  intro edge member
  have known : edge = base ∨ edge ∈ found.bases ∨ edge ∈ found.usings := by
    rcases List.mem_append.1 member with isBase | isUsing
    · exact (List.mem_cons.1 (added isBase)).imp_right .inl
    · exact .inr (.inr isUsing)
  simpa using known

theorem mem_imports_addUsing {into used taker : Nat}
    (taken : target ∈ (scopes.addUsing into used).imports taker) :
    target ∈ scopes.imports taker ∨ target = used := by
  refine mem_imports_of_modify (fun found => ?_) taken
  have added := addEdge_subset into used found.usings
  intro edge member
  have known : edge = used ∨ edge ∈ found.bases ∨ edge ∈ found.usings := by
    rcases List.mem_append.1 member with isBase | isUsing
    · exact .inr (.inl isBase)
    · exact (List.mem_cons.1 (added isUsing)).imp_right .inr
  simpa using known

end Scopes

namespace Walk

open ParseTree State

/-! ## Scopes from which no names are taken -/

section Edits

variable {source : List Char} {before after : State}

theorem openMembers_typeScope? (state : State) (binding : Option Nat) (kind : ScopeKind)
    (parent other : Nat) :
    (state.openMembers binding kind parent).1.typeScope? other = state.typeScope? other := by
  unfold openMembers
  split
  · rfl
  · cases binding with
    | none => rfl
    | some binding =>
      simp only [typeScope?, pushScope, Array.getElem?_modify]
      by_cases same : binding = other
      · rw [if_pos same]
        cases state.symbols[other]? <;> rfl
      · rw [if_neg same]

theorem Edit.typeScope?_eq {frame : Frame} (edit : Edit source frame before after)
    (binding : Nat) : after.typeScope? binding = before.typeScope? binding := by
  cases edit with
  | opened => simp [typeScope?]
  | noted notes => exact notes.typeScopes binding
  | declared isKind declares => exact declares.typeScopes binding
  | shared scope isEnumerator declares => exact declares.typeScopes binding
  | entered members kind parent => exact openMembers_typeScope? before members kind parent binding
  | defined isDirective isKind defines => exact defines.typeScopes binding
  | pushed | specified | awaited | accessed | revoked => rfl

theorem Edits.typeScope?_eq {frame : Frame} (edits : Edits source frame before after)
    (binding : Nat) : after.typeScope? binding = before.typeScope? binding := by
  induction edits with
  | refl => rfl
  | tail _ last ih => exact (last.typeScope?_eq binding).trans ih

structure NoMembers (scope : Nat) (state : State) : Prop where
  made : scope < state.scopes.next
  members : ∀ binding, state.memberScope? binding ≠ some scope

variable {scope : Nat}

theorem NoMembers.of_same (none : NoMembers scope before)
    (next : before.scopes.next ≤ after.scopes.next)
    (members : ∀ binding, after.memberScope? binding = before.memberScope? binding) :
    NoMembers scope after where
  made := Nat.lt_of_lt_of_le none.made next
  members binding := members binding ▸ none.members binding

theorem noMembers_of_push {kind : ScopeKind} {parent : Option Nat} (members : MembersMade before)
    (scopes : after.scopes = before.scopes.push kind parent)
    (same : ∀ binding, after.memberScope? binding = before.memberScope? binding) :
    NoMembers before.scopes.next after where
  made := by simp [scopes, Scopes.next, Scopes.push]
  members binding found := Nat.lt_irrefl _ (members binding _ (same binding ▸ found))

theorem Edit.noMembers {frame : Frame} (edit : Edit source frame before after)
    (none : NoMembers scope before) : NoMembers scope after := by
  have next := edit.next_le
  cases edit with
  | opened => exact none.of_same next fun _ => by simp [memberScope?]
  | noted notes => exact none.of_same next notes.memberScopes
  | declared isKind declares => exact none.of_same next declares.memberScopes
  | shared scope isEnumerator declares => exact none.of_same next declares.memberScopes
  | entered binding kind parent =>
    refine ⟨Nat.lt_of_lt_of_le none.made next, fun other found => ?_⟩
    obtain ⟨_, -, same⟩ | ⟨-, -, known⟩ := openMembers_cases before binding kind parent
    · exact none.members other (by rwa [same] at found)
    · rcases known other scope found with old | ⟨-, isNext⟩
      · exact none.members other old
      · exact Nat.ne_of_lt none.made isNext
  | defined isDirective isKind defines => exact none.of_same next defines.memberScopes
  | pushed | specified | awaited | accessed | revoked => exact none.of_same next fun _ => rfl

theorem NoMembers.visit {state : State} (none : NoMembers scope state) (frame : Frame) :
    NoMembers scope (Walk.visit source state frame).1 :=
  (edits_visit source state frame).invariant (fun _ _ edit => edit.noMembers) none

theorem NoMembers.scope?_ne (none : NoMembers scope before)
    (untyped : ∀ binding, before.typeScope? binding = .none) (binding : Nat) :
    before.scope? binding ≠ some scope := by
  have members := none.members binding
  have untyped := untyped binding
  unfold memberScope? at members
  unfold typeScope? at untyped
  unfold scope?
  cases there : before.symbols[binding]? with
  | none => nofun
  | some symbol =>
    simp only [there] at members untyped
    simp [Symbol.scope?, untyped, members]

end Edits

section Resolve

variable {scope : Nat} {walked current : State}

/-- While uses are resolved, no names are taken from a scope without members. -/
structure Untaken (scope : Nat) (walked current : State) : Prop where
  symbols : current.symbols = walked.symbols
  untaken : ∀ taker, scope ∉ current.scopes.imports taker

theorem Untaken.applyEffect (untaken : Untaken scope walked current)
    (noScope : ∀ binding, walked.scope? binding ≠ some scope) (binding : Nat) (effect : Effect) :
    Untaken scope walked (current.applyEffect binding effect) := by
  have other {target : Nat} (found : current.scope? binding = some target) : scope ≠ target := by
    rintro rfl
    rw [scope?, untaken.symbols] at found
    exact noScope binding found
  unfold State.applyEffect
  cases effect with
  | none => exact untaken
  | usingNamespace into =>
    simp only
    split
    · rename_i used found
      exact ⟨untaken.symbols, fun taker taken => (Scopes.mem_imports_addUsing taken).elim
        (untaken.untaken taker) (other found)⟩
    · exact untaken
  | base derived =>
    simp only
    split
    · rename_i base found
      exact ⟨untaken.symbols, fun taker taken => (Scopes.mem_imports_addBase taken).elim
        (untaken.untaken taker) (other found)⟩
    · exact untaken
  | usingDeclaration into position =>
    simp only
    split
    · split
      · exact untaken
      · refine ⟨untaken.symbols, fun taker taken => untaken.untaken taker ?_⟩
        rwa [Scopes.imports_declare] at taken
    · exact untaken

theorem Untaken.resolveUse (untaken : Untaken scope walked current)
    (noScope : ∀ binding, walked.scope? binding ≠ some scope) (use : PendingUse) :
    Untaken scope walked (current.resolveUse use) := by
  have bound : Untaken scope walked (bindSegments use use.names
      (if use.isGlobal then some Scopes.file else none) true current).1 := by
    rw [bindSegments_eq]
    obtain ⟨scopes, -, symbols⟩ := bindAll_quiet current (current.segmentBindings use use.names
      (if use.isGlobal then some Scopes.file else none) true)
    exact ⟨symbols.trans untaken.symbols, fun taker => scopes ▸ untaken.untaken taker⟩
  unfold State.resolveUse
  simp only
  split
  · exact bound.applyEffect noScope _ _
  · exact bound

end Resolve

variable {source : List Char} {language : Language} {tree : ParseTree}

theorem walked_typeScope? (source : List Char) (language : Language) (tree : ParseTree)
    (binding : Nat) : (SourceUnit.walked source language tree).typeScope? binding = none := by
  obtain ⟨_, ended⟩ := exists_reaches_run source (State.initial (language = .cpp)) [Frame.root tree]
  exact ended.invariant (fun _ state _ => state.typeScope? binding = none)
    (by simp [State.initial, typeScope?])
    fun _ state frame _ _ untyped =>
      ((edits_visit source state frame).typeScope?_eq binding).trans untyped

/-- No names are ever taken from a scope that has been made, and not for members. -/
theorem Reaches.untaken {visited waiting : List Frame} {state : State} {scope : Nat}
    (reached : Reaches source (State.initial (language = .cpp)) [Frame.root tree] visited state
      waiting) (none : NoMembers scope state) (taker : Nat) :
    scope ∉ (SourceUnit.walked source language tree).resolve.scopes.imports taker := by
  have still : NoMembers scope (SourceUnit.walked source language tree) :=
    reached.holds_at_end (NoMembers scope) none fun _ _ frame _ _ none => none.visit frame
  obtain ⟨_, ended⟩ := exists_reaches_run source (State.initial (language = .cpp)) [Frame.root tree]
  have alone : ∀ taker, (SourceUnit.walked source language tree).scopes.imports taker = [] :=
    ended.named.apart.imports_eq
  have untyped := walked_typeScope? source language tree
  generalize SourceUnit.walked source language tree = walked at still alone untyped ⊢
  have resolved : Untaken scope walked (walked.usesInOrder.foldl resolveUse walked) :=
    List.foldlRecOn (motive := Untaken scope walked) _ _ ⟨rfl, fun taker => by simp [alone]⟩
      fun _ untaken use _ => untaken.resolveUse (still.scope?_ne untyped) use
  rw [resolve_scopes]
  exact resolved.untaken taker

theorem Reaches.scopes_extend_resolved {visited waiting : List Frame} {state : State}
    (reached : Reaches source (State.initial (language = .cpp)) [Frame.root tree] visited state
      waiting) :
    state.scopes.Extends (SourceUnit.walked source language tree).resolve.scopes :=
  reached.scopes_extend.trans (resolve_widens _).toExtends

theorem resolved_nested (source : List Char) (language : Language) (tree : ParseTree) :
    (SourceUnit.walked source language tree).resolve.scopes.Nested := by
  have widens := resolve_widens (SourceUnit.walked source language tree)
  exact widens.nested widens.next (walked_nested source language tree)

/-- Nothing stands between a use and the scope in which the search for it begins. -/
theorem clearWay_of_scope {use : PendingUse} {text : String} {walked : State}
    (isWalk : walked = SourceUnit.walked source language tree)
    (noMacro : walked.macroAt? text use.position = none)
    (untagged : ∀ here, walked.resolve.scopes.all[use.scope]? = some here →
      here.tags.find? text = none) : ClearWay walked use text use.scope where
  noMacro := noMacro
  untagged := untagged
  unseen nearer inside around different := by
    have nested := resolved_nested source language tree
    rw [← isWalk] at nested
    exact absurd (Nat.le_antisymm (around.le nested) (inside.le nested)) different

/-- The way to the scope around that of a use is open where neither that scope nor a macro hides the
name. -/
theorem openWay_of_parent {use : PendingUse} {text : String} {home : Nat} {walked : State}
    {here : Scope}
    (isWalk : walked = SourceUnit.walked source language tree)
    (noMacro : walked.macroAt? text use.position = none)
    (isHere : walked.resolve.scopes.all[use.scope]? = some here) (isParent : here.parent = some home)
    (unseen : walked.resolve.scopes.seenFrom? use.firstSpace text use.position here = none) :
    OpenWay walked use text home where
  noMacro := noMacro
  unseen nearer inside around different := by
    have nested := resolved_nested source language tree
    rw [← isWalk] at nested
    by_cases same : nearer = use.scope
    · subst same
      exact (Scopes.seenFrom?_eq_none_iff isHere).1 unseen
    · have outside := around.of_parent isHere isParent same
      exact absurd (Nat.le_antisymm (outside.le nested) (inside.le nested)) different

/-- What departs from a scope without members does not see it. -/
theorem Departs.not_sees {visited waiting : List Frame} {state : State} {frame next : Frame}
    {home : Nat} (departs : Departs source state home frame next)
    (moment : Reaches source (State.initial (language = .cpp)) [Frame.root tree] visited state
      (frame :: waiting)) (isNext : next ∈ (Walk.visit source state frame).2)
    (untaken : ∀ taker,
      home ∉ (SourceUnit.walked source language tree).resolve.scopes.imports taker) :
    ¬ (SourceUnit.walked source language tree).resolve.scopes.Sees next.context.scope home := by
  obtain ⟨-, under⟩ := moment.visit.under
  have made := (under next (List.mem_append_left _ isNext)).context.scope
  refine Scopes.not_sees (fun around => departs.outside ?_) untaken
  exact moment.visit.scopes_extend_resolved.encloses_of_lt (resolved_nested source language tree)
    around made

end Walk

end CrossReference
