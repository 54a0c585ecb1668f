import CrossReference.Proofs.Scope
import Mathlib.Data.List.Lex

/-!
# What searches find

Scopes that are built step by step form trees by their parents and a graph, which may have cycles,
by their bases and usings.  A search behind `::` follows the paths of that graph in depth-first order
and stops after sixteen edges.  A search outwards stops at the first scope around it that has the
name, and comes to such a scope if there is one.
-/

set_option autoImplicit false

namespace CrossReference.Scopes

/-! ## Scopes that are built step by step -/

inductive Step where
  | push (kind : ScopeKind) (parent : Option Nat)
  | declare (scope : Nat) (space : NameSpace) (name : String) (binding position : Nat)
  | addBase (scope base : Nat)
  | addUsing (scope used : Nat)

namespace Step

def apply (scopes : Scopes) : Step → Scopes
  | push kind parent => scopes.push kind parent
  | declare scope space name binding position =>
      scopes.declare scope space name binding position
  | addBase scope base => scopes.addBase scope base
  | addUsing scope used => scopes.addUsing scope used

def SpeaksOf (scopes : Scopes) : Step → Prop
  | push _ parent => ∀ outer ∈ parent, outer < scopes.next
  | declare scope _ _ _ _ => scope < scopes.next
  | addBase scope target | addUsing scope target => scope < scopes.next ∧ target < scopes.next

instance (scopes : Scopes) (step : Step) : Decidable (step.SpeaksOf scopes) :=
  match step with
  | push _ parent => inferInstanceAs (Decidable (∀ outer ∈ parent, outer < scopes.next))
  | declare scope _ _ _ _ => inferInstanceAs (Decidable (scope < scopes.next))
  | addBase scope target | addUsing scope target =>
      inferInstanceAs (Decidable (scope < scopes.next ∧ target < scopes.next))

def base? (scope : Nat) : Step → Option Nat
  | addBase derived base => if derived = scope ∧ base ≠ scope then some base else none
  | push _ _ | declare _ _ _ _ _ | addUsing _ _ => none

def using? (scope : Nat) : Step → Option Nat
  | addUsing into used => if into = scope ∧ used ≠ scope then some used else none
  | push _ _ | declare _ _ _ _ _ | addBase _ _ => none

end Step

/-- Scopes are built by steps from the file scope on. -/
inductive Built (tagsAreTypes : Bool) : List Step → Scopes → Prop where
  | initial : Built tagsAreTypes [] (initial tagsAreTypes)
  | step {steps : List Step} {scopes : Scopes} (before : Built tagsAreTypes steps scopes)
      (step : Step) (speaks : step.SpeaksOf scopes) :
      Built tagsAreTypes (steps ++ [step]) (step.apply scopes)

/-! ## Scopes around scopes -/

/-- One scope lies around another one or is that scope. -/
inductive Encloses (scopes : Scopes) (outer : Nat) : Nat → Prop where
  | self : Encloses scopes outer outer
  | inside {inner parent : Nat} {found : Scope} (there : scopes.all[inner]? = some found)
      (isParent : found.parent = some parent) (around : Encloses scopes outer parent) :
      Encloses scopes outer inner

/-- A scope is made after the one around it. -/
def Nested (scopes : Scopes) : Prop :=
  ∀ (inner : Nat) (found : Scope) (parent : Nat), scopes.all[inner]? = some found →
    found.parent = some parent → parent < inner

section Encloses

variable {scopes : Scopes} {outer middle inner : Nat}

theorem Encloses.trans (around : scopes.Encloses outer middle)
    (inside : scopes.Encloses middle inner) : scopes.Encloses outer inner := by
  induction inside with
  | self => exact around
  | inside there isParent _ ih => exact .inside there isParent ih

theorem Encloses.le (nested : scopes.Nested) (around : scopes.Encloses outer inner) :
    outer ≤ inner := by
  induction around with
  | self => exact Nat.le_refl _
  | inside there isParent _ ih => exact Nat.le_trans ih (Nat.le_of_lt (nested _ _ _ there isParent))

theorem Encloses.of_parent {found : Scope} {parent : Nat}
    (there : scopes.all[inner]? = some found) (isParent : found.parent = some parent)
    (around : scopes.Encloses outer inner) (other : outer ≠ inner) :
    scopes.Encloses outer parent := by
  cases around with
  | self => exact absurd rfl other
  | inside thereToo isParentToo around =>
    rw [there] at thereToo
    cases thereToo
    rw [isParent] at isParentToo
    cases isParentToo
    exact around

theorem Encloses.eq_of_no_parent (around : scopes.Encloses outer inner)
    (outermost : ∀ found, scopes.all[inner]? = some found → found.parent = none) :
    outer = inner := by
  cases around with
  | self => rfl
  | inside there isParent =>
    rw [outermost _ there] at isParent
    cases isParent

/-- Of two scopes around a third one, one lies around the other. -/
theorem Encloses.of_le (nested : scopes.Nested) (around : scopes.Encloses outer inner)
    (aroundToo : scopes.Encloses middle inner) (le : outer ≤ middle) :
    scopes.Encloses outer middle := by
  induction aroundToo with
  | self => exact around
  | @inside inner parent found there isParent later ih =>
    have other : outer ≠ inner := by
      have bound := later.le nested
      have before := nested inner found parent there isParent
      omega
    exact ih (around.of_parent there isParent other)

end Encloses

/-! ## Paths -/

section Paths

variable (scopes : Scopes) (space : NameSpace) (name : String)

/-- The scope to which a path leads.  A path tells for each scope on it the number of the edge by
which it is left, the bases of a scope before its usings. -/
def follow : Nat → List Nat → Option Nat
  | scope, [] => some scope
  | scope, edge :: rest => ((scopes.imports scope)[edge]?).bind (follow · rest)

/-- A path leads to a scope that has a binding for the name itself. -/
def Offers (scope : Nat) (path : List Nat) (binding : Nat) : Prop :=
  ∃ target entry, scopes.follow scope path = some target ∧
    scopes.entry? space name target = some entry ∧ entry.binding = binding

/-- Of the paths from a scope that are asked for, the first one in depth-first order that leads to
the name.  In this order a path comes before those that continue it, and of two paths that part the
one with the earlier edge comes first, which is how lists are ordered. -/
structure OffersFirst (wanted : List Nat → Prop) (scope : Nat) (path : List Nat) (binding : Nat) :
    Prop where
  isWanted : wanted path
  offers : scopes.Offers space name scope path binding
  first : ∀ other found, wanted other → scopes.Offers space name scope other found → path ≤ other

/-- A scope has an entry of its own that is visible for a use at a position. -/
def Shows (position scope binding : Nat) : Prop :=
  ∃ found entry, scopes.all[scope]? = some found ∧ scopes.entryIn? space name found = some entry ∧
    (found.kind.isOrdered = true → entry.declaredAt ≤ position) ∧ entry.binding = binding

/-- A scope has a binding for a use at a position: its own one that is visible there or, if it has
none, the first one that it takes from other scopes over at most so many edges. -/
def Has (position scope binding : Nat) : Prop :=
  scopes.Shows space name position scope binding ∨
    (∀ own, ¬ scopes.Shows space name position scope own) ∧
      ∃ path, scopes.OffersFirst space name (fun path => path ≠ [] ∧ path.length ≤ maxSteps) scope
        path binding

end Paths

section Offers

variable {scopes : Scopes} {space : NameSpace} {name : String} {scope binding : Nat}

theorem offers_nil : scopes.Offers space name scope [] binding ↔
    ∃ entry, scopes.entry? space name scope = some entry ∧ entry.binding = binding := by
  simp [Offers, follow]

theorem offers_cons {edge : Nat} {rest : List Nat} :
    scopes.Offers space name scope (edge :: rest) binding ↔
      ∃ target, (scopes.imports scope)[edge]? = some target ∧
        scopes.Offers space name target rest binding := by
  simp only [Offers, follow, Option.bind_eq_some_iff]
  constructor
  · rintro ⟨last, entry, ⟨target, edgeThere, leads⟩, isEntry, bound⟩
    exact ⟨target, edgeThere, last, entry, leads, isEntry, bound⟩
  · rintro ⟨target, edgeThere, last, entry, leads, isEntry, bound⟩
    exact ⟨last, entry, ⟨target, edgeThere, leads⟩, isEntry, bound⟩

theorem Offers.eq {path : List Nat} {other : Nat}
    (offers : scopes.Offers space name scope path binding)
    (offersToo : scopes.Offers space name scope path other) : binding = other := by
  obtain ⟨target, entry, leads, isEntry, rfl⟩ := offers
  obtain ⟨targetToo, entryToo, leadsToo, isEntryToo, rfl⟩ := offersToo
  rw [leads] at leadsToo
  cases leadsToo
  rw [isEntry] at isEntryToo
  cases isEntryToo
  rfl

theorem OffersFirst.eq {wanted : List Nat → Prop} {path pathToo : List Nat} {other : Nat}
    (offers : scopes.OffersFirst space name wanted scope path binding)
    (offersToo : scopes.OffersFirst space name wanted scope pathToo other) : binding = other := by
  have same : path = pathToo :=
    le_antisymm (offers.first _ _ offersToo.isWanted offersToo.offers)
      (offersToo.first _ _ offers.isWanted offers.offers)
  subst same
  exact offers.offers.eq offersToo.offers

theorem nil_le (path : List Nat) : ([] : List Nat) ≤ path := by
  cases path with
  | nil => exact le_refl _
  | cons edge rest => exact le_of_lt List.Lex.nil

/-! ## A search over bases and usings -/

theorem findSome?_imports_eq_none_iff {search : Nat → Option Nat} {steps : Nat}
    (exact : ∀ target, search target = none ↔
      ∀ path found, path.length ≤ steps → ¬ scopes.Offers space name target path found) :
    (scopes.imports scope).findSome? search = none ↔
      ∀ path found, path ≠ [] ∧ path.length ≤ steps + 1 →
        ¬ scopes.Offers space name scope path found := by
  rw [List.findSome?_eq_none_iff]
  constructor
  · rintro nothing path found ⟨edges, short⟩ offers
    cases path with
    | nil => exact edges rfl
    | cons edge rest =>
      obtain ⟨target, isEdge, offersRest⟩ := offers_cons.1 offers
      have unseen := nothing target (List.mem_of_getElem? isEdge)
      exact (exact target).1 unseen rest found (by simpa using short) offersRest
  · intro nothing target member
    obtain ⟨edge, isEdge⟩ := List.getElem?_of_mem member
    refine (exact target).2 fun rest found short offersRest => ?_
    exact nothing (edge :: rest) found ⟨by simp, by simpa using short⟩
      (offers_cons.2 ⟨target, isEdge, offersRest⟩)

/-- A search through the edges of a scope gives what the first path over them leads to. -/
theorem offersFirst_of_findSome?_imports {search : Nat → Option Nat} {steps : Nat}
    (none_iff : ∀ target, search target = none ↔
      ∀ path found, path.length ≤ steps → ¬ scopes.Offers space name target path found)
    (sound : ∀ target found, search target = some found →
      ∃ path, scopes.OffersFirst space name (·.length ≤ steps) target path found)
    (found : (scopes.imports scope).findSome? search = some binding) :
    ∃ path, scopes.OffersFirst space name (fun path => path ≠ [] ∧ path.length ≤ steps + 1) scope
      path binding := by
  obtain ⟨before, target, after, isImports, foundThere, unseen⟩ :=
    List.findSome?_eq_some_iff.1 found
  obtain ⟨rest, short, offersRest, first⟩ := sound target binding foundThere
  have isEdge : (scopes.imports scope)[before.length]? = some target := by simp [isImports]
  refine ⟨before.length :: rest, ⟨by simp, by simpa using short⟩,
    offers_cons.2 ⟨target, isEdge, offersRest⟩, ?_⟩
  rintro other binding' ⟨edges, otherShort⟩ offersOther
  cases other with
  | nil => exact absurd rfl edges
  | cons edge otherRest =>
    obtain ⟨otherTarget, isOtherEdge, offersOtherRest⟩ := offers_cons.1 offersOther
    have otherRestShort : otherRest.length ≤ steps := by simpa using otherShort
    rcases Nat.lt_trichotomy edge before.length with earlier | same | later
    · have member : otherTarget ∈ before := by
        rw [isImports, List.getElem?_append_left earlier] at isOtherEdge
        exact List.mem_of_getElem? isOtherEdge
      exact absurd offersOtherRest
        ((none_iff otherTarget).1 (unseen otherTarget member) otherRest binding' otherRestShort)
    · subst same
      rw [isEdge] at isOtherEdge
      cases isOtherEdge
      exact List.cons_le_cons _ (first otherRest binding' otherRestShort offersOtherRest)
    · exact le_of_lt (List.Lex.rel later)

theorem memberWithin_of_own {steps : Nat} {entry : ScopeEntry}
    (own : scopes.entry? space name scope = some entry) :
    scopes.memberWithin space name steps scope = some entry.binding := by
  unfold memberWithin
  rw [own]

theorem not_offers_nil (undeclared : scopes.entry? space name scope = none) :
    ¬ scopes.Offers space name scope [] binding := by
  rintro offers
  obtain ⟨entry, isEntry, -⟩ := offers_nil.1 offers
  rw [undeclared] at isEntry
  cases isEntry

theorem memberWithin_eq_none_iff (steps scope : Nat) :
    scopes.memberWithin space name steps scope = none ↔
      ∀ path found, path.length ≤ steps → ¬ scopes.Offers space name scope path found := by
  induction steps generalizing scope with
  | zero =>
    cases own : scopes.entry? space name scope with
    | some entry =>
      simp only [memberWithin_of_own own, reduceCtorEq, false_iff]
      exact fun nothing => nothing [] _ (Nat.le_refl 0) (offers_nil.2 ⟨entry, own, rfl⟩)
    | none =>
      simp only [memberWithin, own, true_iff]
      intro path found short
      rw [List.length_eq_zero_iff.1 (Nat.le_zero.1 short)]
      exact not_offers_nil own
  | succ steps ih =>
    cases own : scopes.entry? space name scope with
    | some entry =>
      simp only [memberWithin_of_own own, reduceCtorEq, false_iff]
      exact fun nothing => nothing [] _ (Nat.zero_le _) (offers_nil.2 ⟨entry, own, rfl⟩)
    | none =>
      simp only [memberWithin, own, findSome?_imports_eq_none_iff ih]
      constructor
      · intro nothing path found short
        cases path with
        | nil => exact not_offers_nil own
        | cons edge rest => exact nothing _ found ⟨by simp, short⟩
      · exact fun nothing path found limits => nothing path found limits.2

theorem offersFirst_of_memberWithin {steps : Nat}
    (found : scopes.memberWithin space name steps scope = some binding) :
    ∃ path, scopes.OffersFirst space name (·.length ≤ steps) scope path binding := by
  induction steps generalizing scope binding with
  | zero =>
    cases own : scopes.entry? space name scope with
    | some entry =>
      rw [memberWithin_of_own own] at found
      exact ⟨[], Nat.le_refl 0, offers_nil.2 ⟨entry, own, Option.some.inj found⟩,
        fun other _ _ _ => nil_le other⟩
    | none => simp [memberWithin, own] at found
  | succ steps ih =>
    cases own : scopes.entry? space name scope with
    | some entry =>
      rw [memberWithin_of_own own] at found
      exact ⟨[], Nat.zero_le _, offers_nil.2 ⟨entry, own, Option.some.inj found⟩,
        fun other _ _ _ => nil_le other⟩
    | none =>
      simp only [memberWithin, own] at found
      obtain ⟨path, limits, offers, first⟩ :=
        offersFirst_of_findSome?_imports (memberWithin_eq_none_iff steps) (fun _ _ => ih) found
      refine ⟨path, limits.2, offers, fun other otherBinding short offersOther => ?_⟩
      cases other with
      | nil => exact absurd offersOther (not_offers_nil own)
      | cons edge rest => exact first _ otherBinding ⟨by simp, short⟩ offersOther

/-- A search behind `::` gives what the first path over so many edges at most leads to. -/
theorem memberWithin_eq_some_iff {steps : Nat} :
    scopes.memberWithin space name steps scope = some binding ↔
      ∃ path, scopes.OffersFirst space name (·.length ≤ steps) scope path binding := by
  refine ⟨offersFirst_of_memberWithin, ?_⟩
  rintro ⟨path, offers⟩
  cases found : scopes.memberWithin space name steps scope with
  | none =>
    exact absurd offers.offers ((memberWithin_eq_none_iff steps scope).1 found _ _ offers.isWanted)
  | some other =>
    obtain ⟨otherPath, offersToo⟩ := offersFirst_of_memberWithin found
    rw [offersToo.eq offers]

/-! ## A search outwards -/

theorem visible?_eq_some_iff {position : Nat} {found : Scope}
    (there : scopes.all[scope]? = some found) :
    scopes.visible? space name position found = some binding ↔
      scopes.Shows space name position scope binding := by
  unfold visible? Shows
  cases isEntry : scopes.entryIn? space name found with
  | none => simp [there, isEntry]
  | some entry =>
    simp only [there, Option.some.injEq, Option.ite_none_right_eq_some, Bool.or_eq_true,
      Bool.not_eq_true', decide_eq_true_eq]
    constructor
    · rintro ⟨visible, rfl⟩
      exact ⟨found, entry, rfl, isEntry, fun ordered => by simpa [ordered] using visible, rfl⟩
    · rintro ⟨found, entry, rfl, isEntry', visible, rfl⟩
      rw [isEntry] at isEntry'
      cases isEntry'
      cases ordered : found.kind.isOrdered <;> simp_all

theorem seenFrom?_eq {position : Nat} {found : Scope} (there : scopes.all[scope]? = some found) :
    scopes.seenFrom? space name position found =
      (scopes.visible? space name position found).or
        ((scopes.imports scope).findSome? (scopes.memberWithin space name (maxSteps - 1))) := by
  have isImports : found.bases ++ found.usings = scopes.imports scope := by simp [imports, there]
  unfold seenFrom?
  rw [isImports]
  cases scopes.visible? space name position found <;> rfl

theorem seenFrom?_eq_some_iff {position : Nat} {found : Scope}
    (there : scopes.all[scope]? = some found) :
    scopes.seenFrom? space name position found = some binding ↔
      scopes.Has space name position scope binding := by
  have shows_iff (own : Nat) : scopes.visible? space name position found = some own ↔
      scopes.Shows space name position scope own := visible?_eq_some_iff there
  rw [seenFrom?_eq there]
  unfold Has
  cases own : scopes.visible? space name position found with
  | some shown =>
    have shows := (shows_iff shown).1 own
    simp only [Option.some_or, Option.some.injEq]
    constructor
    · rintro rfl
      exact .inl shows
    · rintro (showsToo | ⟨nothing, -⟩)
      · exact Option.some.inj (own.symm.trans ((shows_iff binding).2 showsToo))
      · exact absurd shows (nothing shown)
  | none =>
    have nothing (shown : Nat) : ¬ scopes.Shows space name position scope shown := fun shows => by
      rw [(shows_iff shown).2 shows] at own
      cases own
    simp only [Option.none_or, nothing, not_false_eq_true, implies_true, true_and, false_or]
    constructor
    · exact offersFirst_of_findSome?_imports (memberWithin_eq_none_iff (maxSteps - 1))
        fun _ _ => offersFirst_of_memberWithin
    · rintro ⟨path, offers⟩
      cases taken : (scopes.imports scope).findSome?
          (scopes.memberWithin space name (maxSteps - 1)) with
      | none =>
        have unoffered := (findSome?_imports_eq_none_iff (memberWithin_eq_none_iff _)).1 taken
        exact absurd offers.offers (unoffered path binding offers.isWanted)
      | some other =>
        obtain ⟨otherPath, offersToo⟩ := offersFirst_of_findSome?_imports
          (memberWithin_eq_none_iff (maxSteps - 1)) (fun _ _ => offersFirst_of_memberWithin) taken
        rw [offersToo.eq offers]

theorem exists_has_of_offers {position : Nat} {path : List Nat} (edges : path ≠ [])
    (short : path.length ≤ maxSteps) (offers : scopes.Offers space name scope path binding) :
    ∃ found, scopes.Has space name position scope found := by
  by_cases own : ∃ shown, scopes.Shows space name position scope shown
  · obtain ⟨shown, shows⟩ := own
    exact ⟨shown, .inl shows⟩
  · cases taken : (scopes.imports scope).findSome?
        (scopes.memberWithin space name (maxSteps - 1)) with
    | none =>
      have unoffered := (findSome?_imports_eq_none_iff (memberWithin_eq_none_iff _)).1 taken
      exact absurd offers (unoffered path binding ⟨edges, short⟩)
    | some found =>
      exact ⟨found, .inr ⟨not_exists.1 own, offersFirst_of_findSome?_imports
        (memberWithin_eq_none_iff (maxSteps - 1)) (fun _ _ => offersFirst_of_memberWithin) taken⟩⟩

theorem seenFrom?_eq_none_iff {position : Nat} {found : Scope}
    (there : scopes.all[scope]? = some found) :
    scopes.seenFrom? space name position found = none ↔
      ∀ binding, ¬ scopes.Has space name position scope binding := by
  rw [Option.eq_none_iff_forall_ne_some]
  exact forall_congr' fun binding => not_congr (seenFrom?_eq_some_iff there)

theorem not_has_of_missing {position : Nat} (missing : scopes.all[scope]? = none) :
    ¬ scopes.Has space name position scope binding := by
  rintro (⟨found, entry, there, -⟩ | ⟨-, path, limits, offers, -⟩)
  · rw [missing] at there
    cases there
  · cases path with
    | nil => exact limits.1 rfl
    | cons edge rest =>
      obtain ⟨target, isEdge, -⟩ := offers_cons.1 offers
      simp [imports, missing] at isEdge

/-- A scope is the innermost one around another one that has the name for a use at a position, and
has this binding for it. -/
structure Nearest (scopes : Scopes) (space : NameSpace) (name : String)
    (position scope home binding : Nat) : Prop where
  around : scopes.Encloses home scope
  has : scopes.Has space name position home binding
  nearest : ∀ nearer, scopes.Encloses nearer scope → scopes.Encloses home nearer → nearer ≠ home →
    ∀ other, ¬ scopes.Has space name position nearer other

section Outwards

variable {position parent home : Nat} {found : Scope}

theorem lookup_of_seen (there : scopes.all[scope]? = some found)
    (seen : scopes.seenFrom? space name position found = some binding) :
    scopes.lookup space name position scope = some binding := by
  rw [lookup]
  simp only [there, seen]

/-- A search goes on outside of a scope that has nothing for the name. -/
theorem lookup_of_unseen (nested : scopes.Nested) (there : scopes.all[scope]? = some found)
    (unseen : scopes.seenFrom? space name position found = none) :
    scopes.lookup space name position scope =
      found.parent.bind (scopes.lookup space name position) := by
  rw [lookup]
  simp only [there, unseen]
  cases isParent : found.parent with
  | none => rfl
  | some parent => simp [nested _ _ _ there isParent]

theorem nearest_self (nested : scopes.Nested)
    (has : scopes.Has space name position scope binding) :
    scopes.Nearest space name position scope scope binding :=
  ⟨.self, has, fun _ around inside different =>
    absurd (Nat.le_antisymm (around.le nested) (inside.le nested)) different⟩

/-- Around a scope that has a parent and nothing for the name, the innermost scope that has the name
is the one around the parent. -/
theorem nearest_parent_iff (there : scopes.all[scope]? = some found)
    (isParent : found.parent = some parent)
    (unseen : ∀ other, ¬ scopes.Has space name position scope other) :
    scopes.Nearest space name position scope home binding ↔
      scopes.Nearest space name position parent home binding := by
  constructor
  · rintro ⟨around, has, nearest⟩
    have other : home ≠ scope := fun same => unseen binding (same ▸ has)
    exact ⟨around.of_parent there isParent other, has, fun nearer isAround =>
      nearest nearer (.inside there isParent isAround)⟩
  · rintro ⟨around, has, nearest⟩
    refine ⟨.inside there isParent around, has, fun nearer isAround inside different => ?_⟩
    by_cases here : nearer = scope
    · exact here ▸ unseen
    · exact nearest nearer (isAround.of_parent there isParent here) inside different

theorem lookup_eq_some_iff (nested : scopes.Nested) :
    scopes.lookup space name position scope = some binding ↔
      ∃ home, scopes.Nearest space name position scope home binding := by
  fun_induction lookup scopes space name position scope with
  | case1 scope missing =>
    simp only [reduceCtorEq, false_iff]
    rintro ⟨home, around, has, -⟩
    have here := around.eq_of_no_parent (by simp [missing])
    exact not_has_of_missing (here ▸ missing) has
  | case2 scope found there own seen =>
    have has := (seenFrom?_eq_some_iff there).1 seen
    constructor
    · intro same
      exact ⟨scope, nearest_self nested (Option.some.inj same ▸ has)⟩
    · rintro ⟨home, around, hasToo, nearest⟩
      have here : scope = home := by
        by_contra different
        exact nearest scope .self around different own has
      rw [← here] at hasToo
      rw [← seen, seenFrom?_eq_some_iff there]
      exact hasToo
  | case3 scope found there unseen outermost =>
    simp only [reduceCtorEq, false_iff]
    rintro ⟨home, around, has, -⟩
    have here := around.eq_of_no_parent (by simp [there, outermost])
    exact (seenFrom?_eq_none_iff there).1 unseen binding (here ▸ has)
  | case4 scope found there unseen parent isParent outer ih =>
    rw [ih]
    have unseen := (seenFrom?_eq_none_iff there).1 unseen
    exact exists_congr fun home => (nearest_parent_iff there isParent unseen).symm
  | case5 scope found there unseen parent isParent notOuter =>
    exact absurd (nested scope found parent there isParent) notOuter

/-- Some scope around a use is the innermost one that has the name, if one has it. -/
theorem exists_nearest (nested : scopes.Nested) (around : scopes.Encloses home scope)
    (has : scopes.Has space name position home binding) :
    ∃ nearest found, scopes.Nearest space name position scope nearest found := by
  induction around with
  | self => exact ⟨home, binding, nearest_self nested has⟩
  | @inside scope parent inner there isParent _ ih =>
    by_cases seen : ∃ own, scopes.Has space name position scope own
    · obtain ⟨own, hasOwn⟩ := seen
      exact ⟨scope, own, nearest_self nested hasOwn⟩
    · obtain ⟨nearest, found, isNearest⟩ := ih
      exact ⟨nearest, found, (nearest_parent_iff there isParent (not_exists.1 seen)).2 isNearest⟩

theorem lookup_eq_none_iff (nested : scopes.Nested) :
    scopes.lookup space name position scope = none ↔
      ∀ home found, scopes.Encloses home scope → ¬ scopes.Has space name position home found := by
  constructor
  · intro nothing home found around has
    obtain ⟨nearest, other, isNearest⟩ := exists_nearest nested around has
    rw [(lookup_eq_some_iff nested).2 ⟨nearest, isNearest⟩] at nothing
    cases nothing
  · intro nothing
    cases found : scopes.lookup space name position scope with
    | none => rfl
    | some binding =>
      obtain ⟨home, around, has, -⟩ := (lookup_eq_some_iff nested).1 found
      exact absurd has (nothing home binding around)

end Outwards

end Offers

/-! ## Scopes that are built -/

section Built

variable {scopes : Scopes} {tagsAreTypes : Bool} {steps : List Step}

theorem Nested.modify (nested : scopes.Nested) {scope : Nat} {change : Scope → Scope}
    (parent : ∀ found, (change found).parent = found.parent) :
    Nested { scopes with all := scopes.all.modify scope change } := by
  intro inner found outer there isParent
  rw [Array.getElem?_modify] at there
  split at there
  · obtain ⟨before, isThere, rfl⟩ := Option.map_eq_some_iff.1 there
    exact nested inner before outer isThere (parent before ▸ isParent)
  · exact nested inner found outer there isParent

theorem Nested.push (nested : scopes.Nested) {kind : ScopeKind} {parent : Option Nat}
    (made : ∀ outer ∈ parent, outer < scopes.next) :
    (scopes.push kind parent).Nested := by
  intro inner found outer there isParent
  simp only [Scopes.push, Array.getElem?_push] at there
  split at there
  · rename_i isLast
    cases there
    exact isLast ▸ made outer isParent
  · exact nested inner found outer there isParent

theorem Nested.apply (nested : scopes.Nested) {step : Step} (speaks : step.SpeaksOf scopes) :
    (step.apply scopes).Nested := by
  cases step with
  | push kind parent => exact nested.push speaks
  | declare scope space name binding position =>
    refine nested.modify fun found => ?_
    cases space <;> rfl
  | addBase scope base => exact nested.modify fun _ => rfl
  | addUsing scope used => exact nested.modify fun _ => rfl

theorem Built.nested (built : Built tagsAreTypes steps scopes) : scopes.Nested := by
  induction built with
  | initial =>
    intro inner found parent there isParent
    have isFile : Scope.fresh .file none = found := by
      cases inner with
      | zero => simpa [Scopes.initial] using there
      | succ inner => simp [Scopes.initial] at there
    rw [← isFile] at isParent
    cases isParent
  | step _ _ speaks ih => exact ih.apply speaks

def edgesOf (scopes : Scopes) (kind : Scope → List Nat) (scope : Nat) : List Nat :=
  (scopes.all[scope]?).elim [] kind

theorem imports_eq (scope : Nat) :
    scopes.imports scope = scopes.edgesOf (·.bases) scope ++ scopes.edgesOf (·.usings) scope := by
  unfold imports edgesOf
  cases scopes.all[scope]? <;> rfl

def withEdge (edges : List Nat) : Option Nat → List Nat
  | some edge => if edge ∈ edges then edges else edges ++ [edge]
  | none => edges

theorem addEdge_eq {scope target : Nat} {edges : List Nat} :
    addEdge scope target edges = withEdge edges (if target ≠ scope then some target else none) := by
  unfold addEdge withEdge
  by_cases self : scope = target <;> by_cases known : target ∈ edges <;> simp_all [eq_comm]

theorem eraseDups_append_toList (edges : List Nat) (new : Option Nat) :
    (edges ++ new.toList).eraseDups = withEdge edges.eraseDups new := by
  rw [List.eraseDups_append]
  unfold withEdge
  cases new with
  | none => simp
  | some edge =>
    by_cases known : edge ∈ edges <;> simp [List.removeAll, known, List.eraseDups_cons]

section EdgesOf

variable {kind : Scope → List Nat} {changed : Nat} {change : Scope → Scope}

theorem edgesOf_push (fresh : ∀ made outer, kind (Scope.fresh made outer) = [])
    (made : ScopeKind) (outer : Option Nat) (scope : Nat) :
    (scopes.push made outer).edgesOf kind scope = scopes.edgesOf kind scope := by
  unfold edgesOf push
  rw [Array.getElem?_push]
  split
  · rename_i isLast
    simp [isLast, fresh]
  · rfl

theorem edgesOf_modify (change : Scope → Scope) (scope : Nat) :
    edgesOf { scopes with all := scopes.all.modify changed change } kind scope =
      if changed = scope then (scopes.all[scope]?).elim [] (fun found => kind (change found))
      else scopes.edgesOf kind scope := by
  unfold edgesOf
  rw [Array.getElem?_modify]
  split
  · cases scopes.all[scope]? <;> rfl
  · rfl

theorem edgesOf_modify_kept (change : Scope → Scope)
    (kept : ∀ found, kind (change found) = kind found) (scope : Nat) :
    edgesOf { scopes with all := scopes.all.modify changed change } kind scope =
      scopes.edgesOf kind scope := by
  rw [edgesOf_modify]
  simp only [kept, edgesOf, ite_self]

theorem edgesOf_modify_added {target : Nat}
    (added : ∀ found, kind (change found) = addEdge changed target (kind found))
    (made : changed < scopes.next) (scope : Nat) :
    edgesOf { scopes with all := scopes.all.modify changed change } kind scope =
      withEdge (scopes.edgesOf kind scope)
        (if changed = scope ∧ target ≠ scope then some target else none) := by
  rw [edgesOf_modify]
  split
  · rename_i here
    subst here
    obtain ⟨found, there⟩ : ∃ found, scopes.all[changed]? = some found :=
      ⟨_, Array.getElem?_eq_getElem made⟩
    simp [edgesOf, there, added, addEdge_eq]
  · rename_i elsewhere
    simp [elsewhere, withEdge]

end EdgesOf

theorem bases_apply {step : Step} (speaks : step.SpeaksOf scopes) (scope : Nat) :
    (step.apply scopes).edgesOf (·.bases) scope =
      withEdge (scopes.edgesOf (·.bases) scope) (step.base? scope) := by
  cases step with
  | push kind parent => exact edgesOf_push (fun _ _ => rfl) kind parent scope
  | declare changed space name binding position =>
    exact edgesOf_modify_kept _ (fun found => by cases space <;> rfl) scope
  | addBase changed base => exact edgesOf_modify_added (fun _ => rfl) speaks.1 scope
  | addUsing changed used =>
    exact edgesOf_modify_kept
      (fun found => { found with usings := addEdge changed used found.usings }) (fun _ => rfl) scope

theorem usings_apply {step : Step} (speaks : step.SpeaksOf scopes) (scope : Nat) :
    (step.apply scopes).edgesOf (·.usings) scope =
      withEdge (scopes.edgesOf (·.usings) scope) (step.using? scope) := by
  cases step with
  | push kind parent => exact edgesOf_push (fun _ _ => rfl) kind parent scope
  | declare changed space name binding position =>
    exact edgesOf_modify_kept _ (fun found => by cases space <;> rfl) scope
  | addBase changed base =>
    exact edgesOf_modify_kept
      (fun found => { found with bases := addEdge changed base found.bases }) (fun _ => rfl) scope
  | addUsing changed used => exact edgesOf_modify_added (fun _ => rfl) speaks.1 scope

/-- Edges of a kind are those that the steps add, each once and in the order of the steps. -/
theorem Built.edgesOf_eq {kind : Scope → List Nat} {added : Step → Option Nat} {scope : Nat}
    (fresh : ∀ made outer, kind (Scope.fresh made outer) = [])
    (apply : ∀ {scopes : Scopes} {step : Step}, step.SpeaksOf scopes →
      (step.apply scopes).edgesOf kind scope = withEdge (scopes.edgesOf kind scope) (added step))
    (built : Built tagsAreTypes steps scopes) :
    scopes.edgesOf kind scope = (steps.filterMap added).eraseDups := by
  induction built with
  | initial => cases scope <;> simp [edgesOf, Scopes.initial, fresh]
  | @step steps scopes before step speaks ih =>
    have last : [step].filterMap added = (added step).toList := by
      cases isAdded : added step <;> simp [isAdded]
    rw [apply speaks, ih, List.filterMap_append, last, eraseDups_append_toList]

theorem Built.imports_eq (built : Built tagsAreTypes steps scopes) (scope : Nat) :
    scopes.imports scope = (steps.filterMap (Step.base? scope)).eraseDups ++
      (steps.filterMap (Step.using? scope)).eraseDups := by
  rw [Scopes.imports_eq, built.edgesOf_eq (fun _ _ => rfl) (fun speaks => bases_apply speaks scope),
    built.edgesOf_eq (fun _ _ => rfl) (fun speaks => usings_apply speaks scope)]

end Built

/-- What the two searches find in scopes that are built in any way.  Edges are followed in the order in
which they were added, those to bases first.  Behind `::` the first path that leads to the name
counts; outwards the innermost scope counts that has the name, and there its own name before one from
other scopes.  A search without a result means that there is nothing to find. -/
theorem searches_find {tagsAreTypes : Bool} {steps : List Step} {scopes : Scopes}
    (built : Built tagsAreTypes steps scopes) (space : NameSpace) (name : String)
    (position scope : Nat) :
    scopes.imports scope = (steps.filterMap (Step.base? scope)).eraseDups ++
        (steps.filterMap (Step.using? scope)).eraseDups ∧
      (∀ binding, scopes.lookupMember space name scope = some binding ↔
        ∃ path, scopes.OffersFirst space name (·.length ≤ maxSteps) scope path binding) ∧
      (scopes.lookupMember space name scope = none ↔
        ∀ path binding, path.length ≤ maxSteps → ¬ scopes.Offers space name scope path binding) ∧
      (∀ binding, scopes.lookup space name position scope = some binding ↔
        ∃ home, scopes.Nearest space name position scope home binding) ∧
      (scopes.lookup space name position scope = none ↔
        ∀ home binding, scopes.Encloses home scope →
          ¬ scopes.Has space name position home binding) := by
  have nested := built.nested
  exact ⟨built.imports_eq scope, fun binding => memberWithin_eq_some_iff,
    memberWithin_eq_none_iff maxSteps scope, fun binding => lookup_eq_some_iff nested,
    lookup_eq_none_iff nested⟩

def cyclic : List Step :=
  [.push .classBody (some file), .push .classBody (some file), .push .function (some 1),
    .declare 2 .ordinary "x" 7 40, .declare 3 .ordinary "x" 8 90, .addBase 1 2, .addBase 2 1]

theorem built_cyclic : Built true cyclic (cyclic.foldl Step.apply (initial true)) :=
  ((((((Built.initial.step _ (by decide)).step _ (by decide)).step _ (by decide)).step _
    (by decide)).step _ (by decide)).step _ (by decide)).step _ (by decide)

theorem searches_find_cyclic :
    (cyclic.foldl Step.apply (initial true)).imports 1 = [2] ∧
      (∃ path, (cyclic.foldl Step.apply (initial true)).OffersFirst .ordinary "x"
        (·.length ≤ maxSteps) 1 path 7) ∧
      ∃ home, (cyclic.foldl Step.apply (initial true)).Nearest .ordinary "x" 50 3 home 7 := by
  have found := searches_find built_cyclic .ordinary "x" 50
  exact ⟨(found 1).1.trans (by decide), ((found 1).2.1 7).1 (by decide),
    ((found 3).2.2.2.1 7).1 (by decide +kernel)⟩

end CrossReference.Scopes
