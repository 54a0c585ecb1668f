import CrossReference.Proofs.TranslationUnit.Collect

/-!
# The worklist goes depth first

`explore` is the search as a recursion: a declaration that was not met before gives its names, and
then each declaration nested in it is explored in turn, before anything that comes after it.
`visitAll` keeps instead a list of what is to come, in which a declaration may wait several times.
What waits is explored in its order, so that both find the same names in the same order.
-/

set_option autoImplicit false

namespace CrossReference.TranslationUnit

variable (unit : TranslationUnit)

/-! ## The search as a recursion -/

def addName (found : List Nat) (name : Nat) : List Nat :=
  if unit.isDeclarationName name = true ∧ name ∉ found then found ++ [name] else found

abbrev Explored (before : Collection) : Type :=
  { after : Collection // unit.unvisited after.visited ≤ unit.unvisited before.visited }

theorem unvisited_cons_le (declaration : Nat) (visited : List Nat) :
    unit.unvisited (declaration :: visited) ≤ unit.unvisited visited := by
  rw [unvisited, unvisited, ← List.countP_eq_length_filter, ← List.countP_eq_length_filter]
  apply List.countP_mono_left
  intro other _ isLeft
  simp only [List.contains_cons, Bool.not_or, Bool.and_eq_true] at isLeft
  exact isLeft.2

theorem nested_of_unknown {declaration : Nat} (unknown : unit.declarations.size ≤ declaration) :
    unit.nested declaration = [] := by
  rw [nested, Array.getElem?_eq_none unknown]

/-- What is nested in a declaration is explored with fewer declarations left, if there is any. -/
theorem enter_decreases {declaration : Nat} {visited : List Nat} (new : declaration ∉ visited) :
    Prod.Lex (· < ·) (· < ·)
      (unit.unvisited (declaration :: visited), 2 * (unit.nested declaration).length)
      (unit.unvisited visited, 1) := by
  by_cases known : declaration < unit.declarations.size
  · exact .left _ _ (unit.unvisited_cons_lt known new)
  · rw [unit.nested_of_unknown (Nat.le_of_not_lt known)]
    rcases Nat.lt_or_eq_of_le (unit.unvisited_cons_le declaration visited) with fewer | same
    · exact .left _ _ fewer
    · rw [same]
      exact .right _ Nat.zero_lt_one

mutual

/-- Explore a declaration: mark it, add its names, and explore what is nested in it.  One that was
met before is left alone, and with `activeOnly` one that is not compiled in is only marked. -/
def explore (activeOnly : Bool) (declaration : Nat) (before : Collection) :
    unit.Explored before :=
  if _seen : declaration ∈ before.visited then ⟨before, Nat.le_refl _⟩
  else
    let visited := declaration :: before.visited
    have marked := unit.unvisited_cons_le declaration before.visited
    if activeOnly && !unit.isActive declaration then ⟨⟨visited, before.found⟩, marked⟩
    else
      let found := (unit.names declaration).foldl unit.addName before.found
      let inside := exploreEach activeOnly (unit.nested declaration) ⟨visited, found⟩
      ⟨inside.1, Nat.le_trans inside.2 marked⟩
termination_by (unit.unvisited before.visited, 1)
decreasing_by exact unit.enter_decreases _seen

def exploreEach (activeOnly : Bool) (declarations : List Nat) (before : Collection) :
    unit.Explored before :=
  match declarations with
  | [] => ⟨before, Nat.le_refl _⟩
  | declaration :: rest =>
      let first := explore activeOnly declaration before
      let others := exploreEach activeOnly rest first.1
      ⟨others.1, Nat.le_trans others.2 first.2⟩
-- A declaration weighs one and each member of a list two, so that a list outweighs its first one.
termination_by (unit.unvisited before.visited, 2 * declarations.length)
decreasing_by
  · exact .right _ (by simp only [List.length_cons]; omega)
  · rcases Nat.lt_or_eq_of_le first.2 with fewer | same
    · exact .left _ _ fewer
    · rw [same]
      exact .right _ (by simp only [List.length_cons]; omega)

end

/-- The occurrences that introduce symbols, as the recursive search comes to them from the top level
of the file. -/
def depthFirstNames (includeInactive : Bool) : List Nat :=
  (unit.exploreEach (!includeInactive) (unit.topLevel.filter unit.isInFile) ⟨[], []⟩).1.found

variable {unit} {activeOnly : Bool} {declaration : Nat} {before : Collection}

theorem foldl_addName (found names : List Nat) :
    names.foldl unit.addName found = unit.addNames found names := by
  induction names generalizing found with
  | nil => rfl
  | cons first rest ih => simp only [List.foldl_cons, addName, addNames, ih]; grind

theorem explore_of_seen (seen : declaration ∈ before.visited) :
    (unit.explore activeOnly declaration before).1 = before := by
  rw [explore, dif_pos seen]

theorem explore_of_passedOver (new : declaration ∉ before.visited)
    (passedOver : (activeOnly && !unit.isActive declaration) = true) :
    (unit.explore activeOnly declaration before).1 =
      ⟨declaration :: before.visited, before.found⟩ := by
  rw [explore, dif_neg new]
  simp only
  rw [if_pos passedOver]

theorem explore_of_entered (new : declaration ∉ before.visited)
    (entered : ¬ (activeOnly && !unit.isActive declaration) = true) :
    (unit.explore activeOnly declaration before).1 =
      (unit.exploreEach activeOnly (unit.nested declaration)
        ⟨declaration :: before.visited,
          unit.addNames before.found (unit.names declaration)⟩).1 := by
  rw [explore, dif_neg new, ← foldl_addName]
  simp only
  rw [if_neg entered]

theorem exploreEach_nil : (unit.exploreEach activeOnly [] before).1 = before := by
  rw [exploreEach]

theorem exploreEach_cons (rest : List Nat) :
    (unit.exploreEach activeOnly (declaration :: rest) before).1 =
      (unit.exploreEach activeOnly rest (unit.explore activeOnly declaration before).1).1 := by
  rw [exploreEach]

theorem exploreEach_append (front back : List Nat) :
    (unit.exploreEach activeOnly (front ++ back) before).1 =
      (unit.exploreEach activeOnly back (unit.exploreEach activeOnly front before).1).1 := by
  induction front generalizing before with
  | nil => rw [List.nil_append, exploreEach_nil]
  | cons first rest ih => rw [List.cons_append, exploreEach_cons, ih, exploreEach_cons]

theorem explore_of_unknown (activeOnly : Bool) (before : Collection)
    (unknown : unit.declarations.size ≤ declaration) :
    (unit.explore activeOnly declaration before).1 = before ∨
      (unit.explore activeOnly declaration before).1 =
        ⟨declaration :: before.visited, before.found⟩ := by
  by_cases seen : declaration ∈ before.visited
  · exact .inl (explore_of_seen seen)
  · right
    by_cases passedOver : (activeOnly && !unit.isActive declaration) = true
    · exact explore_of_passedOver seen passedOver
    · have noNames : unit.names declaration = [] := by
        rw [names, Array.getElem?_eq_none unknown]
      rw [explore_of_entered seen passedOver, unit.nested_of_unknown unknown, noNames,
        exploreEach_nil, addNames]

/-! ## The worklist against the recursion -/

variable (unit) in
structure Agree (first second : Collection) : Prop where
  found : first.found = second.found
  visited : ∀ declaration < unit.declarations.size,
    declaration ∈ first.visited ↔ declaration ∈ second.visited

namespace Agree

variable {first second : Collection}

theorem visit (agree : unit.Agree first second) (declaration : Nat) (added : List Nat) :
    unit.Agree ⟨declaration :: first.visited, unit.addNames first.found added⟩
      ⟨declaration :: second.visited, unit.addNames second.found added⟩ where
  found := by rw [agree.found]
  visited other known := by
    rw [List.mem_cons, List.mem_cons, agree.visited other known]

theorem mark_unknown (agree : unit.Agree first second)
    (unknown : unit.declarations.size ≤ declaration) :
    unit.Agree first ⟨declaration :: second.visited, second.found⟩ where
  found := agree.found
  visited other known := by
    have different : other ≠ declaration := by omega
    rw [agree.visited other known, List.mem_cons, or_iff_right different]

end Agree

/-- A worklist gives the names that its declarations give when they are explored in turn.  What is
nested in the first one comes before the rest, as the search of it ends before the rest begins. -/
theorem visitAll_found (worklist : List Nat) (collection other : Collection)
    (agree : unit.Agree collection other) :
    (unit.visitAll activeOnly worklist collection).found =
      (unit.exploreEach activeOnly worklist other).1.found := by
  fun_induction TranslationUnit.visitAll unit activeOnly worklist collection
    generalizing other with
  | case1 collection =>
    rw [exploreEach_nil]
    exact agree.found
  | case2 collection declaration rest isNew visited passedOver ih =>
    obtain ⟨known, new⟩ := isNew
    have otherNew : declaration ∉ other.visited := mt (agree.visited declaration known).2 new
    rw [exploreEach_cons, explore_of_passedOver otherNew passedOver]
    exact ih _ (agree.visit declaration [])
  | case3 collection declaration rest isNew visited entered ih =>
    obtain ⟨known, new⟩ := isNew
    have otherNew : declaration ∉ other.visited := mt (agree.visited declaration known).2 new
    rw [exploreEach_cons, explore_of_entered otherNew entered, ← exploreEach_append]
    exact ih _ (agree.visit declaration (unit.names declaration))
  | case4 collection declaration rest old ih =>
    rw [exploreEach_cons]
    apply ih
    by_cases known : declaration < unit.declarations.size
    · have seen : declaration ∈ collection.visited :=
        Classical.byContradiction fun new => old ⟨known, new⟩
      rw [explore_of_seen ((agree.visited declaration known).1 seen)]
      exact agree
    · have unknown := Nat.le_of_not_lt known
      rcases explore_of_unknown activeOnly other unknown with unchanged | marked
      · rw [unchanged]
        exact agree
      · rw [marked]
        exact agree.mark_unknown unknown

/-- The names are collected in the order of the recursive search, whatever declarations are shared
or lie within themselves. -/
theorem declarationNames_eq_depthFirstNames (unit : TranslationUnit) (includeInactive : Bool) :
    unit.declarationNames includeInactive = unit.depthFirstNames includeInactive := by
  have start : unit.Agree ⟨[], []⟩ ⟨[], []⟩ := ⟨rfl, fun _ _ => Iff.rfl⟩
  exact visitAll_found _ _ _ start

-- Declaration 3 waits behind 1, but is nested in 1 before 2 as well, and so it comes before 2.
example :
    let name : Occurrence := ⟨true, true, some ⟨0, 1⟩, none⟩
    let unit : TranslationUnit := ⟨[0], #[⟨[1, 3], [0], true, true⟩, ⟨[3, 2], [1], true, true⟩,
      ⟨[], [2], true, true⟩, ⟨[0], [3], true, true⟩], #[name, name, name, name], #[]⟩
    unit.declarationNames true = [0, 1, 3, 2] := by
  cbv

end CrossReference.TranslationUnit
