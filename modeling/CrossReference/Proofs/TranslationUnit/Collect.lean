import CrossReference.TranslationUnit.Collect

/-!
# Which names are collected

A declaration is reached if it stands at the top level of the file itself or inside a reached one;
where only what is compiled in counts, it has to be compiled in as well.  The collected names are
the declaration names that reached declarations own, each of them once.  `Progress` is what holds
between the worklist, the declarations visited and the names found so far.
-/

set_option autoImplicit false

namespace CrossReference.TranslationUnit

variable (unit : TranslationUnit) (includeInactive : Bool)

def Kept (declaration : Nat) : Prop :=
  includeInactive = false → unit.isActive declaration = true

/-- A way over nested declarations, none of which is passed over, leads from the top level of the
file to a declaration. -/
inductive Reached : Nat → Prop where
  | top {declaration : Nat} (member : declaration ∈ unit.topLevel)
      (inFile : unit.isInFile declaration = true)
      (kept : unit.Kept includeInactive declaration) : Reached declaration
  | nested {outer inner : Nat} (reached : Reached outer) (member : inner ∈ unit.nested outer)
      (kept : unit.Kept includeInactive inner) : Reached inner

variable {unit includeInactive}

theorem Reached.kept {declaration : Nat} (reached : Reached unit includeInactive declaration) :
    unit.Kept includeInactive declaration := by
  cases reached with
  | top _ _ kept => exact kept
  | nested _ _ kept => exact kept

theorem isDeclarationName_iff {name : Nat} :
    unit.isDeclarationName name = true ↔
      ∃ occurrence, unit.occurrences[name]? = some occurrence ∧ occurrence.declares = true ∧
        occurrence.inFile = true ∧ occurrence.location.isSome = true := by
  unfold isDeclarationName
  cases unit.occurrences[name]? with
  | none => simp
  | some occurrence => simp [and_assoc]

theorem lt_size_of_mem_names {declaration name : Nat}
    (member : name ∈ unit.names declaration) : declaration < unit.declarations.size := by
  apply Nat.lt_of_not_le
  intro unknown
  simp [names, Array.getElem?_eq_none unknown] at member

/-! ## The names of one declaration -/

theorem mem_addNames_iff {found names : List Nat} {name : Nat} :
    name ∈ unit.addNames found names ↔
      name ∈ found ∨ name ∈ names ∧ unit.isDeclarationName name = true := by
  induction names generalizing found with
  | nil => simp [addNames]
  | cons first rest ih =>
    simp only [addNames]
    split
    · rename_i isNew
      obtain ⟨declares, -⟩ := Bool.and_eq_true_iff.1 isNew
      rw [ih, List.mem_append, List.mem_singleton, List.mem_cons]
      by_cases same : name = first
      · simp [same, declares]
      · simp [same]
    · rename_i notNew
      rw [ih, List.mem_cons]
      by_cases same : name = first
      · subst same
        have known (declares : unit.isDeclarationName name = true) : name ∈ found := by
          simpa [declares] using notNew
        simp only [true_or, true_and]
        exact ⟨Or.imp_right And.right, fun given => .inl (given.elim id known)⟩
      · simp [same]

theorem nodup_addNames {found names : List Nat} (nodup : found.Nodup) :
    (unit.addNames found names).Nodup := by
  induction names generalizing found with
  | nil => exact nodup
  | cons first rest ih =>
    simp only [addNames]
    split
    · rename_i isNew
      obtain ⟨-, isAbsent⟩ := Bool.and_eq_true_iff.1 isNew
      have absent : first ∉ found := by simpa using isAbsent
      apply ih
      rw [List.nodup_append]
      refine ⟨nodup, by simp, ?_⟩
      intro old member last isFirst same
      rw [List.mem_singleton.1 isFirst] at same
      exact absent (same ▸ member)
    · exact ih nodup

/-! ## The worklist -/

variable (unit includeInactive)

def Noted (worklist : List Nat) (collection : Collection) (declaration : Nat) : Prop :=
  declaration ∈ collection.visited ∨ declaration ∈ worklist ∨ unit.declarations.size ≤ declaration

structure Progress (worklist : List Nat) (collection : Collection) : Prop where
  reached : ∀ declaration ∈ worklist,
    unit.Kept includeInactive declaration → Reached unit includeInactive declaration
  sound : ∀ name ∈ collection.found, unit.isDeclarationName name = true ∧
    ∃ declaration, Reached unit includeInactive declaration ∧ name ∈ unit.names declaration
  nodup : collection.found.Nodup
  tops : ∀ declaration ∈ unit.topLevel, unit.isInFile declaration = true →
    unit.Noted worklist collection declaration
  nested : ∀ outer ∈ collection.visited, unit.Kept includeInactive outer →
    ∀ inner ∈ unit.nested outer, unit.Noted worklist collection inner
  complete : ∀ declaration ∈ collection.visited, unit.Kept includeInactive declaration →
    ∀ name ∈ unit.names declaration, unit.isDeclarationName name = true →
      name ∈ collection.found

variable {unit includeInactive}

theorem Noted.visit {first declaration : Nat} {worklist found : List Nat}
    {collection : Collection} (noted : unit.Noted (first :: worklist) collection declaration)
    (added : List Nat) :
    unit.Noted (added ++ worklist) ⟨first :: collection.visited, found⟩ declaration := by
  rcases noted with visited | waits | unknown
  · exact .inl (List.mem_cons_of_mem _ visited)
  · rcases List.mem_cons.1 waits with rfl | later
    · exact .inl List.mem_cons_self
    · exact .inr (.inl (List.mem_append_right _ later))
  · exact .inr (.inr unknown)

theorem Noted.skip {first declaration : Nat} {worklist : List Nat} {collection : Collection}
    (noted : unit.Noted (first :: worklist) collection declaration)
    (old : ¬ (first < unit.declarations.size ∧ first ∉ collection.visited)) :
    unit.Noted worklist collection declaration := by
  rcases noted with visited | waits | unknown
  · exact .inl visited
  · rcases List.mem_cons.1 waits with rfl | later
    · by_cases known : declaration < unit.declarations.size
      · exact .inl (Classical.byContradiction fun new => old ⟨known, new⟩)
      · exact .inr (.inr (Nat.le_of_not_lt known))
    · exact .inr (.inl later)
  · exact .inr (.inr unknown)

namespace Progress

variable {first : Nat} {worklist : List Nat} {collection : Collection}

theorem start :
    Progress unit includeInactive (unit.topLevel.filter unit.isInFile) ⟨[], []⟩ where
  reached declaration member kept := by
    obtain ⟨isTop, inFile⟩ := List.mem_filter.1 member
    exact .top isTop inFile kept
  sound name member := by simp at member
  nodup := List.nodup_nil
  tops declaration member inFile := .inr (.inl (List.mem_filter.2 ⟨member, inFile⟩))
  nested outer member := by simp at member
  complete declaration member := by simp at member

theorem skip (progress : Progress unit includeInactive (first :: worklist) collection)
    (old : ¬ (first < unit.declarations.size ∧ first ∉ collection.visited)) :
    Progress unit includeInactive worklist collection where
  reached declaration member := progress.reached declaration (List.mem_cons_of_mem _ member)
  sound := progress.sound
  nodup := progress.nodup
  tops declaration member inFile := (progress.tops declaration member inFile).skip old
  nested outer visited kept inner member := (progress.nested outer visited kept inner member).skip old
  complete := progress.complete

/-- A declaration that is passed over is visited without its names and what is nested in it. -/
theorem passOver (progress : Progress unit includeInactive (first :: worklist) collection)
    (notKept : ¬ unit.Kept includeInactive first) :
    Progress unit includeInactive worklist ⟨first :: collection.visited, collection.found⟩ where
  reached declaration member := progress.reached declaration (List.mem_cons_of_mem _ member)
  sound := progress.sound
  nodup := progress.nodup
  tops declaration member inFile := (progress.tops declaration member inFile).visit []
  nested outer visited kept inner member := by
    rcases List.mem_cons.1 visited with rfl | before
    · exact absurd kept notKept
    · exact (progress.nested outer before kept inner member).visit []
  complete declaration visited kept := by
    rcases List.mem_cons.1 visited with rfl | before
    · exact absurd kept notKept
    · exact progress.complete declaration before kept

/-- Any other declaration gives its names, and what is nested in it goes to the worklist. -/
theorem enter (progress : Progress unit includeInactive (first :: worklist) collection)
    (kept : unit.Kept includeInactive first) :
    Progress unit includeInactive (unit.nested first ++ worklist)
      ⟨first :: collection.visited, unit.addNames collection.found (unit.names first)⟩ where
  reached declaration member isKept := by
    have isReached := progress.reached first List.mem_cons_self kept
    rcases List.mem_append.1 member with inside | later
    · exact .nested isReached inside isKept
    · exact progress.reached declaration (List.mem_cons_of_mem _ later) isKept
  sound name member := by
    rcases mem_addNames_iff.1 member with old | ⟨owned, declares⟩
    · exact progress.sound name old
    · exact ⟨declares, first, progress.reached first List.mem_cons_self kept, owned⟩
  nodup := nodup_addNames progress.nodup
  tops declaration member inFile := (progress.tops declaration member inFile).visit _
  nested outer visited isKept inner member := by
    rcases List.mem_cons.1 visited with rfl | before
    · exact .inr (.inl (List.mem_append_left _ member))
    · exact (progress.nested outer before isKept inner member).visit _
  complete declaration visited isKept name member declares := by
    rw [mem_addNames_iff]
    rcases List.mem_cons.1 visited with rfl | before
    · exact .inr ⟨member, declares⟩
    · exact .inl (progress.complete declaration before isKept name member declares)

theorem visitAll (progress : Progress unit includeInactive worklist collection) :
    Progress unit includeInactive []
      (unit.visitAll (!includeInactive) worklist collection) := by
  fun_induction TranslationUnit.visitAll unit (!includeInactive) worklist collection with
  | case1 collection => exact progress
  | case2 collection first rest isNew visited inactive ih =>
    apply ih
    apply progress.passOver
    intro kept
    simp only [Bool.and_eq_true, Bool.not_eq_true'] at inactive
    rw [kept inactive.1] at inactive
    cases inactive.2
  | case3 collection first rest isNew visited active ih =>
    apply ih
    apply progress.enter
    intro activeOnly
    simpa [activeOnly] using active
  | case4 collection first rest old ih => exact ih (progress.skip old)

/-- In the end all reached declarations are visited. -/
theorem visited_of_reached (progress : Progress unit includeInactive [] collection)
    {declaration : Nat} (reached : Reached unit includeInactive declaration)
    (known : declaration < unit.declarations.size) : declaration ∈ collection.visited := by
  have ended {other : Nat} (noted : unit.Noted [] collection other)
      (isKnown : other < unit.declarations.size) : other ∈ collection.visited := by
    rcases noted with visited | waits | unknown
    · exact visited
    · cases waits
    · omega
  induction reached with
  | top member inFile _ => exact ended (progress.tops _ member inFile) known
  | @nested outer inner reached member _ ih =>
    have outerKnown : outer < unit.declarations.size := by
      apply Nat.lt_of_not_le
      intro unknown
      simp [TranslationUnit.nested, Array.getElem?_eq_none unknown] at member
    exact ended (progress.nested outer (ih outerKnown) reached.kept inner member) known

end Progress

/-! ## All collected names -/

theorem nodup_declarationNames (unit : TranslationUnit) (includeInactive : Bool) :
    (unit.declarationNames includeInactive).Nodup :=
  Progress.start.visitAll.nodup

theorem mem_declarationNames_iff {name : Nat} :
    name ∈ unit.declarationNames includeInactive ↔
      unit.isDeclarationName name = true ∧
        ∃ declaration, Reached unit includeInactive declaration ∧
          name ∈ unit.names declaration := by
  have progress : Progress unit includeInactive [] _ := Progress.start.visitAll
  constructor
  · exact progress.sound name
  · rintro ⟨declares, declaration, reached, owned⟩
    have visited := progress.visited_of_reached reached (lt_size_of_mem_names owned)
    exact progress.complete declaration visited reached.kept name owned declares

/-- A collection ends on every graph of declarations and has no name twice.  It has those names that
declare something at a place of the file itself and belong to a reached declaration. -/
theorem collects_names_of_reached_once (unit : TranslationUnit) (includeInactive : Bool) :
    (unit.declarationNames includeInactive).Nodup ∧
      ∀ name, name ∈ unit.declarationNames includeInactive ↔
        (∃ occurrence, unit.occurrences[name]? = some occurrence ∧ occurrence.declares = true ∧
          occurrence.inFile = true ∧ occurrence.location.isSome = true) ∧
        ∃ declaration, Reached unit includeInactive declaration ∧
          name ∈ unit.names declaration := by
  refine ⟨nodup_declarationNames unit includeInactive, fun name => ?_⟩
  rw [mem_declarationNames_iff, isDeclarationName_iff]

/-! ## What a collection does not read -/

section References

variable (unit : TranslationUnit) (references : Array (List Nat))

theorem addNames_of_references (found names : List Nat) :
    ({ unit with references := references }).addNames found names = unit.addNames found names := by
  induction names generalizing found with
  | nil => rfl
  | cons first rest ih =>
    rw [addNames, addNames, ih, ih]
    rfl

theorem visitAll_of_references (activeOnly : Bool) (worklist : List Nat) (collection : Collection) :
    ({ unit with references := references }).visitAll activeOnly worklist collection =
      unit.visitAll activeOnly worklist collection := by
  fun_induction TranslationUnit.visitAll unit activeOnly worklist collection with
  | case1 collection => rw [visitAll]
  | case2 collection first rest isNew visited inactive ih =>
    rw [visitAll, dif_pos isNew, ← ih]
    exact if_pos inactive
  | case3 collection first rest isNew visited active ih =>
    rw [visitAll, dif_pos isNew, ← ih, ← addNames_of_references unit references]
    exact if_neg active
  | case4 collection first rest old ih =>
    rw [visitAll, dif_neg old, ih]

theorem declarationNames_of_references (includeInactive : Bool) :
    ({ unit with references := references }).declarationNames includeInactive =
      unit.declarationNames includeInactive := by
  rw [declarationNames, visitAll_of_references]
  rfl

end References

end CrossReference.TranslationUnit
