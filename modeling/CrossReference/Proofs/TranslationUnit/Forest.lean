import CrossReference.Proofs.SourceUnit.Forest
import CrossReference.Proofs.TranslationUnit.Collect

/-!
# Collection from a forest

In a forest every declaration is come to once.  Where all that is nested in a declaration that is
passed over would be passed over as well, nothing is lost by leaving out whole trees: the collected
names are those that the remaining declarations introduce, in the order of the declarations.
-/

set_option autoImplicit false

namespace CrossReference

namespace InPreorder

variable {nested : Nat → List Nat} {roots all : List Nat}

/-- What holds of the roots, and of all that is nested in a number with it, holds of each number. -/
theorem forall_of_roots (holds : Nat → Prop) (order : InPreorder nested roots all)
    (inherited : ∀ outer, holds outer → ∀ inner ∈ nested outer, holds inner) :
    (∀ root ∈ roots, holds root) → ∀ number ∈ all, holds number := by
  induction order with
  | nil =>
    intro _ number member
    cases member
  | @cons root rest inside later below next ihBelow ihNext =>
    intro atRoots number member
    have here : holds root := atRoots root List.mem_cons_self
    rcases List.mem_cons.1 member with rfl | deeper
    · exact here
    · rcases List.mem_append.1 deeper with isInside | isLater
      · exact ihBelow (inherited root here) number isInside
      · exact ihNext (fun other isRest => atRoots other (List.mem_cons_of_mem _ isRest)) number
          isLater

theorem sublist_roots (order : InPreorder nested roots all) : roots.Sublist all := by
  induction order with
  | nil => exact .slnil
  | cons below next ihBelow ihNext =>
    exact (ihNext.trans (List.sublist_append_right _ _)).cons_cons _

theorem sublist_nested (order : InPreorder nested roots all) :
    ∀ number ∈ all, (nested number).Sublist all := by
  induction order with
  | nil => nofun
  | @cons root rest inside later below next ihBelow ihNext =>
    intro number member
    rcases List.mem_cons.1 member with rfl | deeper
    · exact (below.sublist_roots.trans (List.sublist_append_left _ _)).cons _
    · rcases List.mem_append.1 deeper with isInside | isLater
      · exact ((ihBelow number isInside).trans (List.sublist_append_left _ _)).cons _
      · exact ((ihNext number isLater).trans (List.sublist_append_right _ _)).cons _

end InPreorder

namespace TranslationUnit

variable (unit : TranslationUnit)

def introduced (declaration : Nat) : List Nat :=
  (unit.names declaration).filter unit.isDeclarationName

/-- The declaration that a name belongs to: the first one that lists it. -/
def owner? (name : Nat) : Option Nat :=
  (List.range unit.declarations.size).find? fun declaration =>
    (unit.names declaration).contains name

/-- No declaration lists a name twice, and no two list the same name. -/
structure NamesApart : Prop where
  once : ∀ declaration, (unit.names declaration).Nodup
  apart : ∀ first second name, name ∈ unit.names first → name ∈ unit.names second →
    first = second

variable {unit}

theorem owner?_eq_some_iff (lists : unit.NamesApart) {name declaration : Nat} :
    unit.owner? name = some declaration ↔ name ∈ unit.names declaration := by
  constructor
  · intro found
    simpa using List.find?_some found
  · intro member
    cases found : unit.owner? name with
    | none =>
      have known := lt_size_of_mem_names member
      have absent := List.find?_eq_none.1 found declaration (List.mem_range.2 known)
      simp [member] at absent
    | some other =>
      have lists' : name ∈ unit.names other := by simpa using List.find?_some found
      rw [lists.apart other declaration name lists' member]

/-! ## The names that are added -/

theorem addNames_of_new {found names : List Nat} (nodup : names.Nodup)
    (new : ∀ name ∈ names, name ∉ found) :
    unit.addNames found names = found ++ names.filter unit.isDeclarationName := by
  induction names generalizing found with
  | nil => simp [addNames]
  | cons first rest ih =>
    obtain ⟨notRest, restNodup⟩ := List.nodup_cons.1 nodup
    have isNew : first ∉ found := new first List.mem_cons_self
    have restNew : ∀ name ∈ rest, name ∉ found := by
      intro name member
      exact new name (List.mem_cons_of_mem _ member)
    cases declares : unit.isDeclarationName first with
    | false =>
      rw [addNames, declares, Bool.false_and, if_neg Bool.false_ne_true, ih restNodup restNew,
        List.filter_cons_of_neg (by simp [declares])]
    | true =>
      have added : ∀ name ∈ rest, name ∉ found ++ [first] := by
        intro name member isFound
        rcases List.mem_append.1 isFound with old | isFirst
        · exact restNew name member old
        · exact notRest (List.mem_singleton.1 isFirst ▸ member)
      have contained : found.contains first = false := by simpa using isNew
      rw [addNames, declares, contained, Bool.not_false, Bool.and_self, if_pos rfl,
        ih restNodup added, List.filter_cons_of_pos declares, List.append_assoc,
        List.singleton_append]

theorem foldl_addNames (lists : unit.NamesApart) {declarations found : List Nat}
    (nodup : declarations.Nodup)
    (new : ∀ declaration ∈ declarations, ∀ name ∈ unit.names declaration, name ∉ found) :
    declarations.foldl (fun found declaration => unit.addNames found (unit.names declaration))
      found = found ++ declarations.flatMap unit.introduced := by
  induction declarations generalizing found with
  | nil => simp
  | cons first rest ih =>
    obtain ⟨notRest, restNodup⟩ := List.nodup_cons.1 nodup
    have added : unit.addNames found (unit.names first) = found ++ unit.introduced first :=
      addNames_of_new (lists.once first) (new first List.mem_cons_self)
    rw [List.foldl_cons, added, ih restNodup, List.flatMap_cons, List.append_assoc]
    · intro declaration member name isName isFound
      rcases List.mem_append.1 isFound with old | isFirst
      · exact new declaration (List.mem_cons_of_mem _ member) name isName old
      · have same := lists.apart declaration first name isName (List.mem_filter.1 isFirst).1
        exact notRest (same ▸ member)

/-! ## The worklist -/

variable (unit) in
def keeps (includeInactive : Bool) (declaration : Nat) : Bool :=
  includeInactive || unit.isActive declaration

variable (unit) in
/-- Whatever is nested in a declaration that is not compiled in is not compiled in either. -/
def InheritsActivity : Prop :=
  ∀ outer inner, inner ∈ unit.nested outer → unit.isActive outer = false →
    unit.isActive inner = false

/-- A declaration that is met for the first time gives its names and what is nested in it, unless it
is passed over. -/
theorem visitAll_of_new {includeInactive : Bool} {first : Nat} (worklist visited found : List Nat)
    (known : first < unit.declarations.size) (new : first ∉ visited) :
    unit.visitAll (!includeInactive) (first :: worklist) ⟨visited, found⟩ =
      if unit.keeps includeInactive first then
        unit.visitAll (!includeInactive) (unit.nested first ++ worklist)
          ⟨first :: visited, unit.addNames found (unit.names first)⟩
      else unit.visitAll (!includeInactive) worklist ⟨first :: visited, found⟩ := by
  have skips : ((!includeInactive) && !unit.isActive first) = !unit.keeps includeInactive first :=
    (Bool.not_or _ _).symm
  rw [visitAll, dif_pos ⟨known, new⟩]
  simp only
  rw [skips]
  cases unit.keeps includeInactive first <;> rfl

/-- Where a declaration is passed over, nothing that is nested in it would be kept. -/
theorem filter_keeps_of_not_keeps {includeInactive : Bool} {root : Nat} {inside : List Nat}
    (below : InPreorder unit.nested (unit.nested root) inside)
    (inherits : includeInactive = false → unit.InheritsActivity)
    (passedOver : unit.keeps includeInactive root = false) :
    inside.filter (unit.keeps includeInactive) = [] := by
  obtain ⟨isActiveOnly, inactive⟩ := Bool.or_eq_false_iff.1 passedOver
  have insideInactive : ∀ declaration ∈ inside, unit.isActive declaration = false := by
    apply below.forall_of_roots fun declaration => unit.isActive declaration = false
    · intro outer isInactive inner member
      exact inherits isActiveOnly outer inner member isInactive
    · intro inner member
      exact inherits isActiveOnly root inner member inactive
  rw [List.filter_eq_nil_iff]
  intro declaration member
  rw [keeps, isActiveOnly, insideInactive declaration member]
  exact Bool.false_ne_true

/-- The trees at the front of a worklist are visited before the rest of it, and each declaration of
them that is not passed over gives its names. -/
theorem visitAll_of_inPreorder {includeInactive : Bool} {roots all : List Nat}
    (order : InPreorder unit.nested roots all)
    (inherits : includeInactive = false → unit.InheritsActivity)
    (known : ∀ declaration ∈ all, declaration < unit.declarations.size) (nodup : all.Nodup)
    (waiting visited found : List Nat) (fresh : ∀ declaration ∈ all, declaration ∉ visited) :
    ∃ after, (∀ declaration ∈ after, declaration ∈ visited ∨ declaration ∈ all) ∧
      unit.visitAll (!includeInactive) (roots ++ waiting) ⟨visited, found⟩ =
        unit.visitAll (!includeInactive) waiting ⟨after,
          (all.filter (unit.keeps includeInactive)).foldl
            (fun found declaration => unit.addNames found (unit.names declaration)) found⟩ := by
  induction order generalizing waiting visited found with
  | nil => exact ⟨visited, fun _ => .inl, rfl⟩
  | @cons root rest inside later below next ihBelow ihNext =>
    obtain ⟨notRoot, others⟩ := List.nodup_cons.1 nodup
    obtain ⟨insideNodup, laterNodup, disjoint⟩ := List.nodup_append.1 others
    have isKnown := known root List.mem_cons_self
    have isNew := fresh root List.mem_cons_self
    have othersKnown : ∀ declaration ∈ inside ++ later, declaration < unit.declarations.size :=
      fun declaration member => known declaration (List.mem_cons_of_mem _ member)
    have othersFresh : ∀ declaration ∈ inside ++ later, declaration ∉ root :: visited := by
      intro declaration member isVisited
      rcases List.mem_cons.1 isVisited with rfl | old
      · exact notRoot member
      · exact fresh declaration (List.mem_cons_of_mem _ member) old
    obtain ⟨insideKnown, laterKnown⟩ := List.forall_mem_append.1 othersKnown
    obtain ⟨insideFresh, laterFresh⟩ := List.forall_mem_append.1 othersFresh
    rw [List.cons_append, visitAll_of_new (rest ++ waiting) visited found isKnown isNew]
    cases kept : unit.keeps includeInactive root with
    | true =>
      rw [if_pos rfl]
      obtain ⟨middle, isMiddle, belowDone⟩ := ihBelow insideKnown insideNodup (rest ++ waiting)
        (root :: visited) (unit.addNames found (unit.names root)) insideFresh
      have nextFresh : ∀ declaration ∈ later, declaration ∉ middle := by
        intro declaration member isVisited
        rcases isMiddle declaration isVisited with old | isInside
        · exact laterFresh declaration member old
        · exact disjoint declaration isInside declaration member rfl
      obtain ⟨after, isAfter, nextDone⟩ := ihNext laterKnown laterNodup waiting middle _ nextFresh
      refine ⟨after, ?_, ?_⟩
      · intro declaration isVisited
        have atLast := isAfter declaration isVisited
        have between := isMiddle declaration
        grind
      · rw [belowDone, nextDone, List.filter_cons_of_pos kept, List.filter_append, List.foldl_cons,
          List.foldl_append]
    | false =>
      rw [if_neg Bool.false_ne_true]
      obtain ⟨after, isAfter, nextDone⟩ := ihNext laterKnown laterNodup waiting (root :: visited)
        found laterFresh
      refine ⟨after, ?_, ?_⟩
      · intro declaration isVisited
        have atLast := isAfter declaration isVisited
        grind
      · rw [nextDone, List.filter_cons_of_neg (by simp [kept]), List.filter_append,
          filter_keeps_of_not_keeps below inherits kept, List.nil_append]

/-- The names collected from a forest are those that its declarations introduce, in the order of the
declarations; without inactive ones, those of the active declarations. -/
theorem declarationNames_of_isForest {includeInactive : Bool} (forest : unit.IsForest)
    (lists : unit.NamesApart) (inFile : ∀ declaration ∈ unit.topLevel,
      unit.isInFile declaration = true)
    (inherits : includeInactive = false → unit.InheritsActivity) :
    unit.declarationNames includeInactive =
      ((List.range unit.declarations.size).filter (unit.keeps includeInactive)).flatMap
        unit.introduced := by
  have all : unit.topLevel.filter unit.isInFile = unit.topLevel := List.filter_eq_self.2 inFile
  obtain ⟨after, -, done⟩ := visitAll_of_inPreorder forest.inOrder inherits
    (fun declaration => List.mem_range.1) List.nodup_range [] [] [] (by simp)
  rw [List.append_nil] at done
  rw [declarationNames, all, done, visitAll,
    foldl_addNames lists (List.nodup_range.filter _) (by simp), List.nil_append]

theorem filter_flatMap_introduced (lists : unit.NamesApart) (test : Nat → Bool)
    (declarations : List Nat) :
    (declarations.flatMap unit.introduced).filter (fun name => (unit.owner? name).any test) =
      (declarations.filter test).flatMap unit.introduced := by
  induction declarations with
  | nil => rfl
  | cons first rest ih =>
    have owned : ∀ name ∈ unit.introduced first, (unit.owner? name).any test = test first := by
      intro name member
      rw [(owner?_eq_some_iff lists).2 (List.mem_filter.1 member).1, Option.any_some]
    rw [List.flatMap_cons, List.filter_append, ih]
    cases kept : test first with
    | true =>
      rw [List.filter_cons_of_pos kept, List.flatMap_cons, List.filter_eq_self.2]
      intro name member
      rw [owned name member, kept]
    | false =>
      rw [List.filter_cons_of_neg (by simp [kept]), List.filter_eq_nil_iff.2, List.nil_append]
      intro name member
      rw [owned name member, kept]
      exact Bool.false_ne_true

/-- In a forest in which activity is inherited, leaving out inactive declarations before or after
the collection makes no difference. -/
theorem declarationNames_active (forest : unit.IsForest) (lists : unit.NamesApart)
    (inFile : ∀ declaration ∈ unit.topLevel, unit.isInFile declaration = true)
    (inherits : unit.InheritsActivity) :
    unit.declarationNames false =
      (unit.declarationNames true).filter fun name => (unit.owner? name).any unit.isActive := by
  have everything : (List.range unit.declarations.size).filter (unit.keeps true) =
      List.range unit.declarations.size := List.filter_eq_self.2 fun _ _ => rfl
  have whole : unit.declarationNames true =
      (List.range unit.declarations.size).flatMap unit.introduced := by
    rw [declarationNames_of_isForest forest lists inFile (by simp), everything]
  rw [whole, filter_flatMap_introduced lists]
  exact declarationNames_of_isForest forest lists inFile fun _ => inherits

end TranslationUnit

end CrossReference
