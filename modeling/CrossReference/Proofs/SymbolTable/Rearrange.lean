import CrossReference.Proofs.SymbolTable
import CrossReference.TranslationUnit.Edit

/-!
# Units that give the same table

A table depends on which names are collected and on which references are reported, but not on the
order in which they come or on how often they do.  Units may so be given otherwise: their lists may
be reordered, a declaration that is reached anyway may be linked again, and a reference may be
reported again.
-/

set_option autoImplicit false

namespace CrossReference

namespace TranslationUnit

variable (includeInactive : Bool)

/-- Two units over the same occurrences collect the same names, and they report the same visible
references of each binding. -/
structure SameReport (first second : TranslationUnit) : Prop where
  occurrences : second.occurrences = first.occurrences
  collected : ∀ name, name ∈ second.declarationNames includeInactive ↔
    name ∈ first.declarationNames includeInactive
  references : ∀ binding reference, reference ∈ second.visibleReferences binding ↔
    reference ∈ first.visibleReferences binding

/-- All lists of two units over the same occurrences have the same members, in any order and any
number of times, and no mark of a declaration differs. -/
structure SameMembers (first second : TranslationUnit) : Prop where
  occurrences : second.occurrences = first.occurrences
  topLevel : ∀ declaration, declaration ∈ second.topLevel ↔ declaration ∈ first.topLevel
  nested : ∀ outer inner, inner ∈ second.nested outer ↔ inner ∈ first.nested outer
  names : ∀ declaration name, name ∈ second.names declaration ↔ name ∈ first.names declaration
  active : ∀ declaration, second.isActive declaration = first.isActive declaration
  inFile : ∀ declaration, second.isInFile declaration = first.isInFile declaration
  references : ∀ binding reference, reference ∈ second.referencesOf binding ↔
    reference ∈ first.referencesOf binding

/-- A unit is given otherwise in some steps, none of which adds anything to what it says. -/
inductive Rearranges : TranslationUnit → TranslationUnit → Prop where
  | reordered {first second : TranslationUnit} (same : SameMembers first second) :
      Rearranges first second
  /-- A declaration that is reached is linked from anywhere once more. -/
  | linked (unit : TranslationUnit) (parent : Option Nat) {child : Nat}
      (reached : unit.Reached includeInactive child) :
      Rearranges unit (unit.apply (.link parent child))
  | reported (unit : TranslationUnit) {binding reference : Nat}
      (known : reference ∈ unit.referencesOf binding) :
      Rearranges unit (unit.apply (.report binding reference))
  | trans {first second third : TranslationUnit} (one : Rearranges first second)
      (other : Rearranges second third) : Rearranges first third

variable {includeInactive} {first second third : TranslationUnit}

theorem isDeclarationName_eq (occurrences : second.occurrences = first.occurrences) (name : Nat) :
    second.isDeclarationName name = first.isDeclarationName name := by
  rw [isDeclarationName, occurrences, isDeclarationName]

theorem mem_visibleReferences_iff {unit : TranslationUnit} {binding reference : Nat} :
    reference ∈ unit.visibleReferences binding ↔
      reference ∈ unit.referencesOf binding ∧ unit.isVisible reference = true :=
  List.mem_filter

namespace SameReport

theorem trans (one : SameReport includeInactive first second)
    (other : SameReport includeInactive second third) :
    SameReport includeInactive first third where
  occurrences := other.occurrences.trans one.occurrences
  collected name := (other.collected name).trans (one.collected name)
  references binding reference :=
    (other.references binding reference).trans (one.references binding reference)

/-- It is enough that the same declarations are reached, that these own the same names, and that the
lists of references have the same members. -/
theorem of_reached (occurrences : second.occurrences = first.occurrences)
    (reached : ∀ declaration, second.Reached includeInactive declaration ↔
      first.Reached includeInactive declaration)
    (names : ∀ declaration name, name ∈ second.names declaration ↔ name ∈ first.names declaration)
    (references : ∀ binding reference, reference ∈ second.referencesOf binding ↔
      reference ∈ first.referencesOf binding) : SameReport includeInactive first second where
  occurrences := occurrences
  collected name := by
    rw [mem_declarationNames_iff, mem_declarationNames_iff, isDeclarationName_eq occurrences]
    simp only [reached, names]
  references binding reference := by
    rw [mem_visibleReferences_iff, mem_visibleReferences_iff, references, isVisible, occurrences,
      isVisible]

end SameReport

namespace SameMembers

theorem symm (same : SameMembers first second) : SameMembers second first where
  occurrences := same.occurrences.symm
  topLevel declaration := (same.topLevel declaration).symm
  nested outer inner := (same.nested outer inner).symm
  names declaration name := (same.names declaration name).symm
  active declaration := (same.active declaration).symm
  inFile declaration := (same.inFile declaration).symm
  references binding reference := (same.references binding reference).symm

theorem reached (same : SameMembers first second) {declaration : Nat}
    (isReached : first.Reached includeInactive declaration) :
    second.Reached includeInactive declaration := by
  have kept (other : Nat) (isKept : first.Kept includeInactive other) :
      second.Kept includeInactive other := by
    intro activeOnly
    rw [same.active]
    exact isKept activeOnly
  induction isReached with
  | top member inFile isKept =>
    apply Reached.top
    · exact (same.topLevel _).2 member
    · rw [same.inFile]
      exact inFile
    · exact kept _ isKept
  | nested _ member isKept ih => exact .nested ih ((same.nested _ _).2 member) (kept _ isKept)

theorem sameReport (same : SameMembers first second) : SameReport includeInactive first second :=
  .of_reached same.occurrences (fun _ => ⟨same.symm.reached, same.reached⟩) same.names
    same.references

end SameMembers

/-! ## Linking and reporting again -/

section Again

variable (unit : TranslationUnit) (parent : Option Nat) (child : Nat)

theorem nested_link (outer : Nat) :
    (unit.link parent child).nested outer =
      if parent = some outer ∧ outer < unit.declarations.size then unit.nested outer ++ [child]
      else unit.nested outer := by
  cases parent with
  | none => simp [link, nested]
  | some parent =>
    simp only [link, nested, Array.getElem?_modify, Option.some.injEq]
    by_cases known : outer < unit.declarations.size
    · by_cases same : parent = outer <;> simp [known, same]
    · simp [known]

theorem topLevel_link :
    (unit.link parent child).topLevel =
      if parent = none then unit.topLevel ++ [child] else unit.topLevel := by
  cases parent <;> simp [link]

theorem declaration_link (declaration : Nat) :
    (unit.link parent child).names declaration = unit.names declaration ∧
      (unit.link parent child).isActive declaration = unit.isActive declaration ∧
      (unit.link parent child).isInFile declaration = unit.isInFile declaration := by
  cases parent with
  | none => exact ⟨rfl, rfl, rfl⟩
  | some parent =>
    simp only [link, names, isActive, isInFile, Array.getElem?_modify]
    cases unit.declarations[declaration]? with
    | none => simp
    | some found =>
      by_cases same : parent = declaration <;> simp [same]

theorem occurrences_link : (unit.link parent child).occurrences = unit.occurrences := by
  cases parent <;> rfl

theorem references_link : (unit.link parent child).references = unit.references := by
  cases parent <;> rfl

variable {unit child}

theorem kept_link_iff (declaration : Nat) :
    (unit.link parent child).Kept includeInactive declaration ↔
      unit.Kept includeInactive declaration := by
  obtain ⟨-, active, -⟩ := unit.declaration_link parent child declaration
  rw [Kept, active, Kept]

/-- What is reached over a link to a reached declaration was reached before. -/
theorem reached_link_iff (known : unit.Reached includeInactive child) (declaration : Nat) :
    (unit.link parent child).Reached includeInactive declaration ↔
      unit.Reached includeInactive declaration := by
  constructor
  · intro isReached
    induction isReached with
    | @top declaration member inFile kept =>
      obtain ⟨-, -, isInFile⟩ := unit.declaration_link parent child declaration
      rw [isInFile] at inFile
      rw [kept_link_iff] at kept
      rw [topLevel_link] at member
      split at member
      · rcases List.mem_append.1 member with old | new
        · exact .top old inFile kept
        · exact List.mem_singleton.1 new ▸ known
      · exact .top member inFile kept
    | @nested outer inner _ member kept ih =>
      rw [kept_link_iff] at kept
      rw [nested_link] at member
      split at member
      · rcases List.mem_append.1 member with old | new
        · exact .nested ih old kept
        · exact List.mem_singleton.1 new ▸ known
      · exact .nested ih member kept
  · intro isReached
    induction isReached with
    | @top declaration member inFile kept =>
      obtain ⟨-, -, isInFile⟩ := unit.declaration_link parent child declaration
      apply Reached.top
      · rw [topLevel_link]
        split
        · exact List.mem_append_left _ member
        · exact member
      · rw [isInFile]
        exact inFile
      · rw [kept_link_iff]
        exact kept
    | @nested outer inner _ member kept ih =>
      apply Reached.nested ih
      · rw [nested_link]
        split
        · exact List.mem_append_left _ member
        · exact member
      · rw [kept_link_iff]
        exact kept

theorem sameReport_link (known : unit.Reached includeInactive child) :
    SameReport includeInactive unit (unit.link parent child) := by
  apply SameReport.of_reached
  · exact unit.occurrences_link parent child
  · exact reached_link_iff parent known
  · intro declaration name
    obtain ⟨names, -, -⟩ := unit.declaration_link parent child declaration
    rw [names]
  · intro binding reference
    rw [referencesOf, references_link, referencesOf]

theorem mem_referencesOf_report_iff {binding reference : Nat}
    (known : reference ∈ unit.referencesOf binding) (other member : Nat) :
    member ∈ (unit.report binding reference).referencesOf other ↔
      member ∈ unit.referencesOf other := by
  simp only [referencesOf, report, Array.getElem?_modify] at known ⊢
  cases found : unit.references[other]? with
  | none => simp
  | some list =>
    by_cases same : binding = other
    · subst same
      simp only [found] at known
      simp only [if_true, Option.map_some, List.mem_append, List.mem_singleton, or_iff_left_iff_imp]
      rintro rfl
      exact known
    · simp [same]

end Again

/-- However a unit is rearranged, it collects the same names and reports the same references. -/
theorem Rearranges.sameReport (rearranges : Rearranges includeInactive first second) :
    SameReport includeInactive first second := by
  induction rearranges with
  | reordered same => exact same.sameReport
  | linked unit parent reached => exact sameReport_link parent reached
  | reported unit known =>
    exact SameMembers.sameReport ⟨rfl, fun _ => .rfl, fun _ _ => .rfl, fun _ _ => .rfl, fun _ => rfl,
      fun _ => rfl, mem_referencesOf_report_iff known⟩
  | trans _ _ one other => exact one.trans other

end TranslationUnit

namespace SymbolTable

open TranslationUnit

variable {lines : Lines} {first second : TranslationUnit}

/-- No two names of a list declare different bindings at one range. -/
def Unambiguous (unit : TranslationUnit) (lines : Lines) (names : List Nat) : Prop :=
  ∀ name ∈ names, ∀ other ∈ names, ∀ binding otherBinding range,
    DeclaresAt unit lines name binding range → DeclaresAt unit lines other otherBinding range →
      binding = otherBinding

theorem exists_declaresLastAt {unit : TranslationUnit} {range : Range} {names : List Nat}
    (some : ∃ name ∈ names, ∃ binding, DeclaresAt unit lines name binding range) :
    ∃ binding, DeclaresLastAt unit lines names binding range := by
  induction names with
  | nil =>
    obtain ⟨name, member, -⟩ := some
    cases member
  | cons head rest ih =>
    by_cases later : ∃ name ∈ rest, ∃ binding, DeclaresAt unit lines name binding range
    · obtain ⟨binding, before, name, after, rfl, declares, none⟩ := ih later
      exact ⟨binding, head :: before, name, after, rfl, declares, none⟩
    · obtain ⟨name, member, binding, declares⟩ := some
      rcases List.mem_cons.1 member with rfl | isRest
      · refine ⟨binding, [], name, rest, rfl, declares, ?_⟩
        intro other isLater otherBinding declaresLater
        exact later ⟨other, isLater, otherBinding, declaresLater⟩
      · exact absurd ⟨name, isRest, binding, declares⟩ later

theorem declaresLastAt_iff {unit : TranslationUnit} {names : List Nat} {binding : Nat} {range : Range}
    (unambiguous : Unambiguous unit lines names) :
    DeclaresLastAt unit lines names binding range ↔
      ∃ name ∈ names, DeclaresAt unit lines name binding range := by
  constructor
  · rintro ⟨before, name, after, rfl, declares, -⟩
    exact ⟨name, by simp, declares⟩
  · rintro ⟨name, member, declares⟩
    obtain ⟨other, last⟩ := exists_declaresLastAt ⟨name, member, binding, declares⟩
    obtain ⟨before, lastName, after, rfl, declaresLast, none⟩ := last
    obtain rfl : other = binding :=
      unambiguous lastName (by simp) name member other binding range declaresLast declares
    exact ⟨before, lastName, after, rfl, declaresLast, none⟩

section Same

variable {includeInactive : Bool} (same : SameReport includeInactive first second)

include same

theorem declaresAt_iff (name binding : Nat) (range : Range) :
    DeclaresAt second lines name binding range ↔ DeclaresAt first lines name binding range := by
  simp only [DeclaresAt, binding?, location?, same.occurrences]

theorem refersAt_iff (binding : Nat) (range : Range) :
    RefersAt second lines binding range ↔ RefersAt first lines binding range := by
  have visible (reference : Nat) : reference ∈ second.referencesOf binding ∧
        second.isVisible reference = true ↔
      reference ∈ first.referencesOf binding ∧ first.isVisible reference = true := by
    rw [← mem_visibleReferences_iff, ← mem_visibleReferences_iff]
    exact same.references binding reference
  simp only [RefersAt, ← and_assoc, visible, location?, same.occurrences]

theorem unambiguous_of_sameReport
    (unambiguous : Unambiguous first lines (first.declarationNames includeInactive)) :
    Unambiguous second lines (second.declarationNames includeInactive) := by
  intro name member other otherMember binding otherBinding range declares otherDeclares
  apply unambiguous name ((same.collected name).1 member) other ((same.collected other).1 otherMember)
    binding otherBinding range
  · exact (declaresAt_iff same name binding range).1 declares
  · exact (declaresAt_iff same other otherBinding range).1 otherDeclares

end Same

theorem assemble_eq_of_sameReport {options : TableOptions}
    (same : SameReport options.includeInactive first second)
    (unambiguous : Unambiguous first lines (first.declarationNames options.includeInactive)) :
    assemble second lines options = assemble first lines options := by
  apply RangeMap.ext_get?
  intro range
  apply Option.ext
  intro references
  have alsoSecond := unambiguous_of_sameReport same unambiguous
  rw [get?_assemble_eq_some_iff, get?_assemble_eq_some_iff]
  simp only [declaresLastAt_iff unambiguous, declaresLastAt_iff alsoSecond, same.collected,
    declaresAt_iff same, HoldsReferences, refersAt_iff same]

theorem assemble_of_references (unit : TranslationUnit) (references : Array (List Nat))
    (same : ∀ binding name, name ∈ ({ unit with references := references }).referencesOf binding ↔
      name ∈ unit.referencesOf binding) (lines : Lines) (options : TableOptions) :
    assemble { unit with references := references } lines options = assemble unit lines options := by
  have refers (binding : Nat) (range : Range) :
      RefersAt { unit with references := references } lines binding range ↔
        RefersAt unit lines binding range := by
    simp only [RefersAt, same]
    exact Iff.rfl
  apply RangeMap.ext_get?
  intro range
  apply Option.ext
  intro found
  rw [get?_assemble_eq_some_iff, get?_assemble_eq_some_iff, declarationNames_of_references]
  simp only [HoldsReferences, refers]
  exact Iff.rfl

/-- Two units over the same occurrences that collect the same names and report the same visible
references have the same table, unless collected names with different bindings stand at one range.
In particular a table does not change when the lists of a unit are reordered, when a reached
declaration is linked again or when a reference is reported again, any number of times. -/
theorem rearranged_unit_gives_same_table (text : List Char) (options : TableOptions)
    (first second : TranslationUnit)
    (unambiguous : Unambiguous first (Lines.ofText text)
      (first.declarationNames options.includeInactive)) :
    (SameReport options.includeInactive first second →
      assemble second (Lines.ofText text) options = assemble first (Lines.ofText text) options) ∧
    (Rearranges options.includeInactive first second →
      assemble second (Lines.ofText text) options =
        assemble first (Lines.ofText text) options) := by
  constructor
  · intro same
    exact assemble_eq_of_sameReport same unambiguous
  · intro rearranges
    exact assemble_eq_of_sameReport rearranges.sameReport unambiguous

/-! ## A unit given in two ways -/

def fourNames : List Char := "a b c d".toList

def fourOccurrences : Array Occurrence :=
  #[⟨true, true, some ⟨0, 1⟩, some 0⟩, ⟨true, true, some ⟨2, 1⟩, some 1⟩,
    ⟨false, true, some ⟨4, 1⟩, some 0⟩, ⟨true, true, some ⟨6, 1⟩, some 2⟩]

def plainUnit : TranslationUnit where
  topLevel := [0, 1]
  declarations := #[⟨[2], [0], true, true⟩, ⟨[], [1, 2], true, true⟩, ⟨[], [3], true, true⟩]
  occurrences := fourOccurrences
  references := #[[2], [], []]

def reorderedUnit : TranslationUnit where
  topLevel := [1, 0, 1]
  declarations := #[⟨[2, 2], [0], true, true⟩, ⟨[], [2, 1, 2], true, true⟩, ⟨[], [3], true, true⟩]
  occurrences := fourOccurrences
  references := #[[2], [], []]

def rearrangedUnit : TranslationUnit :=
  ((reorderedUnit.apply (.link (some 1) 2)).apply (.link none 2)).apply (.report 0 2)

theorem sameMembers_reorderedUnit : SameMembers plainUnit reorderedUnit := by
  refine ⟨rfl, ?_, ?_, ?_, ?_, ?_, fun _ _ => .rfl⟩
  · intro declaration
    simp only [plainUnit, reorderedUnit, List.mem_cons, List.not_mem_nil, or_false]
    omega
  · rintro (_ | _ | _ | outer) <;> simp [plainUnit, reorderedUnit, nested]
  · rintro (_ | _ | _ | outer) <;> simp [plainUnit, reorderedUnit, names, or_comm]
  · rintro (_ | _ | _ | outer) <;> rfl
  · rintro (_ | _ | _ | outer) <;> rfl

theorem rearranges_plainUnit : Rearranges true plainUnit rearrangedUnit := by
  have reached (unit : TranslationUnit) (top : 0 ∈ unit.topLevel) (inFile : unit.isInFile 0 = true)
      (inside : 2 ∈ unit.nested 0) : unit.Reached true 2 := by
    have kept (declaration : Nat) : unit.Kept true declaration := fun notIncluded => by
      cases notIncluded
    exact .nested (.top top inFile (kept 0)) inside (kept 2)
  have linked := (Rearranges.reordered sameMembers_reorderedUnit).trans
    (.linked reorderedUnit (some 1) (reached _ (by decide) rfl (by decide)))
  have linkedAgain := linked.trans (.linked _ none (reached _ (by decide) rfl (by decide)))
  exact linkedAgain.trans (.reported _ (by decide))

theorem unambiguous_plainUnit :
    Unambiguous plainUnit (Lines.ofText fourNames) (plainUnit.declarationNames true) := by
  have collected : plainUnit.declarationNames true = [0, 3, 1] := by
    simp [declarationNames, visitAll, addNames, isInFile, names, nested, isDeclarationName,
      plainUnit, fourOccurrences]
  have apart : ∀ name ∈ [0, 3, 1], ∀ other ∈ [0, 3, 1],
      (plainUnit.location? name).map (Lines.ofText fourNames).range =
        (plainUnit.location? other).map (Lines.ofText fourNames).range →
      plainUnit.binding? name = plainUnit.binding? other := by decide +kernel
  rw [collected]
  rintro name member other otherMember binding otherBinding range
    ⟨bound, location, located, isRange⟩ ⟨otherBound, otherLocation, otherLocated, otherIsRange⟩
  have same := apart name member other otherMember
    (by rw [located, otherLocated, Option.map_some, Option.map_some, isRange, otherIsRange])
  rw [bound, otherBound] at same
  exact Option.some.inj same

theorem rearranged_plain_unit_gives_same_table :
    Unambiguous plainUnit (Lines.ofText fourNames) (plainUnit.declarationNames true) ∧
      SameReport true plainUnit rearrangedUnit ∧ Rearranges true plainUnit rearrangedUnit ∧
      assemble rearrangedUnit (Lines.ofText fourNames) ⟨true, .exclude⟩ =
        assemble plainUnit (Lines.ofText fourNames) ⟨true, .exclude⟩ := by
  obtain ⟨-, sameTable⟩ := rearranged_unit_gives_same_table fourNames ⟨true, .exclude⟩ plainUnit
    rearrangedUnit unambiguous_plainUnit
  exact ⟨unambiguous_plainUnit, rearranges_plainUnit.sameReport, rearranges_plainUnit,
    sameTable rearranges_plainUnit⟩

end SymbolTable

end CrossReference
