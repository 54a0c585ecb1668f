import CrossReference.Proofs.RangeMap
import CrossReference.Proofs.TranslationUnit.Collect
import CrossReference.SymbolTable.Assemble
import Mathlib.Data.List.Nodup

/-!
# What an assembled table holds

A declaration name that is bound and has a location declares its binding at a range, and so the
table of a unit has a key for each of those ranges.  Of the names that declare something at one
range the last one collected decides the entry, which holds the ranges of all visible references of
its binding.
-/

set_option autoImplicit false

namespace CrossReference.SymbolTable

variable (unit : TranslationUnit) (lines : Lines)

def DeclaresAt (name binding : Nat) (range : Range) : Prop :=
  unit.binding? name = some binding ∧
    ∃ location, unit.location? name = some location ∧ lines.range location = range

/-- Of the names of a list the last one that declares anything at a range declares a binding. -/
def DeclaresLastAt (names : List Nat) (binding : Nat) (range : Range) : Prop :=
  ∃ before name after, names = before ++ name :: after ∧
    DeclaresAt unit lines name binding range ∧
      ∀ later ∈ after, ∀ other, ¬ DeclaresAt unit lines later other range

/-- An occurrence in the file itself that refers to a binding stands at a range. -/
def RefersAt (binding : Nat) (range : Range) : Prop :=
  ∃ reference ∈ unit.referencesOf binding, unit.isVisible reference = true ∧
    ∃ location, unit.location? reference = some location ∧ lines.range location = range

/-- The references that an entry for a binding at a range has to hold: all of them, but for the
range itself where declarations are not to be among their own references. -/
def HoldsReferences (selfReferences : SelfReferences) (binding : Nat) (declaration : Range)
    (references : RangeSet) : Prop :=
  ∀ range, references.contains range = true ↔
    RefersAt unit lines binding range ∧ (selfReferences = .exclude → range ≠ declaration)

variable {unit lines}

theorem contains_referenceRanges {binding : Nat} {range : Range} :
    RangeMap.contains (referenceRanges unit lines binding) range = true ↔
      RefersAt unit lines binding range := by
  rw [referenceRanges, RangeSet.contains_ofRanges]
  simp only [TranslationUnit.visibleReferences, List.mem_map, List.mem_filterMap,
    List.mem_filter, RefersAt]
  constructor
  · rintro ⟨location, ⟨reference, ⟨member, visible⟩, located⟩, same⟩
    exact ⟨reference, member, visible, location, located, same⟩
  · rintro ⟨reference, member, visible, location, located, same⟩
    exact ⟨location, ⟨reference, ⟨member, visible⟩, located⟩, same⟩

theorem HoldsReferences.unique {selfReferences : SelfReferences} {binding : Nat}
    {declaration : Range} {first second : RangeSet}
    (holdsFirst : HoldsReferences unit lines selfReferences binding declaration first)
    (holdsSecond : HoldsReferences unit lines selfReferences binding declaration second) :
    first = second :=
  RangeSet.ext_contains fun range => (holdsFirst range).trans (holdsSecond range).symm

theorem holdsReferences_preserve (binding : Nat) (declaration : Range) :
    HoldsReferences unit lines .preserve binding declaration
      (referenceRanges unit lines binding) := by
  intro range
  simp [contains_referenceRanges]

theorem holdsReferences_exclude (binding : Nat) (declaration : Range) :
    HoldsReferences unit lines .exclude binding declaration
      ((referenceRanges unit lines binding).erase declaration) := by
  intro range
  simp [RangeSet.contains_erase, contains_referenceRanges]

theorem entryOf?_eq_some_iff {selfReferences : SelfReferences} {name : Nat} {range : Range}
    {references : RangeSet} :
    entryOf? unit lines selfReferences name = some (range, references) ↔
      ∃ binding, DeclaresAt unit lines name binding range ∧
        HoldsReferences unit lines selfReferences binding range references := by
  unfold entryOf?
  constructor
  · intro found
    cases bound : unit.binding? name with
    | none => simp [bound] at found
    | some binding =>
      cases located : unit.location? name with
      | none => simp [bound, located] at found
      | some location =>
        simp only [bound, located] at found
        cases selfReferences with
        | preserve =>
          obtain ⟨rfl, rfl⟩ := Prod.mk.inj (Option.some.inj found)
          refine ⟨binding, ⟨bound, location, located, rfl⟩, ?_⟩
          exact holdsReferences_preserve binding _
        | exclude =>
          obtain ⟨rfl, rfl⟩ := Prod.mk.inj (Option.some.inj found)
          refine ⟨binding, ⟨bound, location, located, rfl⟩, ?_⟩
          exact holdsReferences_exclude binding _
  · rintro ⟨binding, ⟨bound, location, located, rfl⟩, wanted⟩
    simp only [bound, located]
    cases selfReferences with
    | preserve => simp [wanted.unique (holdsReferences_preserve binding (lines.range location))]
    | exclude => simp [wanted.unique (holdsReferences_exclude binding (lines.range location))]

theorem entryOf?_any_iff (selfReferences : SelfReferences) {name : Nat} {range : Range} :
    (entryOf? unit lines selfReferences name).any (·.1 = range) = true ↔
      ∃ binding, DeclaresAt unit lines name binding range := by
  constructor
  · intro gives
    obtain ⟨⟨key, references⟩, found, same⟩ := (Option.any_eq_true _ _).1 gives
    simp only [decide_eq_true_eq] at same
    subst same
    obtain ⟨binding, declares, -⟩ := entryOf?_eq_some_iff.1 found
    exact ⟨binding, declares⟩
  · rintro ⟨binding, bound, location, located, rfl⟩
    unfold entryOf?
    cases selfReferences <;> simp [bound, located]

/-- What a look-up in an assembled table finds is the entry of the last name for the range. -/
theorem get?_assemble_eq_some_iff {options : TableOptions} {range : Range}
    {references : RangeSet} :
    (assemble unit lines options).get? range = some references ↔
      ∃ binding,
        DeclaresLastAt unit lines (unit.declarationNames options.includeInactive) binding range ∧
          HoldsReferences unit lines options.selfReferences binding range references := by
  have notDeclares (name : Nat) :
      (entryOf? unit lines options.selfReferences name).any (·.1 = range) = false ↔
        ∀ other, ¬ DeclaresAt unit lines name other range := by
    rw [← Bool.not_eq_true, entryOf?_any_iff, not_exists]
  rw [assemble, RangeMap.get?_ofList, ← List.filterMap_reverse, List.find?_filterMap]
  simp only [Option.map_eq_some_iff, Option.bind_eq_some_iff, find?_reverse_eq_some_iff,
    entryOf?_any_iff, notDeclares]
  constructor
  · rintro ⟨⟨key, value⟩, ⟨name, ⟨before, after, split, ⟨binding, declares⟩, last⟩, gives⟩, same⟩
    simp only at same
    subst same
    obtain ⟨given, givenDeclares, holds⟩ := entryOf?_eq_some_iff.1 gives
    obtain ⟨bound, location, located, same⟩ := declares
    obtain ⟨givenBound, givenLocation, givenLocated, givenSame⟩ := givenDeclares
    obtain rfl : key = range := by
      rw [located] at givenLocated
      cases givenLocated
      exact givenSame.symm.trans same
    exact ⟨given, ⟨before, name, after, split, ⟨givenBound, location, located, same⟩, last⟩, holds⟩
  · rintro ⟨binding, ⟨before, name, after, split, declares, last⟩, holds⟩
    exact ⟨(range, references),
      ⟨name, ⟨before, after, split, ⟨binding, declares⟩, last⟩,
        entryOf?_eq_some_iff.2 ⟨binding, declares, holds⟩⟩, rfl⟩

/-- A range is a key as soon as a collected name declares something there. -/
theorem contains_assemble_iff {options : TableOptions} {range : Range} :
    (assemble unit lines options).contains range = true ↔
      ∃ name ∈ unit.declarationNames options.includeInactive,
        ∃ binding, DeclaresAt unit lines name binding range := by
  rw [assemble, RangeMap.contains_ofList]
  simp only [List.mem_filterMap]
  constructor
  · rintro ⟨⟨key, references⟩, ⟨name, member, gives⟩, same⟩
    obtain ⟨binding, declares, -⟩ := entryOf?_eq_some_iff.1 gives
    exact ⟨name, member, binding, same ▸ declares⟩
  · rintro ⟨name, member, declares⟩
    obtain ⟨entry, gives, same⟩ := (Option.any_eq_true _ _).1
      ((entryOf?_any_iff options.selfReferences).2 declares)
    exact ⟨entry, ⟨name, member, gives⟩, by simpa using same⟩

theorem isSome_entryOf?_of_mem {includeInactive : Bool} {selfReferences : SelfReferences}
    {name : Nat} (member : name ∈ unit.declarationNames includeInactive) :
    (entryOf? unit lines selfReferences name).isSome = (unit.binding? name).isSome := by
  obtain ⟨declares, -⟩ := TranslationUnit.mem_declarationNames_iff.1 member
  obtain ⟨occurrence, found, -, -, located⟩ := TranslationUnit.isDeclarationName_iff.1 declares
  obtain ⟨location, isLocated⟩ := Option.isSome_iff_exists.1 located
  have isAt : unit.location? name = some location := by
    simp [TranslationUnit.location?, found, isLocated]
  unfold entryOf?
  rw [isAt]
  cases unit.binding? name <;> cases selfReferences <;> rfl

/-- Where no two names declare anything at the same range, each collected name that is bound has an
entry of its own. -/
theorem size_assemble {options : TableOptions}
    (distinct : ∀ first second binding other range, DeclaresAt unit lines first binding range →
      DeclaresAt unit lines second other range → first = second) :
    (assemble unit lines options).size =
      (unit.declarationNames options.includeInactive).countP fun name =>
        (unit.binding? name).isSome := by
  have keys : (((unit.declarationNames options.includeInactive).filterMap
      (entryOf? unit lines options.selfReferences)).map (·.1)).Nodup := by
    rw [List.map_filterMap]
    refine List.Nodup.filterMap ?_ (TranslationUnit.nodup_declarationNames unit _)
    intro first second range isFirst isSecond
    obtain ⟨⟨_, references⟩, gives, rfl⟩ := Option.map_eq_some_iff.1 isFirst
    obtain ⟨⟨_, others⟩, givesOther, rfl⟩ := Option.map_eq_some_iff.1 isSecond
    obtain ⟨binding, declares, -⟩ := entryOf?_eq_some_iff.1 gives
    obtain ⟨other, otherDeclares, -⟩ := entryOf?_eq_some_iff.1 givesOther
    exact distinct first second binding other _ declares otherDeclares
  rw [assemble, RangeMap.size_ofList keys, List.length_filterMap_eq_countP]
  apply List.countP_congr
  intro name member
  rw [isSome_entryOf?_of_mem member]

/-- The table of a unit.  Its keys are the ranges at which collected names declare something, and it
is the only table in which a look-up finds, for each range, the references of what the last of the
names declares there. -/
theorem eq_assemble_iff (unit : TranslationUnit) (text : List Char) (options : TableOptions) :
    (∀ range, (assemble unit (Lines.ofText text) options).contains range = true ↔
      ∃ name ∈ unit.declarationNames options.includeInactive,
        ∃ binding, DeclaresAt unit (Lines.ofText text) name binding range) ∧
    ∀ table : SymbolTable, table = assemble unit (Lines.ofText text) options ↔
      ∀ range references, table.get? range = some references ↔
        ∃ binding,
          DeclaresLastAt unit (Lines.ofText text)
              (unit.declarationNames options.includeInactive) binding range ∧
            HoldsReferences unit (Lines.ofText text) options.selfReferences binding range
              references := by
  refine ⟨fun range => contains_assemble_iff, fun table => ⟨?_, fun lookups => ?_⟩⟩
  · rintro rfl range references
    exact get?_assemble_eq_some_iff
  · refine RangeMap.ext_get? fun range => Option.ext fun references => ?_
    rw [lookups, get?_assemble_eq_some_iff]

end CrossReference.SymbolTable
