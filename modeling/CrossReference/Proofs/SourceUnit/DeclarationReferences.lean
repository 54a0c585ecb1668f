import CrossReference.Proofs.SourceUnit.Forest
import CrossReference.Proofs.SourceUnit.Locations
import CrossReference.Proofs.SymbolTable.Rearrange

/-!
# Declarations among the references

Names that declare something may be reported as references of it.  A unit that is read so differs
from one that is not in its lists of references only.  In a well-formed tree, where each key stands
for one binding, the set of a key then has the ranges at which its binding is declared, in addition
to those at which it is used.
-/

set_option autoImplicit false

namespace CrossReference

namespace SymbolTable

variable (unit : TranslationUnit) (lines : Lines)

/-- A declaration name is bound to a binding and stands at a range, collected or not. -/
def DeclaredAt (binding : Nat) (range : Range) : Prop :=
  ∃ name, unit.isDeclarationName name = true ∧ DeclaresAt unit lines name binding range

def IsKeyOf (includeInactive : Bool) (binding : Nat) (range : Range) : Prop :=
  ∃ name ∈ unit.declarationNames includeInactive, DeclaresAt unit lines name binding range

variable {unit lines}

theorem IsKeyOf.declaredAt {includeInactive : Bool} {binding : Nat} {range : Range}
    (key : IsKeyOf unit lines includeInactive binding range) :
    DeclaredAt unit lines binding range := by
  obtain ⟨name, collected, declares⟩ := key
  obtain ⟨isName, -⟩ := TranslationUnit.mem_declarationNames_iff.1 collected
  exact ⟨name, isName, declares⟩

/-- Where no range is the key of two bindings, each key holds the references of its binding. -/
theorem get?_assemble_of_isKeyOf {options : TableOptions} {binding : Nat} {range : Range}
    {references : RangeSet}
    (unambiguous : Unambiguous unit lines (unit.declarationNames options.includeInactive))
    (key : IsKeyOf unit lines options.includeInactive binding range)
    (holds : HoldsReferences unit lines options.selfReferences binding range references) :
    (assemble unit lines options).get? range = some references := by
  apply get?_assemble_eq_some_iff.2
  exact ⟨binding, (declaresLastAt_iff unambiguous).2 key, holds⟩

end SymbolTable

namespace SourceUnit

open ParseTree Walk SymbolTable

theorem mem_referencesTo_iff {names : Array NameNode} {withDeclarations : Bool}
    {binding name : Nat} :
    name ∈ referencesTo names withDeclarations binding ↔
      ∃ found, names[name]? = some found ∧ found.binding = some binding ∧
        (found.declares = false ∨ withDeclarations = true) := by
  rw [referencesTo, List.mem_filter, List.mem_range]
  constructor
  · rintro ⟨known, refers⟩
    rw [Array.getElem?_eq_getElem known] at refers ⊢
    exact ⟨_, rfl, by simpa using refers⟩
  · rintro ⟨found, there, bound, counts⟩
    obtain ⟨known, -⟩ := Array.getElem?_eq_some_iff.1 there
    refine ⟨known, ?_⟩
    rw [there]
    simpa [bound] using counts

variable (source : List Char) (language : Language) (tree : ParseTree)

/-- The lists of references are exact: a binding is referred to by the names that are bound to it,
and of those that declare only if they count. -/
theorem mem_referencesOf_iff (withDeclarations : Bool) (binding name : Nat) :
    name ∈ (ofTree source language withDeclarations tree).toTranslationUnit.referencesOf binding ↔
      ∃ found, (ofTree source language withDeclarations tree).names[name]? = some found ∧
        found.binding = some binding ∧ (found.declares = false ∨ withDeclarations = true) := by
  have indexed := isIndexed_ofTree source language withDeclarations tree
  by_cases known : binding < (ofTree source language withDeclarations tree).symbols.size
  · have list : (ofTree source language withDeclarations tree).toTranslationUnit.referencesOf
        binding = referencesTo (ofTree source language withDeclarations tree).names
          withDeclarations binding := by
      have inside : binding < (walked source language tree).resolve.symbols.size := known
      simp [TranslationUnit.referencesOf, toTranslationUnit, ofTree, inside]
    rw [list, mem_referencesTo_iff]
  · constructor
    · intro member
      have missing :
          (ofTree source language withDeclarations tree).references[binding]? = none := by
        rw [Array.getElem?_eq_none_iff, indexed.references]
        omega
      simp [TranslationUnit.referencesOf, toTranslationUnit, missing] at member
    · rintro ⟨found, there, bound, -⟩
      have isBound : (ofTree source language withDeclarations tree).toTranslationUnit.binding?
          name = some binding := by
        simp [TranslationUnit.binding?, toTranslationUnit, there, bound]
      exact absurd (indexed.bindings name binding isBound) known

theorem name_view {unit : SourceUnit} {name : Nat} {found : NameNode}
    (there : unit.names[name]? = some found) :
    unit.toTranslationUnit.binding? name = found.binding ∧
      unit.toTranslationUnit.location? name = found.location ∧
      unit.toTranslationUnit.isVisible name = found.location.isSome ∧
      unit.toTranslationUnit.isDeclarationName name =
        (found.declares && found.location.isSome) := by
  simp [TranslationUnit.binding?, TranslationUnit.location?, TranslationUnit.isVisible,
    TranslationUnit.isDeclarationName, toTranslationUnit, there]

variable (lines : Lines)

/-- The ranges of the references, with declarations and without. -/
theorem refersAt_with_declarations_iff (binding : Nat) (range : Range) :
    RefersAt (ofTree source language true tree).toTranslationUnit lines binding range ↔
      RefersAt (ofTree source language false tree).toTranslationUnit lines binding range ∨
        DeclaredAt (ofTree source language false tree).toTranslationUnit lines binding range := by
  constructor
  · rintro ⟨name, refers, -, location, located, isRange⟩
    obtain ⟨found, there, bound, -⟩ := (mem_referencesOf_iff source language tree true _ _).1 refers
    obtain ⟨-, locationView, -, -⟩ := name_view there
    have isLocated : found.location = some location := locationView.symm.trans located
    have plainThere : (ofTree source language false tree).names[name]? = some found := there
    obtain ⟨binding', location', visible, isName⟩ := name_view plainThere
    cases declares : found.declares with
    | false =>
      left
      refine ⟨name, (mem_referencesOf_iff source language tree false _ _).2
        ⟨found, plainThere, bound, .inl declares⟩, ?_, location, located, isRange⟩
      rw [visible, isLocated, Option.isSome_some]
    | true =>
      right
      refine ⟨name, ?_, binding'.trans bound, location, located, isRange⟩
      rw [isName, declares, isLocated, Option.isSome_some, Bool.and_self]
  · rintro (⟨name, refers, visible, place⟩ | ⟨name, isName, bound, location, located, isRange⟩)
    · obtain ⟨found, there, isBound, -⟩ :=
        (mem_referencesOf_iff source language tree false _ _).1 refers
      exact ⟨name, (mem_referencesOf_iff source language tree true _ _).2
        ⟨found, there, isBound, .inr rfl⟩, visible, place⟩
    · obtain ⟨occurrence, there, -⟩ := TranslationUnit.isDeclarationName_iff.1 isName
      simp only [toTranslationUnit, Array.getElem?_map, Option.map_eq_some_iff] at there
      obtain ⟨found, plainThere, -⟩ := there
      obtain ⟨binding', location', visible, -⟩ := name_view plainThere
      refine ⟨name, (mem_referencesOf_iff source language tree true _ _).2
        ⟨found, plainThere, binding'.symm.trans bound, .inr rfl⟩, ?_, location, located, isRange⟩
      have isVisible : (ofTree source language false tree).toTranslationUnit.isVisible name =
          true := by
        rw [visible, ← location', located, Option.isSome_some]
      exact isVisible

theorem declarationNames_ofTree (withDeclarations includeInactive : Bool) :
    (ofTree source language withDeclarations tree).toTranslationUnit.declarationNames
        includeInactive =
      (ofTree source language false tree).toTranslationUnit.declarationNames includeInactive :=
  TranslationUnit.declarationNames_of_references
    (ofTree source language false tree).toTranslationUnit _ includeInactive

theorem isKeyOf_ofTree (withDeclarations includeInactive : Bool) (binding : Nat) (range : Range) :
    IsKeyOf (ofTree source language withDeclarations tree).toTranslationUnit lines includeInactive
        binding range ↔
      IsKeyOf (ofTree source language false tree).toTranslationUnit lines includeInactive binding
        range := by
  unfold IsKeyOf
  rw [declarationNames_ofTree]
  exact Iff.rfl

variable {source language tree lines}

theorem unambiguous_ofTree {withDeclarations : Bool} (wellFormed : WellFormed source tree)
    (names : List Nat) :
    Unambiguous (ofTree source language withDeclarations tree).toTranslationUnit
      (Lines.ofText source) names := by
  intro name _ other _ binding otherBinding range declares otherDeclares
  obtain rfl := eq_of_declaresAt wellFormed declares otherDeclares
  exact Option.some.inj (declares.1.symm.trans otherDeclares.1)

theorem not_refersAt_of_declaredAt (wellFormed : WellFormed source tree) {binding : Nat}
    {range : Range}
    (declared : DeclaredAt (ofTree source language false tree).toTranslationUnit
      (Lines.ofText source) binding range) :
    ¬ RefersAt (ofTree source language false tree).toTranslationUnit (Lines.ofText source) binding
      range := by
  rintro ⟨reference, refers, -, place⟩
  obtain ⟨found, there, bound, counts⟩ :=
    (mem_referencesOf_iff source language tree false _ _).1 refers
  obtain ⟨binding', -, -, isName⟩ := name_view there
  obtain ⟨name, declares, declaresAt⟩ := declared
  obtain rfl : reference = name :=
    eq_of_declaresAt wellFormed ⟨binding'.trans bound, place⟩ declaresAt
  rw [isName, counts.resolve_right (by simp)] at declares
  cases declares

/-- Counting declarations as references changes nothing but the lists of references, and so no key.
In a well-formed tree the ranges that it adds to the set of a key are those at which the binding of
the key is declared, and keys of one binding have the same set; where declarations are to be left
out of their own references, each key loses its own range and nothing else. -/
theorem declarations_counted_as_references (source : List Char) (language : Language)
    (tree : ParseTree) :
    ofTree source language true tree =
      { ofTree source language false tree with
        references := (ofTree source language true tree).references } ∧
    (∀ options range,
      (assemble (ofTree source language true tree).toTranslationUnit (Lines.ofText source)
          options).contains range =
        (assemble (ofTree source language false tree).toTranslationUnit (Lines.ofText source)
          options).contains range ∧
      ((assemble (ofTree source language false tree).toTranslationUnit (Lines.ofText source)
          options).contains range = true ↔
        ∃ binding, IsKeyOf (ofTree source language false tree).toTranslationUnit
          (Lines.ofText source) options.includeInactive binding range)) ∧
    (WellFormed source tree → ∀ includeInactive binding range,
      IsKeyOf (ofTree source language false tree).toTranslationUnit (Lines.ofText source)
          includeInactive binding range →
      ∃ uses all others : RangeSet,
        (assemble (ofTree source language false tree).toTranslationUnit (Lines.ofText source)
          ⟨includeInactive, .preserve⟩).get? range = some uses ∧
        (assemble (ofTree source language true tree).toTranslationUnit (Lines.ofText source)
          ⟨includeInactive, .preserve⟩).get? range = some all ∧
        (assemble (ofTree source language true tree).toTranslationUnit (Lines.ofText source)
          ⟨includeInactive, .exclude⟩).get? range = some others ∧
        (∀ other, all.contains other = true ↔
          uses.contains other = true ∨
            DeclaredAt (ofTree source language false tree).toTranslationUnit
              (Lines.ofText source) binding other) ∧
        (∀ other, DeclaredAt (ofTree source language false tree).toTranslationUnit
            (Lines.ofText source) binding other → uses.contains other = false) ∧
        all.contains range = true ∧
        (∀ other, others.contains other = true ↔
          all.contains other = true ∧ other ≠ range) ∧
        ∀ second, IsKeyOf (ofTree source language false tree).toTranslationUnit
            (Lines.ofText source) includeInactive binding second →
          (assemble (ofTree source language true tree).toTranslationUnit (Lines.ofText source)
            ⟨includeInactive, .preserve⟩).get? second = some all) := by
  refine ⟨rfl, ?_, ?_⟩
  · intro options range
    constructor
    · rw [Bool.eq_iff_iff, contains_assemble_iff, contains_assemble_iff,
        declarationNames_ofTree source language tree true]
      exact Iff.rfl
    · rw [contains_assemble_iff]
      constructor
      · rintro ⟨name, collected, binding, declares⟩
        exact ⟨binding, name, collected, declares⟩
      · rintro ⟨binding, name, collected, declares⟩
        exact ⟨name, collected, binding, declares⟩
  · intro wellFormed includeInactive binding range key
    have holdsAll {second : Range}
        (isKey : IsKeyOf (ofTree source language false tree).toTranslationUnit
          (Lines.ofText source) includeInactive binding second) :
        (assemble (ofTree source language true tree).toTranslationUnit (Lines.ofText source)
          ⟨includeInactive, .preserve⟩).get? second =
            some (referenceRanges (ofTree source language true tree).toTranslationUnit
              (Lines.ofText source) binding) :=
      get?_assemble_of_isKeyOf (unambiguous_ofTree wellFormed _)
        ((isKeyOf_ofTree source language tree _ true _ _ _).2 isKey)
        (holdsReferences_preserve binding second)
    have added (other : Range) :
        RangeMap.contains (referenceRanges (ofTree source language true tree).toTranslationUnit
          (Lines.ofText source) binding) other = true ↔
        RangeMap.contains (referenceRanges (ofTree source language false tree).toTranslationUnit
            (Lines.ofText source) binding) other = true ∨
          DeclaredAt (ofTree source language false tree).toTranslationUnit
            (Lines.ofText source) binding other := by
      rw [contains_referenceRanges, contains_referenceRanges]
      exact refersAt_with_declarations_iff source language tree (Lines.ofText source) binding other
    refine ⟨_, _, (referenceRanges (ofTree source language true tree).toTranslationUnit
      (Lines.ofText source) binding).erase range, ?_, holdsAll key, ?_, added, ?_, ?_, ?_,
      fun second isKey => holdsAll isKey⟩
    · exact get?_assemble_of_isKeyOf (unambiguous_ofTree wellFormed _) key
        (holdsReferences_preserve binding range)
    · exact get?_assemble_of_isKeyOf (unambiguous_ofTree wellFormed _)
        ((isKeyOf_ofTree source language tree _ true _ _ _).2 key)
        (holdsReferences_exclude binding range)
    · intro other declared
      rw [← Bool.not_eq_true, contains_referenceRanges]
      exact not_refersAt_of_declaredAt wellFormed declared
    · exact (added range).2 (.inr key.declaredAt)
    · intro other
      exact RangeSet.contains_erase _ range other

def twiceDeclared : List Char := "int a; int a = 1; int b = a;".toList

def twiceDeclaredTree : ParseTree :=
  ruleNode 0 "translation_unit" "" 0 28
    [ruleNode 1 "declaration" "" 0 6
      [ruleNode 2 "primitive_type" "type" 0 3 [],
        ruleNode 3 "identifier" "declarator" 4 5 []],
      ruleNode 4 "declaration" "" 7 17
        [ruleNode 5 "primitive_type" "type" 7 10 [],
          ruleNode 6 "init_declarator" "declarator" 11 16
            [ruleNode 7 "identifier" "declarator" 11 12 [],
              ruleNode 8 "number_literal" "value" 15 16 []]],
      ruleNode 9 "declaration" "" 18 28
        [ruleNode 10 "primitive_type" "type" 18 21 [],
          ruleNode 11 "init_declarator" "declarator" 22 27
            [ruleNode 12 "identifier" "declarator" 22 23 [],
              ruleNode 13 "identifier" "value" 26 27 []]]]

theorem isKeyOf_twiceDeclared :
    IsKeyOf (ofTree twiceDeclared .cpp false twiceDeclaredTree).toTranslationUnit
        (Lines.ofText twiceDeclared) true 0 ⟨⟨1, 4⟩, ⟨1, 5⟩⟩ ∧
      IsKeyOf (ofTree twiceDeclared .cpp false twiceDeclaredTree).toTranslationUnit
        (Lines.ofText twiceDeclared) true 0 ⟨⟨1, 11⟩, ⟨1, 12⟩⟩ := by
  have view : (ofTree twiceDeclared .cpp false twiceDeclaredTree).toTranslationUnit =
      ⟨[0, 1, 2],
        #[⟨[], [0], true, true⟩, ⟨[], [1], true, true⟩, ⟨[], [2, 3], true, true⟩],
        #[⟨true, true, some ⟨4, 1⟩, some 0⟩, ⟨true, true, some ⟨11, 1⟩, some 0⟩,
          ⟨true, true, some ⟨22, 1⟩, some 1⟩, ⟨false, true, some ⟨26, 1⟩, some 0⟩],
        #[[3], []]⟩ := by decide +kernel
  have collected : (ofTree twiceDeclared .cpp false
      twiceDeclaredTree).toTranslationUnit.declarationNames true = [0, 1, 2] := by
    rw [view]
    simp [TranslationUnit.declarationNames, TranslationUnit.visitAll, TranslationUnit.addNames,
      TranslationUnit.isInFile, TranslationUnit.names, TranslationUnit.nested,
      TranslationUnit.isDeclarationName]
  constructor
  · refine ⟨0, ?_, ?_, ⟨4, 1⟩, ?_, by decide +kernel⟩
    · rw [collected]
      decide
    · rw [view]
      rfl
    · rw [view]
      rfl
  · refine ⟨1, ?_, ?_, ⟨11, 1⟩, ?_, by decide +kernel⟩
    · rw [collected]
      decide
    · rw [view]
      rfl
    · rw [view]
      rfl

/-- Both keys of the variable have one set, which has both of them. -/
theorem keys_of_variable_have_both_declarations :
    WellFormed twiceDeclared twiceDeclaredTree ∧ ∃ all : RangeSet,
      (assemble (ofTree twiceDeclared .cpp true twiceDeclaredTree).toTranslationUnit
        (Lines.ofText twiceDeclared) ⟨true, .preserve⟩).get? ⟨⟨1, 4⟩, ⟨1, 5⟩⟩ = some all ∧
      (assemble (ofTree twiceDeclared .cpp true twiceDeclaredTree).toTranslationUnit
        (Lines.ofText twiceDeclared) ⟨true, .preserve⟩).get? ⟨⟨1, 11⟩, ⟨1, 12⟩⟩ = some all ∧
      all.contains ⟨⟨1, 4⟩, ⟨1, 5⟩⟩ = true ∧ all.contains ⟨⟨1, 11⟩, ⟨1, 12⟩⟩ = true := by
  have wellFormed : WellFormed twiceDeclared twiceDeclaredTree := by decide +kernel
  obtain ⟨first, second⟩ := isKeyOf_twiceDeclared
  obtain ⟨-, -, sets⟩ := declarations_counted_as_references twiceDeclared .cpp twiceDeclaredTree
  obtain ⟨uses, all, others, -, isAll, -, added, -, own, -, shared⟩ :=
    sets wellFormed true 0 _ first
  exact ⟨wellFormed, all, isAll, shared _ second, own, (added _).2 (.inr second.declaredAt)⟩

end SourceUnit

end CrossReference
