import CrossReference.Proofs.SourceUnit.ActiveNames
import CrossReference.Proofs.SourceUnit.DeclarationReferences
import CrossReference.Proofs.TranslationUnit.Replay

/-!
# Building the unit of a file again

A walk numbers declarations and occurrences in the order in which they are listed, so that the unit
of a file can be built again by edits.  The lists of references may come in another order then, but
they have the same members, and the table is the same.
-/

set_option autoImplicit false

namespace CrossReference

namespace Walk

variable {before after : State}

/-! ## Names are listed in order -/

theorem increasing_fill {owner : Option Nat} (lists : ListsApart before)
    (fills : Fills owner before after)
    (increasing : ∀ declaration, (before.namesIn declaration).Pairwise (· < ·)) :
    ∀ declaration, (after.namesIn declaration).Pairwise (· < ·) := by
  intro declaration
  by_cases known : declaration < before.declarations.size
  · rw [fills.listed declaration known, List.pairwise_append]
    refine ⟨increasing declaration, ?_, ?_⟩
    · split
      · exact List.pairwise_lt_range'
      · exact List.Pairwise.nil
    · intro old isOld new isNew
      have bound := lists.known declaration old isOld
      split at isNew
      · rw [List.mem_range'_1] at isNew
        omega
      · cases isNew
  · have missing : after.declarations[declaration]? = none := by
      rw [Array.getElem?_eq_none_iff, fills.size]
      omega
    rw [State.namesIn, missing]
    exact List.Pairwise.nil

theorem run_increasing (source : List Char) (state : State) (frames : List Frame)
    (lists : ListsApart state)
    (increasing : ∀ declaration, (state.namesIn declaration).Pairwise (· < ·)) :
    ∀ declaration, ((run source state frames).namesIn declaration).Pairwise (· < ·) := by
  fun_induction run source state frames with
  | case1 state => exact increasing
  | case2 state frame rest visited ih =>
    obtain stays | begins := visit_stays_or_begins source state frame
    · exact ih (lists.fill stays.fills) (increasing_fill lists stays.fills increasing)
    · have opened := lists.openDeclaration frame.tree.kind frame.context
      apply ih (opened.fill begins.fills)
      apply increasing_fill opened begins.fills
      intro declaration
      rw [openDeclaration_namesIn]
      exact increasing declaration

end Walk

namespace SourceUnit

open Walk SymbolTable TranslationUnit

variable (source : List Char) (language : Language) (withDeclarations : Bool) (tree : ParseTree)

theorem isOrdered_ofTree :
    (ofTree source language withDeclarations tree).toTranslationUnit.IsOrdered := by
  have indexed := isIndexed_ofTree source language withDeclarations tree
  constructor
  case forest => exact isForest_ofTree source language withDeclarations tree
  case lists => exact namesApart_ofTree source language withDeclarations tree
  case increasing =>
    rw [names_ofTree]
    apply run_increasing source _ _ (.initial _)
    intro declaration
    rw [State.namesIn]
    exact List.Pairwise.nil
  case listed =>
    intro declaration name member
    simpa [toTranslationUnit] using indexed.listed declaration name member
  case inFile =>
    intro declaration known
    simp only [toTranslationUnit, Array.size_map] at known
    simp [isInFile, toTranslationUnit, known]
  case bindings =>
    intro name binding bound
    have inside := indexed.bindings name binding bound
    rw [← indexed.references] at inside
    exact inside

/-- However a list of references was come by, it has the same members. -/
theorem mem_reportedUpTo_iff (binding name : Nat) :
    name ∈ ((ofTree source language withDeclarations tree).toTranslationUnit.reportedUpTo
        (if withDeclarations then
          (ofTree source language withDeclarations tree).toTranslationUnit.occurrences.size
        else 0)).referencesOf binding ↔
      name ∈ (ofTree source language withDeclarations tree).toTranslationUnit.referencesOf
        binding := by
  have ordered := isOrdered_ofTree source language withDeclarations tree
  have isBound (declares : Bool) :
      (ofTree source language withDeclarations tree).toTranslationUnit.binds declares binding
          name = true ↔
        ∃ found, (ofTree source language withDeclarations tree).names[name]? = some found ∧
          found.declares = declares ∧ found.binding = some binding := by
    simp only [binds_iff, toTranslationUnit, Array.getElem?_map, Option.map_eq_some_iff]
    constructor
    · rintro ⟨_, ⟨found, there, rfl⟩, declared, bound⟩
      exact ⟨found, there, declared, bound⟩
    · rintro ⟨found, there, declared, bound⟩
      exact ⟨_, ⟨found, there, rfl⟩, declared, bound⟩
  rw [mem_referencesOf_reportedUpTo ordered, mem_referencesOf_iff, isBound, isBound]
  constructor
  · rintro (⟨found, there, uses, bound⟩ | ⟨reported, found, there, -, bound⟩)
    · exact ⟨found, there, bound, .inl uses⟩
    · cases withDeclarations with
      | false => cases reported
      | true => exact ⟨found, there, bound, .inr rfl⟩
  · rintro ⟨found, there, bound, counts⟩
    cases declares : found.declares with
    | false => exact .inl ⟨found, there, declares, bound⟩
    | true =>
      obtain ⟨known, -⟩ := Array.getElem?_eq_some_iff.1 there
      have isReported : withDeclarations = true := counts.resolve_left (by simp [declares])
      refine .inr ⟨?_, found, there, declares, bound⟩
      rw [if_pos isReported]
      simpa [toTranslationUnit] using known

/-- The unit of a file can be read off and built again: every edit is admitted, the same
declarations and occurrences come out, and the table is the same for every text and option. -/
theorem replayed_unit_gives_same_table :
    ∃ replayed : TranslationUnit,
      empty.applyAdmitted? ((ofTree source language withDeclarations
        tree).toTranslationUnit.replay withDeclarations) = some replayed ∧
      empty.applyAll ((ofTree source language withDeclarations
        tree).toTranslationUnit.replay withDeclarations) = replayed ∧
      replayed = { (ofTree source language withDeclarations tree).toTranslationUnit with
        references := replayed.references } ∧
      ∀ (text : List Char) (options : TableOptions),
        assemble replayed (Lines.ofText text) options =
          assemble (ofTree source language withDeclarations tree).toTranslationUnit
            (Lines.ofText text) options := by
  have admitted := applyAdmitted?_replay (isOrdered_ofTree source language withDeclarations tree)
    withDeclarations
  refine ⟨_, admitted, applyAll_of_admitted admitted, rfl, ?_⟩
  intro text options
  apply assemble_of_references
  exact mem_reportedUpTo_iff source language withDeclarations tree

end SourceUnit

end CrossReference
