import CrossReference.Proofs.ParseTree.Places
import CrossReference.Proofs.Position.Lines
import CrossReference.Proofs.SymbolTable
import CrossReference.Proofs.Walk.Nodes
import CrossReference.Proofs.Walk.Resolve

/-!
# Where the names of a unit stand

The names of a unit come from nodes that stand apart, as a walk names only parts of the tree and the
uses are bound in place.  A name that has a location spells the characters there, and in a
well-formed tree no two names have a character in common, so that each declaration has a range of
its own in the table.
-/

set_option autoImplicit false

namespace CrossReference

open ParseTree Walk

variable {source : List Char}

theorem Walk.State.Rebinds.places {before after : State} (rebinds : State.Rebinds before after) :
    after.names.toList.map NameNode.place = before.names.toList.map NameNode.place := by
  apply List.ext_getElem?
  intro name
  simp only [List.getElem?_map, Array.getElem?_toList]
  cases found : before.names[name]? with
  | none =>
    have missing : after.names[name]? = none := by
      rw [Array.getElem?_eq_none_iff, rebinds.names]
      exact Array.getElem?_eq_none_iff.1 found
    rw [missing]
  | some occurrence =>
    obtain ⟨binding, there, -⟩ := rebinds.occurrences name occurrence found
    rw [there]
    rfl

/-! ## Locations of nodes -/

namespace Walk.State

variable {node other : ParseTree} {location otherLocation : Location}

theorem locationOf_eq_some (located : locationOf source node = some location) :
    node.start < node.stop ∧
      location = ⟨Text.charactersBefore source node.start,
        Text.charactersBefore source node.stop - Text.charactersBefore source node.start⟩ := by
  unfold locationOf at located
  split at located
  · cases located
  · rename_i covers
    simp only [Bool.or_eq_true, decide_eq_true_eq, not_or, Nat.not_le] at covers
    exact ⟨covers.2, (Option.some.inj located).symm⟩

theorem disjoint_of_locationOf (located : locationOf source node = some location)
    (otherLocated : locationOf source other = some otherLocation)
    (apart : node.stop ≤ other.start ∨ other.stop ≤ node.start) :
    location.Disjoint otherLocation := by
  obtain ⟨covers, rfl⟩ := locationOf_eq_some located
  obtain ⟨otherCovers, rfl⟩ := locationOf_eq_some otherLocated
  have span := Text.charactersBefore_mono source (Nat.le_of_lt covers)
  have otherSpan := Text.charactersBefore_mono source (Nat.le_of_lt otherCovers)
  rcases apart with before | after
  · left
    have ordered := Text.charactersBefore_mono source before
    simp only
    omega
  · right
    have ordered := Text.charactersBefore_mono source after
    simp only
    omega

theorem spells_of_locationOf (first : Text.IsBoundary source node.start)
    (last : Text.IsBoundary source node.stop) (located : locationOf source node = some location) :
    1 ≤ location.length ∧ location.offset + location.length ≤ source.length ∧
      (source.drop location.offset).take location.length = (node.text source).toList := by
  obtain ⟨covers, rfl⟩ := locationOf_eq_some located
  obtain ⟨front, middle, back, joined, bytes, slice, offset, stop⟩ :=
    Text.exists_slice first last (Nat.le_of_lt covers)
  have length : middle.length ≠ 0 := by
    intro empty
    rw [List.length_eq_zero_iff.1 empty, Text.byteLength_nil] at bytes
    omega
  have spelled : (node.text source).toList = middle := by
    simp [ParseTree.text, text?, slice]
  have size : source.length = front.length + (middle.length + back.length) := by
    rw [joined, List.length_append, List.length_append]
  rw [offset, stop, spelled, Nat.add_sub_cancel_left]
  refine ⟨Nat.one_le_iff_ne_zero.2 length, ?_, ?_⟩
  · simp only [size]
    omega
  · rw [joined, List.drop_left, List.take_left]

end Walk.State

/-! ## Names of a unit -/

namespace SourceUnit

variable (source) (language : Language) (withDeclarations : Bool) (tree : ParseTree)

/-- The names of a unit come from nodes that stand apart, in the order in which these were met. -/
theorem exists_nodes_of_names :
    ∃ nodes, StandApart tree nodes ∧
      (walked source language tree).nameOfNode = (nodes.map ParseTree.id).zipIdx.reverse ∧
      (ofTree source language withDeclarations tree).names.toList.map NameNode.place =
        nodes.map (placeOf source) := by
  obtain ⟨nodes, adds, splits⟩ := exists_addsNames_run source
    (State.initial (language = .cpp)) [Frame.root tree]
  refine ⟨nodes, standApart_of_splitsInto splits, ?_, ?_⟩
  · exact adds.nodeIds.trans (List.append_nil _)
  · exact (walked_rebinds source language tree).places.trans adds.places

variable {source language withDeclarations tree}

theorem exists_node_of_name {name : Nat} {found : NameNode}
    (there : (ofTree source language withDeclarations tree).names[name]? = some found) :
    ∃ node, Within node tree ∧ found.text = node.text source ∧
      found.location = State.locationOf source node := by
  obtain ⟨nodes, apart, -, places⟩ := exists_nodes_of_names source language withDeclarations tree
  have place := congrArg (·[name]?) places
  simp only [List.getElem?_map, Array.getElem?_toList, there, Option.map_some] at place
  obtain ⟨node, isNode, same⟩ := Option.map_eq_some_iff.1 place.symm
  obtain ⟨text, location⟩ := Prod.mk.inj same
  exact ⟨node, apart.within node (List.mem_of_getElem? isNode), text.symm, location.symm⟩

/-- A name with a location spells the characters there, of which there is at least one. -/
theorem spells_of_located (boundaries : OnBoundaries source tree) {name : Nat} {found : NameNode}
    {location : Location}
    (there : (ofTree source language withDeclarations tree).names[name]? = some found)
    (located : found.location = some location) :
    1 ≤ location.length ∧ location.offset + location.length ≤ source.length ∧
      (source.drop location.offset).take location.length = found.text.toList := by
  obtain ⟨node, lies, text, place⟩ := exists_node_of_name there
  obtain ⟨first, last⟩ := boundaries node lies
  rw [text]
  exact State.spells_of_locationOf first last (place.symm.trans located)

/-- A name with a location spells the characters there, and both ends of its range stand for those
of the location.  The end of a location is held at the largest offset, and no text that fits into
memory is longer than that. -/
theorem located_name_spells_source (source : List Char) (language : Language)
    (withDeclarations : Bool) (tree : ParseTree) (boundaries : OnBoundaries source tree)
    (name : Nat) (found : NameNode) (location : Location)
    (there : (ofTree source language withDeclarations tree).names[name]? = some found)
    (located : found.location = some location) :
    1 ≤ location.length ∧ location.offset + location.length ≤ source.length ∧
      (source.drop location.offset).take location.length = found.text.toList ∧
      (Lines.ofText source).offset? ((Lines.ofText source).range location).start =
        some location.offset ∧
      (source.length ≤ Location.maxOffset →
        (Lines.ofText source).offset? ((Lines.ofText source).range location).stop =
          some (location.offset + location.length)) := by
  obtain ⟨nonempty, inside, spells⟩ := spells_of_located boundaries there located
  refine ⟨nonempty, inside, spells, ?_, ?_⟩
  · rw [Lines.range, Lines.offset?_pointer, Nat.min_eq_left (by omega)]
  · intro small
    have stop : location.stop = location.offset + location.length :=
      Nat.min_eq_left (Nat.le_trans inside small)
    rw [Lines.range, Lines.offset?_pointer, stop, Nat.min_eq_left inside]

def wideName : List Char := "int ä = 1;\r\nint b = ä;".toList

def wideNameTree : ParseTree :=
  ruleNode 0 "translation_unit" "" 0 24
    [ruleNode 1 "declaration" "" 0 11
      [ruleNode 2 "primitive_type" "type" 0 3 [],
        ruleNode 3 "init_declarator" "declarator" 4 10
          [ruleNode 4 "identifier" "declarator" 4 6 [],
            ruleNode 5 "number_literal" "value" 9 10 []]],
      ruleNode 6 "declaration" "" 13 24
        [ruleNode 7 "primitive_type" "type" 13 16 [],
          ruleNode 8 "init_declarator" "declarator" 17 23
            [ruleNode 9 "identifier" "declarator" 17 18 [],
              ruleNode 10 "identifier" "value" 21 23 []]]]

/-- The name is used in the second line, at the twentieth character. -/
theorem use_of_wide_name_spells_source :
    (ofTree wideName .cpp true wideNameTree).names[2]? =
        some ⟨"ä", some ⟨20, 1⟩, false, some 0⟩ ∧
      (Lines.ofText wideName).range ⟨20, 1⟩ = ⟨⟨2, 8⟩, ⟨2, 9⟩⟩ ∧
      (wideName.drop 20).take 1 = "ä".toList ∧
      (Lines.ofText wideName).offset? ⟨2, 8⟩ = some 20 ∧
      (Lines.ofText wideName).offset? ⟨2, 9⟩ = some 21 := by
  have wellFormed : WellFormed wideName wideNameTree := by decide +kernel
  have there : (ofTree wideName .cpp true wideNameTree).names[2]? =
      some ⟨"ä", some ⟨20, 1⟩, false, some 0⟩ := by decide +kernel
  have range : (Lines.ofText wideName).range ⟨20, 1⟩ = ⟨⟨2, 8⟩, ⟨2, 9⟩⟩ := by decide +kernel
  obtain ⟨-, -, spells, start, stop⟩ := located_name_spells_source wideName .cpp true wideNameTree
    wellFormed.boundaries 2 _ ⟨20, 1⟩ there rfl
  rw [range] at start stop
  exact ⟨there, range, spells, start, stop (by decide +kernel)⟩

/-! ## Names of a well-formed tree -/

def Disjoint (first second : NameNode) : Prop :=
  ∀ location other, first.location = some location → second.location = some other →
    location.Disjoint other

theorem pairwise_disjoint_names (language : Language) (withDeclarations : Bool)
    (wellFormed : WellFormed source tree) :
    (ofTree source language withDeclarations tree).names.toList.Pairwise Disjoint := by
  obtain ⟨nodes, apart, -, places⟩ := exists_nodes_of_names source language withDeclarations tree
  have spans := apart.pairwise_disjoint wellFormed
  have located : (nodes.map (placeOf source)).Pairwise fun first second =>
      ∀ location other, first.2 = some location → second.2 = some other →
        location.Disjoint other := by
    rw [List.pairwise_map]
    refine spans.imp ?_
    intro node otherNode span location other isLocation isOther
    exact State.disjoint_of_locationOf isLocation isOther span
  rw [← places, List.pairwise_map] at located
  exact located

theorem disjoint_of_ne (wellFormed : WellFormed source tree) {first second : Nat}
    {name other : NameNode} (different : first ≠ second)
    (there : (ofTree source language withDeclarations tree).names[first]? = some name)
    (otherThere : (ofTree source language withDeclarations tree).names[second]? = some other) :
    Disjoint name other := by
  have pairwise := pairwise_disjoint_names language withDeclarations wellFormed
  rw [List.pairwise_iff_getElem] at pairwise
  obtain ⟨firstInside, rfl⟩ := Array.getElem?_eq_some_iff.1 there
  obtain ⟨secondInside, rfl⟩ := Array.getElem?_eq_some_iff.1 otherThere
  rcases Nat.lt_or_gt_of_ne different with before | after
  · exact pairwise first second firstInside secondInside before
  · intro location otherLocation located otherLocated
    exact (pairwise second first secondInside firstInside after otherLocation location otherLocated
      located).symm

theorem exists_name_of_declaresAt {lines : Lines} {name binding : Nat} {range : Range}
    (declares : SymbolTable.DeclaresAt
      (ofTree source language withDeclarations tree).toTranslationUnit lines name binding range) :
    ∃ found location,
      (ofTree source language withDeclarations tree).names[name]? = some found ∧
        found.location = some location ∧ lines.range location = range := by
  obtain ⟨-, location, located, same⟩ := declares
  simp only [TranslationUnit.location?, toTranslationUnit, Array.getElem?_map] at located
  cases there : (ofTree source language withDeclarations tree).names[name]? with
  | none => simp [there] at located
  | some found => exact ⟨found, location, rfl, by simpa [there] using located, same⟩

/-- No two names declare anything at the same range. -/
theorem eq_of_declaresAt (wellFormed : WellFormed source tree) {first second binding other : Nat}
    {range : Range}
    (declares : SymbolTable.DeclaresAt
      (ofTree source language withDeclarations tree).toTranslationUnit (Lines.ofText source) first
      binding range)
    (otherDeclares : SymbolTable.DeclaresAt
      (ofTree source language withDeclarations tree).toTranslationUnit (Lines.ofText source) second
      other range) : first = second := by
  obtain ⟨name, location, there, located, isRange⟩ := exists_name_of_declaresAt declares
  obtain ⟨otherName, otherLocation, otherThere, otherLocated, isOtherRange⟩ :=
    exists_name_of_declaresAt otherDeclares
  obtain ⟨nonempty, inside, -⟩ := spells_of_located wellFormed.boundaries there located
  obtain ⟨otherNonempty, otherInside, -⟩ :=
    spells_of_located wellFormed.boundaries otherThere otherLocated
  have starts : location.offset = otherLocation.offset :=
    Lines.pointer_injective (by omega) (by omega)
      (congrArg Range.start (isRange.trans isOtherRange.symm))
  apply Classical.byContradiction
  intro different
  have disjoint := disjoint_of_ne wellFormed different there otherThere location otherLocation
    located otherLocated
  unfold Location.Disjoint at disjoint
  omega

/-- In a well-formed tree no node is named twice, nor one below a node that is named.  The names have
no character in common, and so the table has an entry for each collected name that is bound. -/
theorem names_stand_apart (source : List Char) (language : Language) (withDeclarations : Bool)
    (tree : ParseTree) (wellFormed : WellFormed source tree) :
    (∃ nodes, StandApart tree nodes ∧
      (walked source language tree).nameOfNode = (nodes.map ParseTree.id).zipIdx.reverse ∧
      (ofTree source language withDeclarations tree).names.toList.map NameNode.place =
        nodes.map (placeOf source)) ∧
    (ofTree source language withDeclarations tree).names.toList.Pairwise Disjoint ∧
    ∀ options,
      (SymbolTable.assemble (ofTree source language withDeclarations tree).toTranslationUnit
          (Lines.ofText source) options).size =
        ((ofTree source language withDeclarations tree).toTranslationUnit.declarationNames
          options.includeInactive).countP fun name =>
            ((ofTree source language withDeclarations tree).toTranslationUnit.binding?
              name).isSome := by
  refine ⟨exists_nodes_of_names source language withDeclarations tree,
    pairwise_disjoint_names language withDeclarations wellFormed, ?_⟩
  intro options
  apply SymbolTable.size_assemble
  intro first second binding other range declares otherDeclares
  exact eq_of_declaresAt wellFormed declares otherDeclares

/-- Both names that are declared have an entry. -/
theorem entries_of_wide_name :
    WellFormed wideName wideNameTree ∧
      (SymbolTable.assemble (ofTree wideName .cpp true wideNameTree).toTranslationUnit
        (Lines.ofText wideName) ⟨true, .exclude⟩).size = 2 := by
  have wellFormed : WellFormed wideName wideNameTree := by decide +kernel
  have view : (ofTree wideName .cpp true wideNameTree).toTranslationUnit =
      ⟨[0, 1], #[⟨[], [0], true, true⟩, ⟨[], [1, 2], true, true⟩],
        #[⟨true, true, some ⟨4, 1⟩, some 0⟩, ⟨true, true, some ⟨16, 1⟩, some 1⟩,
          ⟨false, true, some ⟨20, 1⟩, some 0⟩],
        #[[0, 2], [1]]⟩ := by decide +kernel
  obtain ⟨-, -, size⟩ := names_stand_apart wideName .cpp true wideNameTree wellFormed
  refine ⟨wellFormed, ?_⟩
  rw [size, view]
  simp [TranslationUnit.declarationNames, TranslationUnit.visitAll, TranslationUnit.addNames,
    TranslationUnit.isInFile, TranslationUnit.names, TranslationUnit.nested,
    TranslationUnit.isDeclarationName, TranslationUnit.binding?]

end SourceUnit

end CrossReference
