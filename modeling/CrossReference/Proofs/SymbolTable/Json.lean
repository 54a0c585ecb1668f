import CrossReference.Proofs.Json
import CrossReference.Proofs.RangeMap
import CrossReference.SymbolTable

/-!
# Written symbol tables

A symbol table is read back as it was written, so that a written table stands for one table only.
Each part is read back from the document that it is written as, from coordinates up to entries; the
lists of ranges and of entries are in increasing order and give the same sets and maps again.
-/

set_option autoImplicit false

namespace CrossReference

structure Pointer.Fits (pointer : Pointer) : Prop where
  line : pointer.line ≤ Location.maxOffset
  column : pointer.column ≤ Location.maxOffset

structure Range.Fits (range : Range) : Prop where
  start : range.start.Fits
  stop : range.stop.Fits

namespace SymbolTable

open Document (ofJson)

structure Fits (table : SymbolTable) : Prop where
  declaration : ∀ entry ∈ table.entries, entry.1.Fits
  reference : ∀ entry ∈ table.entries, ∀ range ∈ entry.2.toList, range.Fits

/-! ## The parts of a table -/

theorem twoParts?_record (first second : String) (apart : second ≠ first) (one two : Document) :
    twoParts? first second (.record [(some first.toList, one), (some second.toList, two)]) =
      some (one, two) := by
  have other : ¬ second.toList = first.toList := fun same => apart (String.toList_inj.1 same)
  simp [twoParts?, twoMembers?, other]

theorem onePart?_record (name : String) (value : Document) :
    onePart? name (.record [(some name.toList, value)]) = some value := by
  simp [onePart?, oneMember?]

theorem pointer?_pointerJson {pointer : Pointer} (fits : pointer.Fits) :
    pointer? (ofJson (pointerJson pointer)) = some pointer := by
  have parts := twoParts?_record "line" "column" (by decide)
    (ofJson (.number pointer.line)) (ofJson (.number pointer.column))
  simp only [pointer?, pointerJson, ofJson, Document.ofMembers] at parts ⊢
  rw [parts]
  simp [coordinate?, fits.line, fits.column]

theorem range?_rangeJson {range : Range} (fits : range.Fits) :
    range? (ofJson (rangeJson range)) = some range := by
  have parts := twoParts?_record "start" "end" (by decide)
    (ofJson (pointerJson range.start)) (ofJson (pointerJson range.stop))
  simp only [range?, rangeJson, ofJson, Document.ofMembers]
  rw [parts]
  simp [pointer?_pointerJson fits.start, pointer?_pointerJson fits.stop]

theorem mapM_ofElements {Value : Type} {write : Value → Json} {read? : Document → Option Value}
    {values : List Value} (back : ∀ value ∈ values, read? (ofJson (write value)) = some value) :
    (Document.ofElements (values.map write)).mapM read? = some values := by
  induction values with
  | nil => rfl
  | cons first rest ih =>
    have here := back first List.mem_cons_self
    have later := ih fun value member => back value (List.mem_cons_of_mem _ member)
    simp [Document.ofElements, here, later]

theorem ranges?_rangeJson {ranges : List Range} (fits : ∀ range ∈ ranges, range.Fits) :
    ranges? (ofJson (.list (ranges.map rangeJson))) = some ranges :=
  mapM_ofElements fun range member => range?_rangeJson (fits range member)

theorem entry?_entryJson {entry : Range × RangeSet} (declaration : entry.1.Fits)
    (references : ∀ range ∈ entry.2.toList, range.Fits) :
    entry? (ofJson (entryJson entry)) = some entry := by
  have parts := twoParts?_record "declaration" "references" (by decide)
    (ofJson (rangeJson entry.1)) (ofJson (.list (entry.2.toList.map rangeJson)))
  have ranges := ranges?_rangeJson references
  simp only [entryJson, entry?, ofJson, Document.ofMembers] at parts ranges ⊢
  rw [parts]
  simp [range?_rangeJson declaration, ranges, RangeSet.ofRanges_toList]

/-! ## Tables -/

/-- A document that a table is written as is read as the table. -/
theorem read?_of_document {table : SymbolTable} (fits : table.Fits) {text : String}
    (document : Document.read? text.toList = some (ofJson table.toJson)) :
    read? text = some table := by
  have entries : entries? (ofJson (.list (table.entries.map entryJson))) = some table.entries :=
    mapM_ofElements fun entry member =>
      entry?_entryJson (fits.declaration entry member) (fits.reference entry member)
  have part := onePart?_record "symbols" (ofJson (.list (table.entries.map entryJson)))
  simp only [toJson, ofJson, Document.ofMembers] at document part entries
  simp only [read?, document, part, entries, RangeMap.ofList_entries, Option.bind_eq_bind,
    Option.bind_some, Option.pure_def]

theorem read?_compact {table : SymbolTable} (fits : table.Fits) :
    read? table.toJson.compact = some table :=
  read?_of_document fits (Document.read?_compact _)

theorem read?_pretty {table : SymbolTable} (fits : table.Fits) :
    read? table.toJson.pretty = some table :=
  read?_of_document fits (Document.read?_pretty _)

theorem written_eq_iff {write : Json → String} {first second : SymbolTable}
    (back : read? (write first.toJson) = some first)
    (otherBack : read? (write second.toJson) = some second) :
    write second.toJson = write first.toJson ↔ second = first := by
  constructor
  · intro same
    rw [same, back] at otherBack
    exact (Option.some.inj otherBack).symm
  · intro same
    rw [same]

/-- A table is read back as it was written, with or without blanks, and no other table is written
the same way. -/
theorem written_table_is_read_back {first : SymbolTable} (fits : first.Fits) :
    (read? first.toJson.compact = some first ∧ read? first.toJson.pretty = some first) ∧
      ∀ second : SymbolTable, second.Fits →
        (second.toJson.compact = first.toJson.compact ↔ second = first) ∧
        (second.toJson.pretty = first.toJson.pretty ↔ second = first) := by
  refine ⟨⟨read?_compact fits, read?_pretty fits⟩, fun second otherFits => ⟨?_, ?_⟩⟩
  · exact written_eq_iff (read?_compact fits) (read?_compact otherFits)
  · exact written_eq_iff (read?_pretty fits) (read?_pretty otherFits)

def wideTable : SymbolTable :=
  RangeMap.ofList [(⟨⟨3, 7⟩, ⟨1, 0⟩⟩,
    RangeSet.ofRanges [⟨⟨Location.maxOffset, 0⟩, ⟨2, Location.maxOffset⟩⟩, ⟨⟨5, 1⟩, ⟨5, 2⟩⟩])]

theorem fits_wideTable : wideTable.Fits where
  declaration := by
    intro entry member
    rw [List.mem_singleton.1 (show entry ∈ [_] from member)]
    exact ⟨⟨by decide, by decide⟩, ⟨by decide, by decide⟩⟩
  reference := by
    intro entry member range reference
    rw [List.mem_singleton.1 (show entry ∈ [_] from member)] at reference
    have listed : range = ⟨⟨5, 1⟩, ⟨5, 2⟩⟩ ∨
        range = ⟨⟨Location.maxOffset, 0⟩, ⟨2, Location.maxOffset⟩⟩ := by
      simpa using (show range ∈ [_, _] from reference)
    rcases listed with rfl | rfl <;> exact ⟨⟨by decide, by decide⟩, ⟨by decide, by decide⟩⟩

theorem wide_table_is_read_back :
    wideTable.Fits ∧ read? wideTable.toJson.compact = some wideTable ∧
      wideTable.toJson.compact ≠ (toJson RangeMap.empty).compact := by
  obtain ⟨⟨back, -⟩, alone⟩ := written_table_is_read_back fits_wideTable
  refine ⟨fits_wideTable, back, fun same => ?_⟩
  have empty : Fits RangeMap.empty := ⟨nofun, nofun⟩
  have equal := (alone RangeMap.empty empty).1.1 same.symm
  exact absurd (congrArg RangeMap.size equal) (by decide)

end SymbolTable

end CrossReference
