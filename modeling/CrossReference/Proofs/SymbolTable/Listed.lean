import CrossReference.Proofs.SymbolTable.Json
import Mathlib.Data.List.Forall2

/-!
# Tables of listed entries

A document that is read as a symbol table lists entries in any order, some of them perhaps for the
same declaration, each with references in any order and perhaps more than once.  `listing?` gives
these entries as they are listed.  The table that is read holds of each declaration the references
of its last entry.  Listing the entries otherwise, as `Relists` allows, gives the same table, and
what a table is written as lists declarations and references in increasing order.
-/

set_option autoImplicit false

namespace CrossReference.SymbolTable

open Document (ofJson)

structure ListedEntry where
  declaration : Range
  references : List Range
  deriving DecidableEq

namespace ListedEntry

def entry (listed : ListedEntry) : Range × RangeSet :=
  (listed.declaration, RangeSet.ofRanges listed.references)

def json (listed : ListedEntry) : Json :=
  .record [("declaration", rangeJson listed.declaration),
    ("references", .list (listed.references.map rangeJson))]

/-- All coordinates are numbers of 64 bits. -/
structure Fits (listed : ListedEntry) : Prop where
  declaration : listed.declaration.Fits
  reference : ∀ range ∈ listed.references, range.Fits

def SameMembers (first second : ListedEntry) : Prop :=
  second.declaration = first.declaration ∧
    ∀ range, range ∈ second.references ↔ range ∈ first.references

end ListedEntry

def listed? (document : Document) : Option ListedEntry := do
  let (declaration, references) ← twoParts? "declaration" "references" document
  return ⟨← range? declaration, ← ranges? references⟩

def listedEntries? : Document → Option (List ListedEntry)
  | .list elements => elements.mapM listed?
  | _ => none

/-- The entries that a text lists, if it is a document of the form of a table. -/
def listing? (text : String) : Option (List ListedEntry) := do
  let document ← Document.read? text.toList
  let symbols ← onePart? "symbols" document
  listedEntries? symbols

def ListsLast (listed : List ListedEntry) (declaration : Range) (references : List Range) : Prop :=
  ∃ before after, listed = before ++ ⟨declaration, references⟩ :: after ∧
    ∀ later ∈ after, later.declaration ≠ declaration

/-- The same entries are listed otherwise. -/
inductive Relists : List ListedEntry → List ListedEntry → Prop where
  /-- Some entries for different declarations are listed in another order. -/
  | reordered (before after : List ListedEntry) {entries others : List ListedEntry}
      (distinct : (entries.map (·.declaration)).Nodup) (perm : entries.Perm others) :
      Relists (before ++ entries ++ after) (before ++ others ++ after)
  /-- References are listed in another order or another number of times. -/
  | repeated {entries others : List ListedEntry}
      (same : List.Forall₂ ListedEntry.SameMembers entries others) : Relists entries others
  | trans {first second third : List ListedEntry} (one : Relists first second)
      (other : Relists second third) : Relists first third

/-! ## Reading -/

theorem mapM_map {First Second Third : Type} (read? : First → Option Second)
    (made : Second → Third) (elements : List First) :
    (elements.mapM fun element => (read? element).map made) =
      (elements.mapM read?).map (List.map made) := by
  induction elements with
  | nil => rfl
  | cons first rest ih =>
    rw [List.mapM_cons, List.mapM_cons, ih]
    cases read? first <;> cases rest.mapM read? <;> rfl

theorem exists_of_mem_mapM {First Second : Type} {read? : First → Option Second}
    {elements : List First} {values : List Second} (all : elements.mapM read? = some values)
    {value : Second} (member : value ∈ values) : ∃ element, read? element = some value := by
  induction elements generalizing values with
  | nil =>
    cases all
    cases member
  | cons first rest ih =>
    rw [List.mapM_cons] at all
    obtain ⟨head, isHead, all⟩ := Option.bind_eq_some_iff.1 all
    obtain ⟨others, areOthers, all⟩ := Option.bind_eq_some_iff.1 all
    cases all
    rcases List.mem_cons.1 member with rfl | later
    · exact ⟨first, isHead⟩
    · exact ih areOthers later

theorem entry?_eq (document : Document) :
    entry? document = (listed? document).map ListedEntry.entry := by
  unfold entry? listed?
  cases twoParts? "declaration" "references" document with
  | none => rfl
  | some parts =>
    obtain ⟨declaration, references⟩ := parts
    simp only [Option.bind_eq_bind, Option.bind_some]
    cases range? declaration <;> cases ranges? references <;> rfl

theorem entries?_eq (document : Document) :
    entries? document = (listedEntries? document).map (List.map ListedEntry.entry) := by
  cases document with
  | list elements =>
    rw [entries?, listedEntries?, ← mapM_map, ← funext entry?_eq]
  | _ => rfl

/-- A text is read as the table made of the entries that it lists. -/
theorem read?_eq (text : String) :
    read? text = (listing? text).map fun listed =>
      RangeMap.ofList (listed.map ListedEntry.entry) := by
  unfold read? listing?
  cases Document.read? text.toList with
  | none => rfl
  | some document =>
    simp only [Option.bind_eq_bind, Option.bind_some]
    cases onePart? "symbols" document with
    | none => rfl
    | some symbols =>
      simp only [Option.bind_some, entries?_eq]
      cases listedEntries? symbols <;> rfl

/-! ## The last entries -/

variable {listed first second : List ListedEntry}

theorem get?_ofList_eq_some_iff {declaration : Range} {references : RangeSet} :
    (RangeMap.ofList (listed.map ListedEntry.entry)).get? declaration = some references ↔
      ∃ ranges, ListsLast listed declaration ranges ∧
        ∀ range, references.contains range = true ↔ range ∈ ranges := by
  rw [RangeMap.get?_ofList_eq_some_iff]
  constructor
  · rintro ⟨before, after, split, others⟩
    obtain ⟨front, back, rfl, -, isBack⟩ := List.map_eq_append_iff.1 split
    obtain ⟨entry, later, rfl, isEntry, rfl⟩ := List.map_eq_cons_iff.1 isBack
    obtain ⟨rfl, rfl⟩ := Prod.mk.inj isEntry
    refine ⟨entry.references, ⟨front, later, rfl, fun other member => ?_⟩, fun range => ?_⟩
    · exact others _ (List.mem_map_of_mem member)
    · exact RangeSet.contains_ofRanges _ range
  · rintro ⟨ranges, ⟨before, after, rfl, others⟩, same⟩
    have isSet : RangeSet.ofRanges ranges = references :=
      RangeSet.ext_contains fun range =>
        (RangeSet.contains_ofRanges ranges range).trans (same range).symm
    refine ⟨before.map ListedEntry.entry, after.map ListedEntry.entry, ?_, fun later member => ?_⟩
    · rw [List.map_append, List.map_cons, ListedEntry.entry, isSet]
    · obtain ⟨entry, isLater, rfl⟩ := List.mem_map.1 member
      exact others entry isLater

theorem contains_ofList_iff {declaration : Range} :
    (RangeMap.ofList (listed.map ListedEntry.entry)).contains declaration = true ↔
      ∃ entry ∈ listed, entry.declaration = declaration := by
  simp [RangeMap.contains_ofList, ListedEntry.entry]

/-! ## The same entries listed otherwise -/

theorem ListedEntry.SameMembers.entry_eq {first second : ListedEntry}
    (same : first.SameMembers second) : second.entry = first.entry := by
  have references : RangeSet.ofRanges second.references = RangeSet.ofRanges first.references := by
    apply RangeSet.ext_contains
    intro range
    rw [RangeSet.contains_ofRanges, RangeSet.contains_ofRanges, same.2]
  rw [entry, same.1, references, entry]

theorem Relists.ofList_eq (relists : Relists first second) :
    RangeMap.ofList (second.map ListedEntry.entry) =
      RangeMap.ofList (first.map ListedEntry.entry) := by
  induction relists with
  | @reordered before after entries others distinct perm =>
    have keys : ((entries.map ListedEntry.entry).map (·.1)).Nodup := by
      rw [List.map_map]
      exact distinct
    simp only [RangeMap.ofList, List.map_append, List.foldl_append]
    rw [RangeMap.foldl_insert_perm keys (perm.map ListedEntry.entry)]
  | @repeated entries others same =>
    have equal : others.map ListedEntry.entry = entries.map ListedEntry.entry := by
      induction same with
      | nil => rfl
      | cons head _ ih => rw [List.map_cons, List.map_cons, head.entry_eq, ih]
    rw [equal]
  | trans _ _ firstStep secondStep => exact secondStep.trans firstStep

/-! ## Written entries -/

theorem coordinate?_le {document : Document} {value : Nat}
    (read : coordinate? document = some value) : value ≤ Location.maxOffset := by
  unfold coordinate? at read
  split at read
  · split at read
    · rename_i fits
      exact Option.some.inj read ▸ fits
    · cases read
  · cases read

theorem pointer?_fits {document : Document} {pointer : Pointer}
    (read : pointer? document = some pointer) : pointer.Fits := by
  simp only [pointer?, Option.bind_eq_bind, Option.bind_eq_some_iff, Option.pure_def,
    Option.some.injEq] at read
  obtain ⟨parts, -, line, isLine, column, isColumn, rfl⟩ := read
  exact ⟨coordinate?_le isLine, coordinate?_le isColumn⟩

theorem range?_fits {document : Document} {range : Range}
    (read : range? document = some range) : range.Fits := by
  simp only [range?, Option.bind_eq_bind, Option.bind_eq_some_iff, Option.pure_def,
    Option.some.injEq] at read
  obtain ⟨parts, -, start, isStart, stop, isStop, rfl⟩ := read
  exact ⟨pointer?_fits isStart, pointer?_fits isStop⟩

theorem ranges?_fits {document : Document} {ranges : List Range}
    (read : ranges? document = some ranges) : ∀ range ∈ ranges, range.Fits := by
  intro range member
  cases document with
  | list elements =>
    obtain ⟨element, isRead⟩ := exists_of_mem_mapM read member
    exact range?_fits isRead
  | _ => cases read

theorem listed?_fits {document : Document} {listed : ListedEntry}
    (read : listed? document = some listed) : listed.Fits := by
  simp only [listed?, Option.bind_eq_bind, Option.bind_eq_some_iff, Option.pure_def,
    Option.some.injEq] at read
  obtain ⟨parts, -, declaration, isDeclaration, references, areReferences, rfl⟩ := read
  exact ⟨range?_fits isDeclaration, ranges?_fits areReferences⟩

theorem listing?_fits {text : String} (lists : listing? text = some listed) :
    ∀ entry ∈ listed, entry.Fits := by
  intro entry member
  simp only [listing?, Option.bind_eq_bind, Option.bind_eq_some_iff] at lists
  obtain ⟨document, -, symbols, -, areEntries⟩ := lists
  cases symbols with
  | list elements =>
    obtain ⟨element, isRead⟩ := exists_of_mem_mapM areEntries member
    exact listed?_fits isRead
  | _ => cases areEntries

theorem listed?_json {listed : ListedEntry} (fits : listed.Fits) :
    listed? (ofJson listed.json) = some listed := by
  have parts := twoParts?_record "declaration" "references" (by decide)
    (ofJson (rangeJson listed.declaration)) (ofJson (.list (listed.references.map rangeJson)))
  have ranges := ranges?_rangeJson fits.reference
  simp only [ListedEntry.json, listed?, ofJson, Document.ofMembers] at parts ranges ⊢
  rw [parts]
  simp [range?_rangeJson fits.declaration, ranges]

def listingJson (listed : List ListedEntry) : Json :=
  .record [("symbols", .list (listed.map ListedEntry.json))]

theorem listing?_of_document (fits : ∀ entry ∈ listed, entry.Fits) {text : String}
    (document : Document.read? text.toList = some (ofJson (listingJson listed))) :
    listing? text = some listed := by
  have entries : listedEntries? (ofJson (.list (listed.map ListedEntry.json))) = some listed :=
    mapM_ofElements fun entry member => listed?_json (fits entry member)
  have part := onePart?_record "symbols" (ofJson (.list (listed.map ListedEntry.json)))
  simp only [listingJson, ofJson, Document.ofMembers] at document part entries
  simp only [listing?, document, part, entries, Option.bind_eq_bind, Option.bind_some]

def written (table : SymbolTable) : List ListedEntry :=
  table.entries.map fun entry => ⟨entry.1, entry.2.toList⟩

theorem toJson_eq (table : SymbolTable) : table.toJson = listingJson table.written := by
  rw [toJson, listingJson, written, List.map_map]
  rfl

theorem fits_written (fits : ∀ entry ∈ listed, entry.Fits) :
    ∀ entry ∈ written (RangeMap.ofList (listed.map ListedEntry.entry)), entry.Fits := by
  intro written member
  obtain ⟨⟨declaration, references⟩, isEntry, rfl⟩ := List.mem_map.1 member
  obtain ⟨ranges, ⟨before, after, rfl, -⟩, same⟩ :=
    get?_ofList_eq_some_iff.1 ((RangeMap.mem_entries_iff _ _ _).1 isEntry)
  have listedFits := fits ⟨declaration, ranges⟩ (by simp)
  refine ⟨listedFits.declaration, fun range isReference => ?_⟩
  exact listedFits.reference range ((same range).1 (RangeSet.mem_toList_iff.1 isReference))

theorem written_increasing (table : SymbolTable) :
    (table.written.map (·.declaration)).Pairwise (· < ·) ∧
      ∀ entry ∈ table.written, entry.references.Pairwise (· < ·) := by
  refine ⟨?_, fun entry member => ?_⟩
  · rw [written, List.map_map, List.pairwise_map]
    exact table.increasing
  · obtain ⟨⟨declaration, references⟩, -, rfl⟩ := List.mem_map.1 member
    exact List.pairwise_map.2 references.increasing

theorem listing?_toJson {table : SymbolTable} (fits : ∀ entry ∈ table.written, entry.Fits) :
    listing? table.toJson.compact = some table.written ∧
      listing? table.toJson.pretty = some table.written := by
  rw [toJson_eq]
  exact ⟨listing?_of_document fits (Document.read?_compact _),
    listing?_of_document fits (Document.read?_pretty _)⟩

/-- Any entries can be listed by a document, and just the documents that list entries are read.  The
table that is read holds of each declaration that is listed the references of the last entry for it,
and nothing else.  A text that lists the same entries otherwise is read as the same table, and what
the table is written as lists declarations and references in strictly increasing order. -/
theorem read_table_is_normal_form :
    (∀ listed : List ListedEntry, (∀ entry ∈ listed, entry.Fits) →
      listing? (listingJson listed).compact = some listed) ∧
    (∀ text, (read? text).isSome = (listing? text).isSome) ∧
    ∀ text listed, listing? text = some listed →
      ∃ table, read? text = some table ∧
        (∀ declaration references, table.get? declaration = some references ↔
          ∃ ranges, ListsLast listed declaration ranges ∧
            ∀ range, references.contains range = true ↔ range ∈ ranges) ∧
        (∀ declaration, table.contains declaration = true ↔
          ∃ entry ∈ listed, entry.declaration = declaration) ∧
        (∀ other relisted, listing? other = some relisted → Relists listed relisted →
          read? other = some table) ∧
        ∃ increasing, listing? table.toJson.compact = some increasing ∧
          listing? table.toJson.pretty = some increasing ∧
          (increasing.map (·.declaration)).Pairwise (· < ·) ∧
          ∀ entry ∈ increasing, entry.references.Pairwise (· < ·) := by
  refine ⟨fun listed fits => listing?_of_document fits (Document.read?_compact _), fun text => ?_,
    fun text listed lists => ?_⟩
  · rw [read?_eq, Option.isSome_map]
  · have accepted : read? text = some (RangeMap.ofList (listed.map ListedEntry.entry)) := by
      rw [read?_eq, lists, Option.map_some]
    obtain ⟨compact, pretty⟩ := listing?_toJson (fits_written (listing?_fits lists))
    refine ⟨_, accepted, fun _ _ => get?_ofList_eq_some_iff, fun _ => contains_ofList_iff, ?_,
      _, compact, pretty, written_increasing _⟩
    intro other relisted listsOther relists
    rw [read?_eq, listsOther, Option.map_some, relists.ofList_eq]

def unorderedText : String :=
  "[[[[[3,0],[3,1]],[[[4,0],[4,1]]]],[[[1,4],[1,5]],[[[2,0],[2,1]],[[1,4],[1,5]],[[2,0],[2,1]]]]," ++
    "[[[3,0],[3,1]],[]]]]"

def reorderedText : String :=
  "[[[[[3,0],[3,1]],[[[4,0],[4,1]]]],[[[3,0],[3,1]],[]]," ++
    "[[[1,4],[1,5]],[[[1,4],[1,5]],[[2,0],[2,1]]]]]]"

def unorderedEntries : List ListedEntry :=
  [⟨⟨⟨3, 0⟩, ⟨3, 1⟩⟩, [⟨⟨4, 0⟩, ⟨4, 1⟩⟩]⟩,
    ⟨⟨⟨1, 4⟩, ⟨1, 5⟩⟩, [⟨⟨2, 0⟩, ⟨2, 1⟩⟩, ⟨⟨1, 4⟩, ⟨1, 5⟩⟩, ⟨⟨2, 0⟩, ⟨2, 1⟩⟩]⟩,
    ⟨⟨⟨3, 0⟩, ⟨3, 1⟩⟩, []⟩]

def reorderedEntries : List ListedEntry :=
  [⟨⟨⟨3, 0⟩, ⟨3, 1⟩⟩, [⟨⟨4, 0⟩, ⟨4, 1⟩⟩]⟩, ⟨⟨⟨3, 0⟩, ⟨3, 1⟩⟩, []⟩,
    ⟨⟨⟨1, 4⟩, ⟨1, 5⟩⟩, [⟨⟨1, 4⟩, ⟨1, 5⟩⟩, ⟨⟨2, 0⟩, ⟨2, 1⟩⟩]⟩]

def orderedTable : SymbolTable :=
  RangeMap.ofList
    [(⟨⟨1, 4⟩, ⟨1, 5⟩⟩, RangeSet.ofRanges [⟨⟨1, 4⟩, ⟨1, 5⟩⟩, ⟨⟨2, 0⟩, ⟨2, 1⟩⟩]),
      (⟨⟨3, 0⟩, ⟨3, 1⟩⟩, RangeSet.ofRanges [])]

theorem relists_unorderedEntries : Relists unorderedEntries reorderedEntries := by
  refine .trans (.reordered (unorderedEntries.take 1) [] (by decide) (.swap _ _ []))
    (.repeated (.cons ?_ (.cons ?_ (.cons ?_ .nil))))
  · exact ⟨rfl, fun _ => Iff.rfl⟩
  · exact ⟨rfl, fun _ => Iff.rfl⟩
  · refine ⟨rfl, fun range => ?_⟩
    simp only [List.mem_cons, List.not_mem_nil, or_false]
    tauto

theorem unordered_entries_are_read_in_order :
    read? unorderedText = some orderedTable ∧ read? reorderedText = some orderedTable ∧
      RangeMap.contains orderedTable ⟨⟨4, 0⟩, ⟨4, 1⟩⟩ = false := by
  have lists : listing? unorderedText = some unorderedEntries := by decide +kernel
  have listsOther : listing? reorderedText = some reorderedEntries := by decide +kernel
  have accepted : read? unorderedText = some orderedTable := by
    rw [read?_eq, lists]
    rfl
  obtain ⟨table, isRead, -, -, relisted, -⟩ := read_table_is_normal_form.2.2 _ _ lists
  obtain rfl := Option.some.inj (accepted.symm.trans isRead)
  exact ⟨accepted, relisted _ _ listsOther relists_unorderedEntries, by decide⟩

end CrossReference.SymbolTable
