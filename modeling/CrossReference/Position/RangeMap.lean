import CrossReference.Position

/-!
# Maps keyed by ranges

A `RangeMap` holds its entries in strictly increasing order of their keys, so that two maps with
the same entries are the same value and are written the same way.  A `RangeSet` is a map to the
unit type.
-/

set_option autoImplicit false

namespace CrossReference

structure RangeMap (Value : Type) where
  entries : List (Range × Value)
  increasing : entries.Pairwise (·.1 < ·.1)

namespace RangeMap

variable {Value : Type}

def insertEntry (key : Range) (value : Value) : List (Range × Value) → List (Range × Value)
  | [] => [(key, value)]
  | entry :: rest =>
      if key < entry.1 then (key, value) :: entry :: rest
      else if entry.1 < key then entry :: insertEntry key value rest
      else (key, value) :: rest

theorem key_of_mem_insertEntry {key : Range} {value : Value} {entries : List (Range × Value)}
    {entry : Range × Value} (found : entry ∈ insertEntry key value entries) :
    entry.1 = key ∨ ∃ old ∈ entries, old.1 = entry.1 := by
  induction entries with
  | nil => simp_all [insertEntry]
  | cons first rest ih =>
    unfold insertEntry at found
    split at found
    · grind
    · split at found
      · rcases List.mem_cons.1 found with rfl | later
        · exact .inr ⟨entry, by simp, rfl⟩
        · rcases ih later with same | ⟨old, oldMember, same⟩
          · exact .inl same
          · exact .inr ⟨old, by simp [oldMember], same⟩
      · grind

theorem insertEntry_increasing {key : Range} {value : Value} {entries : List (Range × Value)}
    (increasing : entries.Pairwise (·.1 < ·.1)) :
    (insertEntry key value entries).Pairwise (·.1 < ·.1) := by
  induction entries with
  | nil => simp [insertEntry]
  | cons first rest ih =>
    obtain ⟨firstLeast, restIncreasing⟩ := List.pairwise_cons.1 increasing
    unfold insertEntry
    split
    · rename_i before
      refine List.pairwise_cons.2 ⟨fun entry member => ?_, increasing⟩
      rcases List.mem_cons.1 member with rfl | later
      · exact before
      · exact Range.lt_trans before (firstLeast entry later)
    · split
      · rename_i after
        refine List.pairwise_cons.2 ⟨fun entry member => ?_, ih restIncreasing⟩
        rcases key_of_mem_insertEntry member with same | ⟨old, oldMember, same⟩
        · exact same ▸ after
        · exact same ▸ firstLeast old oldMember
      · rename_i notBefore notAfter
        have same : key = first.1 := Range.eq_of_not_lt notBefore notAfter
        exact List.pairwise_cons.2
          ⟨fun entry member => same ▸ firstLeast entry member, restIncreasing⟩

def empty : RangeMap Value := ⟨[], .nil⟩

instance : EmptyCollection (RangeMap Value) := ⟨empty⟩

instance : Inhabited (RangeMap Value) := ⟨empty⟩

instance [DecidableEq Value] : DecidableEq (RangeMap Value) := fun first second =>
  decidable_of_iff (first.entries = second.entries) <| by
    cases first; cases second; simp

def insert (map : RangeMap Value) (key : Range) (value : Value) : RangeMap Value :=
  ⟨insertEntry key value map.entries, insertEntry_increasing map.increasing⟩

def erase (map : RangeMap Value) (key : Range) : RangeMap Value :=
  ⟨map.entries.filter (·.1 ≠ key), map.increasing.filter _⟩

def get? (map : RangeMap Value) (key : Range) : Option Value :=
  (map.entries.find? (·.1 = key)).map (·.2)

def contains (map : RangeMap Value) (key : Range) : Bool :=
  (map.get? key).isSome

def keys (map : RangeMap Value) : List Range :=
  map.entries.map (·.1)

def size (map : RangeMap Value) : Nat :=
  map.entries.length

def isEmpty (map : RangeMap Value) : Bool :=
  map.entries.isEmpty

/-- The map of a list of entries, of which the last one for a key counts. -/
def ofList (entries : List (Range × Value)) : RangeMap Value :=
  entries.foldl (fun map entry => map.insert entry.1 entry.2) empty

end RangeMap

abbrev RangeSet := RangeMap Unit

namespace RangeSet

def ofRanges (ranges : List Range) : RangeSet :=
  RangeMap.ofList (ranges.map (·, ()))

def toList (set : RangeSet) : List Range :=
  set.keys

end RangeSet

end CrossReference
