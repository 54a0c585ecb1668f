import CrossReference.Position.RangeMap
import Mathlib.Data.List.Induction
import Mathlib.Data.List.Nodup

/-!
# Laws of maps keyed by ranges

What a look-up finds after each operation, and that a map is determined by what its look-ups find.
The entries of a map are in strictly increasing order, so no key has two of them.
-/

set_option autoImplicit false

namespace CrossReference

theorem find?_reverse_eq_some_iff {Value : Type} {test : Value → Bool} {values : List Value}
    {value : Value} :
    values.reverse.find? test = some value ↔
      ∃ before after, values = before ++ value :: after ∧ test value = true ∧
        ∀ later ∈ after, test later = false := by
  rw [List.find?_eq_some_iff_append]
  constructor
  · rintro ⟨passes, behind, ahead, split, none⟩
    refine ⟨ahead.reverse, behind.reverse, ?_, passes, fun later member => ?_⟩
    · simpa using congrArg List.reverse split
    · simpa using none later (List.mem_reverse.1 member)
  · rintro ⟨before, after, rfl, passes, none⟩
    refine ⟨passes, after.reverse, before.reverse, by simp, fun later member => ?_⟩
    simp [none later (List.mem_reverse.1 member)]

namespace RangeMap

variable {Value : Type}

theorem key_ne_of_lt {first second : Range} (before : first < second) : first ≠ second := by
  rintro rfl
  exact Range.lt_irrefl _ before

theorem find?_insertEntry (key other : Range) (value : Value) (entries : List (Range × Value)) :
    ((insertEntry key value entries).find? (·.1 = other)).map (·.2) =
      if other = key then some value else (entries.find? (·.1 = other)).map (·.2) := by
  induction entries with
  | nil => by_cases same : other = key <;> simp [insertEntry, same, eq_comm]
  | cons first rest ih =>
    unfold insertEntry
    split
    · by_cases same : other = key <;> simp [List.find?_cons, same, eq_comm]
    · split
      · rename_i after
        have different : first.1 ≠ key := key_ne_of_lt after
        by_cases found : first.1 = other
        · have notKey : other ≠ key := found ▸ different
          simp [found, notKey]
        · simpa [List.find?_cons, found] using ih
      · rename_i notBefore notAfter
        have same : key = first.1 := Range.eq_of_not_lt notBefore notAfter
        by_cases found : other = key
        · simp [found]
        · have notFirst : first.1 ≠ other := fun isFirst => found (isFirst.symm.trans same.symm)
          simp [found, notFirst, Ne.symm found]

@[simp]
theorem get?_empty (key : Range) : (empty : RangeMap Value).get? key = none := rfl

theorem get?_insert (map : RangeMap Value) (key other : Range) (value : Value) :
    (map.insert key value).get? other = if other = key then some value else map.get? other :=
  find?_insertEntry key other value map.entries

theorem get?_erase (map : RangeMap Value) (key other : Range) :
    (map.erase key).get? other = if other = key then none else map.get? other := by
  unfold get? erase
  by_cases same : other = key
  · subst same
    simp
  · rw [if_neg same, List.find?_filter]
    congr 2
    funext entry
    by_cases found : entry.1 = other
    · simp [found, same]
    · simp [found]

/-- In a map made of a list, a key has the value of the last entry for it. -/
theorem get?_ofList (entries : List (Range × Value)) (key : Range) :
    (ofList entries).get? key = (entries.reverse.find? (·.1 = key)).map (·.2) := by
  induction entries using List.reverseRecOn with
  | nil => rfl
  | append_singleton entries last ih =>
    unfold ofList at ih ⊢
    rw [List.foldl_append, List.foldl_cons, List.foldl_nil, get?_insert, ih,
      List.reverse_append]
    by_cases same : key = last.1
    · simp [same]
    · simp [same, Ne.symm same]

theorem get?_ofList_eq_some_iff {entries : List (Range × Value)} {key : Range} {value : Value} :
    (ofList entries).get? key = some value ↔
      ∃ before after, entries = before ++ (key, value) :: after ∧
        ∀ later ∈ after, later.1 ≠ key := by
  simp only [get?_ofList, Option.map_eq_some_iff, find?_reverse_eq_some_iff, decide_eq_true_eq,
    decide_eq_false_iff_not]
  constructor
  · rintro ⟨⟨_, _⟩, ⟨before, after, split, rfl, others⟩, rfl⟩
    exact ⟨before, after, split, others⟩
  · rintro ⟨before, after, split, others⟩
    exact ⟨(key, value), ⟨before, after, split, rfl, others⟩, rfl⟩

theorem contains_ofList (entries : List (Range × Value)) (key : Range) :
    (ofList entries).contains key = true ↔ ∃ entry ∈ entries, entry.1 = key := by
  simp [contains, get?_ofList]

theorem mem_entries_iff (map : RangeMap Value) (key : Range) (value : Value) :
    (key, value) ∈ map.entries ↔ map.get? key = some value := by
  obtain ⟨entries, increasing⟩ := map
  unfold get?
  induction entries with
  | nil => simp
  | cons first rest ih =>
    obtain ⟨firstLeast, restIncreasing⟩ := List.pairwise_cons.1 increasing
    have later := ih restIncreasing
    simp only at later firstLeast ⊢
    by_cases found : first.1 = key
    · have notLater : (key, value) ∉ rest := fun member =>
        key_ne_of_lt (firstLeast _ member) found
      obtain ⟨firstKey, firstValue⟩ := first
      simp only at found
      subst found
      simp [notLater, eq_comm]
    · have notFirst : (key, value) ≠ first := fun same => found (same ▸ rfl)
      simp [found, notFirst, later]

/-- A map is determined by what its look-ups find. -/
theorem ext_get? {first second : RangeMap Value}
    (same : ∀ key, first.get? key = second.get? key) : first = second := by
  have distinct (map : RangeMap Value) : map.entries.Nodup :=
    map.increasing.imp fun before equal => key_ne_of_lt before (congrArg Prod.fst equal)
  have perm : first.entries.Perm second.entries := by
    rw [List.perm_ext_iff_of_nodup (distinct first) (distinct second)]
    rintro ⟨key, value⟩
    rw [mem_entries_iff, mem_entries_iff, same]
  have entries : first.entries = second.entries :=
    perm.eq_of_pairwise
      (fun _ _ _ _ forth back => absurd (Range.lt_trans forth back) (Range.lt_irrefl _))
      first.increasing second.increasing
  cases first
  cases second
  simp_all

theorem insert_comm (map : RangeMap Value) {first second : Range} (apart : first ≠ second)
    (value other : Value) :
    (map.insert first value).insert second other =
      (map.insert second other).insert first value := by
  apply ext_get?
  intro key
  rw [get?_insert, get?_insert, get?_insert, get?_insert]
  by_cases isFirst : key = first
  · have notSecond : key ≠ second := fun isSecond => apart (isFirst.symm.trans isSecond)
    rw [if_neg notSecond, if_pos isFirst, if_pos isFirst]
  · rw [if_neg isFirst, if_neg isFirst]

/-- Entries whose keys all differ may be inserted in any order. -/
theorem foldl_insert_perm {entries others : List (Range × Value)}
    (distinct : (entries.map (·.1)).Nodup) (reordered : entries.Perm others)
    (map : RangeMap Value) :
    entries.foldl (fun map entry => map.insert entry.1 entry.2) map =
      others.foldl (fun map entry => map.insert entry.1 entry.2) map := by
  apply reordered.foldl_eq'
  intro entry member other otherMember map
  by_cases same : entry.1 = other.1
  · rw [List.inj_on_of_nodup_map distinct member otherMember same]
  · exact insert_comm map same _ _

theorem length_insertEntry {key : Range} {value : Value} {entries : List (Range × Value)}
    (new : ∀ entry ∈ entries, entry.1 ≠ key) :
    (insertEntry key value entries).length = entries.length + 1 := by
  induction entries with
  | nil => rfl
  | cons first rest ih =>
    have notFirst := new first List.mem_cons_self
    have later := ih fun entry member => new entry (List.mem_cons_of_mem _ member)
    unfold insertEntry
    split
    · rfl
    · split
      · rw [List.length_cons, later, List.length_cons]
      · rename_i notBefore notAfter
        exact absurd (Range.eq_of_not_lt notBefore notAfter).symm notFirst

theorem key_mem_of_mem_ofList {entries : List (Range × Value)} {entry : Range × Value}
    (member : entry ∈ (ofList entries).entries) : entry.1 ∈ entries.map (·.1) := by
  have found := (mem_entries_iff (ofList entries) entry.1 entry.2).1 member
  have isKey : (ofList entries).contains entry.1 = true := by
    rw [contains, found]
    rfl
  obtain ⟨listed, isListed, same⟩ := (contains_ofList entries entry.1).1 isKey
  exact same ▸ List.mem_map_of_mem isListed

theorem size_ofList {entries : List (Range × Value)} (distinct : (entries.map (·.1)).Nodup) :
    (ofList entries).size = entries.length := by
  induction entries using List.reverseRecOn with
  | nil => rfl
  | append_singleton entries last ih =>
    rw [List.map_append, List.nodup_append] at distinct
    obtain ⟨before, -, apart⟩ := distinct
    have new : ∀ entry ∈ (ofList entries).entries, entry.1 ≠ last.1 := by
      intro entry member
      exact apart entry.1 (key_mem_of_mem_ofList member) last.1 (by simp)
    have inserted : ofList (entries ++ [last]) = (ofList entries).insert last.1 last.2 := by
      unfold ofList
      rw [List.foldl_append, List.foldl_cons, List.foldl_nil]
    rw [inserted, List.length_append, List.length_singleton, ← ih before]
    exact length_insertEntry new

theorem insertEntry_of_last {key : Range} {value : Value} {entries : List (Range × Value)}
    (last : ∀ entry ∈ entries, entry.1 < key) :
    insertEntry key value entries = entries ++ [(key, value)] := by
  induction entries with
  | nil => rfl
  | cons first rest ih =>
    have before : first.1 < key := last first List.mem_cons_self
    have notAfter : ¬ key < first.1 := fun after => Range.lt_irrefl _ (Range.lt_trans before after)
    have later := ih fun entry member => last entry (List.mem_cons_of_mem _ member)
    rw [insertEntry, if_neg notAfter, if_pos before, later, List.cons_append]

/-- Entries in increasing order are kept as they are. -/
theorem entries_ofList {entries : List (Range × Value)} (increasing : entries.Pairwise (·.1 < ·.1)) :
    (ofList entries).entries = entries := by
  induction entries using List.reverseRecOn with
  | nil => rfl
  | append_singleton entries last ih =>
    obtain ⟨before, -, apart⟩ := List.pairwise_append.1 increasing
    have built : (ofList (entries ++ [last])).entries =
        insertEntry last.1 last.2 (ofList entries).entries := by
      unfold ofList
      rw [List.foldl_append, List.foldl_cons, List.foldl_nil]
      rfl
    rw [built, ih before]
    apply insertEntry_of_last
    intro entry member
    exact apart entry member last (List.mem_singleton.2 rfl)

theorem ofList_entries (map : RangeMap Value) : ofList map.entries = map := by
  have same := entries_ofList map.increasing
  obtain ⟨entries, increasing⟩ := map
  cases built : ofList entries
  simp_all

end RangeMap

namespace RangeSet

theorem contains_ofRanges (ranges : List Range) (range : Range) :
    (ofRanges ranges).contains range = true ↔ range ∈ ranges := by
  simp [ofRanges, RangeMap.contains_ofList]

theorem contains_erase (set : RangeSet) (removed range : Range) :
    RangeMap.contains (set.erase removed) range = true ↔
      set.contains range = true ∧ range ≠ removed := by
  rw [RangeMap.contains, RangeMap.get?_erase]
  by_cases same : range = removed <;> simp [same, RangeMap.contains]

theorem ofRanges_toList (set : RangeSet) : ofRanges set.toList = set := by
  have entries : set.toList.map (·, ()) = set.entries := by
    rw [toList, RangeMap.keys, List.map_map]
    exact List.map_id set.entries
  rw [ofRanges, entries]
  exact RangeMap.ofList_entries set

theorem mem_toList_iff {set : RangeSet} {range : Range} :
    range ∈ set.toList ↔ set.contains range = true := by
  rw [← contains_ofRanges, ofRanges_toList]

theorem ext_contains {first second : RangeSet}
    (same : ∀ range, first.contains range = true ↔ second.contains range = true) :
    first = second := by
  refine RangeMap.ext_get? fun range => ?_
  have member := same range
  simp only [RangeMap.contains] at member
  cases found : first.get? range <;> cases other : second.get? range <;> simp_all

end RangeSet

end CrossReference
