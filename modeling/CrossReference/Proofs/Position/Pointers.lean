import CrossReference.Proofs.Position.Lines
import CrossReference.Proofs.Position.Starts

/-!
# Pointers keep the order of offsets

The starts of lines increase, so the lines begun at an offset are the front part of all lines up to
the one that holds it.  A later offset has a longer front part or the same one, and in the same
line a greater column: pointers are ordered as the offsets that they stand for.
-/

set_option autoImplicit false

namespace CrossReference

theorem Pointer.le_iff {first second : Pointer} :
    first ≤ second ↔
      first.line < second.line ∨ first.line = second.line ∧ first.column ≤ second.column := by
  rw [le_iff_not_lt, lt_iff]
  omega

theorem Pointer.eq_of_le {first second : Pointer} (forth : first ≤ second)
    (back : second ≤ first) : first = second :=
  eq_of_not_lt (le_iff_not_lt.1 back) (le_iff_not_lt.1 forth)

namespace Lines

variable {text : List Char} {first second offset start : Nat}

theorem length_ofText (text : List Char) : (ofText text).length = text.length := rfl

/-! ## The lines begun at an offset -/

/-- Of two offsets the later one has all lines begun that the other one has. -/
theorem begun_isPrefix (text : List Char) (ordered : first ≤ second) :
    (ofText text).begun first <+: (ofText text).begun second := by
  have narrower : (ofText text).begun first =
      ((ofText text).begun second).takeWhile (· ≤ first) := by
    rw [begun, begun, List.takeWhile_takeWhile]
    congr 1
    funext start
    grind
  rw [narrower]
  exact List.takeWhile_prefix _

theorem begun_of_split {before after : List Nat}
    (split : (ofText text).starts = before ++ start :: after) (begins : start ≤ offset)
    (ends : ∀ next ∈ after.head?, offset < next) :
    (ofText text).begun offset = before ++ [start] := by
  have increasing := starts_pairwise text
  rw [split, List.pairwise_append] at increasing
  have earlier : ∀ other ∈ before, decide (other ≤ offset) = true := by
    intro other member
    have less := increasing.2.2 other member start List.mem_cons_self
    exact decide_eq_true (by omega)
  have noLater : after.takeWhile (· ≤ offset) = [] := by
    cases after with
    | nil => rfl
    | cons next others =>
      have next_gt : offset < next := ends next rfl
      exact List.takeWhile_cons_of_neg (by simpa using next_gt)
  rw [begun, split, List.takeWhile_append_of_pos earlier, List.takeWhile_cons,
    decide_eq_true begins, noLater]
  rfl

/-- In the line that an offset is in, its column is what it is after the start of the line. -/
theorem pointer_of_split {before after : List Nat}
    (split : (ofText text).starts = before ++ start :: after)
    (begins : start ≤ min offset text.length)
    (ends : ∀ next ∈ after.head?, min offset text.length < next) :
    (ofText text).pointer offset = ⟨before.length + 1, min offset text.length - start⟩ := by
  simp only [pointer, length_ofText, begun_of_split split begins ends, List.length_append,
    List.length_singleton, List.getLastD_concat]

theorem pointer_start {line : Nat} (isStart : (ofText text).start? line = some start) :
    (ofText text).pointer start = ⟨line, 0⟩ := by
  cases line with
  | zero => cases isStart
  | succ index =>
    obtain ⟨inside, isHere⟩ := List.getElem?_eq_some_iff.1 isStart
    have split : (ofText text).starts =
        (ofText text).starts.take index ++ start :: (ofText text).starts.drop (index + 1) := by
      rw [← isHere, List.getElem_cons_drop, List.take_append_drop]
    have within : min start text.length = start :=
      Nat.min_eq_left (le_length_of_mem_starts (List.mem_of_getElem? isStart))
    have increasing := starts_pairwise text
    rw [split, List.pairwise_append, List.pairwise_cons] at increasing
    rw [pointer_of_split split (Nat.le_of_eq within.symm), within, Nat.sub_self,
      List.length_take_of_le (Nat.le_of_lt inside)]
    intro next isNext
    rw [within]
    exact increasing.2.1.1 next (List.mem_of_mem_head? isNext)

/-! ## The order of pointers -/

theorem pointer_min (offset : Nat) :
    (ofText text).pointer (min offset text.length) = (ofText text).pointer offset := by
  simp only [pointer, length_ofText, Nat.min_assoc, Nat.min_self]

theorem pointer_eq_iff :
    (ofText text).pointer first = (ofText text).pointer second ↔
      min first text.length = min second text.length := by
  constructor
  · intro same
    rw [← pointer_min first, ← pointer_min second] at same
    exact pointer_injective (Nat.min_le_right ..) (Nat.min_le_right ..) same
  · intro same
    rw [← pointer_min first, same, pointer_min]

theorem pointer_le_of_le (ordered : min first text.length ≤ min second text.length) :
    (ofText text).pointer first ≤ (ofText text).pointer second := by
  have front := begun_isPrefix text ordered
  rw [Pointer.le_iff]
  rcases Nat.lt_or_eq_of_le front.length_le with more | same
  · exact .inl more
  · have equal := front.eq_of_length same
    right
    refine ⟨same, ?_⟩
    simp only [pointer, length_ofText, equal]
    omega

theorem pointer_le_iff :
    (ofText text).pointer first ≤ (ofText text).pointer second ↔
      min first text.length ≤ min second text.length := by
  constructor
  · intro ordered
    rcases Nat.le_total (min first text.length) (min second text.length) with forth | back
    · exact forth
    · exact Nat.le_of_eq (pointer_eq_iff.1 (Pointer.eq_of_le ordered (pointer_le_of_le back)))
  · exact pointer_le_of_le

/-! ## Offsets and lines -/

theorem exists_start_of_pointer (text : List Char) (offset : Nat) :
    ∃ start, (ofText text).start? ((ofText text).pointer offset).line = some start ∧
      start + ((ofText text).pointer offset).column = min offset text.length :=
  Option.map_eq_some_iff.1 (offset?_pointer text offset)

theorem start?_eq_none_iff {line : Nat} :
    (ofText text).start? line = none ↔ ¬ (1 ≤ line ∧ line ≤ (ofText text).count) := by
  cases line with
  | zero => simp [start?]
  | succ index =>
    rw [start?, List.getElem?_eq_none_iff, count]
    omega

theorem isLine_of_start? {line : Nat} (found : (ofText text).start? line = some start) :
    1 ≤ line ∧ line ≤ (ofText text).count := by
  by_contra noLine
  rw [start?_eq_none_iff.2 noLine] at found
  cases found

theorem map_pointer_start? (line : Nat) :
    ((ofText text).start? line).map (ofText text).pointer =
      if 1 ≤ line ∧ line ≤ (ofText text).count then some ⟨line, 0⟩ else none := by
  cases found : (ofText text).start? line with
  | none => rw [if_neg (start?_eq_none_iff.1 found), Option.map_none]
  | some start =>
    rw [if_pos (isLine_of_start? found), Option.map_some, pointer_start found]

/-- Pointers are ordered as the offsets that they stand for, those past the end as the end, and two
of them are the same just where these are.  Each pointer is in a line of the text and stands for the
start of the line and its column more; the start of each line has that line and column zero. -/
theorem pointers_are_ordered_as_offsets (text : List Char) :
    (∀ first second, (ofText text).pointer first ≤ (ofText text).pointer second ↔
      min first text.length ≤ min second text.length) ∧
    (∀ first second, (ofText text).pointer first = (ofText text).pointer second ↔
      min first text.length = min second text.length) ∧
    (∀ offset, (ofText text).pointer (text.length + offset) =
      (ofText text).pointer text.length) ∧
    (∀ offset, 1 ≤ ((ofText text).pointer offset).line ∧
      ((ofText text).pointer offset).line ≤ (ofText text).count ∧
      ∃ start, (ofText text).start? ((ofText text).pointer offset).line = some start ∧
        start + ((ofText text).pointer offset).column = min offset text.length) ∧
    ∀ line, ((ofText text).start? line).map (ofText text).pointer =
      if 1 ≤ line ∧ line ≤ (ofText text).count then some ⟨line, 0⟩ else none := by
  refine ⟨fun _ _ => pointer_le_iff, fun _ _ => pointer_eq_iff, ?_, ?_, map_pointer_start?⟩
  · intro offset
    rw [pointer_eq_iff]
    omega
  · intro offset
    obtain ⟨start, isStart, stands⟩ := exists_start_of_pointer text offset
    obtain ⟨positive, inside⟩ := isLine_of_start? isStart
    exact ⟨positive, inside, start, isStart, stands⟩

/-! ## Ranges -/

/-- The end of a location is held at the largest offset, which is not less than the end of the
text: the range is that of the exact numbers. -/
theorem range_eq (short : text.length ≤ Location.maxOffset) (location : Location) :
    (ofText text).range location =
      ⟨(ofText text).pointer (min location.offset text.length),
        (ofText text).pointer (min (location.offset + location.length) text.length)⟩ := by
  have sameStop : min location.stop text.length =
      min (location.offset + location.length) text.length := by
    rw [Location.stop]
    omega
  rw [range, pointer_min, ← pointer_min location.stop, sameStop]

theorem range_eq_iff (short : text.length ≤ Location.maxOffset) (first second : Location) :
    (ofText text).range first = (ofText text).range second ↔
      min first.offset text.length = min second.offset text.length ∧
        min (first.offset + first.length) text.length =
          min (second.offset + second.length) text.length := by
  rw [range_eq short, range_eq short, Range.mk.injEq, pointer_min, pointer_min, pointer_min,
    pointer_min, pointer_eq_iff, pointer_eq_iff]

theorem range_start_le_stop (short : text.length ≤ Location.maxOffset) (location : Location) :
    ((ofText text).range location).start ≤ ((ofText text).range location).stop := by
  rw [range_eq short]
  apply pointer_le_of_le
  omega

theorem range_injective {first second : Location}
    (firstInside : first.offset + first.length ≤ text.length)
    (secondInside : second.offset + second.length ≤ text.length)
    (short : text.length ≤ Location.maxOffset)
    (same : (ofText text).range first = (ofText text).range second) : first = second := by
  obtain ⟨offsets, stops⟩ := (range_eq_iff short first second).1 same
  obtain ⟨firstOffset, firstLength⟩ := first
  obtain ⟨secondOffset, secondLength⟩ := second
  rw [Location.mk.injEq]
  simp only at offsets stops firstInside secondInside
  omega

/-- The range of a location is that of its two ends held at the end of the text, however large its
numbers are.  It does not end before it starts, and another location has the same one just where
these ends are the same, so that each location inside the text has a range of its own. -/
theorem ranges_are_of_ends_in_text {text : List Char} (short : text.length ≤ Location.maxOffset) :
    (∀ location, (ofText text).range location =
        ⟨(ofText text).pointer (min location.offset text.length),
          (ofText text).pointer (min (location.offset + location.length) text.length)⟩ ∧
      ((ofText text).range location).start ≤ ((ofText text).range location).stop) ∧
    (∀ first second, (ofText text).range first = (ofText text).range second ↔
      min first.offset text.length = min second.offset text.length ∧
        min (first.offset + first.length) text.length =
          min (second.offset + second.length) text.length) ∧
    ∀ first second, first.offset + first.length ≤ text.length →
      second.offset + second.length ≤ text.length →
      ((ofText text).range first = (ofText text).range second ↔ first = second) := by
  refine ⟨?_, range_eq_iff short, ?_⟩
  · intro location
    exact ⟨range_eq short location, range_start_le_stop short location⟩
  · intro first second firstInside secondInside
    constructor
    · exact range_injective firstInside secondInside short
    · intro same
      rw [same]

/-- A location that runs over the largest offset covers the rest of the text, and two locations
inside it that start together are told apart by their ends. -/
theorem range_of_location_over_largest_offset :
    ['a', '\r', '\n', 'b'].length ≤ Location.maxOffset ∧
    (ofText ['a', '\r', '\n', 'b']).range ⟨2, Location.maxOffset⟩ = ⟨⟨1, 2⟩, ⟨2, 1⟩⟩ ∧
    1 + 2 ≤ ['a', '\r', '\n', 'b'].length ∧ 1 + 3 ≤ ['a', '\r', '\n', 'b'].length ∧
    (ofText ['a', '\r', '\n', 'b']).range ⟨1, 2⟩ ≠
      (ofText ['a', '\r', '\n', 'b']).range ⟨1, 3⟩ := by
  have short : ['a', '\r', '\n', 'b'].length ≤ Location.maxOffset := by decide
  obtain ⟨exactly, -, apart⟩ := ranges_are_of_ends_in_text short
  refine ⟨short, ?_, by decide, by decide, ?_⟩
  · exact (exactly ⟨2, Location.maxOffset⟩).1.trans (by decide)
  · exact mt (apart ⟨1, 2⟩ ⟨1, 3⟩ (by decide) (by decide)).1 (by decide)

end Lines

end CrossReference
