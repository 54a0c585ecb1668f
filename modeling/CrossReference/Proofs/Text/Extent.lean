import CrossReference.Text.Extent

/-!
# Laws of byte extents

A byte is a boundary of a text if it follows whole characters.  Between two boundaries lie the
characters that a slice gives, and the number of characters before a boundary tells where they
start.
-/

set_option autoImplicit false

namespace CrossReference.Text

@[simp]
theorem byteLength_nil : byteLength [] = 0 := rfl

@[simp]
theorem byteLength_cons (c : Char) (rest : List Char) :
    byteLength (c :: rest) = c.utf8Size + byteLength rest := rfl

@[simp]
theorem byteLength_append (first second : List Char) :
    byteLength (first ++ second) = byteLength first + byteLength second := by
  induction first with
  | nil => simp
  | cons c rest ih => simp [ih, Nat.add_assoc]

theorem eq_nil_of_byteLength_eq_zero {text : List Char} (empty : byteLength text = 0) :
    text = [] := by
  cases text with
  | nil => rfl
  | cons c rest =>
    have positive := c.utf8Size_pos
    rw [byteLength_cons] at empty
    omega

def IsBoundary (text : List Char) (byte : Nat) : Prop :=
  ∃ front back, text = front ++ back ∧ byteLength front = byte

theorem splitBytes?_append (front back : List Char) :
    splitBytes? (front ++ back) (byteLength front) = some (front, back) := by
  induction front with
  | nil => cases back <;> rfl
  | cons c rest ih =>
    have positive := c.utf8Size_pos
    obtain ⟨bytes, same⟩ : ∃ bytes, byteLength (c :: rest) = bytes + 1 :=
      ⟨byteLength (c :: rest) - 1, by simp only [byteLength_cons]; omega⟩
    have remaining : bytes + 1 - c.utf8Size = byteLength rest := by
      simp only [byteLength_cons] at same
      omega
    have fits : ¬ bytes + 1 < c.utf8Size := by
      simp only [byteLength_cons] at same
      omega
    rw [same, List.cons_append, splitBytes?, if_neg fits, remaining, ih]
    rfl

theorem append_of_splitBytes? {text front back : List Char} {byte : Nat}
    (split : splitBytes? text byte = some (front, back)) :
    text = front ++ back ∧ byteLength front = byte := by
  induction text generalizing byte front with
  | nil =>
    cases byte with
    | zero =>
      cases split
      exact ⟨rfl, rfl⟩
    | succ byte => cases split
  | cons c rest ih =>
    cases byte with
    | zero =>
      cases split
      exact ⟨rfl, rfl⟩
    | succ byte =>
      rw [splitBytes?] at split
      split at split
      · cases split
      · obtain ⟨⟨inner, last⟩, found, same⟩ := Option.map_eq_some_iff.1 split
        cases same
        obtain ⟨rfl, length⟩ := ih found
        refine ⟨rfl, ?_⟩
        rw [byteLength_cons, length]
        omega

theorem isBoundary_iff {text : List Char} {byte : Nat} :
    IsBoundary text byte ↔ (splitBytes? text byte).isSome = true := by
  constructor
  · rintro ⟨front, back, rfl, rfl⟩
    rw [splitBytes?_append]
    rfl
  · intro splits
    obtain ⟨⟨front, back⟩, split⟩ := Option.isSome_iff_exists.1 splits
    exact ⟨front, back, append_of_splitBytes? split⟩

instance (text : List Char) (byte : Nat) : Decidable (IsBoundary text byte) :=
  decidable_of_iff _ isBoundary_iff.symm

theorem charactersBefore_append (front back : List Char) :
    charactersBefore (front ++ back) (byteLength front) = front.length := by
  induction front with
  | nil =>
    cases back with
    | nil => rfl
    | cons c rest =>
      have positive := c.utf8Size_pos
      rw [List.nil_append, byteLength_nil, charactersBefore, if_pos positive]
      rfl
  | cons c rest ih =>
    have fits : ¬ byteLength (c :: rest) < c.utf8Size := by
      rw [byteLength_cons]
      omega
    rw [List.cons_append, charactersBefore, if_neg fits, byteLength_cons, Nat.add_sub_cancel_left,
      ih]
    rfl

theorem charactersBefore_mono (text : List Char) {first second : Nat} (ordered : first ≤ second) :
    charactersBefore text first ≤ charactersBefore text second := by
  induction text generalizing first second with
  | nil => exact Nat.le_refl 0
  | cons c rest ih =>
    simp only [charactersBefore]
    split
    · exact Nat.zero_le _
    · have later := ih (Nat.sub_le_sub_right ordered c.utf8Size)
      rw [if_neg (by omega)]
      omega

/-- Of two starts of a text the one with fewer bytes is the start of the other. -/
theorem exists_between {first second firstRest secondRest : List Char}
    (same : first ++ firstRest = second ++ secondRest)
    (ordered : byteLength first ≤ byteLength second) :
    ∃ middle, second = first ++ middle := by
  have isPrefix : first <+: second ++ secondRest := ⟨firstRest, same⟩
  rcases List.prefix_or_prefix_of_prefix isPrefix (List.prefix_append second secondRest) with
    ⟨middle, joined⟩ | ⟨middle, joined⟩
  · exact ⟨middle, joined.symm⟩
  · rw [← joined, byteLength_append] at ordered
    have none : middle = [] := eq_nil_of_byteLength_eq_zero (by omega)
    rw [none, List.append_nil] at joined
    exact ⟨[], by rw [joined, List.append_nil]⟩

theorem exists_slice {text : List Char} {start stop : Nat} (first : IsBoundary text start)
    (last : IsBoundary text stop) (ordered : start ≤ stop) :
    ∃ front middle back, text = front ++ (middle ++ back) ∧
      byteLength middle = stop - start ∧ slice? text start stop = some middle ∧
      charactersBefore text start = front.length ∧
      charactersBefore text stop = front.length + middle.length := by
  obtain ⟨front, rest, rfl, rfl⟩ := first
  obtain ⟨longer, back, same, rfl⟩ := last
  obtain ⟨middle, rfl⟩ := exists_between same ordered
  have joined : rest = middle ++ back := by
    rw [List.append_assoc] at same
    exact List.append_cancel_left same
  subst joined
  have size : byteLength (front ++ middle) - byteLength front = byteLength middle := by
    rw [byteLength_append, Nat.add_sub_cancel_left]
  have slice : slice? (front ++ (middle ++ back)) (byteLength front)
      (byteLength (front ++ middle)) = some middle := by
    unfold slice?
    rw [splitBytes?_append]
    simp only
    rw [if_neg (Nat.not_lt_of_le ordered), size, splitBytes?_append]
    rfl
  refine ⟨front, middle, back, rfl, size.symm, slice, charactersBefore_append front _, ?_⟩
  rw [← List.append_assoc, charactersBefore_append, List.length_append]

end CrossReference.Text
