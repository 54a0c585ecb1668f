import CrossReference.Position.Lines

/-!
# Where the lines of a text start

Only one character of a terminator ends its line: a line feed, or a carriage return that no line
feed follows.  So the lines can be found one character at a time, though a carriage return and the
line feed after it are taken together.  The starts are zero and, in increasing order, the offsets
inside the text that follow a character which ends a line.
-/

set_option autoImplicit false

namespace CrossReference

/-- The character at an index is the last one of a line terminator. -/
def EndsLine (text : List Char) (index : Nat) : Prop :=
  text[index]? = some '\n' ∨ text[index]? = some '\r' ∧ text[index + 1]? ≠ some '\n'

instance (text : List Char) (index : Nat) : Decidable (EndsLine text index) :=
  inferInstanceAs (Decidable
    (text[index]? = some '\n' ∨ text[index]? = some '\r' ∧ text[index + 1]? ≠ some '\n'))

theorem not_endsLine_nil (index : Nat) : ¬ EndsLine [] index := by
  simp [EndsLine]

theorem endsLine_cons_succ {first : Char} {rest : List Char} {index : Nat} :
    EndsLine (first :: rest) (index + 1) ↔ EndsLine rest index := by
  simp only [EndsLine, List.getElem?_cons_succ]

/-! ## The offsets after terminators -/

theorem offsetsAfterTerminators_cons (offset : Nat) (first : Char) (rest : List Char) :
    offsetsAfterTerminators offset (first :: rest) =
      if EndsLine (first :: rest) 0 then
        (offset + 1) :: offsetsAfterTerminators (offset + 1) rest
      else offsetsAfterTerminators (offset + 1) rest := by
  by_cases lineFeed : first = '\n'
  · subst lineFeed
    rw [if_pos (.inl rfl), offsetsAfterTerminators]
  by_cases carriageReturn : first = '\r'
  · subst carriageReturn
    cases rest with
    | nil => rfl
    | cons second others =>
      by_cases pair : second = '\n'
      · subst pair
        rfl
      · have ends : EndsLine ('\r' :: second :: others) 0 := .inr ⟨rfl, by simpa using pair⟩
        rw [if_pos ends, offsetsAfterTerminators]
        intro others' same
        exact pair (List.cons.inj same).1
  · have goesOn : ¬ EndsLine (first :: rest) 0 := by
      simp [EndsLine, lineFeed, carriageReturn]
    rw [if_neg goesOn, offsetsAfterTerminators]
    · exact fun _ same => absurd same carriageReturn
    · exact fun same => absurd same carriageReturn
    · exact fun same => absurd same lineFeed

/-- Every offset after a terminator is one after the index of a character that ends a line. -/
theorem mem_offsetsAfterTerminators_iff {text : List Char} {base offset : Nat} :
    offset ∈ offsetsAfterTerminators base text ↔
      ∃ index, EndsLine text index ∧ offset = base + index + 1 := by
  induction text generalizing base with
  | nil => simp [offsetsAfterTerminators, not_endsLine_nil]
  | cons first rest ih =>
    have later : offset ∈ offsetsAfterTerminators (base + 1) rest ↔
        ∃ index, EndsLine (first :: rest) (index + 1) ∧ offset = base + (index + 1) + 1 := by
      simp only [ih, endsLine_cons_succ, Nat.add_assoc, Nat.add_comm 1]
    rw [offsetsAfterTerminators_cons, ← Nat.or_exists_add_one, ← later]
    split
    · rename_i ends
      rw [List.mem_cons, and_iff_right ends]
    · rename_i goesOn
      simp only [goesOn, false_and, false_or]

theorem offsetsAfterTerminators_pairwise (base : Nat) (text : List Char) :
    (offsetsAfterTerminators base text).Pairwise (· < ·) := by
  induction text generalizing base with
  | nil => exact .nil
  | cons first rest ih =>
    rw [offsetsAfterTerminators_cons]
    split
    · refine List.pairwise_cons.2 ⟨?_, ih (base + 1)⟩
      intro offset member
      obtain ⟨index, -, rfl⟩ := mem_offsetsAfterTerminators_iff.1 member
      omega
    · exact ih (base + 1)

/-! ## The starts of lines -/

namespace Lines

variable {text : List Char}

theorem mem_later_iff {offset : Nat} :
    offset ∈ (offsetsAfterTerminators 0 text).filter (· < text.length) ↔
      0 < offset ∧ offset < text.length ∧
        (text[offset - 1]? = some '\n' ∨
          text[offset - 1]? = some '\r' ∧ text[offset]? ≠ some '\n') := by
  rw [List.mem_filter, mem_offsetsAfterTerminators_iff, decide_eq_true_iff]
  constructor
  · rintro ⟨⟨index, ends, rfl⟩, inside⟩
    simp only [Nat.zero_add, Nat.add_sub_cancel] at inside ⊢
    exact ⟨Nat.succ_pos index, inside, ends⟩
  · rintro ⟨positive, inside, ends⟩
    obtain ⟨index, rfl⟩ := Nat.exists_eq_succ_of_ne_zero (Nat.ne_of_gt positive)
    exact ⟨⟨index, ends, by rw [Nat.zero_add]⟩, inside⟩

theorem starts_pairwise (text : List Char) : (ofText text).starts.Pairwise (· < ·) := by
  refine List.pairwise_cons.2 ⟨?_, (offsetsAfterTerminators_pairwise 0 text).filter _⟩
  intro offset member
  exact (mem_later_iff.1 member).1

theorem mem_starts_iff {offset : Nat} :
    offset ∈ (ofText text).starts ↔
      offset = 0 ∨ 0 < offset ∧ offset < text.length ∧
        (text[offset - 1]? = some '\n' ∨
          text[offset - 1]? = some '\r' ∧ text[offset]? ≠ some '\n') := by
  rw [← mem_later_iff]
  exact List.mem_cons

theorem le_length_of_mem_starts {offset : Nat} (isStart : offset ∈ (ofText text).starts) :
    offset ≤ text.length := by
  rcases mem_starts_iff.1 isStart with rfl | ⟨-, inside, -⟩
  · exact Nat.zero_le _
  · exact Nat.le_of_lt inside

/-- The lines of a text start at zero and, in increasing order, at the offsets inside it that come
right after a line feed, or after a carriage return where no line feed stands.  A carriage return
and the line feed after it end one line, and the end of a text that is not empty starts none. -/
theorem lines_start_behind_terminators (text : List Char) :
    (∃ later, (ofText text).starts = 0 :: later ∧ later.Pairwise (· < ·) ∧
      ∀ offset, offset ∈ later ↔
        0 < offset ∧ offset < text.length ∧
          (text[offset - 1]? = some '\n' ∨
            text[offset - 1]? = some '\r' ∧ text[offset]? ≠ some '\n')) ∧
    (∀ index, text[index]? = some '\r' ∧ text[index + 1]? = some '\n' →
      index + 1 ∉ (ofText text).starts ∧
        (index + 2 ∈ (ofText text).starts ↔ index + 2 < text.length)) ∧
    (text.length ∈ (ofText text).starts ↔ text = []) ∧
    (ofText text).length = text.length := by
  refine ⟨⟨_, rfl, ?_, fun offset => mem_later_iff⟩, ?_, ?_, rfl⟩
  · exact (starts_pairwise text).of_cons
  · rintro index ⟨carriageReturn, lineFeed⟩
    simp [mem_starts_iff, carriageReturn, lineFeed]
  · rw [mem_starts_iff, List.length_eq_zero_iff]
    simp

/-- Among other terminators too, a pair ends one line and not two. -/
theorem pair_among_terminators_ends_one_line :
    (['\r', '\r', '\n', '\n', 'a'][1]? = some '\r' ∧
      ['\r', '\r', '\n', '\n', 'a'][2]? = some '\n') ∧
    2 ∉ (ofText ['\r', '\r', '\n', '\n', 'a']).starts ∧
    (3 ∈ (ofText ['\r', '\r', '\n', '\n', 'a']).starts ↔ 3 < 5) :=
  ⟨by decide, (lines_start_behind_terminators ['\r', '\r', '\n', '\n', 'a']).2.1 1 (by decide)⟩

end Lines

end CrossReference
