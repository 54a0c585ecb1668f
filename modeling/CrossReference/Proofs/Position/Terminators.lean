import CrossReference.Proofs.Position.Pointers
import Mathlib.Data.List.Chain

/-!
# Texts put together from lines

A text can be given by its lines and by what ends each of them.  Its lines are found again as long
as no carriage return that ends a line meets the line feed that ends an empty one: the starts found
in the text are then those of the given lines, and a character of a line has the number of the line
and its own place there, whichever terminators stand in between.
-/

set_option autoImplicit false

namespace CrossReference

inductive Terminator where
  | lineFeed
  | carriageReturnLineFeed
  | carriageReturn
  deriving DecidableEq

def Terminator.text : Terminator → List Char
  | .lineFeed => ['\n']
  | .carriageReturnLineFeed => ['\r', '\n']
  | .carriageReturn => ['\r']

theorem Terminator.text_ne_nil (terminator : Terminator) : terminator.text ≠ [] := by
  cases terminator <;> exact List.cons_ne_nil _ _

/-- The characters of a line, and what ends it, if anything does. -/
structure EndedLine where
  content : List Char
  ending : Option Terminator

namespace EndedLine

def endingText (line : EndedLine) : List Char :=
  (line.ending.map Terminator.text).getD []

def text (line : EndedLine) : List Char :=
  line.content ++ line.endingText

def joined (lines : List EndedLine) : List Char :=
  lines.flatMap text

/-- Lines that can be told apart in the text they are joined to. -/
structure Separable (lines : List EndedLine) : Prop where
  nonempty : lines ≠ []
  /-- No line has a terminator inside. -/
  unbroken : ∀ line ∈ lines, '\r' ∉ line.content ∧ '\n' ∉ line.content
  /-- Only the last line may have nothing that ends it. -/
  ended : ∀ line ∈ lines.dropLast, line.ending ≠ none
  /-- If nothing ends the last line, something has to be in it, unless it is the only one. -/
  visible : ∀ line ∈ lines.getLast?, line.ending = none → line.content ≠ [] ∨ lines.length = 1
  /-- No two terminators look like one. -/
  apart : lines.IsChain fun line next =>
    line.ending = some .carriageReturn → next.content = [] → next.ending ≠ some .lineFeed

variable {line next : EndedLine} {lines rest : List EndedLine}

theorem joined_cons (line : EndedLine) (rest : List EndedLine) :
    joined (line :: rest) = line.text ++ joined rest :=
  List.flatMap_cons

theorem joined_append (front back : List EndedLine) :
    joined (front ++ back) = joined front ++ joined back :=
  List.flatMap_append

theorem endingText_of_some {terminator : Terminator} (ends : line.ending = some terminator) :
    line.endingText = terminator.text := by
  rw [endingText, ends]
  rfl

theorem endingText_of_none (goesOn : line.ending = none) : line.endingText = [] := by
  rw [endingText, goesOn]
  rfl

/-! ## Lines that can be told apart -/

namespace Separable

theorem ended_of_next (separable : Separable (line :: next :: rest)) : line.ending ≠ none :=
  separable.ended line List.mem_cons_self

theorem tail (separable : Separable (line :: next :: rest)) : Separable (next :: rest) where
  nonempty := List.cons_ne_nil _ _
  unbroken other member := separable.unbroken other (List.mem_cons_of_mem _ member)
  ended other member := separable.ended other (List.mem_cons_of_mem _ member)
  visible other isLast goesOn := by
    rcases separable.visible other (by rwa [List.getLast?_cons_cons]) goesOn with filled | alone
    · exact .inl filled
    · simp at alone
  apart := separable.apart.tail

theorem text_ne_nil_of_next (separable : Separable (line :: next :: rest)) : next.text ≠ [] := by
  intro empty
  obtain ⟨noContent, noEnding⟩ := List.append_eq_nil_iff.1 empty
  cases ends : next.ending with
  | some terminator =>
    rw [endingText_of_some ends] at noEnding
    exact terminator.text_ne_nil noEnding
  | none =>
    cases rest with
    | cons third others => exact separable.tail.ended_of_next ends
    | nil =>
      rcases separable.visible next rfl ends with filled | alone
      · exact filled noContent
      · simp at alone

theorem no_lineFeed_of_carriageReturn (separable : Separable (line :: next :: rest))
    (ends : line.ending = some .carriageReturn) :
    (joined (next :: rest)).head? ≠ some '\n' := by
  have filled := separable.text_ne_nil_of_next
  rw [joined_cons, List.head?_append_of_ne_nil _ filled, text]
  cases content : next.content with
  | cons first others =>
    have unbroken := (separable.unbroken next (by simp)).2
    rw [content, List.mem_cons, not_or] at unbroken
    simpa using Ne.symm unbroken.1
  | nil =>
    have apart := (List.isChain_cons_cons.1 separable.apart).1 ends content
    cases isEnd : next.ending with
    | none => simp [endingText_of_none isEnd]
    | some terminator =>
      rw [endingText_of_some isEnd]
      cases terminator with
      | lineFeed => exact absurd isEnd apart
      | carriageReturnLineFeed => simp [Terminator.text]
      | carriageReturn => simp [Terminator.text]

end Separable

/-! ## The starts of the lines -/

theorem offsetsAfterTerminators_unbroken {content : List Char} (noReturn : '\r' ∉ content)
    (noFeed : '\n' ∉ content) (offset : Nat) (rest : List Char) :
    offsetsAfterTerminators offset (content ++ rest) =
      offsetsAfterTerminators (offset + content.length) rest := by
  induction content generalizing offset with
  | nil => rfl
  | cons first others ih =>
    rw [List.mem_cons, not_or] at noReturn noFeed
    have goesOn : ¬ EndsLine (first :: (others ++ rest)) 0 := by
      simp [EndsLine, Ne.symm noReturn.1, Ne.symm noFeed.1]
    rw [List.cons_append, offsetsAfterTerminators_cons, if_neg goesOn, ih noReturn.2 noFeed.2,
      List.length_cons, Nat.add_assoc, Nat.add_comm 1]

/-- A terminator gives one offset, unless it is a part of a longer one. -/
theorem offsetsAfterTerminators_terminator (terminator : Terminator) {rest : List Char}
    (whole : terminator = .carriageReturn → rest.head? ≠ some '\n') (offset : Nat) :
    offsetsAfterTerminators offset (terminator.text ++ rest) =
      (offset + terminator.text.length) ::
        offsetsAfterTerminators (offset + terminator.text.length) rest := by
  cases terminator with
  | lineFeed => rfl
  | carriageReturnLineFeed => rfl
  | carriageReturn =>
    have ends : EndsLine ('\r' :: rest) 0 := by
      right
      simpa [List.head?_eq_getElem?] using whole rfl
    exact (offsetsAfterTerminators_cons offset '\r' rest).trans (if_pos ends)

def starts : Nat → List EndedLine → List Nat
  | _, [] => []
  | offset, line :: rest => offset :: starts (offset + line.text.length) rest

theorem length_starts (offset : Nat) (lines : List EndedLine) :
    (starts offset lines).length = lines.length := by
  induction lines generalizing offset with
  | nil => rfl
  | cons line rest ih => rw [starts, List.length_cons, ih, List.length_cons]

theorem starts_append (offset : Nat) (front back : List EndedLine) :
    starts offset (front ++ back) =
      starts offset front ++ starts (offset + (joined front).length) back := by
  induction front generalizing offset with
  | nil => rfl
  | cons line rest ih =>
    rw [List.cons_append, starts, ih, starts, joined_cons, List.length_append, Nat.add_assoc,
      List.cons_append]

theorem head?_starts {offset start : Nat} (isFirst : start ∈ (starts offset lines).head?) :
    start = offset := by
  cases lines with
  | nil => cases isFirst
  | cons line rest => exact (Option.some.inj isFirst).symm

theorem offsetsAfterTerminators_line (unbroken : '\r' ∉ line.content ∧ '\n' ∉ line.content)
    {terminator : Terminator} (ends : line.ending = some terminator) {rest : List Char}
    (whole : terminator = .carriageReturn → rest.head? ≠ some '\n') (offset : Nat) :
    offsetsAfterTerminators offset (line.text ++ rest) =
      (offset + line.text.length) :: offsetsAfterTerminators (offset + line.text.length) rest := by
  rw [text, endingText_of_some ends, List.append_assoc,
    offsetsAfterTerminators_unbroken unbroken.1 unbroken.2,
    offsetsAfterTerminators_terminator terminator whole, List.length_append, Nat.add_assoc]

/-- What the search for terminators finds are the starts of the lines; where the last one is ended,
the end of the text is left out. -/
theorem offsetsAfterTerminators_joined (separable : Separable lines) (offset : Nat) :
    offset :: (offsetsAfterTerminators offset (joined lines)).filter
        (· < offset + (joined lines).length) = starts offset lines := by
  induction lines generalizing offset with
  | nil => exact absurd rfl separable.nonempty
  | cons line rest ih =>
    have unbroken := separable.unbroken line List.mem_cons_self
    cases rest with
    | nil =>
      rw [joined_cons, joined, List.flatMap_nil, starts, starts]
      congr 1
      cases ends : line.ending with
      | none =>
        rw [text, endingText_of_none ends, List.append_assoc,
          offsetsAfterTerminators_unbroken unbroken.1 unbroken.2]
        rfl
      | some terminator =>
        have whole : terminator = .carriageReturn → [].head? ≠ some '\n' := fun _ => nofun
        rw [offsetsAfterTerminators_line unbroken ends whole]
        simp [offsetsAfterTerminators]
    | cons next others =>
      obtain ⟨terminator, ends⟩ := Option.ne_none_iff_exists'.1 separable.ended_of_next
      have whole : terminator = .carriageReturn → (joined (next :: others)).head? ≠ some '\n' := by
        rintro rfl
        exact separable.no_lineFeed_of_carriageReturn ends
      have goesOn : 0 < (joined (next :: others)).length := by
        have filled := List.length_pos_iff.2 separable.text_ne_nil_of_next
        rw [joined_cons, List.length_append]
        omega
      rw [joined_cons, offsetsAfterTerminators_line unbroken ends whole, starts,
        ← ih separable.tail, List.length_append, ← Nat.add_assoc,
        List.filter_cons_of_pos (by simpa using goesOn)]

theorem starts_ofText (separable : Separable lines) :
    (Lines.ofText (joined lines)).starts = starts 0 lines := by
  rw [← offsetsAfterTerminators_joined separable, Nat.zero_add]
  rfl

/-! ## Characters and their pointers -/

variable {index column : Nat} {char : Char}

theorem joined_split (found : lines[index]? = some line) :
    lines = lines.take index ++ line :: lines.drop (index + 1) := by
  obtain ⟨inside, isHere⟩ := List.getElem?_eq_some_iff.1 found
  rw [← isHere, List.getElem_cons_drop, List.take_append_drop]

/-- The characters of a line stand in the text one after the other, behind all lines before it. -/
theorem getElem?_joined (found : lines[index]? = some line)
    (stands : line.content[column]? = some char) :
    (joined lines)[(joined (lines.take index)).length + column]? = some char := by
  obtain ⟨inside, -⟩ := List.getElem?_eq_some_iff.1 stands
  have split := congrArg joined (joined_split found)
  rw [joined_append, joined_cons, text, List.append_assoc] at split
  rw [split, List.getElem?_append_right (Nat.le_add_right _ _), Nat.add_sub_cancel_left,
    List.getElem?_append_left inside, stands]

theorem pointer_joined (separable : Separable lines) (found : lines[index]? = some line)
    (inside : column < line.content.length) :
    (Lines.ofText (joined lines)).pointer ((joined (lines.take index)).length + column) =
      ⟨index + 1, column⟩ := by
  have split := joined_split found
  have indexInside := (List.getElem?_eq_some_iff.1 found).1
  have starts := starts_ofText separable
  rw [split, starts_append, ← split, EndedLine.starts, Nat.zero_add] at starts
  have within : min ((joined (lines.take index)).length + column) (joined lines).length =
      (joined (lines.take index)).length + column := by
    have lengths := congrArg (fun lines => (joined lines).length) split
    simp only [joined_append, joined_cons, text, List.length_append] at lengths
    omega
  rw [Lines.pointer_of_split starts, within, Nat.add_sub_cancel_left, length_starts,
    List.length_take_of_le (Nat.le_of_lt indexInside)]
  · rw [within]
    exact Nat.le_add_right _ _
  · intro start isNext
    rw [within, head?_starts isNext]
    have shorter : line.content.length ≤ line.text.length := by
      rw [text, List.length_append]
      exact Nat.le_add_right _ _
    omega

/-- As many lines are found in a text as it is put together from, and each character of a line is
found in that line and at its own place there, whatever ends the lines. -/
theorem lines_are_found_whatever_ends_them {lines : List EndedLine} (separable : Separable lines) :
    (Lines.ofText (joined lines)).count = lines.length ∧
    ∀ index line column char, lines[index]? = some line → line.content[column]? = some char →
      (joined lines)[(joined (lines.take index)).length + column]? = some char ∧
        (Lines.ofText (joined lines)).pointer ((joined (lines.take index)).length + column) =
          ⟨index + 1, column⟩ := by
  refine ⟨?_, fun index line column char found stands => ?_⟩
  · rw [Lines.count, starts_ofText separable, length_starts]
  · obtain ⟨inside, -⟩ := List.getElem?_eq_some_iff.1 stands
    exact ⟨getElem?_joined found stands, pointer_joined separable found inside⟩

def mixedLines : List EndedLine :=
  [⟨['a', 'b'], some .carriageReturn⟩, ⟨[], some .carriageReturnLineFeed⟩, ⟨[], some .lineFeed⟩,
    ⟨[], some .carriageReturn⟩, ⟨['é', 'c'], none⟩]

theorem separable_mixedLines : Separable mixedLines where
  nonempty := List.cons_ne_nil _ _
  unbroken := by decide
  ended := by decide
  visible := by decide
  apart := by
    simp [mixedLines]

theorem mixed_lines_are_found :
    Separable mixedLines ∧
    (Lines.ofText ['a', 'b', '\r', '\r', '\n', '\n', '\r', 'é', 'c']).count = 5 ∧
    (Lines.ofText ['a', 'b', '\r', '\r', '\n', '\n', '\r', 'é', 'c']).pointer 8 = ⟨5, 1⟩ := by
  obtain ⟨count, pointers⟩ := lines_are_found_whatever_ends_them separable_mixedLines
  exact ⟨separable_mixedLines, count, (pointers 4 ⟨['é', 'c'], none⟩ 1 'c' rfl rfl).2⟩

end EndedLine

end CrossReference
