import CrossReference.Text.Numeral

/-!
# Positions in a text

A `Pointer` is a line and a column, a `Range` is a pair of pointers, and a `Location` is a run of
characters given by flat numbers.  Pointers are ordered by line and then by column, ranges by
start and then by end; both orders are strict and total.
-/

set_option autoImplicit false

namespace CrossReference

structure Pointer where
  line : Nat
  column : Nat
  deriving DecidableEq

structure Range where
  start : Pointer
  stop : Pointer
  deriving DecidableEq

/-- A run of characters of a text: the offset of the first one and their number. -/
structure Location where
  offset : Nat
  length : Nat
  deriving DecidableEq

def Location.maxOffset : Nat := UInt64.size - 1

/-- The offset after the last character of a location, held at the largest offset. -/
def Location.stop (location : Location) : Nat :=
  min (location.offset + location.length) Location.maxOffset

namespace Pointer

instance : LT Pointer where
  lt first second :=
    first.line < second.line ∨ first.line = second.line ∧ first.column < second.column

instance : LE Pointer where
  le first second := ¬ second < first

theorem lt_iff {first second : Pointer} :
    first < second ↔
      first.line < second.line ∨ first.line = second.line ∧ first.column < second.column :=
  Iff.rfl

theorem le_iff_not_lt {first second : Pointer} : first ≤ second ↔ ¬ second < first :=
  Iff.rfl

instance (first second : Pointer) : Decidable (first < second) :=
  inferInstanceAs (Decidable
    (first.line < second.line ∨ first.line = second.line ∧ first.column < second.column))

instance (first second : Pointer) : Decidable (first ≤ second) :=
  inferInstanceAs (Decidable (¬ second < first))

theorem ext_iff' {first second : Pointer} :
    first = second ↔ first.line = second.line ∧ first.column = second.column := by
  cases first; cases second; simp

theorem eq_of_not_lt {first second : Pointer}
    (notBefore : ¬ first < second) (notAfter : ¬ second < first) : first = second := by
  rw [lt_iff] at notBefore notAfter
  rw [ext_iff']
  omega

def render (pointer : Pointer) : String :=
  Numeral.decimal pointer.line ++ ":" ++ Numeral.decimal pointer.column

end Pointer

namespace Range

instance : LT Range where
  lt first second :=
    first.start < second.start ∨ ¬ second.start < first.start ∧ first.stop < second.stop

theorem lt_iff {first second : Range} :
    first < second ↔
      first.start < second.start ∨
        ¬ second.start < first.start ∧ first.stop < second.stop :=
  Iff.rfl

instance (first second : Range) : Decidable (first < second) :=
  inferInstanceAs (Decidable
    (first.start < second.start ∨
      ¬ second.start < first.start ∧ first.stop < second.stop))

theorem lt_irrefl (range : Range) : ¬ range < range := by
  simp only [lt_iff, Pointer.lt_iff]
  omega

theorem lt_trans {first second third : Range}
    (firstStep : first < second) (secondStep : second < third) : first < third := by
  simp only [lt_iff, Pointer.lt_iff] at *
  omega

theorem eq_of_not_lt {first second : Range}
    (notBefore : ¬ first < second) (notAfter : ¬ second < first) : first = second := by
  have starts : first.start = second.start := by
    apply Pointer.eq_of_not_lt <;>
      · simp only [lt_iff, Pointer.lt_iff] at *
        omega
  have stops : first.stop = second.stop := by
    apply Pointer.eq_of_not_lt <;>
      · simp only [lt_iff, Pointer.lt_iff] at *
        omega
  cases first
  cases second
  simp_all

def compare (first second : Range) : Ordering :=
  if first < second then .lt else if second < first then .gt else .eq

def render (range : Range) : String :=
  range.start.render ++ "-" ++ range.stop.render

end Range

end CrossReference
