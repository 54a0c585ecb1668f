import CrossReference.Position

/-!
# Lines of a text

`Lines.ofText` finds where the lines of a text start, `Lines.pointer` turns a character offset
into a line and a column, and `Lines.range` does so for both ends of a location.  A line ends at a
line feed, at a carriage return followed by a line feed, or at a lone carriage return.
-/

set_option autoImplicit false

namespace CrossReference

/-- The offsets that follow a line terminator of a text whose first character has the given
offset.  A carriage return and the line feed after it are one terminator. -/
def offsetsAfterTerminators : Nat → List Char → List Nat
  | _, [] => []
  | offset, '\r' :: '\n' :: rest => (offset + 2) :: offsetsAfterTerminators (offset + 2) rest
  | offset, '\r' :: rest => (offset + 1) :: offsetsAfterTerminators (offset + 1) rest
  | offset, '\n' :: rest => (offset + 1) :: offsetsAfterTerminators (offset + 1) rest
  | offset, _ :: rest => offsetsAfterTerminators (offset + 1) rest

/-- Where the lines of a text start, and how many characters it has. -/
structure Lines where
  starts : List Nat
  length : Nat
  deriving DecidableEq

namespace Lines

/-- The lines of a text.  A terminator at the very end opens no further line. -/
def ofText (text : List Char) : Lines where
  starts := 0 :: (offsetsAfterTerminators 0 text).filter (· < text.length)
  length := text.length

def count (lines : Lines) : Nat :=
  lines.starts.length

def start? (lines : Lines) : Nat → Option Nat
  | 0 => none
  | line + 1 => lines.starts[line]?

def begun (lines : Lines) (offset : Nat) : List Nat :=
  lines.starts.takeWhile (· ≤ offset)

/-- The place of a character offset.  An offset past the end is taken for the end. -/
def pointer (lines : Lines) (offset : Nat) : Pointer :=
  let within := min offset lines.length
  let begun := lines.begun within
  ⟨begun.length, within - begun.getLastD 0⟩

def range (lines : Lines) (location : Location) : Range :=
  ⟨lines.pointer location.offset, lines.pointer location.stop⟩

end Lines

end CrossReference
