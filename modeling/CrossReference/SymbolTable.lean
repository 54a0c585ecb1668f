import CrossReference.Json
import CrossReference.Json.Document
import CrossReference.Position.Lines
import CrossReference.Position.RangeMap

/-!
# Symbol tables

A `SymbolTable` maps the range of each declaration to the set of the ranges that refer to it.
`SymbolTable.toJson` is its written form, and `SymbolTable.read?` reads it back; it accepts any
order and any additional members of records, and keeps the last entry for a declaration.
-/

set_option autoImplicit false

namespace CrossReference

abbrev SymbolTable := RangeMap RangeSet

namespace SymbolTable

def referenceCount (table : SymbolTable) : Nat :=
  table.entries.foldr (fun entry count => entry.2.size + count) 0

def pointerJson (pointer : Pointer) : Json :=
  .record [("line", .number pointer.line), ("column", .number pointer.column)]

def rangeJson (range : Range) : Json :=
  .record [("start", pointerJson range.start), ("end", pointerJson range.stop)]

def entryJson (entry : Range × RangeSet) : Json :=
  .record [("declaration", rangeJson entry.1),
    ("references", .list (entry.2.toList.map rangeJson))]

def toJson (table : SymbolTable) : Json :=
  .record [("symbols", .list (table.entries.map entryJson))]

/-- The values of a record of two known members.  Each is there once; other members are passed
over, but all names have to be spelled with characters. -/
def twoMembers? (first second : List Char) :
    List (Option (List Char) × Document) → Option Document → Option Document →
      Option (Document × Document)
  | [], some one, some two => some (one, two)
  | [], _, _ => none
  | (none, _) :: _, _, _ => none
  | (some name, value) :: rest, one, two =>
      if name = first then
        if one.isSome then none else twoMembers? first second rest (some value) two
      else if name = second then
        if two.isSome then none else twoMembers? first second rest one (some value)
      else twoMembers? first second rest one two

def twoParts? (first second : String) : Document → Option (Document × Document)
  | .list [one, two] => some (one, two)
  | .record members => twoMembers? first.toList second.toList members none none
  | _ => none

def oneMember? (name : List Char) :
    List (Option (List Char) × Document) → Option Document → Option Document
  | [], value => value
  | (none, _) :: _, _ => none
  | (some other, value) :: rest, found =>
      if other = name then
        if found.isSome then none else oneMember? name rest (some value)
      else oneMember? name rest found

def onePart? (name : String) : Document → Option Document
  | .list [value] => some value
  | .record members => oneMember? name.toList members none
  | _ => none

def coordinate? : Document → Option Nat
  | .number (some value) => if value ≤ Location.maxOffset then some value else none
  | _ => none

def pointer? (document : Document) : Option Pointer := do
  let (line, column) ← twoParts? "line" "column" document
  return ⟨← coordinate? line, ← coordinate? column⟩

/-- The range with a written form.  It may end before it starts. -/
def range? (document : Document) : Option Range := do
  let (start, stop) ← twoParts? "start" "end" document
  return ⟨← pointer? start, ← pointer? stop⟩

def ranges? : Document → Option (List Range)
  | .list elements => elements.mapM range?
  | _ => none

def entry? (document : Document) : Option (Range × RangeSet) := do
  let (declaration, references) ← twoParts? "declaration" "references" document
  return (← range? declaration, RangeSet.ofRanges (← ranges? references))

def entries? : Document → Option (List (Range × RangeSet))
  | .list elements => elements.mapM entry?
  | _ => none

def read? (text : String) : Option SymbolTable := do
  let document ← Document.read? text.toList
  let symbols ← onePart? "symbols" document
  return RangeMap.ofList (← entries? symbols)

end SymbolTable

end CrossReference
