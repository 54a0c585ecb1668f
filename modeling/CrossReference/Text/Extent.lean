/-!
# Byte extents of a text

A text is a list of characters, and a parse tree speaks of the bytes of its UTF-8 form.
`charactersBefore` counts the characters before a byte, and `slice?` gives the characters between
two bytes.
-/

set_option autoImplicit false

namespace CrossReference.Text

def byteLength (text : List Char) : Nat :=
  text.foldr (fun c length => c.utf8Size + length) 0

def charactersBefore : List Char → Nat → Nat
  | [], _ => 0
  | c :: rest, byte =>
      if byte < c.utf8Size then 0 else charactersBefore rest (byte - c.utf8Size) + 1

/-- Split a text after a number of bytes, if a character ends there. -/
def splitBytes? : List Char → Nat → Option (List Char × List Char)
  | text, 0 => some ([], text)
  | [], _ + 1 => none
  | c :: rest, bytes + 1 =>
      if bytes + 1 < c.utf8Size then none
      else (splitBytes? rest (bytes + 1 - c.utf8Size)).map fun (before, after) =>
        (c :: before, after)

def slice? (text : List Char) (start stop : Nat) : Option (List Char) :=
  match splitBytes? text start with
  | none => none
  | some (_, after) =>
      if stop < start then none
      else (splitBytes? after (stop - start)).map (·.1)

end CrossReference.Text
