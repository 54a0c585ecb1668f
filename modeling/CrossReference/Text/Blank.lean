/-!
# Blank characters

The characters with the Unicode property White_Space, and taking them off the ends of a text.
-/

set_option autoImplicit false

namespace CrossReference.Text

/-- Whether a character has the property White_Space. -/
def isBlank (c : Char) : Bool :=
  let value := c.toNat
  (0x9 ≤ value && value ≤ 0xD) || value == 0x20 || value == 0x85 || value == 0xA0 ||
    value == 0x1680 || (0x2000 ≤ value && value ≤ 0x200A) || value == 0x2028 ||
    value == 0x2029 || value == 0x202F || value == 0x205F || value == 0x3000

def trimStart (text : List Char) : List Char :=
  text.dropWhile isBlank

def dropEndWhile (test : Char → Bool) (text : List Char) : List Char :=
  (text.reverse.dropWhile test).reverse

def trim (text : List Char) : List Char :=
  dropEndWhile isBlank (trimStart text)

end CrossReference.Text
