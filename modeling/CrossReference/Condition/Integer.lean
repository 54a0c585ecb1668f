import CrossReference.Text.Blank
import CrossReference.Text.Numeral

/-!
# Integers in conditions

`integer?` reads an integer literal of C: hexadecimal, binary, octal or decimal digits, with
separators and a suffix that do not count.  `bodyValue?` gives the value that the body of a macro
stands for in a condition.
-/

set_option autoImplicit false

namespace CrossReference.Condition

def word? (value : Int) : Option Int64 :=
  if Int64.minValue.toInt ≤ value ∧ value ≤ Int64.maxValue.toInt then some (Int64.ofInt value)
  else none

/-- The word of digits of a base, with one sign in front or none. -/
def signedDigits? (base : Nat) : List Char → Option Int64
  | '+' :: digits => (Numeral.value? base digits).bind fun value => word? value
  | '-' :: digits => (Numeral.value? base digits).bind fun value => word? (-value)
  | digits => (Numeral.value? base digits).bind fun value => word? value

def prefixedDigits? : List Char → Option Int64
  | '0' :: 'x' :: digits => signedDigits? 16 digits
  | '0' :: 'X' :: digits => signedDigits? 16 digits
  | '0' :: 'b' :: digits => signedDigits? 2 digits
  | '0' :: 'B' :: digits => signedDigits? 2 digits
  | '0' :: digit :: digits => signedDigits? 8 (digit :: digits)
  | digits => signedDigits? 10 digits

def isSuffix (c : Char) : Bool :=
  c = 'u' || c = 'U' || c = 'l' || c = 'L'

/-- A literal without its suffix and separators. -/
def bareDigits (text : List Char) : List Char :=
  (Text.dropEndWhile isSuffix text).filter (· ≠ '\x27')

def integer? : List Char → Option Int64
  | '-' :: rest => (prefixedDigits? (bareDigits (Text.trimStart rest))).map (- ·)
  | text => prefixedDigits? (bareDigits text)

/-- A text without one pair of parentheses around it and the blanks inside of them. -/
def unwrapped (text : List Char) : List Char :=
  match text with
  | '(' :: rest =>
      if rest.getLast? = some ')' then Text.trim rest.dropLast else text
  | _ => text

/-- The value of the body of a macro.  An empty body stands for one, as after a definition on the
command line. -/
def bodyValue? (body : List Char) : Option Int64 :=
  let body := Text.trim body
  if body.isEmpty then some 1 else integer? (unwrapped body)

end CrossReference.Condition
