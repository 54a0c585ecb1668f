/-!
# Decimal and hexadecimal numerals

Numbers are written in base ten without leading zeros, and bytes as two lowercase hexadecimal
digits.  Digits are read in any base up to thirty-six.
-/

set_option autoImplicit false

namespace CrossReference.Numeral

def digit : Nat → Char
  | 0 => '0' | 1 => '1' | 2 => '2' | 3 => '3' | 4 => '4' | 5 => '5' | 6 => '6' | 7 => '7'
  | 8 => '8' | 9 => '9' | 10 => 'a' | 11 => 'b' | 12 => 'c' | 13 => 'd' | 14 => 'e' | _ => 'f'

def decimalDigits (value : Nat) : List Char :=
  if value < 10 then [digit value]
  else decimalDigits (value / 10) ++ [digit (value % 10)]

def decimal (value : Nat) : String :=
  String.ofList (decimalDigits value)

def hexByte (byte : UInt8) : List Char :=
  [digit (byte.toNat / 16), digit (byte.toNat % 16)]

def digitValue? (base : Nat) (c : Char) : Option Nat :=
  let value :=
    if '0' ≤ c ∧ c ≤ '9' then some (c.toNat - '0'.toNat)
    else if 'a' ≤ c ∧ c ≤ 'z' then some (c.toNat - 'a'.toNat + 10)
    else if 'A' ≤ c ∧ c ≤ 'Z' then some (c.toNat - 'A'.toNat + 10)
    else none
  value.filter (· < base)

/-- The value of a list of digits that follow a number already read, or nothing if one of them is
not a digit of the base. -/
def valueFrom (base : Nat) : Nat → List Char → Option Nat
  | read, [] => some read
  | read, c :: rest =>
      match digitValue? base c with
      | some value => valueFrom base (read * base + value) rest
      | none => none

def value? (base : Nat) (digits : List Char) : Option Nat :=
  match digits with
  | [] => none
  | _ :: _ => valueFrom base 0 digits

def hexBytes? : List Char → Option (List UInt8)
  | [] => some []
  | [_] => none
  | high :: low :: rest =>
      match value? 16 [high, low], hexBytes? rest with
      | some value, some bytes => some (UInt8.ofNat value :: bytes)
      | _, _ => none

end CrossReference.Numeral
