import CrossReference.Text.Numeral

/-!
# Reading JSON documents

`Document.read` accepts exactly the texts of the JSON grammar.  It keeps of a number only whether
it is a natural number in integer form, and of a quoted text whether its escapes name characters,
so that a reader of a fixed shape can refuse the rest where it matters and overlook it where it
does not.
-/

set_option autoImplicit false

namespace CrossReference

inductive Document where
  | word
  /-- A number; it has a value if it is digits only. -/
  | number (natural : Option Nat)
  /-- A quoted text; it has characters if no escape is half of a surrogate pair. -/
  | quoted (characters : Option (List Char))
  | list (elements : List Document)
  | record (members : List (Option (List Char) × Document))

namespace Document

inductive Token where
  | openList | closeList | openRecord | closeRecord | colon | comma
  | word
  | number (natural : Option Nat)
  | quoted (characters : Option (List Char))
  deriving DecidableEq

def isSpace (c : Char) : Bool :=
  c = ' ' || c = '\t' || c = '\n' || c = '\r'

def isDigit (c : Char) : Bool :=
  '0' ≤ c && c ≤ '9'

def fourDigits? (first second third fourth : Char) : Option Nat :=
  Numeral.value? 16 [first, second, third, fourth]

def isHighHalf (value : Nat) : Bool :=
  0xD800 ≤ value && value < 0xDC00

def isLowHalf (value : Nat) : Bool :=
  0xDC00 ≤ value && value < 0xE000

/-- The characters of values among which two halves of a surrogate pair stand for one character.
There are none if a half stands alone. -/
def charactersOf : List Nat → Option (List Char)
  | [] => some []
  | [value] =>
      if isHighHalf value || isLowHalf value then none else some [Char.ofNat value]
  | first :: second :: rest =>
      if isHighHalf first then
        if isLowHalf second then
          (charactersOf rest).map
            (Char.ofNat (0x10000 + (first - 0xD800) * 0x400 + (second - 0xDC00)) :: ·)
        else none
      else if isLowHalf first then none
      else (charactersOf (second :: rest)).map (Char.ofNat first :: ·)

def escaped? (c : Char) : Option Char :=
  if c = '"' ∨ c = '\\' ∨ c = '/' then some c
  else if c = 'b' then some '\x08'
  else if c = 'f' then some '\x0c'
  else if c = 'n' then some '\n'
  else if c = 'r' then some '\r'
  else if c = 't' then some '\t'
  else none

def quotedValues : List Char → Option (List Nat × List Char)
  | [] => none
  | '"' :: rest => some ([], rest)
  | '\\' :: 'u' :: a :: b :: c :: d :: rest =>
      match fourDigits? a b c d with
      | some value => (quotedValues rest).map fun (values, after) => (value :: values, after)
      | none => none
  | '\\' :: c :: rest =>
      match escaped? c with
      | some plain =>
          (quotedValues rest).map fun (values, after) => (plain.toNat :: values, after)
      | none => none
  | c :: rest =>
      if c.toNat < 0x20 then none
      else (quotedValues rest).map fun (values, after) => (c.toNat :: values, after)

def fraction? : List Char → Option (Bool × List Char)
  | '.' :: d :: rest => if isDigit d then some (true, rest.dropWhile isDigit) else none
  | '.' :: [] => none
  | rest => some (false, rest)

def exponent? : List Char → Option (Bool × List Char)
  | c :: rest =>
      if c = 'e' ∨ c = 'E' then
        let digits := match rest with
          | sign :: after => if sign = '+' ∨ sign = '-' then after else rest
          | [] => rest
        match digits with
        | d :: after => if isDigit d then some (true, after.dropWhile isDigit) else none
        | [] => none
      else some (false, c :: rest)
  | [] => some (false, [])

/-- A number that starts with the given digits, and what follows it.  More than one digit may not
start with a zero. -/
def unsignedNumber? (text : List Char) : Option (Option Nat × List Char) :=
  let digits := text.takeWhile isDigit
  if digits.isEmpty ∨ (digits.head? = some '0' ∧ digits.length ≠ 1) then none
  else
    match fraction? (text.dropWhile isDigit) with
    | none => none
    | some (fractional, rest) =>
        match exponent? rest with
        | none => none
        | some (scaled, rest) =>
            some (if fractional || scaled then none else Numeral.value? 10 digits, rest)

def number? : List Char → Option (Option Nat × List Char)
  | '-' :: rest => (unsignedNumber? rest).map fun (_, after) => (none, after)
  | text => unsignedNumber? text

def afterWord? (word : List Char) (text : List Char) : Option (List Char) :=
  if word.isPrefixOf text then some (text.drop word.length) else none

def token? : List Char → Option (Token × List Char)
  | '[' :: rest => some (.openList, rest)
  | ']' :: rest => some (.closeList, rest)
  | '\x7b' :: rest => some (.openRecord, rest)
  | '\x7d' :: rest => some (.closeRecord, rest)
  | ':' :: rest => some (.colon, rest)
  | ',' :: rest => some (.comma, rest)
  | '"' :: rest => (quotedValues rest).map fun (values, after) => (.quoted (charactersOf values), after)
  | 'n' :: rest => (afterWord? ['u', 'l', 'l'] rest).map (.word, ·)
  | 't' :: rest => (afterWord? ['r', 'u', 'e'] rest).map (.word, ·)
  | 'f' :: rest => (afterWord? ['a', 'l', 's', 'e'] rest).map (.word, ·)
  | text => (number? text).map fun (value, after) => (.number value, after)

/-- The tokens of a text.  Each token takes at least one character, so as many steps as there are
characters are enough. -/
def tokensWithin : Nat → List Char → Option (List Token)
  | 0, text => if (text.dropWhile isSpace).isEmpty then some [] else none
  | steps + 1, text =>
      match text.dropWhile isSpace with
      | [] => some []
      | c :: rest =>
          match token? (c :: rest) with
          | none => none
          | some (token, after) => (tokensWithin steps after).map (token :: ·)

def tokens? (text : List Char) : Option (List Token) :=
  tokensWithin text.length text

mutual

/-- The value that the tokens start with, and the tokens after it.  The number bounds the depth and
breadth of the search; a value takes at most as many steps as it has tokens. -/
def value? : Nat → List Token → Option (Document × List Token)
  | 0, _ => none
  | _ + 1, [] => none
  | _ + 1, .word :: rest => some (.word, rest)
  | _ + 1, .number natural :: rest => some (.number natural, rest)
  | _ + 1, .quoted characters :: rest => some (.quoted characters, rest)
  | _ + 1, .openList :: .closeList :: rest => some (.list [], rest)
  | steps + 1, .openList :: rest =>
      (elements? steps rest).map fun (elements, after) => (.list elements, after)
  | _ + 1, .openRecord :: .closeRecord :: rest => some (.record [], rest)
  | steps + 1, .openRecord :: rest =>
      (members? steps rest).map fun (members, after) => (.record members, after)
  | _ + 1, _ => none

def elements? : Nat → List Token → Option (List Document × List Token)
  | 0, _ => none
  | steps + 1, tokens =>
      match value? steps tokens with
      | some (first, .closeList :: rest) => some ([first], rest)
      | some (first, .comma :: rest) =>
          (elements? steps rest).map fun (elements, after) => (first :: elements, after)
      | _ => none

def members? : Nat → List Token → Option (List (Option (List Char) × Document) × List Token)
  | 0, _ => none
  | steps + 1, .quoted name :: .colon :: tokens =>
      match value? steps tokens with
      | some (first, .closeRecord :: rest) => some ([(name, first)], rest)
      | some (first, .comma :: rest) =>
          (members? steps rest).map fun (members, after) => ((name, first) :: members, after)
      | _ => none
  | _ + 1, _ => none

end

def read? (text : List Char) : Option Document :=
  match tokens? text with
  | none => none
  | some tokens =>
      match value? (2 * tokens.length) tokens with
      | some (document, []) => some document
      | _ => none

end Document

end CrossReference
