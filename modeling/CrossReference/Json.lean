import CrossReference.Text.Numeral

/-!
# JSON values and how they are written

`Json.compact` writes a value without blanks, `Json.pretty` with a line for each member and two
blanks of indentation for each level.
-/

set_option autoImplicit false

namespace CrossReference

inductive Json where
  | number (value : Nat)
  | text (value : String)
  | list (elements : List Json)
  | record (members : List (String × Json))

namespace Json

def escape (c : Char) : List Char :=
  if c = '"' then ['\\', '"']
  else if c = '\\' then ['\\', '\\']
  else if c = '\x08' then ['\\', 'b']
  else if c = '\x0c' then ['\\', 'f']
  else if c = '\n' then ['\\', 'n']
  else if c = '\r' then ['\\', 'r']
  else if c = '\t' then ['\\', 't']
  else if c.toNat < 0x20 then ['\\', 'u', '0', '0'] ++ Numeral.hexByte (UInt8.ofNat c.toNat)
  else [c]

def quoted (text : String) : String :=
  String.ofList ('"' :: text.toList.flatMap escape ++ ['"'])

mutual

def compact : Json → String
  | .number value => Numeral.decimal value
  | .text value => quoted value
  | .list [] => "[]"
  | .list (first :: rest) => "[" ++ compact first ++ compactElements rest ++ "]"
  | .record [] => "\x7b\x7d"
  | .record ((name, value) :: rest) =>
      "\x7b" ++ quoted name ++ ":" ++ compact value ++ compactMembers rest ++ "\x7d"

def compactElements : List Json → String
  | [] => ""
  | first :: rest => "," ++ compact first ++ compactElements rest

def compactMembers : List (String × Json) → String
  | [] => ""
  | (name, value) :: rest =>
      "," ++ quoted name ++ ":" ++ compact value ++ compactMembers rest

end

def newLine (level : Nat) : String :=
  String.ofList ('\n' :: List.replicate (2 * level) ' ')

mutual

def prettyAt (level : Nat) : Json → String
  | .number value => Numeral.decimal value
  | .text value => quoted value
  | .list [] => "[]"
  | .list (first :: rest) =>
      "[" ++ newLine (level + 1) ++ prettyAt (level + 1) first ++
        prettyElements (level + 1) rest ++ newLine level ++ "]"
  | .record [] => "\x7b\x7d"
  | .record ((name, value) :: rest) =>
      "\x7b" ++ newLine (level + 1) ++ quoted name ++ ": " ++ prettyAt (level + 1) value ++
        prettyMembers (level + 1) rest ++ newLine level ++ "\x7d"

def prettyElements (level : Nat) : List Json → String
  | [] => ""
  | first :: rest =>
      "," ++ newLine level ++ prettyAt level first ++ prettyElements level rest

def prettyMembers (level : Nat) : List (String × Json) → String
  | [] => ""
  | (name, value) :: rest =>
      "," ++ newLine level ++ quoted name ++ ": " ++ prettyAt level value ++
        prettyMembers level rest

end

def pretty (value : Json) : String :=
  prettyAt 0 value

end Json

end CrossReference
