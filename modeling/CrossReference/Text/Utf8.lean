/-!
# UTF-8

`pieces` takes bytes apart into characters and stretches that are none: surrogates, overlong forms,
values past the last code point and whatever else begins no character.  `decode` gives the
characters, or says where the first such stretch starts; `decodeLossy` shows a replacement for
each of them.
-/

set_option autoImplicit false

namespace CrossReference.Utf8

inductive Malformed where
  /-- The bytes from `index` on, `length` of them, begin no character. -/
  | invalid (index length : Nat)
  /-- The bytes end inside the character that starts at `index`. -/
  | incomplete (index : Nat)
  deriving DecidableEq

/-- What the first byte of a longer character says about it: the number of bytes after the second
one, and the smallest and largest value of the second byte. -/
structure Lead where
  further : Nat
  least : UInt8
  greatest : UInt8
  deriving DecidableEq

/-- The reading of a first byte.  The bounds of the second byte keep out overlong forms, surrogates
and values past the last code point. -/
def lead? (byte : UInt8) : Option Lead :=
  if byte < 0xC2 then none
  else if byte ≤ 0xDF then some ⟨0, 0x80, 0xBF⟩
  else if byte = 0xE0 then some ⟨1, 0xA0, 0xBF⟩
  else if byte = 0xED then some ⟨1, 0x80, 0x9F⟩
  else if byte ≤ 0xEF then some ⟨1, 0x80, 0xBF⟩
  else if byte = 0xF0 then some ⟨2, 0x90, 0xBF⟩
  else if byte ≤ 0xF3 then some ⟨2, 0x80, 0xBF⟩
  else if byte = 0xF4 then some ⟨2, 0x80, 0x8F⟩
  else none

def isContinuation (byte : UInt8) : Bool :=
  0x80 ≤ byte && byte ≤ 0xBF

def payload (byte : UInt8) : Nat :=
  byte.toNat % 64

def characterOf : List UInt8 → Char
  | [first, second] => Char.ofNat (first.toNat % 32 * 64 + payload second)
  | [first, second, third] =>
      Char.ofNat (first.toNat % 16 * 4096 + payload second * 64 + payload third)
  | [first, second, third, fourth] =>
      Char.ofNat (first.toNat % 8 * 262144 + payload second * 4096 + payload third * 64 +
        payload fourth)
  | first :: _ => Char.ofNat first.toNat
  | [] => Char.ofNat 0

/-- A stretch of bytes: a character, or bytes that are none. -/
inductive Piece where
  | character (c : Char)
  /-- Bytes that begin no character, as many as could have begun one. -/
  | refused (length : Nat)
  /-- The beginning of a character that is cut off at the end of the bytes. -/
  | cut
  deriving DecidableEq

def pieces : List UInt8 → List Piece
  | [] => []
  | first :: rest =>
      if first < 0x80 then .character (characterOf [first]) :: pieces rest
      else match lead? first, rest with
        | none, rest => .refused 1 :: pieces rest
        | some _, [] => [.cut]
        | some lead, second :: rest =>
            if second < lead.least || lead.greatest < second then
              .refused 1 :: pieces (second :: rest)
            else match lead.further, rest with
              | 0, rest => .character (characterOf [first, second]) :: pieces rest
              | _ + 1, [] => [.cut]
              | further + 1, third :: rest =>
                  if !isContinuation third then .refused 2 :: pieces (third :: rest)
                  else match further, rest with
                    | 0, rest => .character (characterOf [first, second, third]) :: pieces rest
                    | _ + 1, [] => [.cut]
                    | _ + 1, fourth :: rest =>
                        if !isContinuation fourth then .refused 3 :: pieces (fourth :: rest)
                        else .character (characterOf [first, second, third, fourth]) :: pieces rest

/-- The characters of pieces of which the first one starts at an index. -/
def charactersFrom (index : Nat) : List Piece → Except Malformed (List Char)
  | [] => .ok []
  | .character c :: rest => (c :: ·) <$> charactersFrom (index + c.utf8Size) rest
  | .refused length :: _ => .error (.invalid index length)
  | .cut :: _ => .error (.incomplete index)

def decode (bytes : List UInt8) : Except Malformed (List Char) :=
  charactersFrom 0 (pieces bytes)

/-- The characters of bytes that are UTF-8. -/
def text? (bytes : List UInt8) : Option (List Char) :=
  (decode bytes).toOption

def Piece.shown : Piece → Char
  | .character c => c
  | .refused _ | .cut => Char.ofNat 0xFFFD

/-- The characters of bytes that need not be UTF-8. -/
def decodeLossy (bytes : List UInt8) : List Char :=
  (pieces bytes).map Piece.shown

def continuation (value : Nat) : UInt8 :=
  UInt8.ofNat (0x80 + value % 64)

def bytesOf (c : Char) : List UInt8 :=
  let value := c.toNat
  if value < 0x80 then [UInt8.ofNat value]
  else if value < 0x800 then [UInt8.ofNat (0xC0 + value / 64), continuation value]
  else if value < 0x10000 then
    [UInt8.ofNat (0xE0 + value / 4096), continuation (value / 64), continuation value]
  else
    [UInt8.ofNat (0xF0 + value / 262144), continuation (value / 4096), continuation (value / 64),
      continuation value]

def encode (text : List Char) : List UInt8 :=
  text.flatMap bytesOf

end CrossReference.Utf8
