import CrossReference.Text.Utf8

/-!
# Paths

A path is a run of bytes with components between slashes.  It need not be a text: `text?` gives the
text of a path that is one, and `display` shows any path.  `components` drops what names no entry of
its own, `extension?` reads what follows the last dot of the last component, and `entry` appends a
name to the path of a directory.
-/

set_option autoImplicit false

namespace CrossReference

def Path.splitAt {Item : Type} [DecidableEq Item] (mark : Item) : List Item → List (List Item)
  | [] => [[]]
  | item :: rest =>
      if item = mark then [] :: splitAt mark rest
      else match splitAt mark rest with
        | [] => [[item]]
        | first :: others => (item :: first) :: others

structure FilePath where
  bytes : List UInt8
  deriving DecidableEq

namespace FilePath

def ofText (text : String) : FilePath :=
  ⟨Utf8.encode text.toList⟩

instance : Coe String FilePath := ⟨ofText⟩

def text? (path : FilePath) : Option String :=
  (Utf8.text? path.bytes).map String.ofList

/-- How a path is shown; bytes that are no text are replaced. -/
def display (path : FilePath) : String :=
  String.ofList (Utf8.decodeLossy path.bytes)

instance : CoeOut FilePath String := ⟨display⟩

def slash : UInt8 := 0x2F

def dot : UInt8 := 0x2E

/-- The components of a path: an empty one, or a single dot, names the directory it stands in and
is left out. -/
def components (path : FilePath) : List (List UInt8) :=
  (Path.splitAt slash path.bytes).filter fun part => !part.isEmpty && part != [dot]

def fileName? (path : FilePath) : Option (List UInt8) :=
  match path.components.getLast? with
  | none => none
  | some name => if name = [dot, dot] then none else some name

/-- What follows the last dot of a file name.  A dot at its start begins no extension. -/
def extension? (path : FilePath) : Option (List UInt8) :=
  match path.fileName? with
  | none => none
  | some name =>
      let ending := (name.reverse.takeWhile (· ≠ dot)).reverse
      if ending.length + 1 < name.length then some ending else none

def isCurrent (path : FilePath) : Bool :=
  path.bytes.head? = some dot && path.components.isEmpty

def join (path : FilePath) (name : List UInt8) : FilePath :=
  if path.bytes.getLast? = some slash then ⟨path.bytes ++ name⟩ else ⟨path.bytes ++ slash :: name⟩

def entry (directory : FilePath) (name : List UInt8) : FilePath :=
  if directory.isCurrent then ⟨name⟩ else directory.join name

end FilePath

end CrossReference
