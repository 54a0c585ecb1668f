import CrossReference.Path

/-!
# Glob patterns

A pattern is a path whose components may hold wildcards: `*` for any run of characters, `?` for any
one, `[..]` for one of a set, `[!..]` for one outside it, and `**`, alone in its component, for any
number of directories.  `Pattern.read` says what is wrong with a text that is no pattern, and
where.
-/

set_option autoImplicit false

namespace CrossReference.Glob

inductive Fault where
  | tooManyStars
  /-- Two stars do not make up a component of their own. -/
  | partialRecursion
  /-- A set of characters is empty or not closed. -/
  | badSet
  deriving DecidableEq

/-- A fault, and the offset of the character at which it was noticed. -/
structure PatternError where
  position : Nat
  fault : Fault
  deriving DecidableEq

structure Interval where
  first : Char
  last : Char
  deriving DecidableEq

inductive Element where
  | character (c : Char)
  | anyCharacter
  | anySequence
  | anyDirectories
  | oneOf (members : List Interval)
  | noneOf (members : List Interval)
  deriving DecidableEq

/-- The members of a set: `a-z` stands for an interval, any other character for itself. -/
def intervals : List Char → List Interval
  | first :: '-' :: last :: rest => ⟨first, last⟩ :: intervals rest
  | c :: rest => ⟨c, c⟩ :: intervals rest
  | [] => []

/-- The members of a set and what follows its closing bracket.  The first member may itself be a
closing bracket. -/
def setMembers? : List Char → Option (List Interval × List Char)
  | [] => none
  | first :: rest =>
      match rest.dropWhile (· ≠ ']') with
      | [] => none
      | _ :: after => some (intervals (first :: rest.takeWhile (· ≠ ']')), after)

def set? : List Char → Option (Element × List Char)
  | '!' :: rest => (setMembers? rest).map fun (members, after) => (.noneOf members, after)
  | text => (setMembers? text).map fun (members, after) => (.oneOf members, after)

/-- The elements of the rest of a pattern.  `position` is the offset of its first character, and
`opens` says whether that character starts a component.  Every step takes a character, so as many
steps as there are characters are enough. -/
def elementsWithin : Nat → Nat → Bool → List Char → Except PatternError (List Element)
  | _, _, _, [] => .ok []
  | 0, _, _, _ => .ok []
  | steps + 1, position, opens, text@(c :: rest) =>
      if c = '?' then (.anyCharacter :: ·) <$> elementsWithin steps (position + 1) false rest
      else if c = '*' then
        let stars := (text.takeWhile (· = '*')).length
        let after := text.drop stars
        if 2 < stars then .error ⟨position + 2, .tooManyStars⟩
        else if stars = 2 then
          if opens then
            match after with
            | [] => .ok [.anyDirectories]
            | next :: after =>
                if next = '/' then
                  (.anyDirectories :: ·) <$> elementsWithin steps (position + 3) true after
                else .error ⟨position + 2, .partialRecursion⟩
          else .error ⟨position - 1, .partialRecursion⟩
        else (.anySequence :: ·) <$> elementsWithin steps (position + 1) false after
      else if c = '[' then
        match set? rest with
        | some (element, after) =>
            (element :: ·) <$>
              elementsWithin steps (position + (text.length - after.length)) false after
        | none => .error ⟨position, .badSet⟩
      else (.character c :: ·) <$> elementsWithin steps (position + 1) (c = '/') rest

def elements (text : List Char) : Except PatternError (List Element) :=
  elementsWithin text.length 0 true text

def isMember (members : List Interval) (c : Char) : Bool :=
  members.any fun interval => interval.first ≤ c && c ≤ interval.last

def suffixes : List Char → List (List Char)
  | [] => [[]]
  | c :: rest => (c :: rest) :: suffixes rest

def matchesName : List Element → List Char → Bool
  | [], name => name.isEmpty
  | .character expected :: rest, c :: name => c = expected && matchesName rest name
  | .anyCharacter :: rest, _ :: name => matchesName rest name
  | .oneOf members :: rest, c :: name => isMember members c && matchesName rest name
  | .noneOf members :: rest, c :: name => !isMember members c && matchesName rest name
  | .anySequence :: rest, name => (suffixes name).any (matchesName rest)
  | .anyDirectories :: rest, name => (suffixes name).any (matchesName rest)
  | _ :: _, [] => false

def literal? : List Element → Option (List Char)
  | [] => some []
  | .character c :: rest => (literal? rest).map (c :: ·)
  | _ :: _ => none

/-- A pattern: its components, whether it stands for directories only, and whether it starts at the
root of the file system. -/
structure Pattern where
  components : List (List Element)
  directoriesOnly : Bool
  absolute : Bool

namespace Pattern

/-- The parts between slashes; a slash at the very end closes the part before it and opens none. -/
def parts (text : List Char) : List (List Char) :=
  let all := Path.splitAt '/' text
  if all.getLast? = some [] then all.dropLast else all

/-- The pattern that a text is.  The text as a whole is examined before its components are, each of
them with positions of its own. -/
def read (text : List Char) : Except PatternError Pattern := do
  let _ ← elements text
  let components ← (parts text).mapM elements
  return ⟨components, text.getLast? = some '/', text.head? = some '/'⟩

end Pattern

end CrossReference.Glob
