import CrossReference.Glob.Pattern
import CrossReference.Workspace

/-!
# Expanding patterns

`expand` lists the paths of a workspace that match a pattern, in the order of names within each
directory.  A component without wildcards is looked up directly, so that it may also be a dot or two
dots; a wildcard matches the names that a directory lists.
-/

set_option autoImplicit false

namespace CrossReference.Glob

variable (workspace : Workspace)

def isSpecial (name : List UInt8) : Bool :=
  name = [FilePath.dot] || name = [FilePath.dot, FilePath.dot]

/-- Whether a component matches the name of an entry.  None matches a name that is no text. -/
def matchesEntry (component : List Element) (name : List UInt8) : Bool :=
  match Utf8.text? name with
  | some letters => matchesName component letters
  | none => false

/-- The paths that a component leads to from a directory.  Dots are matched by a component with
wildcards only if it starts with a dot, and come before the names that the directory lists. -/
def step (component : List Element) (path : FilePath) : List FilePath :=
  match (literal? component).map Utf8.encode with
  | some name =>
      let next := path.entry name
      if (isSpecial name && workspace.isDirectory path) ||
          (!isSpecial name && workspace.exists? next) then [next]
      else []
  | none =>
      if workspace.isDirectory path then
        let specials :=
          if component.head? = some (.character '.') then
            [[FilePath.dot, FilePath.dot], [FilePath.dot]].filter (matchesEntry component)
          else []
        let names := (workspace.namesIn path).filter (matchesEntry component)
        specials.map path.join ++ names.map path.entry
      else []

/-- The paths that components lead to.  With `here`, the first component is matched with the name of
the path itself, as behind `**`; otherwise with what is inside of it. -/
def expandFrom (directoriesOnly : Bool) :
    List (List Element) → Bool → FilePath → List FilePath
  | [], here, path =>
      if workspace.isDirectory path || !(here || directoriesOnly) then [path] else []
  | component :: rest, here, path =>
      if component = [.anyDirectories] then
        if here then expandFrom directoriesOnly rest true path
        else (workspace.pathsBelow path).flatMap (expandFrom directoriesOnly rest true)
      else if here then
        match path.fileName? with
        | some name =>
            if matchesEntry component name then expandFrom directoriesOnly rest false path else []
        | none => []
      else (step workspace component path).flatMap (expandFrom directoriesOnly rest false)

/-- An entry of a listing: a path, or a directory that cannot be listed. -/
inductive Listed where
  | path (path : FilePath)
  | unreadable (path : FilePath) (error : SystemError)
  deriving DecidableEq

/-- The entries that match a pattern.  The empty pattern matches nothing, and there is nothing to
match at the root of the file system. -/
def expand (pattern : Pattern) : List Listed :=
  if pattern.absolute || pattern.components.isEmpty then []
  else
    (expandFrom workspace pattern.directoriesOnly pattern.components false ".").map .path

end CrossReference.Glob
