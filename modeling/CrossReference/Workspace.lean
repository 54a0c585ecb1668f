import CrossReference.Path
import CrossReference.ParseTree
import CrossReference.SystemError

/-!
# Workspaces

A `Workspace` is the directory from which the program runs, with all that is in it.  Each file comes
with the parse tree of its text.  Paths are resolved as the operating system does; what lies
outside of the workspace is taken to be empty.
-/

set_option autoImplicit false

namespace CrossReference

structure SourceFile where
  bytes : List UInt8
  tree : ParseTree

inductive Entry where
  | file (content : SourceFile)
  | directory (entries : List (List UInt8 × Entry))

namespace Entry

def isDirectory : Entry → Bool
  | directory _ => true
  | file _ => false

def entries : Entry → List (List UInt8 × Entry)
  | directory entries => entries
  | file _ => []

def child? (entry : Entry) (name : List UInt8) : Option Entry :=
  (entry.entries.find? (·.1 = name)).map (·.2)

def insertEntry (name : List UInt8) (entry : Entry) :
    List (List UInt8 × Entry) → List (List UInt8 × Entry)
  | [] => [(name, entry)]
  | first :: rest =>
      if name = first.1 then (name, entry) :: rest
      else if name < first.1 then (name, entry) :: first :: rest
      else first :: insertEntry name entry rest

/-- A directory with a file at the place that a list of names leads to.  Directories on the way are
made where they are missing. -/
def put (content : SourceFile) : List (List UInt8) → Entry → Entry
  | [], _ => file content
  | name :: rest, entry =>
      let inner := (entry.child? name).getD (directory [])
      directory (insertEntry name (put content rest inner) entry.entries)

mutual

/-- The paths of all entries below an entry with a path, each directory before what is in it. -/
def pathsBelow (path : FilePath) : Entry → List FilePath
  | file _ => []
  | directory entries => pathsOfAll path entries

def pathsOfAll (path : FilePath) : List (List UInt8 × Entry) → List FilePath
  | [] => []
  | (name, entry) :: rest =>
      let inner := path.entry name
      inner :: pathsBelow inner entry ++ pathsOfAll path rest

end

end Entry

structure Workspace where
  root : Entry

namespace Workspace

def ofFiles (files : List (String × SourceFile)) : Workspace where
  root := files.foldl
    (fun root (path, content) => root.put content (FilePath.ofText path).components)
    (.directory [])

/-- The entries on the way to a place, the innermost first; the list is empty outside of the
workspace. -/
abbrev Trail := List Entry

/-- Go one component further.  Only directories have components, and their parents are reached by
two dots. -/
def enter (trail : Trail) (component : List UInt8) : Except SystemError Trail :=
  match trail with
  | [] =>
      if component ∈ [[], [FilePath.dot], [FilePath.dot, FilePath.dot]] then .ok []
      else .error .noSuchFile
  | .file _ :: _ => .error .notADirectory
  | .directory entries :: outer =>
      if component = [] ∨ component = [FilePath.dot] then .ok (.directory entries :: outer)
      else if component = [FilePath.dot, FilePath.dot] then .ok outer
      else if 255 < component.length then .error .nameTooLong
      else
        match entries.find? (·.1 = component) with
        | some (_, entry) => .ok (entry :: .directory entries :: outer)
        | none => .error .noSuchFile

def follow (workspace : Workspace) (path : FilePath) : Except SystemError Trail :=
  if path.bytes.isEmpty then .error .noSuchFile
  else if 4096 ≤ path.bytes.length then .error .nameTooLong
  else
    (Path.splitAt FilePath.slash path.bytes).foldlM enter
      (if path.bytes.head? = some FilePath.slash then [] else [workspace.root])

/-- What a path leads to; outside of the workspace there are empty directories only. -/
def entryAt (workspace : Workspace) (path : FilePath) : Except SystemError Entry :=
  (workspace.follow path).map fun trail => trail.headD (.directory [])

def exists? (workspace : Workspace) (path : FilePath) : Bool :=
  match workspace.entryAt path with
  | .ok _ => true
  | .error _ => false

def isDirectory (workspace : Workspace) (path : FilePath) : Bool :=
  match workspace.entryAt path with
  | .ok entry => entry.isDirectory
  | .error _ => false

def namesIn (workspace : Workspace) (path : FilePath) : List (List UInt8) :=
  match workspace.entryAt path with
  | .ok entry => entry.entries.map (·.1)
  | .error _ => []

def pathsBelow (workspace : Workspace) (path : FilePath) : List FilePath :=
  match workspace.entryAt path with
  | .ok entry => entry.pathsBelow path
  | .error _ => []

def read (workspace : Workspace) (path : FilePath) : Except SystemError SourceFile :=
  match workspace.entryAt path with
  | .ok (.file content) => .ok content
  | .ok (.directory _) => .error .isADirectory
  | .error error => .error error

end Workspace

end CrossReference
