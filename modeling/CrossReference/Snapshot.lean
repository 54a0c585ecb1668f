import CrossReference.Json.Document
import CrossReference.Text.Utf8
import CrossReference.Workspace

/-!
# Snapshots

A snapshot is a workspace written down as a JSON list.  Each file is a record of its `name`, which is
a path, of its `text` or its bytes in `hex`, and of the `tree` of that text.  A tree is the list of
its nodes in preorder, and each node a list of its parent, kind, part, marks and first and last byte.
The marks are one for a named node, two for a missing one and four for one with an error in it.
-/

set_option autoImplicit false

namespace CrossReference.Snapshot

def member? (name : String) : Document → Option Document
  | .record members => (members.find? (·.1 = some name.toList)).map (·.2)
  | _ => none

def characters? : Document → Option (List Char)
  | .quoted characters => characters
  | _ => none

def natural? : Document → Option Nat
  | .number natural => natural
  | _ => none

def row? (place : Nat) : Document → Option ParseTree.Row
  | .list [parent, kind, part, marks, start, stop] => do
      let marks ← natural? marks
      return {
        parent := natural? parent
        label := {
          id := place
          kind := String.ofList (← characters? kind)
          field := String.ofList (← characters? part)
          isNamed := marks % 2 = 1
          isMissing := marks / 2 % 2 = 1
          hasError := marks / 4 % 2 = 1
          start := ← natural? start
          stop := ← natural? stop } }
  | _ => none

def tree? : Document → Option ParseTree
  | .list rows => (rows.zipIdx.mapM fun (row, place) => row? place row).bind ParseTree.ofRows
  | _ => none

/-- A tree for a text that is never parsed: a root without children that covers nothing. -/
def bareTree : ParseTree :=
  .node ⟨0, "", "", true, false, false, 0, 0⟩ []

def treeOf? (file : Document) : Option ParseTree :=
  match member? "tree" file with
  | some tree => tree? tree
  | none => some bareTree

def bytesOf? (file : Document) : Option (List UInt8) :=
  match member? "hex" file with
  | some digits => (characters? digits).bind Numeral.hexBytes?
  | none => ((member? "text" file).bind characters?).map Utf8.encode

def file? (file : Document) : Option (String × SourceFile) := do
  let name ← (member? "name" file).bind characters?
  return (String.ofList name, ⟨← bytesOf? file, ← treeOf? file⟩)

def read? (text : String) : Option Workspace :=
  match Document.read? text.toList with
  | some (.list files) => (files.mapM file?).map Workspace.ofFiles
  | _ => none

end CrossReference.Snapshot
