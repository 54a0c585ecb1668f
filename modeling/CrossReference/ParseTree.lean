import CrossReference.Text.Extent

/-!
# Parse trees

A `ParseTree` is a node with a label and its children in source order.  A label says what the node
is, which part of its parent it plays and which bytes of the text it covers.  `ParseTree.ofRows`
builds a tree from the list of its nodes in preorder.
-/

set_option autoImplicit false

namespace CrossReference

structure NodeLabel where
  id : Nat
  /-- The kind of the node; a token has its own text for a kind. -/
  kind : String
  /-- The part that the node plays in its parent, or the empty text. -/
  field : String
  /-- Whether the node stands for a rule of the grammar and not just for a token. -/
  isNamed : Bool
  isMissing : Bool
  /-- Whether the node is, or contains, an error or a missing node. -/
  hasError : Bool
  start : Nat
  /-- The byte after the node. -/
  stop : Nat
  deriving DecidableEq

inductive ParseTree where
  | node (label : NodeLabel) (children : List ParseTree)

namespace ParseTree

def label : ParseTree → NodeLabel
  | node label _ => label

def children : ParseTree → List ParseTree
  | node _ children => children

def kind (tree : ParseTree) : String := tree.label.kind

def field (tree : ParseTree) : String := tree.label.field

def id (tree : ParseTree) : Nat := tree.label.id

def start (tree : ParseTree) : Nat := tree.label.start

def stop (tree : ParseTree) : Nat := tree.label.stop

def isNamed (tree : ParseTree) : Bool := tree.label.isNamed

def isFault (tree : ParseTree) : Bool := tree.kind = "ERROR" || tree.label.isMissing

mutual

def size : ParseTree → Nat
  | node _ children => sizes children + 1

def sizes : List ParseTree → Nat
  | [] => 0
  | first :: rest => size first + sizes rest

end

theorem size_eq (tree : ParseTree) : tree.size = sizes tree.children + 1 := by
  cases tree
  simp [size, children]

theorem size_pos (tree : ParseTree) : 0 < tree.size := by
  rw [size_eq]
  exact Nat.succ_pos _

theorem size_le_sizes {tree : ParseTree} {trees : List ParseTree} (member : tree ∈ trees) :
    tree.size ≤ sizes trees := by
  induction trees with
  | nil => cases member
  | cons first rest ih =>
    rcases List.mem_cons.1 member with rfl | later
    · simp [sizes]
    · have step := ih later
      simp only [sizes]
      omega

theorem size_lt_of_mem {tree child : ParseTree} (member : child ∈ tree.children) :
    child.size < tree.size := by
  have bound := size_le_sizes member
  rw [size_eq tree]
  omega

def child? (tree : ParseTree) (part : String) : Option ParseTree :=
  tree.children.find? (·.field = part)

theorem mem_of_child? {tree child : ParseTree} {part : String}
    (found : tree.child? part = some child) : child ∈ tree.children :=
  List.mem_of_find?_eq_some found

theorem size_lt_of_child? {tree child : ParseTree} {part : String}
    (found : tree.child? part = some child) : child.size < tree.size :=
  size_lt_of_mem (mem_of_child? found)

def namedChildren (tree : ParseTree) : List ParseTree :=
  tree.children.filter (·.isNamed)

theorem mem_of_mem_namedChildren {tree child : ParseTree} (member : child ∈ tree.namedChildren) :
    child ∈ tree.children :=
  (List.mem_filter.1 member).1

def hasToken (tree : ParseTree) (token : String) : Bool :=
  tree.children.any fun child => !child.isNamed && child.kind = token

/-- The characters that a node covers, unless it starts or ends inside of one. -/
def text? (source : List Char) (tree : ParseTree) : Option String :=
  (Text.slice? source tree.start tree.stop).map String.ofList

def text (source : List Char) (tree : ParseTree) : String :=
  (tree.text? source).getD ""

mutual

/-- The number of faults of a tree.  A tree whose label says that it has none is not searched. -/
def faults : ParseTree → Nat
  | node label children =>
      (if label.kind = "ERROR" || label.isMissing then 1 else 0) +
        if label.hasError then faultsOfAll children else 0

def faultsOfAll : List ParseTree → Nat
  | [] => 0
  | first :: rest => faults first + faultsOfAll rest

end

/-- The number of faults that a parser reports for a tree; a tree whose root has none is taken to
be free of them. -/
def syntaxErrors (tree : ParseTree) : Nat :=
  if tree.label.hasError then tree.faults else 0

structure Row where
  parent : Option Nat
  label : NodeLabel
  deriving DecidableEq

/-- Add a node and everything below it to the children that wait for their parents.  Nodes come
from the last one to the first one, so all below a node is complete when its turn comes. -/
def attach (waiting : Array (List ParseTree)) (row : Row) (place : Nat) :
    Array (List ParseTree) :=
  let tree := ParseTree.node row.label (waiting.getD place [])
  match row.parent with
  | some parent => waiting.modify parent (tree :: ·)
  | none => waiting.modify place fun _ => [tree]

def ofRows (rows : List Row) : Option ParseTree :=
  let waiting := rows.zipIdx.foldr
    (fun (row, place) waiting => attach waiting row place) (Array.replicate rows.length [])
  match rows, waiting.getD 0 [] with
  | first :: _, [tree] => if first.parent.isNone then some tree else none
  | _, _ => none

end ParseTree

end CrossReference
