import CrossReference.ParseTree.Declarator
import CrossReference.Walk.State

/-!
# Frames

A `Frame` is a node that waits to be visited, with the context and the manner in which it will be.
Its weight bounds the work that it still stands for: all frames that come out of a visit weigh
less than the frame that was visited.
-/

set_option autoImplicit false

namespace CrossReference.Walk

inductive Mode where
  /-- By its form. -/
  | plain
  /-- As the body of a function, which has no scope of its own. -/
  | body
  /-- As a declarator of a symbol of a kind, with a type.  The scope for parameters is given if the
  declarator is that of a function that is being defined. -/
  | declarator (kind : SymbolKind) (typeRef : Option TypeRef) (parameters : Option Nat)
  /-- As the name of a member of an object. -/
  | member (object : Option ObjectRef)
  /-- As an alternative of a condition; `taken` says that an earlier branch is kept for certain or
  perhaps. -/
  | branch (taken : Bool)
  deriving DecidableEq

structure Frame where
  tree : ParseTree
  /-- Whether a class or enum specifier without a body declares its tag there. -/
  declaresTag : Bool
  context : Context
  mode : Mode

def Frame.child (parent : ParseTree) (context : Context) (mode : Mode) (tree : ParseTree) :
    Frame :=
  ⟨tree, parent.declaresTags, context, mode⟩

def Frame.apart (context : Context) (tree : ParseTree) : Frame :=
  ⟨tree, false, context, .plain⟩

def Frame.root (tree : ParseTree) : Frame :=
  ⟨tree, false, Context.file, .plain⟩

/-- Twice the number of nodes.  A declarator may have to be visited once more in the plain manner,
so that every other manner weighs one less. -/
def Frame.weight (frame : Frame) : Nat :=
  match frame.mode with
  | .declarator _ _ _ => 2 * frame.tree.size
  | _ => 2 * frame.tree.size - 1

def weight : List Frame → Nat
  | [] => 0
  | first :: rest => first.weight + weight rest

theorem Frame.weight_le (frame : Frame) : frame.weight ≤ 2 * frame.tree.size := by
  unfold Frame.weight
  split <;> omega

theorem Frame.le_weight (frame : Frame) : 2 * frame.tree.size - 1 ≤ frame.weight := by
  unfold Frame.weight
  split <;> omega

theorem weight_append (first second : List Frame) :
    weight (first ++ second) = weight first + weight second := by
  induction first with
  | nil => simp [weight]
  | cons frame rest ih => simp [weight, ih, Nat.add_assoc]

/-- Frames of the nodes of a list, whatever their contexts and manners, weigh at most twice the
number of nodes. -/
theorem weight_map_le (frameOf : ParseTree → Frame) (trees : List ParseTree)
    (ofTree : ∀ tree, (frameOf tree).tree = tree) :
    weight (trees.map frameOf) ≤ 2 * ParseTree.sizes trees := by
  induction trees with
  | nil => simp [weight]
  | cons tree rest ih =>
    have bound := (frameOf tree).weight_le
    rw [ofTree] at bound
    simp only [List.map_cons, weight, ParseTree.sizes]
    omega

end CrossReference.Walk
