import CrossReference.ParseTree.Declarator
import CrossReference.Proofs.ParseTree.Within
import Mathlib.Data.List.Basic

/-!
# Splitting trees into parts

Trees split into parts if the parts come about by leaving out trees, by replacing trees with their
children, and by changing the order.  No node is then in two parts.  The segments of a name together
with what is set apart from it are parts of the name.
-/

set_option autoImplicit false

namespace CrossReference

namespace ParseTree

/-- From the trees of a list some parts are taken, of which none has a node of another one. -/
inductive SplitsInto : List ParseTree → List ParseTree → Prop where
  | perm {trees parts : List ParseTree} (reordered : trees.Perm parts) : SplitsInto trees parts
  | leaveOut (tree : ParseTree) (rest : List ParseTree) : SplitsInto (tree :: rest) rest
  | descend (tree : ParseTree) (rest : List ParseTree) :
      SplitsInto (tree :: rest) (tree.children ++ rest)
  | trans {trees between parts : List ParseTree} (first : SplitsInto trees between)
      (last : SplitsInto between parts) : SplitsInto trees parts

namespace SplitsInto

variable {first second trees others parts : List ParseTree} {tree : ParseTree}

theorem refl (trees : List ParseTree) : SplitsInto trees trees :=
  .perm (List.Perm.refl trees)

theorem append_right (splits : SplitsInto trees parts) (others : List ParseTree) :
    SplitsInto (trees ++ others) (parts ++ others) := by
  induction splits with
  | perm reordered => exact .perm (reordered.append_right others)
  | leaveOut tree rest => exact .leaveOut tree (rest ++ others)
  | descend tree rest =>
    rw [List.append_assoc]
    exact .descend tree (rest ++ others)
  | trans _ _ firstStep lastStep => exact firstStep.trans lastStep

theorem append (front : SplitsInto trees parts) (back : SplitsInto first second) :
    SplitsInto (trees ++ first) (parts ++ second) := by
  have swapped : SplitsInto (first ++ parts) (second ++ parts) := back.append_right parts
  have reordered : SplitsInto (parts ++ first) (first ++ parts) := .perm List.perm_append_comm
  exact ((front.append_right first).trans (reordered.trans swapped)).trans
    (.perm List.perm_append_comm)

theorem of_sublist (sublist : parts.Sublist trees) : SplitsInto trees parts := by
  induction sublist with
  | slnil => exact .refl []
  | cons tree _ ih => exact (leaveOut tree _).trans ih
  | cons_cons tree _ ih => exact (refl [tree]).append ih

theorem of_children (splits : SplitsInto tree.children parts) : SplitsInto [tree] parts := by
  have opened : SplitsInto [tree] (tree.children ++ []) := .descend tree []
  rw [List.append_nil] at opened
  exact opened.trans splits

theorem namedChildren (tree : ParseTree) : SplitsInto [tree] tree.namedChildren :=
  .of_children (.of_sublist List.filter_sublist)

end SplitsInto

theorem find?_toList_sublist (test : ParseTree → Bool) (trees : List ParseTree) :
    (trees.find? test).toList.Sublist (trees.filter test) := by
  rw [← List.head?_filter]
  cases trees.filter test with
  | nil => exact List.Sublist.refl []
  | cons first rest => simp

/-- The first tree that passes one test and all trees that pass another one are parts, if no tree
passes both. -/
theorem splitsInto_find?_filter (test other : ParseTree → Bool) (trees : List ParseTree)
    (disjoint : ∀ tree, test tree = true → other tree = false) :
    SplitsInto trees ((trees.find? test).toList ++ trees.filter other) := by
  have halves : (trees.filter test ++ trees.filter fun tree => !test tree).Perm trees :=
    List.filter_append_perm test trees
  have others : (trees.filter other).Sublist (trees.filter fun tree => !test tree) := by
    apply List.monotone_filter_right
    intro tree passes
    cases isFirst : test tree with
    | false => rfl
    | true => rw [disjoint tree isFirst] at passes; cases passes
  exact (SplitsInto.perm halves.symm).trans
    (.of_sublist ((find?_toList_sublist test trees).append others))

theorem splitsInto_child? (tree : ParseTree) (part : String) :
    SplitsInto tree.children (tree.child? part).toList :=
  .of_sublist (List.Sublist.trans (find?_toList_sublist _ _) List.filter_sublist)

theorem splitsInto_two_children (tree : ParseTree) (first second : String)
    (different : first ≠ second) :
    SplitsInto tree.children ((tree.child? first).toList ++ (tree.child? second).toList) := by
  have firstAndRest := splitsInto_find?_filter (·.field = first) (·.field = second) tree.children
    (by intro child same; simp_all)
  exact firstAndRest.trans ((SplitsInto.refl _).append (.of_sublist (find?_toList_sublist _ _)))

theorem splitsInto_other_parts (tree : ParseTree) (part : String) :
    SplitsInto tree.children
      ((tree.child? part).toList ++ tree.namedChildren.filter fun child => child.field ≠ part) := by
  have parts := splitsInto_find?_filter (·.field = part)
    (fun child => decide (child.field ≠ part) && child.isNamed) tree.children
    (by intro child same; simp_all)
  rwa [← List.filter_filter] at parts

mutual

theorem splitsInto_namespaceSegments :
    ∀ tree : ParseTree, SplitsInto [tree] tree.namespaceSegments
  | node label children => by
    unfold namespaceSegments
    split
    · exact .refl _
    · exact .of_children (splitsInto_namespaceSegmentsOfAll children)

theorem splitsInto_namespaceSegmentsOfAll :
    ∀ trees : List ParseTree, SplitsInto trees (namespaceSegmentsOfAll trees)
  | [] => .refl []
  | first :: rest => by
    unfold namespaceSegmentsOfAll
    split
    · exact (splitsInto_namespaceSegments first).append (splitsInto_namespaceSegmentsOfAll rest)
    · exact (SplitsInto.leaveOut first rest).trans (splitsInto_namespaceSegmentsOfAll rest)

end

end ParseTree

namespace QualifiedName

open ParseTree

/-- All nodes that a name is split into. -/
def parts (name : QualifiedName) : List ParseTree :=
  name.segments ++ name.extras

theorem append_parts_perm (first second : QualifiedName) :
    (first.parts ++ second.parts).Perm (first.append second).parts := by
  unfold parts append
  simp only [List.append_assoc]
  refine List.Perm.append_left first.segments ?_
  rw [← List.append_assoc, ← List.append_assoc]
  exact List.Perm.append_right second.extras List.perm_append_comm

theorem splitsInto_segment (tree : ParseTree) : SplitsInto [tree] (segment tree).parts := by
  unfold segment parts
  split
  · exact .of_children (splitsInto_two_children tree _ _ (by decide))
  · split
    · exact .refl [tree]
    · exact .refl [tree]

theorem splitsInto_qualifier (outermost : Bool) (tree : ParseTree) :
    SplitsInto (tree.child? "scope").toList (qualifier outermost tree).parts := by
  unfold qualifier
  cases tree.child? "scope" with
  | none => exact .refl []
  | some scope => exact splitsInto_segment scope

theorem splitsInto_ofTreeFrom (outermost : Bool) (tree : ParseTree) :
    SplitsInto [tree] (ofTreeFrom outermost tree).parts := by
  fun_induction ofTreeFrom outermost tree with
  | case1 outermost tree qualified name found ih =>
    have children := splitsInto_two_children tree "scope" "name" (by decide)
    rw [found] at children
    have both := (splitsInto_qualifier outermost tree).append ih
    exact .of_children ((children.trans both).trans (.perm (append_parts_perm _ _)))
  | case2 outermost tree qualified missing =>
    exact .of_children ((splitsInto_child? tree "scope").trans
      (splitsInto_qualifier outermost tree))
  | case3 outermost tree plain => exact splitsInto_segment tree

/-- The segments of a name, and all that is set apart from it, are parts of the name. -/
theorem splitsInto_ofTree (tree : ParseTree) :
    SplitsInto [tree] ((ofTree tree).segments ++ (ofTree tree).extras) :=
  splitsInto_ofTreeFrom true tree

end QualifiedName

end CrossReference
