import CrossReference.Proofs.ParseTree.Within

/-!
# All nodes of a tree

The nodes of a tree are listed in preorder: a node, and then those below each of its children.
-/

set_option autoImplicit false

namespace CrossReference

namespace ParseTree

mutual

def nodes : ParseTree → List ParseTree
  | node label children => node label children :: nodesOfAll children

def nodesOfAll : List ParseTree → List ParseTree
  | [] => []
  | first :: rest => first.nodes ++ nodesOfAll rest

end

theorem nodes_eq (tree : ParseTree) : tree.nodes = tree :: nodesOfAll tree.children := by
  cases tree
  rw [nodes]
  rfl

theorem nodesOfAll_eq_flatMap (trees : List ParseTree) : nodesOfAll trees = trees.flatMap nodes := by
  induction trees with
  | nil => rfl
  | cons tree rest ih => rw [nodesOfAll, ih, List.flatMap_cons]

theorem nodesOfAll_append (first second : List ParseTree) :
    nodesOfAll (first ++ second) = nodesOfAll first ++ nodesOfAll second := by
  simp only [nodesOfAll_eq_flatMap, List.flatMap_append]

mutual

theorem within_of_mem_nodes {part : ParseTree} :
    ∀ tree : ParseTree, part ∈ tree.nodes → Within part tree
  | node label children, member => by
    rcases List.mem_cons.1 member with rfl | below
    · exact .root _
    · obtain ⟨child, isChild, inner⟩ := within_of_mem_nodesOfAll children below
      exact .deeper isChild inner

theorem within_of_mem_nodesOfAll {part : ParseTree} :
    ∀ trees : List ParseTree, part ∈ nodesOfAll trees → ∃ tree ∈ trees, Within part tree
  | first :: rest, member => by
    rcases List.mem_append.1 member with inFirst | inRest
    · exact ⟨first, List.mem_cons_self, within_of_mem_nodes first inFirst⟩
    · obtain ⟨tree, isTree, inner⟩ := within_of_mem_nodesOfAll rest inRest
      exact ⟨tree, List.mem_cons_of_mem first isTree, inner⟩

end

theorem mem_nodesOfAll {part child : ParseTree} {trees : List ParseTree} (member : child ∈ trees)
    (inner : part ∈ child.nodes) : part ∈ nodesOfAll trees := by
  rw [nodesOfAll_eq_flatMap]
  exact List.mem_flatMap.2 ⟨child, member, inner⟩

theorem mem_nodes_iff {tree part : ParseTree} : part ∈ tree.nodes ↔ Within part tree := by
  constructor
  · exact within_of_mem_nodes tree
  · intro within
    induction within with
    | root =>
      rw [nodes_eq]
      exact List.mem_cons_self
    | deeper isChild _ ih =>
      rw [nodes_eq]
      exact List.mem_cons_of_mem _ (mem_nodesOfAll isChild ih)

end ParseTree

end CrossReference
