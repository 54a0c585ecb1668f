import CrossReference.Proofs.ParseTree.Parts

/-!
# Identities of nodes

A parser gives every node of a tree an identity of its own.  The parts that such a tree is split into
have different identities, since no node is in two parts.
-/

set_option autoImplicit false

namespace CrossReference.ParseTree

mutual

def ids : ParseTree → List Nat
  | node label children => label.id :: idsOfAll children

def idsOfAll : List ParseTree → List Nat
  | [] => []
  | first :: rest => first.ids ++ idsOfAll rest

end

theorem ids_eq (tree : ParseTree) : tree.ids = tree.id :: idsOfAll tree.children := by
  cases tree
  rw [ids]
  rfl

theorem idsOfAll_eq_flatMap (trees : List ParseTree) : idsOfAll trees = trees.flatMap ids := by
  induction trees with
  | nil => rfl
  | cons tree rest ih => rw [idsOfAll, ih, List.flatMap_cons]

theorem idsOfAll_append (first second : List ParseTree) :
    idsOfAll (first ++ second) = idsOfAll first ++ idsOfAll second := by
  simp only [idsOfAll_eq_flatMap, List.flatMap_append]

/-- Where all nodes have identities of their own, so have the nodes of the parts. -/
theorem SplitsInto.nodup_ids {trees parts : List ParseTree} (splits : SplitsInto trees parts)
    (distinct : (idsOfAll trees).Nodup) : (idsOfAll parts).Nodup := by
  induction splits with
  | perm reordered =>
    rw [idsOfAll_eq_flatMap] at distinct ⊢
    exact (reordered.flatMap_right ids).nodup_iff.1 distinct
  | leaveOut tree rest =>
    rw [idsOfAll] at distinct
    exact (List.nodup_append.1 distinct).2.1
  | descend tree rest =>
    rw [idsOfAll, ids_eq, List.cons_append] at distinct
    rw [idsOfAll_append]
    exact (List.nodup_cons.1 distinct).2
  | trans _ _ firstStep lastStep => exact lastStep (firstStep distinct)

theorem map_id_sublist_ids (trees : List ParseTree) :
    (trees.map ParseTree.id).Sublist (idsOfAll trees) := by
  induction trees with
  | nil => exact List.Sublist.refl []
  | cons tree rest ih =>
    rw [List.map_cons, idsOfAll, ids_eq, List.cons_append]
    exact (ih.trans (List.sublist_append_right _ _)).cons_cons tree.id

theorem SplitsInto.nodup_map_id {tree : ParseTree} {parts : List ParseTree}
    (splits : SplitsInto [tree] parts) (distinct : tree.ids.Nodup) :
    (parts.map ParseTree.id).Nodup := by
  have alone : (idsOfAll [tree]).Nodup := by
    rwa [idsOfAll, idsOfAll, List.append_nil]
  exact (splits.nodup_ids alone).sublist (map_id_sublist_ids parts)

end CrossReference.ParseTree
