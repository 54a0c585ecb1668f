import CrossReference.Proofs.ParseTree.Identities
import CrossReference.Proofs.Walk.Pending

/-!
# Occurrences of nodes

The walk notes under the identity of a node the occurrence that the node becomes.  Where all nodes
have identities of their own, what is found in the end under the identity of a node is the occurrence
that stands where the node stands and is spelled like it.
-/

set_option autoImplicit false

namespace CrossReference.Walk

open ParseTree

structure NotedAs (source : List Char) (state : State) (node : ParseTree) (name : Nat) : Prop where
  noted : (node.id, name) ∈ state.nameOfNode
  place : (state.names[name]?).map NameNode.place = some (placeOf source node)

/-- What is found under the identity of a node is an occurrence that comes from the node. -/
structure OccursAs (source : List Char) (state : State) (node : ParseTree) (name : Nat) : Prop where
  found : state.nameOfNode.find? (·.1 = node.id) = some (node.id, name)
  place : (state.names[name]?).map NameNode.place = some (placeOf source node)

section Noted

variable {source : List Char} {nodes : List ParseTree} {node : ParseTree} {before after : State}
  {name : Nat}

theorem AddsNames.notedAs (adds : AddsNames source nodes before after) {index : Nat}
    (isNode : nodes[index]? = some node) :
    NotedAs source after node (before.names.size + index) where
  noted := by
    rw [adds.nodeIds]
    refine List.mem_append_left _ (List.mem_reverse.2 ?_)
    refine List.mk_mem_zipIdx_iff_le_and_getElem?_sub.2 ⟨Nat.le_add_right _ _, ?_⟩
    rw [Nat.add_sub_cancel_left, List.getElem?_map, isNode]
    rfl
  place := by
    rw [adds.place_eq, isNode]
    rfl

theorem lt_size_of_place {place : String × Option Location}
    (isPlace : (before.names[name]?).map NameNode.place = some place) : name < before.names.size := by
  obtain ⟨found, there, -⟩ := Option.map_eq_some_iff.1 isPlace
  exact (Array.getElem?_eq_some_iff.1 there).1

theorem NotedAs.onward (noted : NotedAs source before node name)
    (adds : AddsNames source nodes before after) : NotedAs source after node name where
  noted := by
    rw [adds.nodeIds]
    exact List.mem_append_right _ noted.noted
  place := by
    have known : name < (before.names.toList.map NameNode.place).length := by
      simpa using lt_size_of_place noted.place
    have places := congrArg (·[name]?) adds.places
    simp only [List.getElem?_map, Array.getElem?_toList] at places
    rw [places, List.getElem?_append_left known, List.getElem?_map, Array.getElem?_toList]
    exact noted.place

theorem OccursAs.name_eq (occurs : OccursAs source before node name) {pair : Nat × Nat}
    (found : before.nameOfNode.find? (·.1 = node.id) = some pair) : name = pair.2 :=
  congrArg Prod.snd (Option.some.inj (occurs.found.symm.trans found))

theorem OccursAs.spelling_eq (occurs : OccursAs source before node name) :
    before.spelling name = node.text source := by
  obtain ⟨found, there, place⟩ := Option.map_eq_some_iff.1 occurs.place
  rw [State.spelling, there]
  exact congrArg Prod.fst place

end Noted

theorem find?_of_nodup_keys {pairs : List (Nat × Nat)} {key value : Nat}
    (distinct : (pairs.map Prod.fst).Nodup) (member : (key, value) ∈ pairs) :
    pairs.find? (·.1 = key) = some (key, value) := by
  induction pairs with
  | nil => cases member
  | cons first rest ih =>
    rw [List.map_cons, List.nodup_cons] at distinct
    rcases List.mem_cons.1 member with rfl | isLater
    · exact List.find?_cons_of_pos (by simp)
    · have other : first.1 ≠ key := by
        rintro rfl
        exact distinct.1 (List.mem_map.2 ⟨_, isLater, rfl⟩)
      rw [List.find?_cons_of_neg (by simpa using other)]
      exact ih distinct.2 isLater

section Walks

variable {source : List Char} {language : Language} {tree : ParseTree}
  {visited waiting : List Frame} {state : State} {node : ParseTree} {name : Nat}

/-- What is noted at some moment of a walk stays noted. -/
theorem NotedAs.run (noted : NotedAs source state node name) (frames : List Frame) :
    NotedAs source (run source state frames) node name := by
  obtain ⟨nodes, adds, -⟩ := exists_addsNames_run source state frames
  exact noted.onward adds

/-- In a tree of distinct nodes, what is noted under the identity of a node is found there in the
end. -/
theorem Reaches.occursAs (distinct : tree.ids.Nodup)
    (reached : Reaches source (State.initial (language = .cpp)) [Frame.root tree] visited state
      waiting) (noted : NotedAs source state node name) :
    OccursAs source (SourceUnit.walked source language tree) node name := by
  have later := noted.run waiting
  rw [reached.run_eq] at later
  refine ⟨find?_of_nodup_keys ?_ later.noted, later.place⟩
  obtain ⟨nodes, adds, splits⟩ :=
    exists_addsNames_run source (State.initial (language = .cpp)) [Frame.root tree]
  rw [SourceUnit.walked, adds.nodeIds]
  simp only [State.initial, List.append_nil, List.map_reverse, List.zipIdx_map_fst]
  exact (List.reverse_perm _).nodup_iff.2 (SplitsInto.nodup_map_id splits distinct)

end Walks

end CrossReference.Walk
