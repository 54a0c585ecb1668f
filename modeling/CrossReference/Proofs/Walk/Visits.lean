import CrossReference.Proofs.ParseTree.Descent
import CrossReference.Proofs.ParseTree.Places
import CrossReference.Proofs.Walk.Nodes
import CrossReference.SourceUnit

/-!
# How often nodes are visited

A walk visits each node of a tree once, or a second time right after the first one if the node was
to be visited as a declarator and looks like none.  It ends on every tree, after no more than two
visits for each node.
-/

set_option autoImplicit false

namespace CrossReference.Walk

open ParseTree

/-- The frames visited in at most so many rounds, and the state after them; nothing if frames wait
then. -/
def visitWithin (source : List Char) : Nat → State → List Frame → Option (List Frame × State)
  | _, state, [] => some ([], state)
  | 0, _, _ :: _ => none
  | rounds + 1, state, frame :: rest =>
      let (visited, left) := visit source state frame
      (visitWithin source rounds visited (left ++ rest)).map fun (later, last) =>
        (frame :: later, last)

/-- Frames wait for nodes of a tree, each for the one to which a path leads. -/
abbrev StandAt (root : ParseTree) (paths : List Path) (frames : List Frame) : Prop :=
  List.Forall₂ (fun path frame => root.at? path = some frame.tree) paths frames

theorem weight_le_of_mem {frame : Frame} {frames : List Frame} (member : frame ∈ frames) :
    frame.weight ≤ weight frames := by
  induction frames with
  | nil => cases member
  | cons first rest ih =>
    simp only [weight]
    rcases List.mem_cons.1 member with rfl | later
    · omega
    · have bound := ih later
      omega

theorem exists_of_mem_left {α β : Type} {relation : α → β → Prop} {first : List α} {second : List β}
    (related : List.Forall₂ relation first second) {member : α} (isMember : member ∈ first) :
    ∃ other ∈ second, relation member other := by
  induction related with
  | nil => cases isMember
  | @cons _ other _ _ here _ ih =>
    rcases List.mem_cons.1 isMember with rfl | later
    · exact ⟨other, List.mem_cons_self, here⟩
    · obtain ⟨found, isFound, holds⟩ := ih later
      exact ⟨found, List.mem_cons_of_mem _ isFound, holds⟩

/-- Unless it puts the node back, a visit leaves frames for nodes below it that stand apart. -/
theorem exists_paths_of_visit (source : List Char) (state : State) {frame : Frame}
    (final : frame.isPutBack = false) {root : ParseTree} {path : Path}
    (found : root.at? path = some frame.tree) :
    ∃ below, StandAt root below (visit source state frame).2 ∧ below.Pairwise Path.Apart ∧
      ∀ further ∈ below, path <+: further ∧ further ≠ path := by
  obtain ⟨nodes, -, splits⟩ := divides_visit source state frame
  have parts : SplitsInto [frame.tree] ((visit source state frame).2.map Frame.tree) :=
    splits.trans (.of_sublist (List.sublist_append_right _ _))
  obtain ⟨paths, stand, apart⟩ := standApart_of_splitsInto parts
  rw [List.forall₂_map_right_iff] at stand
  refine ⟨paths.map (path ++ ·), ?_, ?_, ?_⟩
  · rw [StandAt, List.forall₂_map_left_iff]
    exact stand.imp fun further next leads => (at?_append found further).trans leads
  · rw [List.pairwise_map]
    exact apart.imp fun apart => by
      simpa only [Path.Apart, List.prefix_append_right_inj] using apart
  · intro further member
    obtain ⟨rest, isRest, rfl⟩ := List.mem_map.1 member
    refine ⟨List.prefix_append path rest, fun same => ?_⟩
    obtain rfl : rest = [] := by simpa using same
    obtain ⟨next, isNext, leads⟩ := exists_of_mem_left stand isRest
    have isNode : frame.tree = next.tree := Option.some.inj leads
    have least := next.le_weight
    have part := weight_le_of_mem isNext
    have bound := weight_visit_le source state final
    rw [← isNode, size_eq] at least
    omega

/-! ## Visits of one node -/

def Frame.settled (frame : Frame) : Frame :=
  if frame.isPutBack then { frame with mode := .plain } else frame

/-- The frames as which a node is visited, if a frame is the first of them. -/
def Frame.visits (frame : Frame) : List Frame :=
  if frame.isPutBack then [frame, frame.settled] else [frame]

theorem Frame.settled_tree (frame : Frame) : frame.settled.tree = frame.tree := by
  unfold Frame.settled
  split <;> rfl

theorem Frame.settled_isPutBack (frame : Frame) : frame.settled.isPutBack = false := by
  unfold Frame.settled
  split
  · rfl
  · rename_i final
    exact eq_false_of_ne_true final

section Rounds

variable (source : List Char) (state : State) (frame : Frame) (rest : List Frame)

theorem visitWithin_cons (rounds : Nat) :
    visitWithin source (rounds + 1) state (frame :: rest) =
      (visitWithin source rounds (visit source state frame).1
        ((visit source state frame).2 ++ rest)).map fun (later, last) => (frame :: later, last) := rfl

theorem visitWithin_visits (rounds : Nat) :
    visitWithin source (rounds + frame.visits.length) state (frame :: rest) =
      (visitWithin source rounds (visit source state frame.settled).1
        ((visit source state frame.settled).2 ++ rest)).map
        fun (later, last) => (frame.visits ++ later, last) := by
  cases putBack : frame.isPutBack with
  | false =>
    simp only [Frame.visits, Frame.settled, putBack, Bool.false_eq_true, if_false]
    exact visitWithin_cons source state frame rest rounds
  | true =>
    have first := visit_of_isPutBack source state putBack
    simp only [Frame.visits, Frame.settled, putBack, if_true]
    rw [List.length_cons, List.length_singleton, visitWithin_cons, first, List.singleton_append,
      visitWithin_cons, Option.map_map]
    rfl

theorem run_visits :
    run source state (frame :: rest) =
      run source (visit source state frame.settled).1
        ((visit source state frame.settled).2 ++ rest) := by
  cases putBack : frame.isPutBack with
  | false =>
    simp only [Frame.settled, putBack, Bool.false_eq_true, if_false]
    exact run_cons source state frame rest
  | true =>
    simp only [Frame.settled, putBack, if_true]
    rw [run_cons, visit_of_isPutBack source state putBack, List.singleton_append, run_cons]

/-- Each visit of a node takes weight away. -/
theorem weight_visits_le :
    weight ((visit source state frame.settled).2 ++ rest) + frame.visits.length ≤
      weight (frame :: rest) := by
  have last := weight_visit_lt source state frame.settled
  rw [weight_append, weight]
  cases putBack : frame.isPutBack with
  | false =>
    simp only [Frame.visits, Frame.settled, putBack, Bool.false_eq_true, if_false,
      List.length_singleton] at last ⊢
    omega
  | true =>
    have first := weight_visit_lt source state frame
    rw [visit_of_isPutBack source state putBack] at first
    simp only [Frame.visits, Frame.settled, putBack, if_true, List.length_cons,
      List.length_nil, weight] at first last ⊢
    omega

end Rounds

theorem Reaches.visitWithin {source : List Char} {start : State} {frames visited found : List Frame} {last : State}
    {rounds : Nat} {waiting : List Frame} {state : State}
    (reached : Reaches source start frames visited state waiting)
    (ends : visitWithin source rounds state waiting = some (found, last)) :
    Reaches source start frames (visited ++ found) last [] := by
  induction rounds generalizing visited found state waiting with
  | zero =>
    cases waiting with
    | nil =>
      cases ends
      rwa [List.append_nil]
    | cons => cases ends
  | succ rounds ih =>
    cases waiting with
    | nil =>
      cases ends
      rwa [List.append_nil]
    | cons frame waiting =>
      obtain ⟨⟨later, _⟩, ends, same⟩ := Option.map_eq_some_iff.1 ends
      cases same
      have whole := ih reached.visit ends
      rwa [List.append_assoc] at whole

/-- Frames of nodes that stand apart are visited within as many rounds as they weigh.  Each node at
or below theirs is visited once, or a second time right afterwards. -/
theorem exists_visits (source : List Char) {root : ParseTree} (state : State) (frames : List Frame)
    (paths : List Path) (stand : StandAt root paths frames) (apart : paths.Pairwise Path.Apart) :
    ∃ visited firsts,
      (∀ rounds, weight frames ≤ rounds → visitWithin source rounds state frames =
        some (firsts.flatMap Frame.visits, run source state frames)) ∧
      StandAt root visited firsts ∧ visited.Nodup ∧
      ∀ path ∈ visited, ∃ start ∈ paths, start <+: path := by
  induction total : weight frames using Nat.strongRecOn generalizing state frames paths with
  | ind total ih =>
    cases stand with
    | nil =>
      refine ⟨[], [], fun rounds _ => ?_, .nil, .nil, List.forall_mem_nil _⟩
      cases rounds <;> simp [visitWithin]
    | @cons path frame paths rest found others =>
      obtain ⟨fromOthers, apart⟩ := List.pairwise_cons.1 apart
      have lighter := weight_visits_le source state frame rest
      have positive : 0 < frame.visits.length := by
        unfold Frame.visits
        split <;> simp
      obtain ⟨below, standBelow, apartBelow, leads⟩ :=
        exists_paths_of_visit source state frame.settled_isPutBack (frame.settled_tree ▸ found)
      have disjoint : ∀ further ∈ below, ∀ other ∈ paths, Path.Apart further other := by
        intro further isFurther other isOther
        obtain ⟨⟨rest, rfl⟩, -⟩ := leads further isFurther
        exact (fromOthers other isOther).extend rest
      obtain ⟨visited, firsts, ends, standLater, once, begins⟩ := ih _ (by omega)
        (visit source state frame.settled).1 ((visit source state frame.settled).2 ++ rest)
        (below ++ paths) (List.rel_append standBelow others)
        (List.pairwise_append.2 ⟨apartBelow, apart, disjoint⟩) rfl
      refine ⟨path :: visited, frame :: firsts, fun rounds enough => ?_, .cons found standLater,
        List.nodup_cons.2 ⟨fun again => ?_, once⟩, fun other member => ?_⟩
      · obtain ⟨more, rfl⟩ := Nat.exists_eq_add_of_le'
          (Nat.le_trans (Nat.le_add_left _ _) (Nat.le_trans lighter (total ▸ enough)))
        rw [visitWithin_visits, ends more (by omega), run_visits, List.flatMap_cons]
        rfl
      · obtain ⟨start, isStart, isPrefix⟩ := begins path again
        rcases List.mem_append.1 isStart with inBelow | inPaths
        · obtain ⟨isLonger, other⟩ := leads start inBelow
          exact other (isPrefix.eq_of_length_le isLonger.length_le)
        · exact (fromOthers start inPaths).2 isPrefix
      · rcases List.mem_cons.1 member with rfl | later
        · exact ⟨other, List.mem_cons_self, List.prefix_rfl⟩
        · obtain ⟨start, isStart, isPrefix⟩ := begins other later
          rcases List.mem_append.1 isStart with inBelow | inPaths
          · exact ⟨path, List.mem_cons_self, (leads start inBelow).1.trans isPrefix⟩
          · exact ⟨start, List.mem_cons_of_mem _ inPaths, isPrefix⟩

/-! ## The object of an access -/

/-- The search for the object of an access goes into parentheses, dereferences and subscripts. -/
def objectDescent : Descent where
  next tree :=
    if tree.kind = "parenthesized_expression" then tree.namedChildren.head?.toList
    else if tree.kind = "pointer_expression" || tree.kind = "subscript_expression" then
      (tree.child? "argument").toList
    else []
  descends tree := by
    split
    · rw [← List.take_one]
      exact (List.take_sublist 1 _).trans List.filter_sublist
    · split
      · exact child?_toList_sublist tree "argument"
      · exact List.nil_sublist _

def objectAt? (scopes : Scopes) (scope : Nat) (tree : ParseTree) : Option ObjectRef :=
  if tree.kind = "identifier" then some (.name tree.id)
  else if tree.kind = "field_expression" then
    (tree.child? "field").map fun field => .name field.id
  else if tree.kind = "this" then (scopes.enclosingClass scope).map .class
  else if isQualified tree.kind then
    (QualifiedName.ofTree tree).segments.getLast?.map fun last => .name last.id
  else none

theorem objectOf?_eq (scopes : Scopes) (scope : Nat) (tree : ParseTree) :
    objectOf? scopes scope tree =
      (objectDescent.passed [tree]).getLast?.bind (objectAt? scopes scope) := by
  have atLast {last : ParseTree} (ends : objectDescent.next last = []) :
      (objectDescent.passed [last]).getLast?.bind (objectAt? scopes scope) =
        objectAt? scopes scope last := by
    rw [objectDescent.passed_of_last ends]
    rfl
  fun_induction objectOf? scopes scope tree with
  | case1 tree isName =>
    rw [atLast (by simp [objectDescent, isName]), objectAt?, if_pos isName]
  | case2 tree noName isMember =>
    rw [atLast (by simp [objectDescent, isMember]), objectAt?, if_neg noName, if_pos isMember]
  | case3 tree noName noMember isThis =>
    rw [atLast (by simp [objectDescent, isThis]), objectAt?, if_neg noName, if_neg noMember,
      if_pos isThis]
  | case4 tree noName noMember noThis enclosed inner rest found ih =>
    have leads : objectDescent.next tree = [inner] := by simp [objectDescent, enclosed, found]
    rw [objectDescent.getLast?_passed_of_step leads, ih]
  | case5 tree noName noMember noThis enclosed nothing =>
    rw [atLast (by simp [objectDescent, enclosed, nothing])]
    simp [objectAt?, enclosed, isQualified]
  | case6 tree noName noMember noThis noParentheses wraps inner found ih =>
    have leads : objectDescent.next tree = [inner] := by
      simp [objectDescent, noParentheses, by simpa using wraps, found]
    rw [objectDescent.getLast?_passed_of_step leads, ih]
  | case7 tree noName noMember noThis noParentheses wraps nothing =>
    rw [atLast (by simp [objectDescent, noParentheses, nothing])]
    have unqualified : isQualified tree.kind = false := by
      rcases (by simpa using wraps : tree.kind = "pointer_expression" ∨
        tree.kind = "subscript_expression") with isPointer | isSubscript
      · rw [isPointer]; decide
      · rw [isSubscript]; decide
    simp [objectAt?, noName, noMember, noThis, unqualified]
  | case8 tree noName noMember noThis noParentheses noWrapper qualified =>
    rw [atLast (by simp [objectDescent, noParentheses, by simpa using noWrapper]), objectAt?,
      if_neg noName, if_neg noMember, if_neg noThis, if_pos qualified]
  | case9 tree noName noMember noThis noParentheses noWrapper unqualified =>
    rw [atLast (by simp [objectDescent, noParentheses, by simpa using noWrapper]), objectAt?,
      if_neg noName, if_neg noMember, if_neg noThis, if_neg unqualified]

/-! ## Over every tree -/

/-- Whatever the nodes of a tree are, the walk over it ends after no more than two rounds for each
node.  It visits each node that it comes to once, or once more if the node was to be visited as a
declarator and looks like none.  All loops that put some of the children of a node in its place pass
nodes in preorder and each one at most once, and such loops find the segments of a name, the name in
a declarator, the segments of the name of a namespace and the object of an access. -/
theorem walk_descends (source : List Char) (language : Language) (tree : ParseTree) :
    (∃ visited firsts,
      (∀ rounds, 2 * tree.size ≤ rounds →
        visitWithin source rounds (State.initial (language = .cpp)) [Frame.root tree] =
          some (firsts.flatMap Frame.visits, SourceUnit.walked source language tree)) ∧
      StandAt tree visited firsts ∧ visited.Nodup) ∧
    (∀ (descent : Descent) (node : ParseTree),
      (∀ rounds, node.size ≤ rounds →
        descent.passedWithin rounds [node] = some (descent.passed [node])) ∧
      (descent.passed [node]).Sublist node.nodes) ∧
    ∀ node : ParseTree,
      QualifiedName.ofTree node = .ofPieces (QualifiedName.descent.passed [node]) ∧
      node.declaratorName? =
        (declaratorDescent.passed [node]).getLast?.filter (isDeclaredName ·.kind) ∧
      node.namespaceSegments =
        (namespaceDescent.passed [node]).filter (isNamespaceSegment ·.kind) ∧
      ∀ scopes scope, objectOf? scopes scope node =
        (objectDescent.passed [node]).getLast?.bind (objectAt? scopes scope) := by
  refine ⟨?_, fun descent node => ⟨fun rounds enough => ?_, ?_⟩, fun node => ⟨?_, ?_, ?_, ?_⟩⟩
  · obtain ⟨visited, firsts, ends, stand, once, -⟩ := exists_visits source
      (State.initial (language = .cpp)) [Frame.root tree] [[]] (.cons rfl .nil)
      (List.pairwise_singleton _ _)
    have bound := weight_single (Frame.root tree)
    exact ⟨visited, firsts, fun rounds enough => ends rounds (Nat.le_trans bound enough), stand, once⟩
  · exact descent.passedWithin_eq (by simpa [sizes] using enough)
  · simpa [nodesOfAll] using descent.passed_sublist [node]
  · exact QualifiedName.ofTree_eq node
  · exact declaratorName?_eq node
  · exact namespaceSegments_eq node
  · exact fun scopes scope => objectOf?_eq scopes scope node

/-! ### A declarator that looks like none -/

def numberTree : ParseTree :=
  ruleNode 0 "translation_unit" "" 0 6
    [ruleNode 1 "declaration" "" 0 6
      [ruleNode 2 "primitive_type" "type" 0 3 [], ruleNode 3 "number_literal" "declarator" 4 5 []]]

/-- The number is visited twice, and everything else once. -/
theorem number_is_visited_twice :
    ∃ visited firsts, StandAt numberTree visited firsts ∧ visited.Nodup ∧
      (firsts.flatMap Frame.visits).map (·.tree.id) = [0, 1, 2, 3, 3] := by
  obtain ⟨⟨visited, firsts, ends, stand, once⟩, -⟩ :=
    walk_descends "int 1;".toList .cpp numberTree
  have visits : (visitWithin "int 1;".toList 8 (State.initial (Language.cpp = .cpp))
      [Frame.root numberTree]).map (fun found => found.1.map (·.tree.id)) = some [0, 1, 2, 3, 3] := by
    decide +kernel
  rw [ends 8 (by decide +kernel), Option.map_some, Option.some_inj] at visits
  exact ⟨visited, firsts, stand, once, visits⟩

end CrossReference.Walk
