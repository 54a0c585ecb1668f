import CrossReference.Proofs.ParseTree.Nodes
import CrossReference.SourceUnit
import Mathlib.Algebra.BigOperators.Group.List.Basic

/-!
# Counting syntax errors

A tree is searched for faults from a stack, and what lies below a node is only put on it if the label
of the node says that there are faults.  If all labels are right about that, the search comes upon
each fault of the whole tree once, so that the parser counts them all, and a strict parser refuses
just the trees that have some.
-/

set_option autoImplicit false

namespace CrossReference

namespace ParseTree

/-- The label of each node says that it has errors just if there is a fault at or below it. -/
def FlagsFaults (tree : ParseTree) : Prop :=
  ∀ node ∈ tree.nodes, node.label.hasError = node.nodes.any isFault

instance (tree : ParseTree) : Decidable tree.FlagsFaults :=
  inferInstanceAs (Decidable (∀ node ∈ tree.nodes, _))

def opened (tree : ParseTree) : List ParseTree :=
  if tree.label.hasError then tree.children.reverse else []

theorem sizes_reverse (trees : List ParseTree) : sizes trees.reverse = sizes trees := by
  induction trees with
  | nil => rfl
  | cons tree rest ih =>
    rw [List.reverse_cons, sizes_append, ih]
    simp only [sizes]
    omega

theorem sizes_opened_lt (tree : ParseTree) : sizes tree.opened < tree.size := by
  rw [opened, size_eq]
  split
  · rw [sizes_reverse]
    omega
  · exact Nat.succ_pos _

/-- The nodes that are taken off a stack, whose top comes first, until it is empty. -/
def searched : List ParseTree → List ParseTree
  | [] => []
  | tree :: rest => tree :: searched (tree.opened ++ rest)
termination_by stack => sizes stack
decreasing_by
  have smaller := sizes_opened_lt tree
  rw [sizes_append]
  simp only [sizes]
  omega

/-! ## What is counted -/

theorem faultsOfAll_append (first second : List ParseTree) :
    faultsOfAll (first ++ second) = faultsOfAll first + faultsOfAll second := by
  induction first with
  | nil => simp [faultsOfAll]
  | cons tree rest ih => rw [List.cons_append, faultsOfAll, faultsOfAll, ih, Nat.add_assoc]

theorem faultsOfAll_reverse (trees : List ParseTree) :
    faultsOfAll trees.reverse = faultsOfAll trees := by
  induction trees with
  | nil => rfl
  | cons tree rest ih =>
    rw [List.reverse_cons, faultsOfAll_append, ih, faultsOfAll, faultsOfAll, faultsOfAll]
    omega

theorem faultsOfAll_opened (tree : ParseTree) :
    faultsOfAll tree.opened = if tree.label.hasError then faultsOfAll tree.children else 0 := by
  rw [opened]
  split
  · exact faultsOfAll_reverse tree.children
  · rfl

theorem faults_eq (tree : ParseTree) :
    tree.faults = (if tree.isFault then 1 else 0) + faultsOfAll tree.opened := by
  cases tree with
  | node label children =>
    rw [faults, faultsOfAll_opened]
    rfl

theorem countP_searched (stack : List ParseTree) :
    (searched stack).countP isFault = faultsOfAll stack := by
  fun_induction searched stack with
  | case1 => rfl
  | case2 tree rest ih =>
    rw [List.countP_cons, ih, faultsOfAll_append, faultsOfAll, faults_eq]
    omega

/-! ## What there is to count -/

theorem FlagsFaults.of_mem_children {tree child : ParseTree} (flags : tree.FlagsFaults)
    (member : child ∈ tree.children) : child.FlagsFaults := by
  intro node inner
  apply flags
  rw [nodes_eq]
  exact List.mem_cons_of_mem tree (mem_nodesOfAll member inner)

theorem FlagsFaults.of_mem_opened {tree child : ParseTree} (flags : tree.FlagsFaults)
    (member : child ∈ tree.opened) : child.FlagsFaults := by
  rw [opened] at member
  split at member
  · exact flags.of_mem_children (List.mem_reverse.1 member)
  · cases member

theorem FlagsFaults.opened_perm {tree : ParseTree} (flags : tree.FlagsFaults) :
    ((nodesOfAll tree.opened).filter isFault).Perm
      ((nodesOfAll tree.children).filter isFault) := by
  rw [opened]
  split
  · rw [nodesOfAll_eq_flatMap, nodesOfAll_eq_flatMap]
    exact ((List.reverse_perm tree.children).flatMap_right nodes).filter isFault
  · rename_i noError
    have root := flags tree (mem_nodes_iff.2 (.root tree))
    rw [eq_false_of_ne_true noError, nodes_eq, List.any_cons, eq_comm, Bool.or_eq_false_iff,
      List.any_eq_false] at root
    rw [List.filter_eq_nil_iff.2 root.2]
    exact .refl _

/-- A search for faults comes upon those of all nodes. -/
theorem searched_perm (stack : List ParseTree) (flags : ∀ tree ∈ stack, tree.FlagsFaults) :
    ((searched stack).filter isFault).Perm ((nodesOfAll stack).filter isFault) := by
  fun_induction searched stack with
  | case1 => exact .refl _
  | case2 tree rest ih =>
    have treeFlags : tree.FlagsFaults := flags tree List.mem_cons_self
    have later := ih fun other member => (List.mem_append.1 member).elim treeFlags.of_mem_opened
      fun inRest => flags other (List.mem_cons_of_mem tree inRest)
    rw [nodesOfAll_append, List.filter_append] at later
    have below := later.trans (treeFlags.opened_perm.append_right _)
    rw [nodesOfAll, nodes_eq, List.cons_append, ← List.singleton_append,
      ← List.singleton_append (l := _ ++ _), List.filter_append, List.filter_append,
      List.filter_append]
    exact below.append_left _

/-- If all labels are right, the parser counts all nodes at which the text could not be parsed. -/
theorem FlagsFaults.syntaxErrors_eq {tree : ParseTree} (flags : tree.FlagsFaults) :
    tree.syntaxErrors = tree.nodes.countP isFault := by
  have searchedAll := searched_perm [tree] fun other member =>
    List.mem_singleton.1 member ▸ flags
  have counted := countP_searched [tree]
  rw [List.countP_eq_length_filter, searchedAll.length_eq, ← List.countP_eq_length_filter] at counted
  simp only [nodesOfAll, faultsOfAll, List.append_nil, Nat.add_zero] at counted
  rw [syntaxErrors]
  split
  · exact counted.symm
  · rename_i noError
    have root := flags tree (mem_nodes_iff.2 (.root tree))
    rw [eq_false_of_ne_true noError, eq_comm, List.any_eq_false] at root
    exact (List.countP_eq_zero.2 root).symm

end ParseTree

open ParseTree

/-- If the labels of a tree are right about which nodes have errors, a search for faults from the
root comes upon all faults of the tree, each once, and the parser counts them.  A strict parser then
refuses the tree just if there is a fault anywhere in it, and says how many there are. -/
theorem SourceUnit.every_fault_is_counted_once {tree : ParseTree} (flags : tree.FlagsFaults) :
    ((searched [tree]).filter isFault).Perm (tree.nodes.filter isFault) ∧
    tree.syntaxErrors = (searched [tree]).countP isFault ∧
    tree.syntaxErrors = tree.nodes.countP isFault ∧
    ∀ path source options, options.errorRecovery = false →
      ((∃ failure, SourceUnit.read path source tree options = .error failure) ↔
        ∃ node, Within node tree ∧ node.isFault = true) ∧
      ∀ failure, SourceUnit.read path source tree options = .error failure →
        failure.message = "Unable to parse file " ++ path ++ ": " ++
          (Numeral.decimal (tree.nodes.countP isFault) ++
            " syntax error(s) and error recovery is disabled") := by
  have counted := flags.syntaxErrors_eq
  have searchedAll := searched_perm [tree] fun other member =>
    List.mem_singleton.1 member ▸ flags
  rw [nodesOfAll, nodesOfAll, List.append_nil] at searchedAll
  refine ⟨searchedAll, ?_, counted, ?_⟩
  · rw [counted, List.countP_eq_length_filter, ← searchedAll.length_eq,
      List.countP_eq_length_filter]
  · intro path source options strict
    have positive : 0 < tree.syntaxErrors ↔ ∃ node, Within node tree ∧ node.isFault = true := by
      rw [counted, List.countP_pos_iff]
      simp only [mem_nodes_iff]
    rw [← positive, ← counted]
    unfold SourceUnit.read
    rw [strict]
    by_cases refused : 0 < tree.syntaxErrors
    · rw [if_pos (by simpa using refused)]
      refine ⟨⟨fun _ => refused, fun _ => ⟨_, rfl⟩⟩, ?_⟩
      intro failure isFailure
      rw [← Except.error.inj isFailure]
      rfl
    · rw [if_neg (by simpa using refused)]
      refine ⟨⟨fun failed => ?_, fun some => absurd some refused⟩, fun failure isFailure => ?_⟩
      · obtain ⟨failure, isFailure⟩ := failed
        cases isFailure
      · cases isFailure

def brokenTree : ParseTree :=
  .node ⟨0, "translation_unit", "", true, false, true, 0, 20⟩
    [.ruleNode 1 "declaration" "" 0 6 [.ruleNode 2 "identifier" "declarator" 4 5 []],
      .node ⟨3, "ERROR", "", true, false, true, 7, 20⟩
        [.node ⟨4, "ERROR", "", true, false, true, 8, 12⟩ [],
          .ruleNode 5 "identifier" "" 13 14 [],
          .node ⟨6, ";", "", false, true, true, 20, 20⟩ []]]

/-- Errors inside of errors count, and a strict parser tells of all three. -/
theorem SourceUnit.nested_faults_are_counted :
    brokenTree.FlagsFaults ∧ brokenTree.syntaxErrors = 3 ∧
    ∃ failure, SourceUnit.read "a.c" [] brokenTree ⟨.c, false, false⟩ = .error failure ∧
      failure.message =
        "Unable to parse file a.c: 3 syntax error(s) and error recovery is disabled" := by
  have flags : brokenTree.FlagsFaults := by decide +kernel
  obtain ⟨-, -, counted, strict⟩ := every_fault_is_counted_once flags
  obtain ⟨refusedIff, message⟩ := strict "a.c" [] ⟨.c, false, false⟩ rfl
  have three : brokenTree.nodes.countP isFault = 3 := by decide +kernel
  obtain ⟨failure, refused⟩ := refusedIff.2
    ⟨_, .deeper (List.mem_cons_of_mem _ List.mem_cons_self) (.root _), rfl⟩
  refine ⟨flags, counted.trans three, failure, refused, ?_⟩
  rw [message failure refused, three]
  decide +kernel

end CrossReference
