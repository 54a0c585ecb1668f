import CrossReference.ParseTree.Declarator
import CrossReference.Proofs.ParseTree.Nodes
import CrossReference.Proofs.ParseTree.Parts

/-!
# Loops that descend

The segments of a name, the name in a declarator and the segments of the name of a namespace are
found by loops that take a node and put some of its children in its place.  Such a loop ends on
every tree, after no more rounds than the tree has nodes, and it never passes a node twice.
-/

set_option autoImplicit false

namespace CrossReference

namespace ParseTree

/-- What a loop over a stack of nodes does in each round: it takes the first node away, and puts
some of the children of that node in its place. -/
structure Descent where
  next : ParseTree → List ParseTree
  descends : ∀ tree : ParseTree, (next tree).Sublist tree.children

theorem sizes_le_of_sublist {trees parts : List ParseTree} (sublist : parts.Sublist trees) :
    sizes parts ≤ sizes trees := by
  induction sublist with
  | slnil => exact Nat.le_refl _
  | cons tree _ ih =>
    simp only [sizes]
    omega
  | cons_cons tree _ ih =>
    simp only [sizes]
    omega

theorem nodesOfAll_sublist {trees parts : List ParseTree} (sublist : parts.Sublist trees) :
    (nodesOfAll parts).Sublist (nodesOfAll trees) := by
  induction sublist with
  | slnil => exact .refl _
  | cons tree _ ih => exact ih.trans (List.sublist_append_right _ _)
  | cons_cons tree _ ih => exact (List.Sublist.refl tree.nodes).append ih

namespace Descent

variable (descent : Descent)

theorem sizes_next_lt (tree : ParseTree) : sizes (descent.next tree) < tree.size := by
  have bound := sizes_le_of_sublist (descent.descends tree)
  rw [size_eq]
  omega

/-- The nodes that a loop passes before no node is left. -/
def passed : List ParseTree → List ParseTree
  | [] => []
  | tree :: rest => tree :: passed (descent.next tree ++ rest)
termination_by stack => sizes stack
decreasing_by
  have smaller := descent.sizes_next_lt tree
  rw [sizes_append]
  simp only [sizes]
  omega

/-- The nodes that a loop passes in at most so many rounds; nothing if nodes are left then. -/
def passedWithin : Nat → List ParseTree → Option (List ParseTree)
  | _, [] => some []
  | 0, _ :: _ => none
  | rounds + 1, tree :: rest =>
      (passedWithin rounds (descent.next tree ++ rest)).map fun later => tree :: later

@[simp]
theorem passed_nil : descent.passed [] = [] := by
  rw [passed]

theorem passed_cons (tree : ParseTree) (rest : List ParseTree) :
    descent.passed (tree :: rest) = tree :: descent.passed (descent.next tree ++ rest) := by
  rw [passed]

theorem passed_append (first second : List ParseTree) :
    descent.passed (first ++ second) = descent.passed first ++ descent.passed second := by
  fun_induction passed descent first with
  | case1 => rfl
  | case2 tree rest ih =>
    rw [List.cons_append, passed_cons, ← List.append_assoc, ih, List.cons_append]

/-- A loop ends after at most as many rounds as there are nodes. -/
theorem passedWithin_eq {rounds : Nat} {stack : List ParseTree} (enough : sizes stack ≤ rounds) :
    descent.passedWithin rounds stack = some (descent.passed stack) := by
  induction rounds generalizing stack with
  | zero =>
    cases stack with
    | nil => simp [passedWithin]
    | cons tree rest =>
      have positive := size_pos tree
      simp only [sizes] at enough
      omega
  | succ rounds ih =>
    cases stack with
    | nil => simp [passedWithin]
    | cons tree rest =>
      have smaller := descent.sizes_next_lt tree
      have left : sizes (descent.next tree ++ rest) ≤ rounds := by
        rw [sizes_append]
        simp only [sizes] at enough
        omega
      rw [passedWithin, ih left, passed_cons]
      rfl

/-- A loop passes nodes in preorder, and each one at most once. -/
theorem passed_sublist (stack : List ParseTree) :
    (descent.passed stack).Sublist (nodesOfAll stack) := by
  fun_induction passed descent stack with
  | case1 => exact .refl _
  | case2 tree rest ih =>
    rw [nodesOfAll, nodes_eq, List.cons_append, ← nodesOfAll_append]
    exact (ih.trans (nodesOfAll_sublist ((descent.descends tree).append_right rest))).cons_cons tree

theorem passed_ne_nil (tree : ParseTree) : descent.passed [tree] ≠ [] := by
  rw [passed_cons]
  exact List.cons_ne_nil _ _

theorem passed_of_last {tree : ParseTree} (ends : descent.next tree = []) :
    descent.passed [tree] = [tree] := by
  rw [passed_cons, ends, List.append_nil, passed_nil]

theorem passed_of_step {tree inner : ParseTree} (leads : descent.next tree = [inner]) :
    descent.passed [tree] = tree :: descent.passed [inner] := by
  rw [passed_cons, leads, List.append_nil]

theorem getLast?_passed_of_step {tree inner : ParseTree} (leads : descent.next tree = [inner]) :
    (descent.passed [tree]).getLast? = (descent.passed [inner]).getLast? := by
  rw [passed_of_step descent leads, List.getLast?_cons_of_ne_nil (descent.passed_ne_nil inner)]

end Descent

/-! ## Steps to single children -/

theorem child?_toList_sublist (tree : ParseTree) (part : String) :
    (tree.child? part).toList.Sublist tree.children :=
  (find?_toList_sublist _ _).trans List.filter_sublist

theorem innerDeclarator?_toList_sublist (tree : ParseTree) :
    tree.innerDeclarator?.toList.Sublist tree.children := by
  cases found : tree.innerDeclarator? with
  | none => exact List.nil_sublist _
  | some inner =>
    refine List.singleton_sublist.2 ?_
    unfold innerDeclarator? at found
    split at found
    · rename_i declarator isDeclarator
      cases found
      exact mem_of_child? isDeclarator
    · exact mem_of_mem_namedChildren (List.mem_of_find?_eq_some found)

/-! ## The name in a declarator -/

def isDeclaredName (kind : String) : Bool :=
  isPlainName kind || isQualified kind || kind = "template_function"

theorem declaratorName?_of_name {tree : ParseTree} (isName : isDeclaredName tree.kind = true) :
    tree.declaratorName? = some tree := by
  rw [declaratorName?]
  exact if_pos isName

theorem declaratorName?_of_inner {tree inner : ParseTree} (noName : isDeclaredName tree.kind = false)
    (found : tree.innerDeclarator? = some inner) :
    tree.declaratorName? = inner.declaratorName? := by
  rw [declaratorName?, if_neg (by simpa [isDeclaredName] using noName)]
  split
  · rename_i other isOther
    obtain rfl := Option.some.inj (found.symm.trans isOther)
    rfl
  · rename_i missing
    rw [found] at missing
    cases missing

def declaratorDescent : Descent where
  next tree := if isDeclaredName tree.kind then [] else tree.innerDeclarator?.toList
  descends tree := by
    split
    · exact List.nil_sublist _
    · exact innerDeclarator?_toList_sublist tree

theorem declaratorName?_eq (tree : ParseTree) :
    tree.declaratorName? =
      (declaratorDescent.passed [tree]).getLast?.filter fun last => isDeclaredName last.kind := by
  fun_induction declaratorName? tree with
  | case1 tree isName =>
    have isLast : isDeclaredName tree.kind = true := isName
    have ends : declaratorDescent.next tree = [] := if_pos isLast
    rw [declaratorDescent.passed_of_last ends, List.getLast?_singleton, Option.filter_some,
      if_pos isLast]
  | case2 tree noName inner found ih =>
    have leads : declaratorDescent.next tree = [inner] := by
      simp only [declaratorDescent, isDeclaredName, noName, found, Option.toList_some,
        Bool.false_eq_true, if_false]
    rw [declaratorDescent.getLast?_passed_of_step leads, ih]
  | case3 tree noName missing =>
    have ends : declaratorDescent.next tree = [] := by
      simp only [declaratorDescent, missing, Option.toList_none, ite_self]
    rw [declaratorDescent.passed_of_last ends, List.getLast?_singleton, Option.filter_some,
      if_neg (by exact noName)]

/-! ## The segments of the name of a namespace -/

def isNamespaceSegment (kind : String) : Bool :=
  kind = "namespace_identifier" || kind = "identifier"

def namespaceDescent : Descent where
  next tree := if isNamespaceSegment tree.kind then [] else tree.namedChildren
  descends tree := by
    split
    · exact List.nil_sublist _
    · exact List.filter_sublist

mutual

theorem namespaceSegments_eq :
    ∀ tree : ParseTree, tree.namespaceSegments =
      (namespaceDescent.passed [tree]).filter fun node => isNamespaceSegment node.kind
  | node label children => by
    unfold namespaceSegments
    by_cases isSegment : isNamespaceSegment label.kind = true
    · have ends : namespaceDescent.next (node label children) = [] := if_pos isSegment
      rw [namespaceDescent.passed_of_last ends, if_pos (by exact isSegment),
        List.filter_cons_of_pos (by exact isSegment), List.filter_nil]
    · have leads : namespaceDescent.next (node label children) =
          children.filter (·.isNamed) := if_neg isSegment
      rw [namespaceDescent.passed_cons, leads, List.append_nil, if_neg (by exact isSegment),
        List.filter_cons_of_neg (by exact isSegment)]
      exact namespaceSegmentsOfAll_eq children

/-- The segments below the nodes of a list are those that the search passes. -/
theorem namespaceSegmentsOfAll_eq :
    ∀ trees : List ParseTree, namespaceSegmentsOfAll trees =
      (namespaceDescent.passed (trees.filter (·.isNamed))).filter
        fun node => isNamespaceSegment node.kind
  | [] => by simp [namespaceSegmentsOfAll]
  | first :: rest => by
    unfold namespaceSegmentsOfAll
    split
    · rename_i isNamed
      rw [List.filter_cons_of_pos isNamed, ← List.singleton_append, namespaceDescent.passed_append,
        List.filter_append, namespaceSegments_eq first, namespaceSegmentsOfAll_eq rest]
    · rename_i noRule
      rw [List.filter_cons_of_neg noRule, namespaceSegmentsOfAll_eq rest]

end

end ParseTree

/-! ## The segments of a qualified name -/

namespace QualifiedName

open ParseTree

def descent : Descent where
  next tree := if isQualified tree.kind then (tree.child? "name").toList else []
  descends tree := by
    split
    · exact child?_toList_sublist tree "name"
    · exact List.nil_sublist _

/-- What a node that is passed adds to the segments. -/
def piece (outermost : Bool) (tree : ParseTree) : QualifiedName :=
  if isQualified tree.kind then
    { qualifier outermost tree with
      isBroken := (qualifier outermost tree).isBroken || (tree.child? "name").isNone }
  else segment tree

def ofPieces : List ParseTree → QualifiedName
  | [] => empty
  | first :: rest => rest.foldl (fun name tree => name.append (piece false tree)) (piece true first)

theorem append_assoc (first second third : QualifiedName) :
    (first.append second).append third = first.append (second.append third) := by
  simp [append, Bool.or_assoc]

theorem foldl_append (first second : QualifiedName) (trees : List ParseTree) :
    trees.foldl (fun name tree => name.append (piece false tree)) (first.append second) =
      first.append (trees.foldl (fun name tree => name.append (piece false tree)) second) := by
  induction trees generalizing second with
  | nil => rfl
  | cons tree rest ih => rw [List.foldl_cons, append_assoc, ih, List.foldl_cons]

theorem ofTreeFrom_eq (outermost : Bool) (tree : ParseTree) :
    ∃ rest, descent.passed [tree] = tree :: rest ∧
      ofTreeFrom outermost tree =
        rest.foldl (fun name tree => name.append (piece false tree)) (piece outermost tree) := by
  fun_induction ofTreeFrom outermost tree with
  | case1 outermost tree qualified name found ih =>
    obtain ⟨rest, passed, same⟩ := ih
    have leads : descent.next tree = [name] := by
      simp only [descent, qualified, if_true, found, Option.toList_some]
    have isPiece : piece outermost tree = qualifier outermost tree := by
      simp [piece, qualified, found]
    refine ⟨name :: rest, by rw [descent.passed_of_step leads, passed], ?_⟩
    rw [List.foldl_cons, isPiece, foldl_append, same]
  | case2 outermost tree qualified missing =>
    have ends : descent.next tree = [] := by
      simp only [descent, qualified, if_true, missing, Option.toList_none]
    refine ⟨[], descent.passed_of_last ends, ?_⟩
    rw [List.foldl_nil, piece, if_pos qualified, missing, Option.isNone_none, Bool.or_true]
  | case3 outermost tree unqualified =>
    have ends : descent.next tree = [] := if_neg unqualified
    exact ⟨[], descent.passed_of_last ends, (if_neg unqualified).symm⟩

/-- The segments of a name are those of the nodes that the search passes. -/
theorem ofTree_eq (tree : ParseTree) : ofTree tree = ofPieces (descent.passed [tree]) := by
  obtain ⟨rest, passed, same⟩ := ofTreeFrom_eq true tree
  rw [ofTree, same, passed, ofPieces]

end QualifiedName

end CrossReference
