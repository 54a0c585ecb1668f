import CrossReference.ParseTree.QualifiedName

/-!
# Nodes within a tree

`Within part tree` says that `part` is the tree itself or a node somewhere below its root.  The
segments of a name and all that is set apart from it lie within the name.  `ruleNode` is a short
way to write trees down.
-/

set_option autoImplicit false

namespace CrossReference

namespace ParseTree

def ruleNode (id : Nat) (kind field : String) (start stop : Nat) (children : List ParseTree) :
    ParseTree :=
  .node ⟨id, kind, field, true, false, false, start, stop⟩ children

inductive Within : ParseTree → ParseTree → Prop where
  | root (tree : ParseTree) : Within tree tree
  | deeper {part child tree : ParseTree} (member : child ∈ tree.children)
      (inner : Within part child) : Within part tree

namespace Within

theorem trans {first second third : ParseTree} (inner : Within first second)
    (outer : Within second third) : Within first third := by
  induction outer with
  | root => exact inner
  | deeper member _ ih => exact .deeper member ih

theorem of_mem_children {child tree : ParseTree} (member : child ∈ tree.children) :
    Within child tree :=
  .deeper member (.root child)

theorem of_mem_namedChildren {child tree : ParseTree} (member : child ∈ tree.namedChildren) :
    Within child tree :=
  of_mem_children (mem_of_mem_namedChildren member)

theorem of_child? {child tree : ParseTree} {part : String} (found : tree.child? part = some child) :
    Within child tree :=
  of_mem_children (mem_of_child? found)

theorem of_mem_child? {child tree : ParseTree} {part : String}
    (member : child ∈ (tree.child? part).toList) : Within child tree :=
  of_child? (Option.mem_toList.1 member)

end Within

/-- What holds of a node and of all below its children holds of all within the node. -/
theorem forall_within_node {holds : ParseTree → Prop} {label : NodeLabel}
    {children : List ParseTree} :
    (∀ part, Within part (.node label children) → holds part) ↔
      holds (.node label children) ∧ ∀ child ∈ children, ∀ part, Within part child → holds part := by
  constructor
  · intro all
    refine ⟨all _ (.root _), ?_⟩
    intro child member part within
    exact all part (.deeper member within)
  · rintro ⟨here, below⟩ part within
    cases within with
    | root => exact here
    | deeper member inner => exact below _ member part inner

end ParseTree

namespace QualifiedName

open ParseTree

/-- All nodes that a name is split into lie within a tree. -/
structure LiesWithin (name : QualifiedName) (tree : ParseTree) : Prop where
  segments : ∀ part ∈ name.segments, Within part tree
  extras : ∀ part ∈ name.extras, Within part tree

theorem LiesWithin.widen {name : QualifiedName} {inner outer : ParseTree}
    (lies : name.LiesWithin inner) (within : Within inner outer) : name.LiesWithin outer :=
  ⟨fun part member => (lies.segments part member).trans within,
    fun part member => (lies.extras part member).trans within⟩

theorem LiesWithin.append {first second : QualifiedName} {tree : ParseTree}
    (front : first.LiesWithin tree) (back : second.LiesWithin tree) :
    (first.append second).LiesWithin tree :=
  ⟨fun part member => (List.mem_append.1 member).elim (front.segments part) (back.segments part),
    fun part member => (List.mem_append.1 member).elim (front.extras part) (back.extras part)⟩

theorem segment_liesWithin (tree : ParseTree) : (segment tree).LiesWithin tree := by
  unfold segment
  split
  · exact ⟨fun _ => Within.of_mem_child?, fun _ => Within.of_mem_child?⟩
  · split
    · exact ⟨by simp [Within.root], by simp⟩
    · exact ⟨by simp, by simp [Within.root]⟩

theorem qualifier_liesWithin (outermost : Bool) (tree : ParseTree) :
    (qualifier outermost tree).LiesWithin tree := by
  unfold qualifier
  split
  · rename_i scope found
    exact (segment_liesWithin scope).widen (Within.of_child? found)
  · exact ⟨by simp [empty], by simp [empty]⟩

theorem ofTreeFrom_liesWithin (outermost : Bool) (tree : ParseTree) :
    (ofTreeFrom outermost tree).LiesWithin tree := by
  fun_induction ofTreeFrom outermost tree with
  | case1 outermost tree qualified name found ih =>
    exact (qualifier_liesWithin outermost tree).append (ih.widen (Within.of_child? found))
  | case2 outermost tree qualified missing =>
    have front := qualifier_liesWithin outermost tree
    exact ⟨front.segments, front.extras⟩
  | case3 outermost tree plain => exact segment_liesWithin tree

theorem ofTree_liesWithin (tree : ParseTree) : (ofTree tree).LiesWithin tree :=
  ofTreeFrom_liesWithin true tree

end QualifiedName

end CrossReference
