import CrossReference.ParseTree

/-!
# Qualified names

A name such as `a::b<T>::c` is a chain of segments.  `QualifiedName.ofTree` splits it into the nodes
of its plain segments and sets apart what has to be read on its own, such as template arguments.
The nodes set apart lie below the name, which `QualifiedName.extras_lt` states as a bound on
their sizes.
-/

set_option autoImplicit false

namespace CrossReference

namespace ParseTree

def isPlainName (kind : String) : Bool :=
  kind ∈ ["identifier", "type_identifier", "namespace_identifier", "field_identifier",
    "destructor_name", "operator_name"]

def isQualified (kind : String) : Bool :=
  kind ∈ ["qualified_identifier", "qualified_type_identifier", "qualified_field_identifier"]

def isTemplateName (kind : String) : Bool :=
  kind ∈ ["template_type", "template_function", "template_method"]

end ParseTree

open ParseTree

structure QualifiedName where
  /-- Whether the name starts at the file scope. -/
  isGlobal : Bool
  /-- Whether a segment is not a plain name. -/
  isBroken : Bool
  segments : List ParseTree
  /-- Template arguments and segments that are not plain names. -/
  extras : List ParseTree

namespace QualifiedName

def empty : QualifiedName := ⟨false, false, [], []⟩

def append (first second : QualifiedName) : QualifiedName :=
  ⟨first.isGlobal || second.isGlobal, first.isBroken || second.isBroken,
    first.segments ++ second.segments, first.extras ++ second.extras⟩

def segment (tree : ParseTree) : QualifiedName :=
  if isTemplateName tree.kind then
    let name := tree.child? "name"
    ⟨false, name.isNone, name.toList, (tree.child? "arguments").toList⟩
  else if isPlainName tree.kind then ⟨false, false, [tree], []⟩
  else ⟨false, true, [], [tree]⟩

/-- The part of a name that the qualifier in front of it makes up.  Without one, a name that is not
itself behind a qualifier starts at the file scope. -/
def qualifier (outermost : Bool) (tree : ParseTree) : QualifiedName :=
  match tree.child? "scope" with
  | some scope => segment scope
  | none => { empty with isGlobal := outermost }

/-- The segments of a name from the given node on. -/
def ofTreeFrom (outermost : Bool) (tree : ParseTree) : QualifiedName :=
  if isQualified tree.kind then
    match _found : tree.child? "name" with
    | some name => (qualifier outermost tree).append (ofTreeFrom false name)
    | none => { qualifier outermost tree with isBroken := true }
  else segment tree
termination_by tree.size
decreasing_by exact size_lt_of_child? _found

def ofTree (tree : ParseTree) : QualifiedName :=
  ofTreeFrom true tree

end QualifiedName

namespace ParseTree

theorem sizes_append (first second : List ParseTree) :
    sizes (first ++ second) = sizes first + sizes second := by
  induction first with
  | nil => simp [sizes]
  | cons tree rest ih => simp [sizes, ih, Nat.add_assoc]

theorem sizes_filter_le (test : ParseTree → Bool) (trees : List ParseTree) :
    sizes (trees.filter test) ≤ sizes trees := by
  induction trees with
  | nil => simp
  | cons tree rest ih =>
    simp only [List.filter_cons]
    split <;> simp only [sizes] <;> omega

theorem sizes_find?_le (test : ParseTree → Bool) (trees : List ParseTree) :
    sizes (trees.find? test).toList ≤ sizes (trees.filter test) := by
  induction trees with
  | nil => simp [sizes]
  | cons tree rest ih =>
    cases kept : test tree <;> simp [kept, sizes, ih]

theorem sizes_filter_add_le (test other : ParseTree → Bool) (trees : List ParseTree)
    (disjoint : ∀ tree, test tree = true → other tree = false) :
    sizes (trees.filter test) + sizes (trees.filter other) ≤ sizes trees := by
  induction trees with
  | nil => simp [sizes]
  | cons tree rest ih =>
    cases kept : test tree with
    | true =>
      simp [kept, disjoint tree kept, sizes]
      omega
    | false =>
      cases keptOther : other tree <;> simp [kept, keptOther, sizes] <;> omega

theorem sizes_two_children_le (tree : ParseTree) (first second : String)
    (different : first ≠ second) :
    sizes (tree.child? first).toList + sizes (tree.child? second).toList ≤
      sizes tree.children := by
  have firstBound := sizes_find?_le (·.field = first) tree.children
  have secondBound := sizes_find?_le (·.field = second) tree.children
  have both := sizes_filter_add_le (·.field = first) (·.field = second) tree.children
    (by intro child same; simp_all)
  simp only [child?]
  omega

theorem sizes_child?_le (tree : ParseTree) (part : String) :
    sizes (tree.child? part).toList ≤ sizes tree.children := by
  have bound := sizes_find?_le (·.field = part) tree.children
  have kept := sizes_filter_le (·.field = part) tree.children
  simp only [child?]
  omega

theorem sizes_namedChildren_le (tree : ParseTree) :
    sizes tree.namedChildren ≤ sizes tree.children :=
  sizes_filter_le _ _

end ParseTree

namespace QualifiedName

theorem extras_segment_le (tree : ParseTree) : sizes (segment tree).extras ≤ tree.size := by
  have bound := sizes_child?_le tree "arguments"
  rw [size_eq]
  unfold segment
  split
  · simp only
    omega
  · split
    · simp [sizes]
    · simp [sizes, size_eq]

theorem extras_qualifier_le (outermost : Bool) (tree : ParseTree) :
    sizes (qualifier outermost tree).extras ≤ sizes (tree.child? "scope").toList := by
  unfold qualifier
  cases found : tree.child? "scope" with
  | none => simp [empty, sizes]
  | some scope => simpa [sizes] using extras_segment_le scope

theorem extras_ofTreeFrom_le (outermost : Bool) (tree : ParseTree) :
    sizes (ofTreeFrom outermost tree).extras ≤ tree.size := by
  fun_induction ofTreeFrom outermost tree with
  | case1 outermost tree qualified name found ih =>
    have front := extras_qualifier_le outermost tree
    have both := sizes_two_children_le tree "scope" "name" (by decide)
    simp only [append, sizes_append, size_eq tree]
    simp only [found, Option.toList_some, sizes] at both
    omega
  | case2 outermost tree qualified missing =>
    have front := extras_qualifier_le outermost tree
    have bound := sizes_child?_le tree "scope"
    change sizes (qualifier outermost tree).extras ≤ tree.size
    simp only [size_eq tree]
    omega
  | case3 outermost tree plain => exact extras_segment_le tree

/-- What is set apart from a name that is plain, qualified or has template arguments is smaller
than the name. -/
theorem extras_lt {tree : ParseTree}
    (isName : (isPlainName tree.kind || isQualified tree.kind || isTemplateName tree.kind) = true) :
    sizes (ofTree tree).extras < tree.size := by
  unfold ofTree
  rw [ofTreeFrom]
  split
  · split
    · rename_i name found
      have front := extras_qualifier_le true tree
      have both := sizes_two_children_le tree "scope" "name" (by decide)
      have back := extras_ofTreeFrom_le false name
      simp only [append, sizes_append, size_eq tree]
      simp only [found, Option.toList_some, sizes] at both
      omega
    · have front := extras_qualifier_le true tree
      have bound := sizes_child?_le tree "scope"
      change sizes (qualifier true tree).extras < tree.size
      simp only [size_eq tree]
      omega
  · rename_i unqualified
    have bound := sizes_child?_le tree "arguments"
    rw [size_eq]
    unfold segment
    split
    · simp only
      omega
    · split
      · simp [sizes]
      · simp_all

end QualifiedName

end CrossReference
