import CrossReference.ParseTree.QualifiedName
import CrossReference.Symbol

/-!
# Declarators and types

What is declared stands inside wrappers for pointers, arrays and functions.  `declaratorName?` looks
through them for the name, `typeRef?` reads which type a declaration names, and
`namespaceSegments` splits the name of a nested namespace.
-/

set_option autoImplicit false

namespace CrossReference.ParseTree

def isDeclaratorKind (kind : String) : Bool :=
  "declarator".toList.isSuffixOf kind.toList

/-- Whether nodes of a kind are declarators or names. -/
def isDeclaratorLike (kind : String) : Bool :=
  isDeclaratorKind kind || isPlainName kind || isQualified kind || kind = "template_function"

def innerDeclarator? (tree : ParseTree) : Option ParseTree :=
  match tree.child? "declarator" with
  | some declarator => some declarator
  | none => tree.namedChildren.find? (isDeclaratorLike ·.kind)

theorem size_lt_of_innerDeclarator? {tree inner : ParseTree}
    (found : tree.innerDeclarator? = some inner) : inner.size < tree.size := by
  unfold innerDeclarator? at found
  split at found
  · rename_i declarator child
    cases found
    exact size_lt_of_child? child
  · exact size_lt_of_mem (mem_of_mem_namedChildren (List.mem_of_find?_eq_some found))

def declaratorName? (tree : ParseTree) : Option ParseTree :=
  if isPlainName tree.kind || isQualified tree.kind || tree.kind = "template_function" then
    some tree
  else
    match _found : tree.innerDeclarator? with
    | some inner => declaratorName? inner
    | none => none
termination_by tree.size
decreasing_by exact size_lt_of_innerDeclarator? _found

def isSpecifier (kind : String) : Bool :=
  kind ∈ ["class_specifier", "struct_specifier", "union_specifier", "enum_specifier"]

/-- The type that the node of a type names: its last segment, or the specifier itself where that is
written out. -/
def typeRef? (tree : ParseTree) : Option TypeRef :=
  if isSpecifier tree.kind then
    if (tree.child? "body").isSome then some (.specifier tree.id)
    else
      match _found : tree.child? "name" with
      | some name => typeRef? name
      | none => none
  else if tree.kind = "type_descriptor" then
    match _found : tree.child? "type" with
    | some type => typeRef? type
    | none => none
  else if tree.kind = "template_type" then
    (tree.child? "name").map fun name => .name name.id
  else if tree.kind = "type_identifier" then some (.name tree.id)
  else if isQualified tree.kind then
    let name := QualifiedName.ofTree tree
    if name.isBroken then none else name.segments.getLast?.map fun last => .name last.id
  else none
termination_by tree.size
decreasing_by all_goals exact size_lt_of_child? _found

/-- The type named by the part `type` of a declaration. -/
def declaredType? (tree : ParseTree) : Option TypeRef :=
  match tree.child? "type" with
  | some type => typeRef? type
  | none => none

/-- Whether a class or enum specifier without a body declares its tag where it is a child of this
node.  Elsewhere it only names the tag, as in the declaration of a variable. -/
def declaresTags (parent : ParseTree) : Bool :=
  parent.kind ∈ ["translation_unit", "declaration_list", "field_declaration_list",
      "template_declaration", "linkage_specification", "compound_statement", "preproc_if",
      "preproc_ifdef", "preproc_elif", "preproc_elifdef", "preproc_else"] ||
    (parent.kind ∈ ["declaration", "field_declaration"] &&
      (parent.child? "declarator").isNone)

mutual

def namespaceSegments : ParseTree → List ParseTree
  | node label children =>
      if label.kind = "namespace_identifier" || label.kind = "identifier" then
        [node label children]
      else namespaceSegmentsOfAll children

/-- The segments below those nodes of a list that stand for rules of the grammar. -/
def namespaceSegmentsOfAll : List ParseTree → List ParseTree
  | [] => []
  | first :: rest =>
      if first.isNamed then namespaceSegments first ++ namespaceSegmentsOfAll rest
      else namespaceSegmentsOfAll rest

end

end CrossReference.ParseTree
