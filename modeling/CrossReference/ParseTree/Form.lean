import CrossReference.ParseTree.Declarator

/-!
# Forms of nodes

The grammar has many kinds of nodes, and the walk treats most of them alike.  A `Form` is one of
the ways in which it treats a node.
-/

set_option autoImplicit false

namespace CrossReference.ParseTree

inductive Form where
  /-- Nothing in the node is a name. -/
  | silent
  | function
  /-- Declarators declare symbols of the kind. -/
  | declaration (kind : SymbolKind)
  | classSpecifier (kind : SymbolKind)
  | enumSpecifier
  | enumerator
  | namespaceDefinition
  | template
  | typeParameter
  | alias
  | usingDeclaration
  | macroDefinition
  | directive
  | conditional
  | block
  | lambda
  | memberAccess
  | name
  /-- Only what is inside counts. -/
  | transparent
  deriving DecidableEq

/-- The kinds of nodes that are no names and have a form of their own. -/
def Form.table : List (List String × Form) :=
  [(["comment", "string_literal", "raw_string_literal", "char_literal", "number_literal",
      "primitive_type", "preproc_include", "preproc_arg", "statement_identifier",
      "field_designator", "this", "true", "false", "null", "nullptr"], .silent),
    (["function_definition"], .function),
    (["declaration"], .declaration .variable),
    (["field_declaration"], .declaration .field),
    (["parameter_declaration", "optional_parameter_declaration",
      "variadic_parameter_declaration"], .declaration .parameter),
    (["type_definition"], .declaration .typeAlias),
    (["class_specifier"], .classSpecifier .className),
    (["struct_specifier"], .classSpecifier .structName),
    (["union_specifier"], .classSpecifier .unionName),
    (["enum_specifier"], .enumSpecifier),
    (["enumerator"], .enumerator),
    (["namespace_definition"], .namespaceDefinition),
    (["template_declaration"], .template),
    (["type_parameter_declaration", "optional_type_parameter_declaration",
      "variadic_type_parameter_declaration"], .typeParameter),
    (["alias_declaration"], .alias),
    (["using_declaration"], .usingDeclaration),
    (["preproc_def", "preproc_function_def"], .macroDefinition),
    (["preproc_call"], .directive),
    (["preproc_if", "preproc_ifdef"], .conditional),
    (["compound_statement", "for_statement", "for_range_loop", "if_statement", "while_statement",
      "switch_statement", "catch_clause"], .block),
    (["lambda_expression"], .lambda),
    (["field_expression"], .memberAccess)]

def Form.ofKind (kind : String) : Form :=
  match Form.table.find? (·.1.contains kind) with
  | some (_, form) => form
  | none => if isPlainName kind || isQualified kind then .name else .transparent

def form (tree : ParseTree) : Form :=
  Form.ofKind tree.kind

theorem isName_of_form {tree : ParseTree} (same : tree.form = .name) :
    (isPlainName tree.kind || isQualified tree.kind) = true := by
  have noName : ∀ entry ∈ Form.table, entry.2 ≠ .name := by decide
  unfold form Form.ofKind at same
  split at same
  · rename_i found
    exact absurd same (noName _ (List.mem_of_find?_eq_some found))
  · split at same
    · assumption
    · cases same

end CrossReference.ParseTree
