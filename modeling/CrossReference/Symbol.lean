import CrossReference.Scope

/-!
# Symbols

A symbol is what a binding stands for: a namespace, a class, a variable and so on.
-/

set_option autoImplicit false

namespace CrossReference

inductive SymbolKind where
  | namespaceName
  | className
  | structName
  | unionName
  | enumName
  | enumerator
  | function
  | variable
  | field
  | parameter
  | typeAlias
  | templateParameter
  | macroName
  deriving DecidableEq

namespace SymbolKind

def name : SymbolKind → String
  | .namespaceName => "namespace"
  | .className => "class"
  | .structName => "struct"
  | .unionName => "union"
  | .enumName => "enum"
  | .enumerator => "enumerator"
  | .function => "function"
  | .variable => "variable"
  | .field => "field"
  | .parameter => "parameter"
  | .typeAlias => "type_alias"
  | .templateParameter => "template_parameter"
  | .macroName => "macro"

def space : SymbolKind → NameSpace
  | .className | .structName | .unionName | .enumName => .tag
  | .namespaceName | .enumerator | .function | .variable | .field | .parameter | .typeAlias
  | .templateParameter | .macroName => .ordinary

end SymbolKind

inductive TypeRef where
  /-- A use of the name of a type, by the identity of its node. -/
  | name (node : Nat)
  /-- A class or enum written out in place, by the identity of its node. -/
  | specifier (node : Nat)
  deriving DecidableEq

structure Symbol where
  name : String
  kind : SymbolKind
  /-- The scope of its members, for a namespace, class or enum. -/
  memberScope : Option Nat
  typeRef : Option TypeRef
  typeScope : Option Nat
  deriving DecidableEq

def Symbol.scope? (symbol : Symbol) : Option Nat :=
  symbol.memberScope <|> symbol.typeScope

end CrossReference
