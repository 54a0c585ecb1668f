/-!
# Scopes

A scope maps spellings to bindings in two tables, one for ordinary names and one for tags (the
names of classes, structs, unions and enums), so that `struct stat` and `stat` are told apart.
Scopes are numbered in the order of their creation; number zero is the file scope.
-/

set_option autoImplicit false

namespace CrossReference

inductive NameSpace where
  /-- Variables, functions, type aliases, enumerators, namespaces. -/
  | ordinary
  /-- Classes, structs, unions and enums. -/
  | tag
  /-- A name before `::` or in a list of base classes. -/
  | qualifier
  deriving DecidableEq

inductive ScopeKind where
  | file
  | namespaceBody
  | classBody
  | templateHead
  | function
  | block
  deriving DecidableEq

/-- Whether names of a scope are visible only from their declaration on. -/
def ScopeKind.isOrdered : ScopeKind → Bool
  | .function | .block => true
  | .file | .namespaceBody | .classBody | .templateHead => false

structure ScopeEntry where
  binding : Nat
  declaredAt : Nat
  deriving DecidableEq

abbrev ScopeTable := List (String × ScopeEntry)

namespace ScopeTable

def find? (table : ScopeTable) (name : String) : Option ScopeEntry :=
  (List.find? (·.1 = name) table).map (·.2)

def declare (table : ScopeTable) (name : String) (entry : ScopeEntry) : ScopeTable :=
  if (table.find? name).isSome then table else table ++ [(name, entry)]

end ScopeTable

structure Scope where
  kind : ScopeKind
  parent : Option Nat
  symbols : ScopeTable
  tags : ScopeTable
  bases : List Nat
  usings : List Nat
  deriving DecidableEq

def Scope.fresh (kind : ScopeKind) (parent : Option Nat) : Scope :=
  ⟨kind, parent, [], [], [], []⟩

structure Scopes where
  all : Array Scope
  /-- Whether a tag is also a name of a type by itself. -/
  tagsAreTypes : Bool
  deriving DecidableEq

namespace Scopes

def file : Nat := 0

def initial (tagsAreTypes : Bool) : Scopes :=
  ⟨#[Scope.fresh .file none], tagsAreTypes⟩

variable (scopes : Scopes)

def next : Nat := scopes.all.size

def push (kind : ScopeKind) (parent : Option Nat) : Scopes :=
  { scopes with all := scopes.all.push (Scope.fresh kind parent) }

def declare (scope : Nat) (space : NameSpace) (name : String) (binding position : Nat) :
    Scopes :=
  let entry : ScopeEntry := ⟨binding, position⟩
  { scopes with
    all := scopes.all.modify scope fun found =>
      match space with
      | .tag => { found with tags := found.tags.declare name entry }
      | .ordinary | .qualifier => { found with symbols := found.symbols.declare name entry } }

/-- Add a number to a list of edges from a scope, unless it is there or is the scope itself. -/
def addEdge (scope target : Nat) (edges : List Nat) : List Nat :=
  if scope = target ∨ target ∈ edges then edges else edges ++ [target]

def addBase (scope base : Nat) : Scopes :=
  { scopes with
    all := scopes.all.modify scope fun found =>
      { found with bases := addEdge scope base found.bases } }

def addUsing (scope used : Nat) : Scopes :=
  { scopes with
    all := scopes.all.modify scope fun found =>
      { found with usings := addEdge scope used found.usings } }

end Scopes

end CrossReference
