import CrossReference.Condition.Macros
import CrossReference.ParseTree
import CrossReference.Position
import CrossReference.Scope.Lookup
import CrossReference.Symbol

/-!
# The state of the walk

The walk over a parse tree gathers declarations, occurrences of names, symbols and scopes.  Names
that only use a symbol wait for the end of the walk, since members may be declared further down.
-/

set_option autoImplicit false

namespace CrossReference.Walk

structure DeclarationNode where
  kind : String
  nested : List Nat
  names : List Nat
  active : Bool
  deriving DecidableEq

structure NameNode where
  text : String
  location : Option Location
  declares : Bool
  binding : Option Nat
  deriving DecidableEq

structure MacroSpan where
  start : Nat
  stop : Option Nat
  deriving DecidableEq

/-- Whether a macro is defined at a position by the definition that begins the span. -/
def MacroSpan.covers (span : MacroSpan) (position : Nat) : Bool :=
  decide (span.start ≤ position) &&
    match span.stop with
    | some stop => decide (position < stop)
    | none => true

structure MacroEntry where
  binding : Nat
  spans : List MacroSpan
  deriving DecidableEq

/-- What a use does besides being bound. -/
inductive Effect where
  | none
  /-- It makes the names of a namespace visible in a scope. -/
  | usingNamespace (into : Nat)
  /-- It declares in a scope what it names, visible from a position on. -/
  | usingDeclaration (into : Nat) (position : Nat)
  /-- It names a base of the class with a scope. -/
  | base (derived : Nat)
  deriving DecidableEq

structure PendingUse where
  names : List Nat
  /-- The name space of the last segment; those before it are qualifiers. -/
  space : NameSpace
  isGlobal : Bool
  scope : Nat
  position : Nat
  effect : Effect
  deriving DecidableEq

inductive ObjectRef where
  /-- What a name denotes, by the identity of its node. -/
  | name (node : Nat)
  /-- The current object of the class with a scope. -/
  | class (scope : Nat)
  deriving DecidableEq

structure PendingMember where
  name : Nat
  object : Option ObjectRef
  deriving DecidableEq

structure Context where
  /-- The scope in which names are looked up. -/
  scope : Nat
  /-- The scope that receives declarations; under the head of a template it lies further out. -/
  declareIn : Nat
  owner : Option Nat
  active : Bool
  deriving DecidableEq

def Context.file : Context := ⟨Scopes.file, Scopes.file, none, true⟩

def Context.within (context : Context) (scope : Nat) : Context :=
  { context with scope := scope, declareIn := scope }

structure State where
  topLevel : List Nat
  declarations : Array DeclarationNode
  names : Array NameNode
  symbols : Array Symbol
  scopes : Scopes
  macros : List (String × MacroEntry)
  macroValues : Condition.Macros
  uses : Array PendingUse
  members : Array PendingMember
  /-- The occurrence that a node became, the latest first. -/
  nameOfNode : List (Nat × Nat)
  /-- The scope of the members of a specifier, the latest first. -/
  scopeOfSpecifier : List (Nat × Nat)

namespace State

def initial (tagsAreTypes : Bool) : State where
  topLevel := []
  declarations := #[]
  names := #[]
  symbols := #[]
  scopes := Scopes.initial tagsAreTypes
  macros := []
  macroValues := []
  uses := #[]
  members := #[]
  nameOfNode := []
  scopeOfSpecifier := []

variable (state : State)

def openDeclaration (kind : String) (context : Context) : State × Context :=
  let declaration := state.declarations.size
  let opened := { state with
    declarations := state.declarations.push ⟨kind, [], [], context.active⟩ }
  let linked :=
    match context.owner with
    | some parent =>
        { opened with
          declarations := opened.declarations.modify parent fun found =>
            { found with nested := found.nested ++ [declaration] } }
    | none => { opened with topLevel := opened.topLevel ++ [declaration] }
  (linked, { context with owner := some declaration })

/-- Where a node stands.  A node that is missing or covers nothing has no place in the text. -/
def locationOf (source : List Char) (tree : ParseTree) : Option Location :=
  if tree.label.isMissing || decide (tree.stop ≤ tree.start) then none
  else
    let start := Text.charactersBefore source tree.start
    let stop := Text.charactersBefore source tree.stop
    some ⟨start, stop - start⟩

def addName (source : List Char) (tree : ParseTree) (context : Context) (declares : Bool) :
    State × Nat :=
  let name := state.names.size
  let declarations :=
    match context.owner with
    | some owner => state.declarations.modify owner fun found =>
        { found with names := found.names ++ [name] }
    | none => state.declarations
  ({ state with
      names := state.names.push ⟨tree.text source, locationOf source tree, declares, none⟩
      declarations := declarations
      nameOfNode := (tree.id, name) :: state.nameOfNode },
    name)

def setBinding (name : Nat) (binding : Option Nat) : State :=
  { state with names := state.names.modify name fun found => { found with binding := binding } }

def binding? (name : Nat) : Option Nat :=
  match state.names[name]? with
  | some found => found.binding
  | none => none

def spelling (name : Nat) : String :=
  match state.names[name]? with
  | some found => found.text
  | none => ""

def addSymbol (name : String) (kind : SymbolKind) : State × Nat :=
  ({ state with symbols := state.symbols.push ⟨name, kind, none, none, none⟩ },
    state.symbols.size)

/-- Bind an occurrence that declares a symbol.  The first type that a symbol is declared with
stays. -/
def bindDeclaration (name binding : Nat) (typeRef : Option TypeRef) : State :=
  let bound := state.setBinding name (some binding)
  { bound with
    symbols := bound.symbols.modify binding fun symbol =>
      { symbol with typeRef := symbol.typeRef <|> typeRef } }

def memberScope? (binding : Nat) : Option Nat :=
  match state.symbols[binding]? with
  | some symbol => symbol.memberScope
  | none => none

def typeScope? (binding : Nat) : Option Nat :=
  match state.symbols[binding]? with
  | some symbol => symbol.typeScope
  | none => none

def scope? (binding : Nat) : Option Nat :=
  match state.symbols[binding]? with
  | some symbol => symbol.scope?
  | none => none

def pushScope (kind : ScopeKind) (parent : Nat) : State × Nat :=
  ({ state with scopes := state.scopes.push kind (some parent) }, state.scopes.next)

def openMembers (binding : Option Nat) (kind : ScopeKind) (parent : Nat) : State × Nat :=
  match binding.bind state.memberScope? with
  | some scope => (state, scope)
  | none =>
      let (pushed, scope) := state.pushScope kind parent
      match binding with
      | some binding =>
          ({ pushed with
              symbols := pushed.symbols.modify binding fun symbol =>
                { symbol with memberScope := some scope } }, scope)
      | none => (pushed, scope)

def noteSpecifier (tree : ParseTree) (scope : Nat) : State :=
  { state with scopeOfSpecifier := (tree.id, scope) :: state.scopeOfSpecifier }

/-- The symbol for a spelling in a scope: the one that is declared there, or a new one that is then
declared there. -/
def symbolIn (existing : Option Nat) (scope : Nat) (kind : SymbolKind) (text : String)
    (position : Nat) : State × Nat :=
  match existing with
  | some binding => (state, binding)
  | none =>
      let (added, binding) := state.addSymbol text kind
      ({ added with
          scopes := added.scopes.declare scope kind.space text binding position }, binding)

/-- Declare the name at a node in a scope.  An earlier declaration of the same spelling there
shares its symbol. -/
def declare (source : List Char) (tree : ParseTree) (context : Context) (scope : Nat)
    (kind : SymbolKind) (typeRef : Option TypeRef) : State × Option Nat :=
  let (named, name) := state.addName source tree context true
  let text := tree.text source
  if text.isEmpty then (named, none)
  else
    let (declared, binding) :=
      named.symbolIn (named.scopes.local? kind.space text scope) scope kind text tree.start
    (declared.bindDeclaration name binding typeRef, some binding)

def macroAt? (name : String) (position : Nat) : Option Nat :=
  match state.macros.find? (·.1 = name) with
  | some (_, entry) =>
      if entry.spans.any (·.covers position) then some entry.binding else none
  | none => none

end State

end CrossReference.Walk
