import CrossReference.Scope

/-!
# Looking names up

`Scopes.lookupMember` looks in one scope and then through its bases and usings, depth first.
`Scopes.lookup` starts at a scope and goes outwards until a scope has the name.
-/

set_option autoImplicit false

namespace CrossReference.Scopes

variable (scopes : Scopes) (space : NameSpace) (name : String)

/-- The entry that a scope itself has.  Where tags are types, a tag answers for an ordinary name
that is not declared; before `::` a tag comes first. -/
def entryIn? (scope : Scope) : Option ScopeEntry :=
  match space with
  | .tag => scope.tags.find? name
  | .ordinary =>
      if scopes.tagsAreTypes then scope.symbols.find? name <|> scope.tags.find? name
      else scope.symbols.find? name
  | .qualifier => scope.tags.find? name <|> scope.symbols.find? name

def entry? (scope : Nat) : Option ScopeEntry :=
  match scopes.all[scope]? with
  | some found => scopes.entryIn? space name found
  | none => none

/-- The binding that a name has in a scope itself. -/
def local? (scope : Nat) : Option Nat :=
  (scopes.entry? space name scope).map (·.binding)

/-- The scopes that a scope takes names from: its bases and then its usings. -/
def imports (scope : Nat) : List Nat :=
  match scopes.all[scope]? with
  | some found => found.bases ++ found.usings
  | none => []

/-- The binding that a name has in a scope or in those reached from it over at most the given
number of bases and usings. -/
def memberWithin : Nat → Nat → Option Nat
  | steps, scope =>
      match scopes.entry? space name scope with
      | some entry => some entry.binding
      | none =>
          match steps with
          | 0 => none
          | steps + 1 => (scopes.imports scope).findSome? (memberWithin steps)

/-- The number of bases and usings that a search goes over in a row. -/
def maxSteps : Nat := 16

/-- The binding of a name behind `::`. -/
def lookupMember (scope : Nat) : Option Nat :=
  scopes.memberWithin space name maxSteps scope

def visible? (position : Nat) (scope : Scope) : Option Nat :=
  match scopes.entryIn? space name scope with
  | some entry =>
      if !scope.kind.isOrdered || decide (entry.declaredAt ≤ position) then some entry.binding
      else none
  | none => none

/-- The binding that a name has in a scope for a use at a position: its own one or one that the
scope takes from its bases and usings. -/
def seenFrom? (position : Nat) (scope : Scope) : Option Nat :=
  match scopes.visible? space name position scope with
  | some binding => some binding
  | none =>
      (scope.bases ++ scope.usings).findSome? (scopes.memberWithin space name (maxSteps - 1))

/-- The binding of a name without `::` that is used at a position.  Scopes are searched from the
inside outwards; a scope is always made after the one around it. -/
def lookup (position : Nat) (scope : Nat) : Option Nat :=
  match scopes.all[scope]? with
  | none => none
  | some found =>
      match scopes.seenFrom? space name position found with
      | some binding => some binding
      | none =>
          match found.parent with
          | none => none
          | some parent => if parent < scope then lookup position parent else none
termination_by scope

def enclosingClass (scope : Nat) : Option Nat :=
  match scopes.all[scope]? with
  | none => none
  | some found =>
      if found.kind = .classBody then some scope
      else
        match found.parent with
        | none => none
        | some parent => if parent < scope then enclosingClass parent else none
termination_by scope

end CrossReference.Scopes
