import CrossReference.Walk.State

/-!
# Binding uses

After the walk all members are known, and the uses that were noted can be bound.  Those that change
what later ones see, because they name a base class or make names visible, go first.  Then every
symbol learns the scope of the type it is declared with, and last the accessed members are bound.
-/

set_option autoImplicit false

namespace CrossReference.Walk.State

/-- The binding of a segment of a use: a member of the scope that the segments before it lead to,
or, for the first segment, a macro that is defined there or what the scopes around it declare. -/
def segmentBinding? (state : State) (use : PendingUse) (scope : Option Nat) (isFirst : Bool)
    (space : NameSpace) (text : String) : Option Nat :=
  match scope with
  | some scope => state.scopes.lookupMember space text scope
  | none =>
      if isFirst then
        match state.macroAt? text use.position with
        | some binding => some binding
        | none => state.scopes.lookup space text use.position use.scope
      else none

def bindSegments (use : PendingUse) :
    List Nat → Option Nat → Bool → State → State × Option Nat
  | [], _, _, state => (state, none)
  | [name], scope, isFirst, state =>
      let binding :=
        state.segmentBinding? use scope isFirst use.space (state.spelling name)
      (state.setBinding name binding, binding)
  | name :: rest, scope, isFirst, state =>
      let binding :=
        state.segmentBinding? use scope isFirst .qualifier (state.spelling name)
      let bound := state.setBinding name binding
      bindSegments use rest (binding.bind bound.scope?) false bound

def applyEffect (state : State) (binding : Nat) : Effect → State
  | .none => state
  | .usingNamespace into =>
      match state.scope? binding with
      | some used => { state with scopes := state.scopes.addUsing into used }
      | none => state
  | .base derived =>
      match state.scope? binding with
      | some base => { state with scopes := state.scopes.addBase derived base }
      | none => state
  | .usingDeclaration into position =>
      match state.symbols[binding]? with
      | some symbol =>
          if (state.scopes.local? .ordinary symbol.name into).isSome then state
          else
            { state with
              scopes := state.scopes.declare into .ordinary symbol.name binding position }
      | none => state

def resolveUse (state : State) (use : PendingUse) : State :=
  let (bound, binding) :=
    bindSegments use use.names (if use.isGlobal then some Scopes.file else none) true state
  match binding with
  | some binding => bound.applyEffect binding use.effect
  | none => bound

def bindingOfNode? (state : State) (node : Nat) : Option Nat :=
  match state.nameOfNode.find? (·.1 = node) with
  | some (_, name) => state.binding? name
  | none => none

def scopeOfType? (state : State) : TypeRef → Option Nat
  | .specifier node => (state.scopeOfSpecifier.find? (·.1 = node)).map (·.2)
  | .name node => (state.bindingOfNode? node).bind state.scope?

/-- Give a symbol the scope of its type, if that is known by now and was not before. -/
def learnTypeScope (state : State) (binding : Nat) : State :=
  match state.symbols[binding]? with
  | none => state
  | some symbol =>
      if symbol.typeScope.isSome then state
      else
        match symbol.typeRef.bind state.scopeOfType? with
        | none => state
        | some scope =>
            { state with
              symbols := state.symbols.modify binding fun found =>
                { found with typeScope := some scope } }

def learnTypeScopesOnce (state : State) : State :=
  (List.range state.symbols.size).foldl learnTypeScope state

/-- The number of aliases in a row that are followed for certain. -/
def maxAliases : Nat := 8

def learnTypeScopes (state : State) : State :=
  (List.range maxAliases).foldl (fun state _ => state.learnTypeScopesOnce) state

def resolveMember (state : State) (member : PendingMember) : State :=
  let scope :=
    match member.object with
    | some (.class scope) => some scope
    | some (.name node) => (state.bindingOfNode? node).bind state.typeScope?
    | none => none
  match scope with
  | some scope =>
      state.setBinding member.name
        (state.scopes.lookupMember .ordinary (state.spelling member.name) scope)
  | none => state

/-- The uses that change what later ones see, and the others. -/
def usesInOrder (state : State) : List PendingUse :=
  state.uses.toList.filter (·.effect ≠ .none) ++ state.uses.toList.filter (·.effect = .none)

/-- Bind everything that the walk left unbound. -/
def resolve (state : State) : State :=
  let used := state.usesInOrder.foldl resolveUse state
  state.members.toList.foldl resolveMember used.learnTypeScopes

end CrossReference.Walk.State
