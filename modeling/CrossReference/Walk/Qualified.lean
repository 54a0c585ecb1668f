import CrossReference.ParseTree.Declarator
import CrossReference.Walk.State

/-!
# Qualified declarations and uses

The declaration of `Owner::name` binds the segments in front right away and declares the last one
among the members of the owner.  A use only notes its segments; it is bound after the walk.
-/

set_option autoImplicit false

namespace CrossReference.Walk.State

variable (source : List Char)

/-- What the segments in front of a qualified declaration lead to. -/
structure Prefixed where
  state : State
  /-- The scope that the last of them names. -/
  scope : Option Nat
  /-- Whether all of them name scopes. -/
  resolved : Bool

/-- Bind the segments in front of a qualified declaration.  The first one is looked up outwards
from the context, unless the name is global, and each further one among the members of the one
before it. -/
def bindQualifiers (context : Context) :
    List ParseTree → Bool → Prefixed → Prefixed
  | [], _, reached => reached
  | segment :: rest, isFirst, reached =>
      let (named, name) := reached.state.addName source segment context false
      let text := segment.text source
      let binding :=
        match reached.scope with
        | some scope => named.scopes.lookupMember .qualifier text scope
        | none =>
            if isFirst && reached.resolved then
              named.scopes.lookup .qualifier text segment.start context.scope
            else none
      let bound := named.setBinding name binding
      let scope := binding.bind bound.memberScope?
      bindQualifiers context rest false ⟨bound, scope, reached.resolved && scope.isSome⟩

/-- Declare a qualified name.  Its last segment is bound to the member of that spelling, which is
added if the owner has none; without an owner it stays unbound. -/
def declareQualified (state : State) (tree : ParseTree) (context : Context) (kind : SymbolKind)
    (typeRef : Option TypeRef) : State × Option Nat :=
  let chain := QualifiedName.ofTree tree
  match chain.segments.getLast? with
  | none => (state, none)
  | some last =>
      let reached := bindQualifiers source context chain.segments.dropLast true
        ⟨state, if chain.isGlobal then some Scopes.file else none, !chain.isBroken⟩
      let (named, name) := reached.state.addName source last context true
      let text := last.text source
      match reached.scope with
      | none => (named, none)
      | some owner =>
          if !reached.resolved || text.isEmpty then (named, none)
          else
            let (declared, binding) :=
              named.symbolIn (named.scopes.lookupMember kind.space text owner) owner kind text
                last.start
            (declared.bindDeclaration name binding typeRef, some binding)

/-- The scope that qualifying segments lead to, without noting them. -/
def scopeOfQualifiers? (state : State) (context : Context) :
    List ParseTree → Option Nat → Option Nat
  | [], scope => scope
  | segment :: rest, scope =>
      match segment.text? source with
      | none => none
      | some text =>
          let binding :=
            match scope with
            | some scope => state.scopes.lookupMember .qualifier text scope
            | none => state.scopes.lookup .qualifier text segment.start context.scope
          match binding.bind state.memberScope? with
          | some scope => scopeOfQualifiers? state context rest (some scope)
          | none => none

def ownerScope? (state : State) (declarator : ParseTree) (context : Context) : Option Nat :=
  match declarator.declaratorName? with
  | none => none
  | some name =>
      if !ParseTree.isQualified name.kind then none
      else
        let chain := QualifiedName.ofTree name
        if chain.isBroken || chain.segments.isEmpty then none
        else scopeOfQualifiers? source state context chain.segments.dropLast
          (if chain.isGlobal then some Scopes.file else none)

def addUses (context : Context) : List ParseTree → State → State × List Nat
  | [], state => (state, [])
  | segment :: rest, state =>
      let (named, name) := state.addName source segment context false
      let (all, names) := addUses context rest named
      (all, name :: names)

/-- Note a use.  A name with a segment that is not plain stays unbound. -/
def noteUse (state : State) (tree : ParseTree) (context : Context) (space : NameSpace)
    (effect : Effect) : State :=
  let chain := QualifiedName.ofTree tree
  let (named, names) := addUses source context chain.segments state
  if chain.isBroken || names.isEmpty then named
  else
    { named with
      uses := named.uses.push
        ⟨names, space, chain.isGlobal, context.scope, tree.start, effect⟩ }

end CrossReference.Walk.State
