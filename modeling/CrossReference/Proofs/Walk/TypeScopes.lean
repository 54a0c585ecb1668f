import CrossReference.Proofs.Walk.Sees
import Mathlib.Logic.Relation

/-!
# The scopes of declared types

A binding is declared with a type, and what that names may have no members itself but be declared
with a type in turn: an alias is, but also a field or a variable.  Such bindings form chains.  The
scopes of the types are passed on along the chains by sweeps over all symbols.  One sweep goes over
any number of links to what was made before, but over one link only to what was made later.  So a
chain is done as soon as there are more sweeps than links of the latter sort.
-/

set_option autoImplicit false

namespace CrossReference.Walk

namespace State

/-! ## Chains of declared types -/

section Chains

variable (state : State)

def typeRef? (binding : Nat) : Option TypeRef :=
  state.symbols[binding]?.bind Symbol.typeRef

/-- The scope of members at which the declared type of a binding arrives at once: that of a class or
enum that is written there, or that of what the type names. -/
def memberScopeOfType? (binding : Nat) : Option Nat :=
  match state.typeRef? binding with
  | some (.specifier node) => state.scopeOfType? (.specifier node)
  | some (.name node) => (state.bindingOfNode? node).bind state.memberScope?
  | none => none

/-- What the declared type of a binding names, if that has no members itself.  It need not be an
alias. -/
def passesTo? (binding : Nat) : Option Nat :=
  match state.typeRef? binding with
  | some (.name node) =>
      (state.bindingOfNode? node).filter fun named => (state.memberScope? named).isNone
  | some (.specifier _) | none => none

/-- The bindings that one comes through by following the declared type of the first of them.  That of
the last one arrives at a scope of members, and no earlier one does. -/
inductive TypeChain (scope : Nat) : List Nat → Prop where
  | last {binding : Nat} (arrives : state.memberScopeOfType? binding = some scope) :
      TypeChain scope [binding]
  | through {binding next : Nat} {rest : List Nat} (names : state.passesTo? binding = some next)
      (later : TypeChain scope (next :: rest)) : TypeChain scope (binding :: next :: rest)

/-- The number of links of a chain to a binding that was not made before. -/
def forwardLinks : List Nat → Nat
  | first :: next :: rest => (if first ≤ next then 1 else 0) + forwardLinks (next :: rest)
  | [_] | [] => 0

theorem forwardLinks_lt_length (first : Nat) (rest : List Nat) :
    forwardLinks (first :: rest) < (first :: rest).length := by
  induction rest generalizing first with
  | nil => exact Nat.zero_lt_one
  | cons next rest ih =>
    have later := ih next
    rw [forwardLinks, List.length_cons]
    split <;> omega

theorem forwardLinks_eq_zero {chain : List Nat} (falls : chain.IsChain (· > ·)) :
    forwardLinks chain = 0 := by
  induction falls with
  | nil => rfl
  | singleton binding => rfl
  | cons_cons after _ ih => rw [forwardLinks, if_neg (Nat.not_le_of_lt after), ih]

variable {state}

theorem memberScopeOfType?_eq_none {binding next : Nat}
    (names : state.passesTo? binding = some next) : state.memberScopeOfType? binding = none := by
  unfold passesTo? at names
  unfold memberScopeOfType?
  split at names
  · rename_i node typed
    obtain ⟨isNamed, noMembers⟩ := Option.filter_eq_some_iff.1 names
    simp only [typed, isNamed, Option.bind_some]
    exact Option.isNone_iff_eq_none.1 noMembers
  · cases names
  · cases names

/-- A binding has one chain at most. -/
theorem TypeChain.unique {first scope other : Nat} {rest others : List Nat}
    (chain : state.TypeChain scope (first :: rest))
    (another : state.TypeChain other (first :: others)) : scope = other ∧ rest = others := by
  induction rest generalizing first others with
  | nil =>
    obtain ⟨arrives⟩ := chain
    cases another with
    | last arrives' => exact ⟨Option.some.inj (arrives.symm.trans arrives'), rfl⟩
    | through names => simp [memberScopeOfType?_eq_none names] at arrives
  | cons next rest ih =>
    cases chain with
    | through names later =>
      cases another with
      | last arrives => simp [memberScopeOfType?_eq_none names] at arrives
      | through names' later' =>
        obtain rfl := Option.some.inj (names.symm.trans names')
        obtain ⟨same, rfl⟩ := ih later later'
        exact ⟨same, rfl⟩

/-- A binding is declared with the name of another one that has no members itself. -/
def PassesTo (state : State) (binding next : Nat) : Prop :=
  state.passesTo? binding = some next

theorem TypeChain.tail {scope first next : Nat} {rest : List Nat}
    (chain : state.TypeChain scope (first :: rest)) (names : state.PassesTo first next) :
    ∃ later, rest = next :: later ∧ state.TypeChain scope (next :: later) := by
  cases chain with
  | last arrives => simp [memberScopeOfType?_eq_none names] at arrives
  | through names' later =>
    obtain rfl := Option.some.inj (names.symm.trans names')
    exact ⟨_, rfl, later⟩

theorem TypeChain.not_cycle {scope first : Nat} {rest : List Nat}
    (chain : state.TypeChain scope (first :: rest)) :
    ¬ Relation.TransGen state.PassesTo first first := by
  induction rest generalizing first with
  | nil =>
    intro cycle
    obtain ⟨next, names, -⟩ := Relation.TransGen.head'_iff.1 cycle
    obtain ⟨_, isNil, -⟩ := chain.tail names
    cases isNil
  | cons next rest ih =>
    intro cycle
    obtain ⟨other, names, back⟩ := Relation.TransGen.head'_iff.1 cycle
    obtain ⟨_, same, later⟩ := chain.tail names
    cases same
    exact ih later (.tail' back names)

theorem TypeChain.not_leads_to_cycle {scope first looped : Nat} {rest : List Nat}
    (chain : state.TypeChain scope (first :: rest))
    (leads : Relation.ReflTransGen state.PassesTo first looped) :
    ¬ Relation.TransGen state.PassesTo looped looped := by
  have isChain : ∃ rest, state.TypeChain scope (looped :: rest) := by
    induction leads with
    | refl => exact ⟨rest, chain⟩
    | tail _ names ih =>
      obtain ⟨_, before⟩ := ih
      obtain ⟨later, -, after⟩ := before.tail names
      exact ⟨later, after⟩
  obtain ⟨_, atLoop⟩ := isChain
  exact atLoop.not_cycle

theorem TypeChain.mem_iff {scope first : Nat} {rest : List Nat}
    (chain : state.TypeChain scope (first :: rest)) (passed : Nat) :
    passed ∈ rest ↔ Relation.TransGen state.PassesTo first passed := by
  induction rest generalizing first with
  | nil =>
    refine ⟨nofun, fun leads => ?_⟩
    obtain ⟨next, names, -⟩ := Relation.TransGen.head'_iff.1 leads
    obtain ⟨_, isNil, -⟩ := chain.tail names
    cases isNil
  | cons next rest ih =>
    cases chain with
    | through names later =>
      rw [List.mem_cons, ih later]
      constructor
      · rintro (rfl | leads)
        · exact .single names
        · exact .head names leads
      · intro leads
        obtain ⟨other, names', onward⟩ := Relation.TransGen.head'_iff.1 leads
        obtain rfl : next = other := Option.some.inj (names.symm.trans names')
        exact Relation.reflTransGen_iff_eq_or_transGen.1 onward

def IsAlias (state : State) (binding : Nat) : Prop :=
  state.symbols[binding]?.map Symbol.kind = some .typeAlias

/-- A chain on which one comes through aliases only. -/
def AliasChain (state : State) (scope binding : Nat) (rest : List Nat) : Prop :=
  state.TypeChain scope (binding :: rest) ∧ ∀ passed ∈ rest, state.IsAlias passed

theorem TypeChain.exists_aliasChain_iff {scope first : Nat} {rest : List Nat}
    (chain : state.TypeChain scope (first :: rest)) :
    (∃ aliases, state.AliasChain scope first aliases) ↔
      ∀ passed, Relation.TransGen state.PassesTo first passed → state.IsAlias passed := by
  constructor
  · rintro ⟨aliases, another, areAliases⟩ passed leads
    exact areAliases passed ((another.mem_iff passed).2 leads)
  · intro areAliases
    exact ⟨rest, chain, fun passed member => areAliases passed ((chain.mem_iff passed).1 member)⟩

end Chains

/-! ## Sweeps -/

section Sweeps

theorem learnTypeScope_eq (state : State) (binding : Nat) :
    state.learnTypeScope binding =
      { state with
        symbols := state.symbols.modify binding fun found =>
          { found with
            typeScope := found.typeScope <|> found.typeRef.bind state.scopeOfType? } } := by
  have unchanged {change : Symbol → Symbol}
      (same : ∀ symbol, state.symbols[binding]? = some symbol → change symbol = symbol) :
      state = { state with symbols := state.symbols.modify binding change } := by
    have symbols : state.symbols.modify binding change = state.symbols := by
      refine Array.ext_getElem? fun other => ?_
      rw [Array.getElem?_modify]
      split
      · rename_i here
        subst here
        cases there : state.symbols[binding]? with
        | none => rfl
        | some symbol => exact congrArg some (same symbol there)
      · rfl
    rw [symbols]
  unfold learnTypeScope
  split
  · rename_i missing
    exact unchanged fun symbol there => by simp [missing] at there
  · rename_i symbol there
    split
    · rename_i known
      obtain ⟨scope, isScope⟩ := Option.isSome_iff_exists.1 known
      refine unchanged fun other there' => ?_
      obtain rfl := Option.some.inj (there.symm.trans there')
      rw [isScope]
      cases symbol
      cases isScope
      rfl
    · rename_i unknown
      have untyped : symbol.typeScope = none := by simpa using unknown
      split
      · rename_i leadsNowhere
        refine unchanged fun other there' => ?_
        obtain rfl := Option.some.inj (there.symm.trans there')
        rw [leadsNowhere, untyped]
        cases symbol
        cases untyped
        rfl
      · rename_i scope leads
        congr 1
        refine Array.ext_getElem? fun other => ?_
        simp only [Array.getElem?_modify]
        split
        · rename_i here
          subst here
          rw [there, Option.map_some, Option.map_some, untyped, leads]
          rfl
        · rfl

theorem learnTypeScope_typeScope? (state : State) (binding other : Nat) :
    (state.learnTypeScope binding).typeScope? other =
      if binding = other then
        state.typeScope? other <|> (state.typeRef? other).bind state.scopeOfType?
      else state.typeScope? other := by
  rw [learnTypeScope_eq]
  simp only [typeScope?, typeRef?, Array.getElem?_modify]
  by_cases here : binding = other
  · rw [if_pos here, if_pos here]
    cases state.symbols[other]? <;> rfl
  · rw [if_neg here, if_neg here]

theorem learnTypeScope_bind {Part : Type} {part : Symbol → Option Part}
    (kept : ∀ symbol scope, part { symbol with typeScope := scope } = part symbol) (state : State)
    (binding other : Nat) :
    (state.learnTypeScope binding).symbols[other]?.bind part = state.symbols[other]?.bind part := by
  rw [learnTypeScope_eq]
  simp only [Array.getElem?_modify]
  by_cases here : binding = other
  · rw [if_pos here]
    cases state.symbols[other]? with
    | none => rfl
    | some symbol => exact kept symbol _
  · rw [if_neg here]

theorem learnTypeScope_typeRef? (state : State) (binding other : Nat) :
    (state.learnTypeScope binding).typeRef? other = state.typeRef? other :=
  learnTypeScope_bind (fun _ _ => rfl) state binding other

theorem memberScope?_eq (state : State) (binding : Nat) :
    state.memberScope? binding = state.symbols[binding]?.bind Symbol.memberScope := by
  unfold memberScope?
  cases state.symbols[binding]? <;> rfl

theorem learnTypeScope_memberScope? (state : State) (binding other : Nat) :
    (state.learnTypeScope binding).memberScope? other = state.memberScope? other := by
  rw [memberScope?_eq, memberScope?_eq]
  exact learnTypeScope_bind (fun _ _ => rfl) state binding other

/-- A sweep has come to a binding.  Those that it is past have their scope if their chain has as many
forward links as sweeps are done, the others if it has fewer. -/
structure Swept (used : State) (sweeps reach : Nat) (state : State) : Prop where
  typeRefs : ∀ binding, state.typeRef? binding = used.typeRef? binding
  memberScopes : ∀ binding, state.memberScope? binding = used.memberScope? binding
  bindings : ∀ node, state.bindingOfNode? node = used.bindingOfNode? node
  specifiers : state.scopeOfSpecifier = used.scopeOfSpecifier
  size : state.symbols.size = used.symbols.size
  learnt : ∀ binding scope, state.typeScope? binding = some scope ↔
    ∃ rest, used.TypeChain scope (binding :: rest) ∧
      forwardLinks (binding :: rest) < if binding < reach then sweeps + 1 else sweeps

variable {used state : State} {sweeps reach : Nat}

theorem scope?_eq (state : State) (binding : Nat) :
    state.scope? binding = (state.memberScope? binding <|> state.typeScope? binding) := by
  unfold scope? memberScope? typeScope?
  cases state.symbols[binding]? <;> rfl

theorem Swept.scopeOfType?_iff (swept : Swept used sweeps reach state) {binding scope : Nat} :
    (state.typeRef? binding).bind state.scopeOfType? = some scope ↔
      used.memberScopeOfType? binding = some scope ∨
        ∃ next, used.passesTo? binding = some next ∧ state.typeScope? next = some scope := by
  rw [swept.typeRefs]
  unfold memberScopeOfType? passesTo?
  cases used.typeRef? binding with
  | none => simp
  | some type =>
    cases type with
    | specifier node => simp [scopeOfType?, swept.specifiers]
    | name node =>
      simp only [Option.bind_some, scopeOfType?, swept.bindings]
      cases used.bindingOfNode? node with
      | none => simp
      | some named =>
        rw [Option.bind_some, Option.bind_some, scope?_eq, swept.memberScopes]
        cases members : used.memberScope? named <;> simp [members]

/-- What is known of the binding that a sweep comes to, once it has been looked at. -/
theorem Swept.learns (swept : Swept used sweeps reach state) (scope : Nat) :
    (state.typeScope? reach <|> (state.typeRef? reach).bind state.scopeOfType?) = some scope ↔
      ∃ rest, used.TypeChain scope (reach :: rest) ∧ forwardLinks (reach :: rest) < sweeps + 1 := by
  constructor
  · intro learnt
    simp only [Option.orElse_eq_orElse, Option.orElse_eq_or, Option.or_eq_some_iff] at learnt
    rcases learnt with known | ⟨-, leads⟩
    · obtain ⟨rest, chain, fewer⟩ := (swept.learnt reach scope).1 known
      rw [if_neg (Nat.lt_irrefl reach)] at fewer
      exact ⟨rest, chain, Nat.lt_succ_of_lt fewer⟩
    · rcases swept.scopeOfType?_iff.1 leads with arrives | ⟨next, names, known⟩
      · exact ⟨[], .last arrives, Nat.succ_pos sweeps⟩
      · obtain ⟨rest, chain, fewer⟩ := (swept.learnt next scope).1 known
        refine ⟨next :: rest, .through names chain, ?_⟩
        rw [forwardLinks]
        split at fewer <;> split <;> omega
  · rintro ⟨rest, chain, fewer⟩
    cases known : state.typeScope? reach with
    | some other =>
      obtain ⟨_, chain', -⟩ := (swept.learnt reach other).1 known
      rw [(chain.unique chain').1]
      rfl
    | none =>
      refine swept.scopeOfType?_iff.2 ?_
      cases chain with
      | last arrives => exact .inl arrives
      | @through _ next rest names later =>
        refine .inr ⟨next, names, (swept.learnt next scope).2 ⟨rest, later, ?_⟩⟩
        rw [forwardLinks] at fewer
        split at fewer <;> split <;> omega

/-- A binding gets its scope when a sweep comes to it, if one of its sweeps is the last that its chain
needs. -/
theorem Swept.step (swept : Swept used sweeps reach state) :
    Swept used sweeps (reach + 1) (state.learnTypeScope reach) where
  typeRefs binding := (learnTypeScope_typeRef? state reach binding).trans (swept.typeRefs binding)
  memberScopes binding :=
    (learnTypeScope_memberScope? state reach binding).trans (swept.memberScopes binding)
  bindings node := by
    rw [learnTypeScope_eq]
    exact swept.bindings node
  specifiers := by
    rw [learnTypeScope_eq]
    exact swept.specifiers
  size := by
    rw [learnTypeScope_eq, Array.size_modify]
    exact swept.size
  learnt binding scope := by
    rw [learnTypeScope_typeScope?]
    by_cases here : reach = binding
    · subst here
      rw [if_pos rfl, if_pos (Nat.lt_succ_self reach)]
      exact swept.learns scope
    · rw [if_neg here, swept.learnt]
      have past : binding < reach + 1 ↔ binding < reach := by omega
      simp only [past]

theorem Swept.sweep (swept : Swept used sweeps 0 state) :
    Swept used (sweeps + 1) 0 state.learnTypeScopesOnce := by
  have upTo (count : Nat) :
      Swept used sweeps count ((List.range count).foldl learnTypeScope state) := by
    induction count with
    | zero => exact swept
    | succ count ih =>
      rw [List.range_succ, List.foldl_append]
      exact ih.step
  have past := upTo state.symbols.size
  refine { past with learnt := fun binding scope => ?_ }
  refine (past.learnt binding scope).trans ?_
  rw [if_neg (Nat.not_lt_zero binding), swept.size]
  split
  · exact Iff.rfl
  · rename_i beyond
    have missing : used.typeRef? binding = none := by
      simp [typeRef?, Array.getElem?_eq_none (Nat.le_of_not_lt beyond)]
    have noChain {rest : List Nat} : ¬ used.TypeChain scope (binding :: rest) := by
      rintro (arrives | names)
      · simp [memberScopeOfType?, missing] at arrives
      · simp [passesTo?, missing] at names
    simp [noChain]

/-- A binding gets the scope at which its chain arrives if there are more sweeps than forward links in
the chain, and no other one. -/
theorem learnTypeScopes_typeScope?_iff
    (untyped : ∀ binding, used.typeScope? binding = none) (binding scope : Nat) :
    used.learnTypeScopes.typeScope? binding = some scope ↔
      ∃ rest, used.TypeChain scope (binding :: rest) ∧
        forwardLinks (binding :: rest) < maxAliases := by
  have sweeps (count : Nat) :
      Swept used count 0 ((List.range count).foldl (fun state _ => state.learnTypeScopesOnce) used) := by
    induction count with
    | zero => exact ⟨fun _ => rfl, fun _ => rfl, fun _ => rfl, rfl, rfl, by simp [untyped]⟩
    | succ count ih =>
      rw [List.range_succ, List.foldl_append]
      exact ih.sweep
  have learnt := (sweeps maxAliases).learnt binding scope
  rwa [if_neg (Nat.not_lt_zero binding)] at learnt

end Sweeps

/-! ## After the uses are resolved -/

theorem applyEffect_symbols (state : State) (binding : Nat) (effect : Effect) :
    (state.applyEffect binding effect).symbols = state.symbols := by
  cases effect <;> unfold applyEffect <;> simp only <;> split <;> try rfl
  split <;> rfl

theorem resolveUse_symbols (state : State) (use : PendingUse) :
    (state.resolveUse use).symbols = state.symbols := by
  have bound : (bindSegments use use.names (if use.isGlobal then some Scopes.file else none) true
      state).1.symbols = state.symbols := by
    rw [bindSegments_eq]
    exact (bindAll_quiet state _).2.2
  unfold resolveUse
  simp only
  split
  · rw [applyEffect_symbols]
    exact bound
  · exact bound

theorem foldl_resolveUse_symbols (state : State) (uses : List PendingUse) :
    (uses.foldl resolveUse state).symbols = state.symbols :=
  List.foldlRecOn (motive := fun later : State => later.symbols = state.symbols) _ _ rfl
    fun later same use _ => (resolveUse_symbols later use).trans same

theorem foldl_resolveUse_typeScope? (state : State) (uses : List PendingUse) (binding : Nat) :
    (uses.foldl resolveUse state).typeScope? binding = state.typeScope? binding := by
  rw [typeScope?, foldl_resolveUse_symbols, typeScope?]

end State

open State

/-- After the uses of a tree are resolved, a binding is given the scope of members at which one first
arrives by following its declared type, if less than eight links go forward on the way, and no other
scope.  The way need not be one through aliases; it is just if nothing else is passed on it.  A
binding with a way of at most eight links gets the scope whatever the order in which those on the way
were made, and so does one with any way on which each was made after what it names.  A binding from
which one comes to a cycle gets none. -/
theorem declared_types_are_learnt (source : List Char) (language : Language) (tree : ParseTree) :
    let walked := SourceUnit.walked source language tree
    let used := walked.usesInOrder.foldl resolveUse walked
    let learnt := used.learnTypeScopes
    (∀ binding scope, learnt.typeScope? binding = some scope ↔
      ∃ rest, used.TypeChain scope (binding :: rest) ∧ forwardLinks (binding :: rest) < 8) ∧
    (∀ binding scope, learnt.typeScope? binding = some scope →
      ((∃ rest, used.AliasChain scope binding rest) ↔
        ∀ passed, Relation.TransGen used.PassesTo binding passed → used.IsAlias passed)) ∧
    (∀ binding scope rest, used.TypeChain scope (binding :: rest) →
      (binding :: rest).length ≤ 8 → learnt.typeScope? binding = some scope) ∧
    (∀ binding scope rest, used.TypeChain scope (binding :: rest) →
      (binding :: rest).IsChain (· > ·) → learnt.typeScope? binding = some scope) ∧
    (∀ binding looped, Relation.ReflTransGen used.PassesTo binding looped →
      Relation.TransGen used.PassesTo looped looped → learnt.typeScope? binding = none) := by
  intro walked used learnt
  have untyped (binding : Nat) : used.typeScope? binding = none :=
    (foldl_resolveUse_typeScope? walked _ binding).trans
      (walked_typeScope? source language tree binding)
  have learns := learnTypeScopes_typeScope?_iff untyped
  refine ⟨learns, fun binding scope known => ?_, fun binding scope rest chain short => ?_,
    fun binding scope rest chain falls => ?_, fun binding looped leads cycle => ?_⟩
  · obtain ⟨rest, chain, -⟩ := (learns binding scope).1 known
    exact chain.exists_aliasChain_iff
  · have links := forwardLinks_lt_length binding rest
    exact (learns binding scope).2 ⟨rest, chain, Nat.lt_of_lt_of_le links short⟩
  · have links := forwardLinks_eq_zero falls
    exact (learns binding scope).2 ⟨rest, chain, links ▸ Nat.succ_pos _⟩
  · refine Option.eq_none_iff_forall_ne_some.2 fun scope known => ?_
    obtain ⟨rest, chain, -⟩ := (learns binding scope).1 known
    exact chain.not_leads_to_cycle leads cycle

/-! ## Aliases in mixed order, a cycle and a field in the place of an alias -/

open ParseTree

/-- A text in which an alias comes before the one that it names, another one after it, and two aliases
name each other.  The type of the field `x` is found to be the field after it. -/
def aliasText : List Char :=
  ("typedef A B;typedef S A;struct S{};typedef A E;typedef D C;typedef C D;" ++
    "struct G{T x;struct U{}T;};").toList

def typedefNode (id start : Nat) : ParseTree :=
  ruleNode id "type_definition" "" start (start + 12)
    [ruleNode (id + 1) "type_identifier" "type" (start + 8) (start + 9) [],
      ruleNode (id + 2) "type_identifier" "declarator" (start + 10) (start + 11) []]

def fieldTypedNode : ParseTree :=
  ruleNode 19 "struct_specifier" "" 71 97
    [ruleNode 20 "type_identifier" "name" 78 79 [],
      ruleNode 21 "field_declaration_list" "body" 79 97
        [ruleNode 22 "field_declaration" "" 80 84
          [ruleNode 23 "type_identifier" "type" 80 81 [],
            ruleNode 24 "field_identifier" "declarator" 82 83 []],
          ruleNode 25 "field_declaration" "" 84 96
            [ruleNode 26 "struct_specifier" "type" 84 94
              [ruleNode 27 "type_identifier" "name" 91 92 [],
                ruleNode 28 "field_declaration_list" "body" 92 94 []],
              ruleNode 29 "field_identifier" "declarator" 94 95 []]]]

def aliasTree : ParseTree :=
  ruleNode 0 "translation_unit" "" 0 98
    [typedefNode 1 0, typedefNode 4 12,
      ruleNode 7 "struct_specifier" "" 24 34
        [ruleNode 8 "type_identifier" "name" 31 32 [],
          ruleNode 9 "field_declaration_list" "body" 32 34 []],
      typedefNode 10 35, typedefNode 13 47, typedefNode 16 59, fieldTypedNode]

theorem aliases_in_mixed_order_are_learnt :
    let walked := SourceUnit.walked aliasText .cpp aliasTree
    let used := walked.usesInOrder.foldl resolveUse walked
    used.AliasChain 1 0 [1] ∧ used.AliasChain 1 3 [1] ∧
      used.learnTypeScopes.typeScope? 0 = some 1 ∧ used.learnTypeScopes.typeScope? 3 = some 1 ∧
      used.PassesTo 4 5 ∧ used.PassesTo 5 4 ∧ used.learnTypeScopes.typeScope? 4 = none ∧
      used.learnTypeScopes.typeScope? 7 = some 3 ∧ ¬ ∃ rest, used.AliasChain 3 7 rest := by
  intro walked used
  obtain ⟨learns, throughAliases, short, falling, cyclic⟩ :=
    declared_types_are_learnt aliasText .cpp aliasTree
  obtain ⟨ofA, ofB, ofE, ofC, ofD, ofX, ofT⟩ :
      used.memberScopeOfType? 1 = some 1 ∧ used.passesTo? 0 = some 1 ∧
        used.passesTo? 3 = some 1 ∧ used.passesTo? 4 = some 5 ∧ used.passesTo? 5 = some 4 ∧
        used.passesTo? 7 = some 9 ∧ used.memberScopeOfType? 9 = some 3 := by
    decide +kernel
  obtain ⟨isAlias, isField⟩ : used.symbols[1]?.map Symbol.kind = some .typeAlias ∧
      used.symbols[9]?.map Symbol.kind = some .field := by
    decide +kernel
  have forward : used.TypeChain 1 [0, 1] := .through ofB (.last ofA)
  have backward : used.TypeChain 1 [3, 1] := .through ofE (.last ofA)
  have fieldTyped : used.learnTypeScopes.typeScope? 7 = some 3 :=
    (learns 7 3).2 ⟨[9], .through ofX (.last ofT), by decide⟩
  refine ⟨⟨forward, List.forall_mem_singleton.2 isAlias⟩,
    ⟨backward, List.forall_mem_singleton.2 isAlias⟩,
    short 0 1 [1] forward (by decide), falling 3 1 [1] backward (by decide), ofC, ofD,
    cyclic 4 4 .refl (.tail (.single ofC) ofD), fieldTyped, fun aliases => ?_⟩
  have fieldIsAlias := (throughAliases 7 3 fieldTyped).1 aliases 9 (.single ofX)
  rw [IsAlias, isField] at fieldIsAlias
  cases fieldIsAlias

end CrossReference.Walk
