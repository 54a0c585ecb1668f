import CrossReference.Proofs.Walk.TypeScopes
import Mathlib.Data.List.Induction

/-!
# What qualifies a name

A name in front of `::` leads to the members of the class or namespace that it is bound to, and a name
in a list of bases makes its members visible.  Both are bound before any symbol has the scope of its
type.  So an alias leads nowhere, though it has the scope of its class in the end.
-/

set_option autoImplicit false

namespace CrossReference

/-! ## The bases of a scope -/

namespace Scopes

variable {scopes : Scopes}

theorem mem_withEdge {edges : List Nat} {added : Option Nat} {edge : Nat} :
    edge ∈ withEdge edges added ↔ edge ∈ edges ∨ added = some edge := by
  unfold withEdge
  cases added with
  | none => simp
  | some new =>
    simp only [Option.some.injEq]
    split
    · rename_i known
      exact ⟨.inl, fun either => either.elim id fun same => same ▸ known⟩
    · rw [List.mem_append, List.mem_singleton]
      exact or_congr_right eq_comm

theorem mem_bases_addBase {into base derived found : Nat} (made : derived < scopes.next) :
    found ∈ (scopes.addBase into base).edgesOf (·.bases) derived ↔
      found ∈ scopes.edgesOf (·.bases) derived ∨ into = derived ∧ found ≠ derived ∧ base = found := by
  by_cases here : into = derived
  · subst here
    rw [addBase, edgesOf_modify_added (fun _ => rfl) made, mem_withEdge]
    refine or_congr_right ?_
    by_cases self : base = into
    · simp only [self, ne_eq, not_true_eq_false, and_false, if_false, reduceCtorEq, false_iff]
      exact fun ⟨_, different, same⟩ => different same.symm
    · simp only [self, ne_eq, not_false_eq_true, and_self, if_true, Option.some.injEq, true_and]
      exact ⟨fun same => ⟨same ▸ self, same⟩, And.right⟩
  · rw [addBase, edgesOf_modify, if_neg here]
    simp [here]

theorem bases_addUsing (into used scope : Nat) :
    (scopes.addUsing into used).edgesOf (·.bases) scope = scopes.edgesOf (·.bases) scope :=
  edgesOf_modify_kept
    (fun found => { found with usings := addEdge into used found.usings }) (fun _ => rfl) scope

theorem bases_declare (changed : Nat) (space : NameSpace) (name : String)
    (binding position scope : Nat) :
    (scopes.declare changed space name binding position).edgesOf (·.bases) scope =
      scopes.edgesOf (·.bases) scope :=
  edgesOf_modify_kept _ (fun found => by cases space <;> rfl) scope

end Scopes

namespace Walk

open ParseTree

namespace State

/-! ## Segments that follow each other -/

section Segments

variable {use : PendingUse} {state : State}

/-- What a segment is bound to behind a name that is bound to something: a member of its scope, or
nothing if it has none. -/
def memberBehind? (state : State) (use : PendingUse) (qualifier : Option Nat) (member : Nat)
    (after : List Nat) : Option Nat :=
  (qualifier.bind state.scope?).bind fun scope =>
    state.scopes.lookupMember (if after = [] then use.space else .qualifier)
      (state.spelling member) scope

theorem segmentBindings_cons (state : State) (use : PendingUse) (name : Nat) {rest : List Nat}
    (notLast : rest ≠ []) (scope : Option Nat) (isFirst : Bool) :
    state.segmentBindings use (name :: rest) scope isFirst =
      let binding := state.segmentBinding? use scope isFirst .qualifier (state.spelling name)
      (name, binding) :: state.segmentBindings use rest (binding.bind state.scope?) false := by
  rw [segmentBindings]
  exact notLast

theorem segmentBindings_behind (state : State) (use : PendingUse) (before : List Nat)
    (qualifier member : Nat) (after : List Nat) (scope : Option Nat) (isFirst : Bool) :
    ∃ binding,
      (qualifier, binding) ∈
        state.segmentBindings use (before ++ qualifier :: member :: after) scope isFirst ∧
      (member, state.memberBehind? use binding member after) ∈
        state.segmentBindings use (before ++ qualifier :: member :: after) scope isFirst := by
  induction before generalizing scope isFirst with
  | nil =>
    rw [List.nil_append, segmentBindings_cons _ _ _ (List.cons_ne_nil member after)]
    refine ⟨_, List.mem_cons_self, List.mem_cons_of_mem _ ?_⟩
    generalize state.segmentBinding? use scope isFirst .qualifier (state.spelling qualifier) = binding
    have behind (space : NameSpace) (text : String) :
        state.segmentBinding? use (binding.bind state.scope?) false space text =
          (binding.bind state.scope?).bind (state.scopes.lookupMember space text) := by
      unfold segmentBinding?
      cases binding.bind state.scope? <;> rfl
    cases after with
    | nil =>
      rw [segmentBindings, behind]
      exact List.mem_singleton_self _
    | cons next after =>
      rw [segmentBindings_cons _ _ _ (List.cons_ne_nil next after), behind]
      exact List.mem_cons_self
  | cons first before ih =>
    have notLast : before ++ qualifier :: member :: after ≠ [] := by simp
    obtain ⟨binding, isQualifier, isMember⟩ := ih
      ((state.segmentBinding? use scope isFirst .qualifier (state.spelling first)).bind state.scope?)
      false
    rw [List.cons_append, segmentBindings_cons _ _ _ notLast]
    exact ⟨binding, List.mem_cons_of_mem _ isQualifier, List.mem_cons_of_mem _ isMember⟩

theorem bindAll_binding?_of_mem {bindings : List (Nat × Option Nat)} {name : Nat}
    {binding : Option Nat} (once : (bindings.map Prod.fst).Nodup)
    (member : (name, binding) ∈ bindings) (known : name < state.names.size) :
    (state.bindAll bindings).binding? name = binding := by
  induction bindings generalizing state with
  | nil => cases member
  | cons pair rest ih =>
    obtain ⟨notLater, onceLater⟩ := List.nodup_cons.1 once
    rw [bindAll_cons]
    rcases List.mem_cons.1 member with rfl | later
    · have apart : ∀ pair ∈ rest, pair.1 ≠ name := by
        intro pair isLater same
        exact notLater (List.mem_map.2 ⟨pair, isLater, same⟩)
      rw [binding?, bindAll_getElem?_of_forall_ne _ apart, setBinding_getElem?, if_pos rfl,
        Array.getElem?_eq_getElem known]
      rfl
    · exact ih onceLater later (by simpa [setBinding] using known)

theorem resolveUse_binding?_of_mem {name : Nat} {binding : Option Nat} (once : use.names.Nodup)
    (member : (name, binding) ∈ state.useBindings use) (known : name < state.names.size) :
    (state.resolveUse use).binding? name = binding := by
  have bound : (bindSegments use use.names (if use.isGlobal then some Scopes.file else none) true
      state).1.binding? name = binding := by
    rw [bindSegments_eq]
    exact bindAll_binding?_of_mem (by rwa [segmentBindings_names]) member known
  unfold resolveUse
  simp only
  split
  · rw [binding?, applyEffect_names]
    exact bound
  · exact bound

end Segments

/-! ## Uses without effects come last -/

section Plain

theorem usesInOrder_pairwise (state : State) :
    state.usesInOrder.Pairwise fun earlier later =>
      earlier.effect = .none → later.effect = .none := by
  have isPlain {use : PendingUse}
      (member : use ∈ state.uses.toList.filter (·.effect = .none)) : use.effect = .none := by
    simpa using (List.mem_filter.1 member).2
  rw [usesInOrder, List.pairwise_append]
  refine ⟨List.pairwise_of_forall_mem_list ?_, List.pairwise_of_forall_mem_list ?_, ?_⟩
  · intro earlier isEarlier later _ plain
    simp [plain] at isEarlier
  · intro earlier _ later isLater _
    exact isPlain isLater
  · intro earlier _ later isLater _
    exact isPlain isLater

theorem resolveUse_scopes_of_plain (state : State) {use : PendingUse}
    (plain : use.effect = .none) : (state.resolveUse use).scopes = state.scopes := by
  rw [resolveUse_of_plain state plain]
  exact (bindAll_quiet state _).1

theorem scopes_of_split {state : State} {before after : List PendingUse} {use : PendingUse}
    (split : state.usesInOrder = before ++ use :: after) (plain : use.effect = .none) :
    (before.foldl resolveUse state).scopes = state.resolve.scopes := by
  have ordered := state.usesInOrder_pairwise
  rw [split] at ordered
  have later := (List.pairwise_cons.1 (List.pairwise_append.1 ordered).2.1).1
  rw [resolve_scopes, split, List.foldl_append, List.foldl_cons]
  symm
  refine List.foldlRecOn (motive := fun current : State => current.scopes = _) _ _
    (resolveUse_scopes_of_plain _ plain) fun current same other member => ?_
  exact (resolveUse_scopes_of_plain current (later other member plain)).trans same

end Plain

/-! ## Bases -/

section Bases

variable {state : State} {derived base : Nat}

theorem mem_bases_applyEffect (made : derived < state.scopes.next) (binding : Nat)
    (effect : Effect) :
    base ∈ (state.applyEffect binding effect).scopes.edgesOf (·.bases) derived ↔
      base ∈ state.scopes.edgesOf (·.bases) derived ∨
        effect = .base derived ∧ base ≠ derived ∧ state.scope? binding = some base := by
  unfold applyEffect
  cases effect with
  | none => simp
  | usingNamespace into =>
    simp only [reduceCtorEq, false_and, or_false]
    split
    · rw [Scopes.bases_addUsing]
    · exact Iff.rfl
  | usingDeclaration into position =>
    simp only [reduceCtorEq, false_and, or_false]
    split
    · split
      · exact Iff.rfl
      · rw [Scopes.bases_declare]
    · exact Iff.rfl
  | base into =>
    cases leads : state.scope? binding with
    | none => simp
    | some found =>
      simp only [Effect.base.injEq, Option.some.injEq]
      exact Scopes.mem_bases_addBase made

theorem mem_bases_resolveUse (made : derived < state.scopes.next) (use : PendingUse) :
    base ∈ (state.resolveUse use).scopes.edgesOf (·.bases) derived ↔
      base ∈ state.scopes.edgesOf (·.bases) derived ∨
        use.effect = .base derived ∧ base ≠ derived ∧
          (state.lastBinding? use).bind state.scope? = some base := by
  have bound : (bindSegments use use.names (if use.isGlobal then some Scopes.file else none) true
      state).1 = state.bindAll (state.useBindings use) := bindSegments_eq use use.names _ true state
  obtain ⟨scopes, -, symbols⟩ := bindAll_quiet state (state.useBindings use)
  rw [← bound] at scopes symbols
  unfold resolveUse lastBinding?
  simp only
  split
  · rename_i binding isLast
    have same : (bindSegments use use.names (if use.isGlobal then some Scopes.file else none) true
        state).1.scope? binding = state.scope? binding := by rw [scope?, symbols, scope?]
    rw [mem_bases_applyEffect (scopes ▸ made), scopes, same, isLast, Option.bind_some]
  · rename_i isLast
    simp [scopes, isLast]

theorem mem_bases_foldl (made : derived < state.scopes.next) (uses : List PendingUse) :
    base ∈ (uses.foldl resolveUse state).scopes.edgesOf (·.bases) derived ↔
      base ∈ state.scopes.edgesOf (·.bases) derived ∨
        ∃ before use after, uses = before ++ use :: after ∧ use.effect = .base derived ∧
          base ≠ derived ∧
          ((before.foldl resolveUse state).lastBinding? use).bind state.scope? = some base := by
  induction uses using List.reverseRecOn with
  | nil => simp
  | append_singleton earlier last ih =>
    have widens := foldl_resolveUse_widens earlier state
    have scopes : (earlier.foldl resolveUse state).scope? = state.scope? :=
      funext fun binding => by rw [scope?, foldl_resolveUse_symbols, scope?]
    rw [List.foldl_append, List.foldl_cons, List.foldl_nil,
      mem_bases_resolveUse (widens.next ▸ made), ih, scopes]
    constructor
    · rintro ((old | ⟨before, use, after, rfl, adds⟩) | adds)
      · exact .inl old
      · exact .inr ⟨before, use, after ++ [last], by simp, adds⟩
      · exact .inr ⟨earlier, last, [], rfl, adds⟩
    · rintro (old | ⟨before, use, after, split, adds⟩)
      · exact .inl (.inl old)
      · rcases List.eq_nil_or_concat after with rfl | ⟨others, final, rfl⟩
        · obtain ⟨rfl, same⟩ := List.append_inj' split rfl
          obtain rfl := (List.cons.inj same).1
          exact .inr adds
        · rw [List.concat_eq_append, ← List.cons_append, ← List.append_assoc] at split
          obtain ⟨rfl, -⟩ := List.append_inj' split rfl
          exact .inl (.inr ⟨before, use, others, rfl, adds⟩)

end Bases

/-! ## In the end -/

theorem resolve_symbols (state : State) :
    state.resolve.symbols = (state.usesInOrder.foldl resolveUse state).learnTypeScopes.symbols := by
  have once (current : State) (member : PendingMember) :
      (current.resolveMember member).symbols = current.symbols := by
    unfold resolveMember
    simp only
    split <;> rfl
  exact List.foldlRecOn
    (motive := fun later : State => later.symbols =
      (state.usesInOrder.foldl resolveUse state).learnTypeScopes.symbols) _ _ rfl
    fun later same member _ => (once later member).trans same

theorem learnTypeScopes_memberScope? (state : State) (binding : Nat) :
    state.learnTypeScopes.memberScope? binding = state.memberScope? binding := by
  refine List.foldlRecOn (motive := fun later : State =>
    later.memberScope? binding = state.memberScope? binding) _ _ rfl fun between known _ _ => ?_
  exact List.foldlRecOn (motive := fun later : State =>
    later.memberScope? binding = state.memberScope? binding) _ _ known fun later same other _ =>
      (learnTypeScope_memberScope? later other binding).trans same

theorem resolve_memberScope? (state : State) (binding : Nat) :
    state.resolve.memberScope? binding = state.memberScope? binding := by
  rw [memberScope?, resolve_symbols, ← memberScope?, learnTypeScopes_memberScope?, memberScope?,
    foldl_resolveUse_symbols, memberScope?]

/-- In the end an alias has the scope at which its chain arrives. -/
theorem resolve_scope?_of_chain {state : State}
    (untyped : ∀ binding, state.typeScope? binding = none) {binding scope : Nat} {rest : List Nat}
    (chain : (state.usesInOrder.foldl resolveUse state).TypeChain scope (binding :: rest))
    (short : (binding :: rest).length ≤ 8) (noMembers : state.resolve.memberScope? binding = none) :
    state.resolve.scope? binding = some scope := by
  have untypedStill (other : Nat) :
      (state.usesInOrder.foldl resolveUse state).typeScope? other = none :=
    (foldl_resolveUse_typeScope? state _ other).trans (untyped other)
  have links := Nat.lt_of_lt_of_le (forwardLinks_lt_length binding rest) short
  have learnt := (learnTypeScopes_typeScope?_iff untypedStill binding scope).2 ⟨rest, chain, links⟩
  have typed : state.resolve.typeScope? binding = some scope := by
    rw [typeScope?, resolve_symbols, ← typeScope?]
    exact learnt
  rw [scope?_eq, noMembers, typed]
  rfl

end State

open State

theorem foldl_resolveUse_scope? (source : List Char) (language : Language) (tree : ParseTree)
    (uses : List PendingUse) (binding : Nat) :
    (uses.foldl resolveUse (SourceUnit.walked source language tree)).scope? binding =
      (SourceUnit.walked source language tree).resolve.memberScope? binding := by
  rw [resolve_memberScope?, scope?, foldl_resolveUse_symbols, ← scope?, scope?_eq,
    walked_typeScope?]
  cases (SourceUnit.walked source language tree).memberScope? binding <;> rfl

variable {source : List Char} {language : Language} {tree : ParseTree}

/-- What stands behind a name in a use is bound to a member of what the name is bound to.  So it stays
unbound behind an alias, which has no members itself. -/
theorem binding?_behind {use : PendingUse} (waits : use ∈ (SourceUnit.walked source language tree).uses)
    {before after : List Nat} {qualifier member : Nat}
    (isNames : use.names = before ++ qualifier :: member :: after) {binding : Nat}
    (bound : (SourceUnit.walked source language tree).resolve.binding? qualifier = some binding) :
    let walked := SourceUnit.walked source language tree
    ∃ scopes : Scopes, (use.effect = .none → scopes = walked.resolve.scopes) ∧
      walked.resolve.binding? member = (walked.resolve.memberScope? binding).bind
        (scopes.lookupMember (if after = [] then use.space else .qualifier)
          (walked.spelling member)) := by
  intro walked
  have apart : walked.WaitsApart := walked_waitsApart source language tree
  obtain ⟨_, ended⟩ := exists_reaches_run source (State.initial (language = .cpp)) [Frame.root tree]
  have named : Named source language tree walked := ended.named
  obtain ⟨earlier, later, split⟩ := exists_split waits
  have resolving := apart.resolving (walked_macrosSuit source language tree)
    named.apart.tablesSuit split
  have leads := foldl_resolveUse_scope? source language tree earlier
  have isQualifier : qualifier ∈ use.names := by simp [isNames]
  have isMember : member ∈ use.names := by simp [isNames]
  obtain ⟨found, qualifierBound, memberBound⟩ :=
    segmentBindings_behind (earlier.foldl resolveUse walked) use before qualifier member after
      (if use.isGlobal then some Scopes.file else none) true
  rw [← isNames] at qualifierBound memberBound
  have once := apart.nodup_names waits
  have known {name : Nat} (isName : name ∈ use.names) :
      name < (earlier.foldl resolveUse walked).names.size :=
    resolving.rebinds.names ▸ apart.lt_size waits isName
  rw [apart.binding?_eq split isQualifier,
    resolveUse_binding?_of_mem once qualifierBound (known isQualifier)] at bound
  refine ⟨(earlier.foldl resolveUse walked).scopes, scopes_of_split split, ?_⟩
  rw [apart.binding?_eq split isMember,
    resolveUse_binding?_of_mem once memberBound (known isMember), bound, memberBehind?,
    Option.bind_some, leads, resolving.spelling_eq (apart.lt_size waits isMember)]

/-- The bases of a class are the members of what its list of bases names. -/
theorem mem_bases_iff (source : List Char) (language : Language) (tree : ParseTree)
    {derived base : Nat}
    (made : derived < (SourceUnit.walked source language tree).resolve.scopes.next) :
    let walked := SourceUnit.walked source language tree
    base ∈ walked.resolve.scopes.edgesOf (·.bases) derived ↔
      base ≠ derived ∧ ∃ use ∈ walked.uses, use.effect = .base derived ∧
        ∃ last binding, use.names.getLast? = some last ∧
          walked.resolve.binding? last = some binding ∧
          walked.resolve.memberScope? binding = some base := by
  intro walked
  have apart : walked.WaitsApart := walked_waitsApart source language tree
  obtain ⟨_, ended⟩ := exists_reaches_run source (State.initial (language = .cpp)) [Frame.root tree]
  have named : Named source language tree walked := ended.named
  have noBases : walked.scopes.edgesOf (·.bases) derived = [] := by
    have alone := named.apart.imports_eq derived
    rw [Scopes.imports_eq] at alone
    exact (List.append_eq_nil_iff.1 alone).1
  have next : walked.resolve.scopes.next = walked.scopes.next := (resolve_widens walked).next
  have leads := foldl_resolveUse_scope? source language tree
  have lastBound {earlier later : List PendingUse} {use : PendingUse}
      (split : walked.usesInOrder = earlier ++ use :: later) {last : Nat}
      (isLast : use.names.getLast? = some last) :
      walked.resolve.binding? last = (earlier.foldl resolveUse walked).lastBinding? use := by
    have isName := List.mem_of_getLast? isLast
    have resolving := apart.resolving (walked_macrosSuit source language tree)
      named.apart.tablesSuit split
    have waits : use ∈ walked.uses :=
      mem_uses_of_split split (List.mem_append_right earlier List.mem_cons_self)
    rw [apart.binding?_eq split isName, resolveUse_binding? _ isLast
      (resolving.rebinds.names ▸ apart.lt_size waits isName)]
  rw [resolve_scopes, mem_bases_foldl (next ▸ made), noBases]
  constructor
  · rintro (old | ⟨earlier, use, later, split, isBase, different, adds⟩)
    · cases old
    · obtain ⟨binding, isBinding, scope⟩ := Option.bind_eq_some_iff.1 adds
      have waits : use ∈ walked.uses :=
      mem_uses_of_split split (List.mem_append_right earlier List.mem_cons_self)
      cases isLast : use.names.getLast? with
      | none =>
        rw [lastBinding?, List.getLast?_eq_none_iff.1 isLast] at isBinding
        cases isBinding
      | some last =>
        refine ⟨different, use, waits, isBase, last, binding, isLast,
          (lastBound split isLast).trans isBinding, ?_⟩
        exact (leads [] binding).symm.trans scope
  · rintro ⟨different, use, waits, isBase, last, binding, isLast, bound, scope⟩
    obtain ⟨earlier, later, split⟩ := exists_split waits
    refine .inr ⟨earlier, use, later, split, isBase, different, ?_⟩
    rw [← lastBound split isLast, bound, Option.bind_some]
    exact (leads [] binding).trans scope

/-- A name qualifies what stands behind it, and brings a base, just if its binding has members itself.
An alias has none.  So nothing is found behind it, and it brings no base, though it has the scope of
its class once all uses are resolved. -/
theorem aliases_qualify_nothing (source : List Char) (language : Language) (tree : ParseTree) :
    let walked := SourceUnit.walked source language tree
    let used := walked.usesInOrder.foldl resolveUse walked
    let final := walked.resolve
    (∀ use ∈ walked.uses, ∀ before qualifier member after binding,
      use.names = before ++ qualifier :: member :: after →
      final.binding? qualifier = some binding →
        (final.memberScope? binding = none → final.binding? member = none) ∧
        ∀ scope, final.memberScope? binding = some scope → use.effect = .none →
          final.binding? member = final.scopes.lookupMember
            (if after = [] then use.space else .qualifier) (walked.spelling member) scope) ∧
    (∀ derived base, derived < final.scopes.next →
      (base ∈ final.scopes.edgesOf (·.bases) derived ↔
        base ≠ derived ∧ ∃ use ∈ walked.uses, use.effect = .base derived ∧
          ∃ last binding, use.names.getLast? = some last ∧
            final.binding? last = some binding ∧ final.memberScope? binding = some base)) ∧
    (∀ binding scope rest, used.TypeChain scope (binding :: rest) →
      (binding :: rest).length ≤ 8 → final.memberScope? binding = none →
        final.scope? binding = some scope) := by
  intro walked used final
  refine ⟨fun use waits before qualifier member after binding isNames bound => ?_,
    fun derived base made => mem_bases_iff source language tree made,
    fun binding scope rest chain short noMembers => ?_⟩
  · obtain ⟨scopes, same, behind⟩ := binding?_behind waits isNames bound
    refine ⟨fun noMembers => ?_, fun scope isScope plain => ?_⟩
    · rw [noMembers] at behind
      exact behind
    · rw [isScope, same plain] at behind
      exact behind
  · exact resolve_scope?_of_chain (walked_typeScope? source language tree) chain short noMembers

/-! ## A class and an alias of it -/

/-- A text in which a member is named behind an alias and behind the class that this names, and two
classes have these as their bases. -/
def renamedText : List Char :=
  "struct S{static int v;};typedef S A;int x=A::v;int y=S::v;struct D:A{};struct E:S{};".toList

def qualifiedVariable (id start : Nat) : ParseTree :=
  ruleNode id "declaration" "" start (start + 11)
    [ruleNode (id + 1) "primitive_type" "type" start (start + 3) [],
      ruleNode (id + 2) "init_declarator" "declarator" (start + 4) (start + 10)
        [ruleNode (id + 3) "identifier" "declarator" (start + 4) (start + 5) [],
          ruleNode (id + 4) "qualified_identifier" "value" (start + 6) (start + 10)
            [ruleNode (id + 5) "namespace_identifier" "scope" (start + 6) (start + 7) [],
              ruleNode (id + 6) "identifier" "name" (start + 9) (start + 10) []]]]

def derivedClass (id start : Nat) : ParseTree :=
  ruleNode id "struct_specifier" "" start (start + 12)
    [ruleNode (id + 1) "type_identifier" "name" (start + 7) (start + 8) [],
      ruleNode (id + 2) "base_class_clause" "" (start + 8) (start + 10)
        [ruleNode (id + 3) "type_identifier" "" (start + 9) (start + 10) []],
      ruleNode (id + 4) "field_declaration_list" "body" (start + 10) (start + 12) []]

def renamedTree : ParseTree :=
  ruleNode 0 "translation_unit" "" 0 84
    [ruleNode 1 "struct_specifier" "" 0 23
        [ruleNode 2 "type_identifier" "name" 7 8 [],
          ruleNode 3 "field_declaration_list" "body" 8 23
            [ruleNode 4 "field_declaration" "" 9 22
              [ruleNode 5 "storage_class_specifier" "" 9 15 [],
                ruleNode 6 "primitive_type" "type" 16 19 [],
                ruleNode 7 "field_identifier" "declarator" 20 21 []]]],
      typedefNode 8 24, qualifiedVariable 11 36, qualifiedVariable 18 47, derivedClass 25 58,
      derivedClass 30 71]

def behindAlias : PendingUse := ⟨[5, 6], .ordinary, false, Scopes.file, 42, .none⟩

def behindClass : PendingUse := ⟨[8, 9], .ordinary, false, Scopes.file, 53, .none⟩

def aliasBase : PendingUse := ⟨[11], .qualifier, false, Scopes.file, 67, .base 2⟩

def classBase : PendingUse := ⟨[13], .qualifier, false, Scopes.file, 80, .base 3⟩

theorem alias_of_class_qualifies_nothing :
    let walked := SourceUnit.walked renamedText .cpp renamedTree
    let final := walked.resolve
    (walked.usesInOrder.foldl resolveUse walked).TypeChain 1 [2] ∧ final.scope? 2 = some 1 ∧
      final.binding? 5 = some 2 ∧ final.binding? 6 = none ∧
      final.binding? 8 = some 0 ∧ final.binding? 9 = final.scopes.lookupMember .ordinary "v" 1 ∧
      final.binding? 9 = some 1 ∧
      1 ∉ final.scopes.edgesOf (·.bases) 2 ∧ 1 ∈ final.scopes.edgesOf (·.bases) 3 := by
  intro walked final
  obtain ⟨behind, bases, aliases⟩ := aliases_qualify_nothing renamedText .cpp renamedTree
  obtain ⟨isAlias, isAliasToo, isClass, isClassToo, noMembers, members, memberBound, next, spelled⟩ :
      final.binding? 5 = some 2 ∧ final.binding? 11 = some 2 ∧ final.binding? 8 = some 0 ∧
        final.binding? 13 = some 0 ∧ final.memberScope? 2 = none ∧ final.memberScope? 0 = some 1 ∧
        final.binding? 9 = some 1 ∧ final.scopes.next = 4 ∧ walked.spelling 9 = "v" := by
    decide +kernel
  obtain ⟨behindAliasWaits, behindClassWaits, classBaseWaits, onlyAliasBase⟩ :
      behindAlias ∈ walked.uses ∧ behindClass ∈ walked.uses ∧ classBase ∈ walked.uses ∧
        ∀ use ∈ walked.uses, use.effect = .base 2 → use = aliasBase := by
    decide +kernel
  have chain : (walked.usesInOrder.foldl resolveUse walked).TypeChain 1 [2] :=
    .last (by decide +kernel)
  have unbound : final.binding? 6 = none :=
    (behind behindAlias behindAliasWaits [] 5 6 [] 2 rfl isAlias).1 noMembers
  have member : final.binding? 9 = final.scopes.lookupMember .ordinary "v" 1 := by
    have found := (behind behindClass behindClassWaits [] 8 9 [] 0 rfl isClass).2 1 members rfl
    rwa [spelled] at found
  have noBase : 1 ∉ final.scopes.edgesOf (·.bases) 2 := by
    intro isBase
    have made : 2 < final.scopes.next := next ▸ by decide
    obtain ⟨-, use, waits, isEffect, last, binding, isLast, bound, scope⟩ := (bases 2 1 made).1 isBase
    obtain rfl := onlyAliasBase use waits isEffect
    obtain rfl : 11 = last := Option.some.inj isLast
    obtain rfl := Option.some.inj (isAliasToo.symm.trans bound)
    exact absurd (noMembers.symm.trans scope) nofun
  have isBase : 1 ∈ final.scopes.edgesOf (·.bases) 3 := by
    have made : 3 < final.scopes.next := next ▸ by decide
    exact (bases 3 1 made).2 ⟨by decide, classBase, classBaseWaits, rfl, 13, 0, rfl, isClassToo,
      members⟩
  exact ⟨chain, aliases 2 1 [] chain (by decide) noMembers, isAlias, unbound, isClass, member,
    memberBound, noBase, isBase⟩

end Walk

end CrossReference
