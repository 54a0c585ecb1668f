import CrossReference.Proofs.Walk.Members
import CrossReference.Proofs.Walk.Placements

/-!
# Paths of namespaces

A path of names leads from the file scope to the members of one namespace after the other.  Where no
two names of namespaces have one symbol, no two paths lead to the same scope.  A visit of a
namespace leads on by the segments of its name, whether they were there or are new.
-/

set_option autoImplicit false

namespace CrossReference.Walk

open ParseTree State

/-- A path leads to a scope if the scope before it has the last name of the path, as that of a
namespace, and this has its members there. -/
inductive Leads (isNamespace : Nat → String → Prop) (state : State) : List String → Nat → Prop where
  | file : Leads isNamespace state [] Scopes.file
  | member {path : List String} {text : String} {scope binding inner : Nat}
      (outer : Leads isNamespace state path scope) (named : isNamespace scope text)
      (found : state.scopes.local? .ordinary text scope = some binding)
      (members : state.memberScope? binding = some inner) :
      Leads isNamespace state (path ++ [text]) inner

/-- No symbol is that of two names of namespaces. -/
def NamespacesApart (isNamespace : Nat → String → Prop) (state : State) : Prop :=
  ∀ first second one two binding, isNamespace first one → isNamespace second two →
    state.scopes.local? .ordinary one first = some binding →
    state.scopes.local? .ordinary two second = some binding → first = second ∧ one = two

/-- Names of namespaces keep their symbols, and symbols their scopes of members. -/
structure Retains (isNamespace : Nat → String → Prop) (before after : State) : Prop where
  looks : ∀ scope text binding, isNamespace scope text →
    before.scopes.local? .ordinary text scope = some binding →
      after.scopes.local? .ordinary text scope = some binding
  members : KeepsMembers before after

section Leads

variable {isNamespace : Nat → String → Prop} {state before middle after : State}
  {path other : List String} {text : String} {scope : Nat}

namespace Retains

theorem refl (state : State) : Retains isNamespace state state where
  looks _ _ _ _ := id
  members _ _ := id

theorem trans (first : Retains isNamespace before middle)
    (last : Retains isNamespace middle after) : Retains isNamespace before after where
  looks scope text binding named found :=
    last.looks scope text binding named (first.looks scope text binding named found)
  members binding scope found := last.members binding scope (first.members binding scope found)

end Retains

namespace Leads

theorem retain (leads : Leads isNamespace before path scope)
    (retains : Retains isNamespace before after) : Leads isNamespace after path scope := by
  induction leads with
  | file => exact .file
  | member outer named found members ih =>
    exact .member ih named (retains.looks _ _ _ named found) (retains.members _ _ members)

theorem lt_next (leads : Leads isNamespace state path scope) (apart : MembersApart state) :
    scope < state.scopes.next := by
  cases leads with
  | file => exact apart.file
  | member outer named found members => exact apart.made _ _ members

theorem exists_outer (leads : Leads isNamespace state (path ++ [text]) scope) :
    ∃ outer binding, Leads isNamespace state path outer ∧
      state.scopes.local? .ordinary text outer = some binding ∧
      state.memberScope? binding = some scope := by
  generalize whole : path ++ [text] = all at leads
  cases leads with
  | file => simp at whole
  | member outer named found members =>
    obtain ⟨rfl, last⟩ := List.append_inj' whole rfl
    cases last
    exact ⟨_, _, outer, found, members⟩

theorem eq_file (leads : Leads isNamespace state [] scope) : scope = Scopes.file := by
  generalize whole : [] = all at leads
  cases leads with
  | file => rfl
  | member => simp at whole

theorem scope_eq {second : Nat} (leads : Leads isNamespace state path scope)
    (again : Leads isNamespace state path second) : scope = second := by
  induction leads generalizing second with
  | file => exact again.eq_file.symm
  | member outer named found members ih =>
    obtain ⟨otherOuter, binding, leadsOuter, otherFound, otherMembers⟩ := again.exists_outer
    rw [← ih leadsOuter, found] at otherFound
    obtain rfl := Option.some.inj otherFound
    exact Option.some.inj (members.symm.trans otherMembers)

theorem path_eq (apart : NamespacesApart isNamespace state) (membersApart : MembersApart state)
    (leads : Leads isNamespace state path scope) (again : Leads isNamespace state other scope) :
    path = other := by
  induction leads generalizing other with
  | file =>
    cases again with
    | file => rfl
    | member outer named found members => exact absurd rfl (membersApart.inner _ _ members)
  | member outer named found members ih =>
    cases again with
    | file => exact absurd rfl (membersApart.inner _ _ members)
    | member otherOuter otherNamed otherFound otherMembers =>
      obtain rfl := membersApart.apart _ _ _ members otherMembers
      obtain ⟨rfl, rfl⟩ := apart _ _ _ _ _ named otherNamed found otherFound
      rw [ih otherOuter]

theorem scope_eq_iff (apart : NamespacesApart isNamespace state)
    (membersApart : MembersApart state) {second : Nat} (leads : Leads isNamespace state path scope)
    (again : Leads isNamespace state other second) : scope = second ↔ path = other := by
  constructor
  · rintro rfl
    exact leads.path_eq apart membersApart again
  · rintro rfl
    exact leads.scope_eq again

end Leads

end Leads

/-! ## Visits that declare namespaces -/

section Edits

variable {source : List Char} {frame : Frame} {isNamespace : Nat → String → Prop}
  {before after : State}

/-- All that is found in a scope stays when namespaces are declared. -/
theorem Edits.retains (edits : Edits source frame before after)
    (isKind : frame.declaredKind? = some .namespaceName)
    (apart : before.scopes.Apart before.head?) (members : MembersApart before) :
    Retains isNamespace before after where
  looks scope text binding _ :=
    (edits.keeps (fun _ => by simp [isKind]) apart).looks .ordinary text scope binding (by decide)
  members := (edits.membersApart members).2

theorem NamespacesApart.of_same (apart : NamespacesApart isNamespace before)
    (same : ∀ scope text, isNamespace scope text →
      after.scopes.local? .ordinary text scope = before.scopes.local? .ordinary text scope) :
    NamespacesApart isNamespace after := by
  intro first second one two binding isFirst isSecond foundFirst foundSecond
  rw [same first one isFirst] at foundFirst
  rw [same second two isSecond] at foundSecond
  exact apart first second one two binding isFirst isSecond foundFirst foundSecond

theorem State.Declares.namespacesApart {tree : ParseTree} {result : Option Nat}
    (declares : Declares source tree .namespaceName result before after)
    (apart : before.scopes.Apart before.head?) (namespaces : NamespacesApart isNamespace before) :
    NamespacesApart isNamespace after := by
  obtain ⟨-, scopes, -⟩ | ⟨scope, existing, -, settles⟩ := declares.symbol
  · exact namespaces.of_same fun _ _ _ => by rw [scopes]
  have searched := existing_eq_local? apart settles
  have scopes := settles.scopes
  cases existing with
  | some found => exact namespaces.of_same fun _ _ _ => by rw [scopes]; rfl
  | none =>
    have known (other binding : Nat) (text : String)
        (found : after.scopes.local? .ordinary text other = some binding) :
        before.scopes.local? .ordinary text other = some binding ∧
            binding < before.symbols.size ∨
          other = scope ∧ text = tree.text source ∧ binding = before.symbols.size := by
      rw [scopes, Option.isSome_none, if_neg (by decide),
        show SymbolKind.namespaceName.space = .ordinary from rfl] at found
      by_cases here : scope = other
      · subst here
        rw [Scopes.local?_declare_ordinary _ searched.symm] at found
        split at found
        · rename_i same
          exact .inr ⟨rfl, same.1, (Option.some.inj found).symm⟩
        · exact .inl ⟨found, lt_size_of_local? apart (by decide) found⟩
      · rw [Scopes.local?_declare_of_ne _ here] at found
        exact .inl ⟨found, lt_size_of_local? apart (by decide) found⟩
    intro first second one two binding isFirst isSecond foundFirst foundSecond
    rcases known first binding one foundFirst with ⟨old, bound⟩ | ⟨rfl, rfl, new⟩ <;>
      rcases known second binding two foundSecond with ⟨oldToo, boundToo⟩ | ⟨rfl, rfl, newToo⟩
    · exact namespaces first second one two binding isFirst isSecond old oldToo
    · omega
    · omega
    · exact ⟨rfl, rfl⟩

theorem Edit.local?_eq_or_declares (edit : Edit source frame before after) :
    (∀ space text scope,
        after.scopes.local? space text scope = before.scopes.local? space text scope) ∨
      (∃ tree kind result, frame.declaredKind? = some kind ∧
        State.Declares source tree kind result before after) ∨
      frame.declaredKind? = some .enumerator := by
  cases edit with
  | opened => exact .inl fun _ _ _ => by simp
  | noted notes => exact .inl fun _ _ _ => by rw [notes.scopes]
  | declared isKind declares => exact .inr (.inl ⟨_, _, _, isKind, declares⟩)
  | shared scope isEnumerator => exact .inr (.inr isEnumerator)
  | pushed kind parent => exact .inl fun _ _ _ => by simp [pushScope]
  | entered binding kind parent =>
    refine .inl fun _ _ _ => ?_
    rcases openMembers_scopes before binding kind parent with same | pushed
    · rw [same]
    · rw [pushed, Scopes.local?_push]
  | specified => exact .inl fun _ _ _ => rfl
  | awaited => exact .inl fun _ _ _ => rfl
  | accessed => exact .inl fun _ _ _ => rfl
  | defined isDirective isMacro defines => exact .inl fun _ _ _ => by rw [defines.scopes]
  | revoked => exact .inl fun _ _ _ => rfl

theorem Edit.namespacesApart (edit : Edit source frame before after)
    (isKind : frame.declaredKind? = some .namespaceName)
    (apart : before.scopes.Apart before.head?) (namespaces : NamespacesApart isNamespace before) :
    NamespacesApart isNamespace after := by
  rcases edit.local?_eq_or_declares with same | ⟨tree, kind, result, isOther, declares⟩ | isOther
  · exact namespaces.of_same fun scope text _ => same .ordinary text scope
  · obtain rfl := Option.some.inj (isKind.symm.trans isOther)
    exact declares.namespacesApart apart namespaces
  · rw [isKind] at isOther
    cases isOther

theorem Edits.namespacesApart (edits : Edits source frame before after)
    (isKind : frame.declaredKind? = some .namespaceName)
    (apart : before.scopes.Apart before.head?) (namespaces : NamespacesApart isNamespace before) :
    NamespacesApart isNamespace after := by
  induction edits with
  | refl => exact namespaces
  | tail first last ih => exact last.namespacesApart isKind (Edits.tags first apart).apart ih

theorem Edits.local?_eq (edits : Edits source frame before after)
    (nothing : frame.declaredKind? = none) (space : NameSpace) (text : String) (scope : Nat) :
    after.scopes.local? space text scope = before.scopes.local? space text scope := by
  induction edits with
  | refl => rfl
  | tail _ last ih =>
    rcases last.local?_eq_or_declares with same | ⟨_, _, _, isKind, -⟩ | isKind
    · exact (same space text scope).trans ih
    · rw [nothing] at isKind
      cases isKind
    · rw [nothing] at isKind
      cases isKind

end Edits

/-! ## Segments of a name -/

section Segments

variable {source : List Char} {isNamespace : Nat → String → Prop} {state : State}

structure BoundIn (state : State) (name scope : Nat) (text : String) (binding : Nat) : Prop where
  occurrence : ∃ found, state.names[name]? = some found ∧ found.declares = true ∧
    found.binding = some binding
  found : state.scopes.local? .ordinary text scope = some binding

theorem BoundIn.retain {before after : State} {name scope binding : Nat} {text : String}
    (bound : BoundIn before name scope text binding) (named : isNamespace scope text)
    (grows : Grows before after) (retains : Retains isNamespace before after) :
    BoundIn after name scope text binding where
  occurrence := by
    obtain ⟨found, there, rest⟩ := bound.occurrence
    exact ⟨found, grows.occurrence_eq there, rest⟩
  found := retains.looks scope text binding named bound.found

/-- A segment is bound in the scope that it is declared in, and leads to the members of what it is
bound to. -/
theorem leads_segment {frame : Frame} (isKind : frame.declaredKind? = some .namespaceName)
    (inner : Context) (segment : ParseTree) {path : List String} {scope : Nat}
    (apart : state.scopes.Apart state.head?) (members : MembersApart state)
    (leads : Leads isNamespace state path scope) (spelled : segment.text source ≠ "")
    (named : isNamespace scope (segment.text source)) {declared : State} {result : Option Nat}
    (outcome : state.declare source segment inner scope .namespaceName none = (declared, result)) :
    (∃ binding, BoundIn declared state.names.size scope (segment.text source) binding) ∧
      Leads isNamespace (declared.openMembers result .namespaceBody scope).1
        (path ++ [segment.text source]) (declared.openMembers result .namespaceBody scope).2 := by
  have declares := declare_declares source state segment inner scope .namespaceName none
  obtain ⟨binding, isBinding⟩ :
      ∃ binding, (state.declare source segment inner scope .namespaceName none).2 =
        some binding := by
    rw [declare_eq_settle]
    exact ⟨_, (settle_settles source state segment inner scope .namespaceName none _ spelled
      (.inl rfl)).1⟩
  have found := local?_of_declare (leads.lt_next members) isBinding
  rw [outcome] at declares isBinding found
  obtain rfl : result = some binding := isBinding
  have later := declares.apart apart
  have known := lt_size_of_local? later (by decide) found
  have one : Edits source frame state declared := .single (.declared isKind declares)
  have next : Edits source frame declared _ :=
    .single (.entered declared (some binding) .namespaceBody scope (.inr rfl))
  have entered : Retains isNamespace declared _ :=
    next.retains isKind later (one.membersApart members).1
  refine ⟨⟨binding, ⟨_, declares.names ▸ Array.getElem?_push_size, rfl, rfl⟩, found⟩, ?_⟩
  exact .member (leads.retain ((one.retains isKind apart members).trans entered)) named
    (entered.looks _ _ _ named found) (openMembers_memberScope? known .namespaceBody scope)

/-- The name of a namespace leads on from the scope that it is declared in, segment by segment. -/
theorem leads_segments {frame : Frame} (isKind : frame.declaredKind? = some .namespaceName)
    (inner : Context) (segments : List ParseTree) {path : List String} {scope : Nat}
    (apart : state.scopes.Apart state.head?) (members : MembersApart state)
    (leads : Leads isNamespace state path scope)
    (each : ∀ placement ∈ segmentPlacements source inner segments state scope,
      placement.node.text source ≠ "" ∧
        isNamespace placement.scope (placement.node.text source)) :
    Leads isNamespace (visitNamespaceSegments source inner segments state scope).1
        (path ++ segments.map (·.text source))
        (visitNamespaceSegments source inner segments state scope).2 ∧
      ∀ (index : Nat) (placement : Placement),
        (segmentPlacements source inner segments state scope)[index]? = some placement →
          Leads isNamespace (visitNamespaceSegments source inner segments state scope).1
              (path ++ (segments.take index).map (·.text source)) placement.scope ∧
            ∃ binding, BoundIn (visitNamespaceSegments source inner segments state scope).1
              (state.names.size + index) placement.scope (placement.node.text source) binding := by
  induction segments generalizing state path scope with
  | nil => simpa [visitNamespaceSegments, segmentPlacements] using leads
  | cons segment rest ih =>
    have first := each ⟨segment, scope, .namespaceName⟩ List.mem_cons_self
    have declares := declare_declares source state segment inner scope .namespaceName none
    unfold segmentPlacements at each ⊢
    unfold visitNamespaceSegments
    simp only at each ⊢
    generalize outcome : state.declare source segment inner scope .namespaceName none = declaration
      at each declares ⊢
    obtain ⟨declared, result⟩ := declaration
    obtain ⟨⟨binding, bound⟩, leadsOn⟩ :=
      leads_segment isKind inner segment apart members leads first.1 first.2 outcome
    have size : declared.names.size = state.names.size + 1 := by
      rw [declares.names, Array.size_push]
    have one : Edits source frame state declared := .single (.declared isKind declares)
    have entered : Edits source frame state _ :=
      one.tail (.entered declared result .namespaceBody scope (.inr rfl))
    have others : Edits source frame declared _ :=
      .head (.entered declared result .namespaceBody scope (.inr rfl))
        (edits_visitNamespaceSegments inner isKind rest _
          (declared.openMembers result .namespaceBody scope).2)
    have all : Edits source frame state _ := one.trans others
    obtain ⟨leadsAll, later⟩ := ih (Edits.tags entered apart).apart
      (entered.membersApart members).1 leadsOn fun placement member =>
        each placement (List.mem_cons_of_mem _ member)
    rw [List.append_assoc] at leadsAll
    refine ⟨leadsAll, fun index placement isPlacement => ?_⟩
    cases index with
    | zero =>
      cases isPlacement
      rw [List.take_zero, List.map_nil, List.append_nil]
      exact ⟨leads.retain (all.retains isKind apart members), binding,
        bound.retain first.2 others.grows.1 (others.retains isKind (Edits.tags one apart).apart
          (one.membersApart members).1)⟩
    | succ index =>
      have rest := later index placement isPlacement
      rw [List.append_assoc, openMembers_names, size, Nat.add_assoc, Nat.add_comm 1] at rest
      exact rest

end Segments

end CrossReference.Walk
