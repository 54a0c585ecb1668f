import CrossReference.Proofs.Walk.NodeOccurrences
import CrossReference.Proofs.Walk.Qualifiers

/-!
# Accessed members

The names of accessed members are bound one after the other, in the order in which they were met.
Where the name of the object was met before that of the member, it has its binding by then, and the
member is what the type of that binding has for its name.
-/

set_option autoImplicit false

namespace CrossReference.Walk

open ParseTree

namespace State

/-! ## The order of accessed members -/

/-- Accessed members wait in the order of their occurrences. -/
structure MembersInOrder (state : State) : Prop where
  increasing : state.members.toList.Pairwise fun earlier later => earlier.name < later.name
  made : ∀ member ∈ state.members, member.name < state.names.size

end State

open State

theorem Awaits.membersInOrder {source : List Char} {used : List (ParseTree × NameSpace)}
    {before after : State} (awaits : Awaits source used before after)
    (inOrder : before.MembersInOrder) : after.MembersInOrder := by
  induction awaits with
  | quiet grows uses members =>
    exact ⟨members ▸ inOrder.increasing, fun member waits =>
      Nat.lt_of_lt_of_le (inOrder.made member (members ▸ waits)) grows.names⟩
  | use state tree context space effect regular =>
    have members := noteUse_members source state tree context space effect
    have grows := noteUse_grows source state tree context space effect
    exact ⟨members ▸ inOrder.increasing, fun member waits =>
      Nat.lt_of_lt_of_le (inOrder.made member (members ▸ waits)) grows.names⟩
  | member state tree context object =>
    refine ⟨?_, fun member waits => ?_⟩
    · rw [Array.toList_push, List.pairwise_append]
      refine ⟨inOrder.increasing, List.pairwise_singleton _ _, fun earlier waits later isNew => ?_⟩
      rw [List.mem_singleton.1 isNew]
      exact inOrder.made earlier (Array.mem_def.2 waits)
    · rw [addName_names, Array.size_push]
      rcases Array.mem_push.1 waits with old | rfl
      · exact Nat.lt_succ_of_lt (inOrder.made member old)
      · exact Nat.lt_succ_self _
  | append _ _ ihFirst ihLast => exact ihLast (ihFirst inOrder)

theorem Awaits.members_kept {source : List Char} {used : List (ParseTree × NameSpace)}
    {before after : State} (awaits : Awaits source used before after) {member : PendingMember}
    (waited : member ∈ before.members) : member ∈ after.members := by
  induction awaits with
  | quiet grows uses members => exact members ▸ waited
  | use state tree context space effect regular => rwa [noteUse_members]
  | member => exact Array.mem_push_of_mem _ waited
  | append _ _ ihFirst ihLast => exact ihLast (ihFirst waited)

theorem walked_membersInOrder (source : List Char) (language : Language) (tree : ParseTree) :
    (SourceUnit.walked source language tree).MembersInOrder := by
  obtain ⟨used, awaits⟩ := exists_awaits_run source (State.initial (language = .cpp))
    [Frame.root tree]
  exact awaits.membersInOrder ⟨List.Pairwise.nil, fun member waits => by simp [State.initial] at waits⟩

namespace State

/-! ## Binding a member -/

def objectScope? (state : State) : Option ObjectRef → Option Nat
  | some (.class scope) => some scope
  | some (.name identity) => (state.bindingOfNode? identity).bind state.typeScope?
  | none => none

theorem resolveMember_eq (state : State) (member : PendingMember) :
    state.resolveMember member =
      match state.objectScope? member.object with
      | some scope =>
          state.setBinding member.name
            (state.scopes.lookupMember .ordinary (state.spelling member.name) scope)
      | none => state := by
  unfold resolveMember objectScope?
  rcases member.object with _ | (identity | scope) <;> rfl

structure Rebound (before after : State) : Prop where
  scopes : after.scopes = before.scopes
  symbols : after.symbols = before.symbols
  nameOfNode : after.nameOfNode = before.nameOfNode
  spellings : ∀ name, after.spelling name = before.spelling name

theorem resolveMember_rebound (state : State) (member : PendingMember) :
    Rebound state (state.resolveMember member) := by
  rw [resolveMember_eq]
  split
  · exact ⟨rfl, rfl, rfl, fun name => setBinding_spelling state member.name name _⟩
  · exact ⟨rfl, rfl, rfl, fun _ => rfl⟩

theorem foldl_resolveMember_rebound (members : List PendingMember) (state : State) :
    Rebound state (members.foldl resolveMember state) :=
  List.foldlRecOn (motive := Rebound state) _ _ ⟨rfl, rfl, rfl, fun _ => rfl⟩
    fun later same member _ =>
      have step := resolveMember_rebound later member
      ⟨step.scopes.trans same.scopes, step.symbols.trans same.symbols,
        step.nameOfNode.trans same.nameOfNode,
        fun name => (step.spellings name).trans (same.spellings name)⟩

theorem bindAll_nameOfNode (state : State) (bindings : List (Nat × Option Nat)) :
    (state.bindAll bindings).nameOfNode = state.nameOfNode :=
  List.foldlRecOn (motive := fun later : State => later.nameOfNode = state.nameOfNode) _ _ rfl
    fun _ same _ _ => same

theorem resolveUse_nameOfNode (state : State) (use : PendingUse) :
    (state.resolveUse use).nameOfNode = state.nameOfNode := by
  have applied (current : State) (binding : Nat) :
      (current.applyEffect binding use.effect).nameOfNode = current.nameOfNode := by
    cases use.effect <;> unfold applyEffect <;> simp only <;> split <;> try rfl
    split <;> rfl
  have bound (scope : Option Nat) :
      (bindSegments use use.names scope true state).1.nameOfNode = state.nameOfNode := by
    rw [bindSegments_eq]
    exact bindAll_nameOfNode state _
  unfold resolveUse
  simp only
  split
  · rw [applied, bound]
  · rw [bound]

theorem learnTypeScopes_nameOfNode (state : State) :
    state.learnTypeScopes.nameOfNode = state.nameOfNode := by
  refine List.foldlRecOn (motive := fun later : State => later.nameOfNode = state.nameOfNode) _ _
    rfl fun between known _ _ => ?_
  refine List.foldlRecOn (motive := fun later : State => later.nameOfNode = state.nameOfNode) _ _
    known fun later same binding _ => ?_
  rw [learnTypeScope_eq]
  exact same

def boundUpTo (walked : State) (earlier : List PendingMember) : State :=
  earlier.foldl resolveMember (walked.usesInOrder.foldl resolveUse walked).learnTypeScopes

theorem boundUpTo_nameOfNode (walked : State) (earlier : List PendingMember) :
    (walked.boundUpTo earlier).nameOfNode = walked.nameOfNode := by
  rw [boundUpTo, (foldl_resolveMember_rebound earlier _).nameOfNode, learnTypeScopes_nameOfNode]
  exact List.foldlRecOn (motive := fun later : State => later.nameOfNode = walked.nameOfNode) _ _ rfl
    fun later same use _ => (resolveUse_nameOfNode later use).trans same

section Split

variable {walked : State} {earlier later : List PendingMember} {member : PendingMember}
  (split : walked.members.toList = earlier ++ member :: later)

include split

theorem resolve_of_split :
    walked.resolve = (member :: later).foldl resolveMember (walked.boundUpTo earlier) := by
  rw [resolve, split, List.foldl_append, boundUpTo]

/-- What is bound neither by a member nor by later ones has its binding before them. -/
theorem boundUpTo_binding? {name : Nat} (settled : ∀ other ∈ member :: later, other.name ≠ name) :
    (walked.boundUpTo earlier).binding? name = walked.resolve.binding? name := by
  rw [binding?, binding?, resolve_of_split split, foldl_resolveMember_getElem? _ settled]

/-- In the end a member has the binding that it gets when its turn comes, or none if its object has
no scope then. -/
theorem WaitsApart.member_binding? (apart : walked.WaitsApart) :
    walked.resolve.binding? member.name =
      ((walked.boundUpTo earlier).objectScope? member.object).bind
        (walked.resolve.scopes.lookupMember .ordinary (walked.resolve.spelling member.name)) := by
  have nodup := apart.nodup
  rw [waitingNames, split, List.map_append, List.map_cons] at nodup
  obtain ⟨-, members, noUse⟩ := List.nodup_append.1 nodup
  obtain ⟨-, fromHere, apartFromEarlier⟩ := List.nodup_append.1 members
  have notLater : ∀ other ∈ later, other.name ≠ member.name := fun other isLater same =>
    (List.nodup_cons.1 fromHere).1 (List.mem_map.2 ⟨other, isLater, same⟩)
  have notEarlier : ∀ other ∈ earlier, other.name ≠ member.name := fun other isEarlier =>
    apartFromEarlier _ (List.mem_map_of_mem isEarlier) _ List.mem_cons_self
  have notUsed : ∀ use ∈ walked.usesInOrder, member.name ∉ use.names := fun use waits isName =>
    noUse _ (List.mem_flatMap.2 ⟨use, walked.usesInOrder_perm.mem_iff.1 waits, isName⟩) _
      (List.mem_append_right _ List.mem_cons_self) rfl
  have untouched : (walked.boundUpTo earlier).names[member.name]? = walked.names[member.name]? := by
    rw [boundUpTo, foldl_resolveMember_getElem? _ notEarlier, learnTypeScopes_names,
      foldl_resolveUse_getElem? _ notUsed]
  obtain ⟨found, there, -, unbound⟩ := apart.unbound member.name (by
    rw [waitingNames, split]
    exact List.mem_append_right _ (List.mem_map_of_mem (List.mem_append_right _ List.mem_cons_self)))
  have rest := foldl_resolveMember_rebound (member :: later) (walked.boundUpTo earlier)
  rw [← resolve_of_split split] at rest
  have bound : walked.resolve.names[member.name]? =
      ((walked.boundUpTo earlier).resolveMember member).names[member.name]? := by
    rw [resolve_of_split split, List.foldl_cons, foldl_resolveMember_getElem? _ notLater]
  rw [binding?, bound, resolveMember_eq, rest.scopes, rest.spellings]
  cases (walked.boundUpTo earlier).objectScope? member.object with
  | none => simp only [untouched, there, unbound, Option.bind_none]
  | some scope =>
    simp only [setBinding_getElem?, untouched, there, if_true, Option.map_some, Option.bind_some]

end Split

end State

section Walks

variable {source : List Char} {language : Language} {tree node : ParseTree}

/-- A member of an object that was met before is looked up in the type of the object's binding, which
is final when the turn of the member comes. -/
theorem member_binding?_of_object {walked : State}
    (isWalk : walked = SourceUnit.walked source language tree) {member : PendingMember} {name : Nat}
    (waits : member ∈ walked.members) (isObject : member.object = some (.name node.id))
    (occurs : OccursAs source walked node name) (isEarlier : name < member.name) :
    walked.resolve.binding? member.name =
        ((walked.resolve.binding? name).bind walked.resolve.typeScope?).bind
          (walked.resolve.scopes.lookupMember .ordinary (walked.resolve.spelling member.name)) ∧
      ∃ earlier later, walked.members.toList = earlier ++ member :: later ∧
        (walked.boundUpTo earlier).binding? name = walked.resolve.binding? name := by
  have apart : walked.WaitsApart := isWalk ▸ walked_waitsApart source language tree
  have inOrder : walked.MembersInOrder := isWalk ▸ walked_membersInOrder source language tree
  obtain ⟨earlier, later, split⟩ := List.append_of_mem (Array.mem_def.1 waits)
  have increasing := inOrder.increasing
  rw [split, List.pairwise_append, List.pairwise_cons] at increasing
  have settled : ∀ other ∈ member :: later, other.name ≠ name := by
    intro other isOther
    rcases List.mem_cons.1 isOther with rfl | isLater
    · exact Nat.ne_of_gt isEarlier
    · exact Nat.ne_of_gt (Nat.lt_trans isEarlier (increasing.2.1.1 other isLater))
  have final := boundUpTo_binding? split settled
  refine ⟨?_, earlier, later, split, final⟩
  have rest := foldl_resolveMember_rebound (member :: later) (walked.boundUpTo earlier)
  rw [← resolve_of_split split] at rest
  have types (binding : Nat) : (walked.boundUpTo earlier).typeScope? binding =
      walked.resolve.typeScope? binding := by
    rw [typeScope?, typeScope?, rest.symbols]
  have found : (walked.boundUpTo earlier).bindingOfNode? node.id =
      walked.resolve.binding? name := by
    rw [bindingOfNode?, boundUpTo_nameOfNode, occurs.found]
    exact final
  rw [apart.member_binding? split, isObject, objectScope?, found, funext types]

end Walks

end CrossReference.Walk
