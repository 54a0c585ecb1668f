import CrossReference.Proofs.Walk.Inside
import CrossReference.Proofs.Walk.Placements
import CrossReference.Proofs.Walk.Sharing
import CrossReference.Proofs.Walk.Undeclared

/-!
# The owner of a qualified declarator

The scope of the members of an owner is found twice: without noting anything when a function is
begun, and once more when the declarator is declared.  In each state that a walk comes to both ways
lead to the same scope, and they still do from one state to a later one if nothing has been declared
in between.
-/

set_option autoImplicit false

namespace CrossReference

open ParseTree

namespace Scopes

variable {before after : Scopes} {space : NameSpace} {name : String} {scope : Nat}

/-- Of scopes that take no names from others, only those that were there are asked by a search that
begins in one of them. -/
theorem lookup_eq_of_kept (types : after.tagsAreTypes = before.tagsAreTypes)
    (alone : ∀ (number : Nat) (found : Scope), before.all[number]? = some found →
      found.bases = [] ∧ found.usings = [])
    (kept : ∀ number < before.next, after.all[number]? = before.all[number]?) (position : Nat)
    (made : scope < before.next) :
    after.lookup space name position scope = before.lookup space name position scope := by
  induction scope using Nat.strongRecOn with
  | ind scope ih =>
    rw [lookup, lookup, kept scope made]
    cases there : before.all[scope]? with
    | none => rfl
    | some found =>
      obtain ⟨bases, usings⟩ := alone scope found there
      have seen : after.seenFrom? space name position found =
          before.seenFrom? space name position found := by
        simp only [seenFrom?, visible?, entryIn?, types, bases, usings, List.append_nil,
          List.findSome?_nil]
      simp only [seen]
      cases before.seenFrom? space name position found with
      | some binding => rfl
      | none =>
        cases found.parent with
        | none => rfl
        | some parent =>
          simp only
          split
          · rename_i earlier
            exact ih parent earlier (Nat.lt_trans earlier made)
          · rfl

theorem local?_eq_of_kept (types : after.tagsAreTypes = before.tagsAreTypes)
    (kept : after.all[scope]? = before.all[scope]?) :
    after.local? space name scope = before.local? space name scope := by
  simp only [local?, entry?, entryIn?, kept, types]

theorem Apart.spelled_of_holds {scopes : Scopes} {head? : Nat → Option (String × SymbolKind)}
    (apart : scopes.Apart head?) {text : String} {binding : Nat}
    (holds : scopes.Holds text binding) : text ≠ "" := by
  obtain ⟨number, found, entry, there, isTag | isSymbol, -⟩ := holds
  · exact (apart.tags number found there _ isTag).1
  · exact (apart.symbols number found there _ isSymbol).1

end Scopes

namespace Walk

open State

/-! ## States that a walk comes to -/

/-- A walk over a tree comes to a state, between two visits or during one. -/
inductive ComesTo (source : List Char) (language : Language) (tree : ParseTree) : State → Prop where
  | between {visited waiting : List Frame} {state : State}
      (reached : Reaches source (State.initial (language = .cpp)) [Frame.root tree] visited state
        waiting) : ComesTo source language tree state
  | during {visited waiting : List Frame} {before state : State} {frame : Frame}
      (moment : Reaches source (State.initial (language = .cpp)) [Frame.root tree] visited before
        (frame :: waiting))
      (edits : Edits source frame before state) : ComesTo source language tree state

namespace ComesTo

variable {source : List Char} {language : Language} {tree : ParseTree} {state : State}

theorem apart (comes : ComesTo source language tree state) :
    state.scopes.Apart state.head? := by
  cases comes with
  | between reached => exact reached.named.apart
  | during moment edits => exact (edits.tags moment.named.apart).apart

theorem membersApart (comes : ComesTo source language tree state) : MembersApart state := by
  cases comes with
  | between reached => exact reached.membersApart
  | during moment edits => exact (edits.membersApart moment.membersApart).1

end ComesTo

/-! ## Scopes of members are bodies -/

/-- The scopes of all members are bodies of classes and namespaces. -/
def MembersInBodies (state : State) : Prop :=
  ∀ binding scope, state.memberScope? binding = some scope →
    ∃ found, state.scopes.all[scope]? = some found ∧
      (found.kind = .classBody ∨ found.kind = .namespaceBody)

section Bodies

variable {source : List Char} {before after : State}

theorem MembersInBodies.of_extends (bodies : MembersInBodies before)
    (grown : before.scopes.Extends after.scopes)
    (same : ∀ binding, after.memberScope? binding = before.memberScope? binding) :
    MembersInBodies after := by
  intro binding scope isMembers
  obtain ⟨found, there, isBody⟩ := bodies binding scope (same binding ▸ isMembers)
  obtain ⟨later, isLater, extended⟩ := grown.scopes scope found there
  exact ⟨later, isLater, extended.kind ▸ isBody⟩

theorem MembersInBodies.openMembers {state : State} (bodies : MembersInBodies state)
    (binding : Option Nat) {kind : ScopeKind} (parent : Nat)
    (isBody : kind = .classBody ∨ kind = .namespaceBody) :
    MembersInBodies (state.openMembers binding kind parent).1 := by
  obtain ⟨scope, -, same⟩ | ⟨pushed, -, known⟩ := openMembers_cases state binding kind parent
  · rw [same]
    exact bodies
  · intro other scope isMembers
    rw [pushed]
    rcases known other scope isMembers with old | ⟨-, isNext⟩
    · obtain ⟨found, there, isOld⟩ := bodies other scope old
      obtain ⟨later, isLater, extended⟩ :=
        (Scopes.Extends.push state.scopes kind (some parent)).scopes scope found there
      exact ⟨later, isLater, extended.kind ▸ isOld⟩
    · rw [isNext]
      exact ⟨Scope.fresh kind (some parent), Array.getElem?_push_size, isBody⟩

theorem Edit.membersInBodies {frame : Frame} (edit : Edit source frame before after)
    (bodies : MembersInBodies before) : MembersInBodies after := by
  have grown := edit.scopes_extend
  cases edit with
  | opened => exact bodies.of_extends grown fun _ => by simp [memberScope?]
  | noted notes => exact bodies.of_extends grown notes.memberScopes
  | declared isKind declares => exact bodies.of_extends grown declares.memberScopes
  | shared scope isEnumerator declares => exact bodies.of_extends grown declares.memberScopes
  | entered binding kind parent isBody => exact bodies.openMembers binding parent isBody
  | defined isDirective isKind defines => exact bodies.of_extends grown defines.memberScopes
  | pushed | specified | awaited | accessed | revoked =>
    exact bodies.of_extends grown fun _ => rfl

theorem Reaches.membersInBodies {tagsAreTypes : Bool} {frames visited waiting : List Frame}
    {state : State}
    (reached : Reaches source (State.initial tagsAreTypes) frames visited state waiting) :
    MembersInBodies state := by
  have noMembers : MembersInBodies (State.initial tagsAreTypes) := fun _ _ isMembers => by
    simp [State.initial, memberScope?] at isMembers
  exact reached.invariant (fun _ state _ => MembersInBodies state) noMembers
    fun _ state frame _ _ bodies =>
      (edits_visit source state frame).invariant (fun _ _ edit => edit.membersInBodies) bodies

/-- An owner is the file or the body of a class or namespace, where names are visible everywhere. -/
theorem Reaches.owner_unordered {tagsAreTypes : Bool} {frames visited waiting : List Frame}
    {state : State} {declarator : ParseTree} {context : Context} {owner : Nat}
    (reached : Reaches source (State.initial tagsAreTypes) frames visited state waiting)
    (owned : ownerScope? source state declarator context = some owner) :
    ∃ found, state.scopes.all[owner]? = some found ∧ found.kind.isOrdered = false := by
  have members : ∀ binding scope, state.memberScope? binding = some scope →
      ∃ found, state.scopes.all[scope]? = some found ∧ found.kind.isOrdered = false := by
    intro binding scope isMembers
    obtain ⟨found, there, isClass | isNamespace⟩ := reached.membersInBodies binding scope isMembers
    · exact ⟨found, there, by rw [isClass]; rfl⟩
    · exact ⟨found, there, by rw [isNamespace]; rfl⟩
  have file : ∃ found, state.scopes.all[Scopes.file]? = some found ∧
      found.kind.isOrdered = false := by
    obtain ⟨found, there, extended⟩ := reached.extends_start.scopes Scopes.file
      (Scope.fresh .file none) rfl
    exact ⟨found, there, by rw [extended.kind]; rfl⟩
  exact ownerScope?_holds members file owned

end Bodies

/-! ## Two ways to the owner -/

section Owner

variable {source : List Char} {state : State} {context : Context}

theorem bindQualifiers_unresolved (segments : List ParseTree) (isFirst : Bool)
    {reached : Prefixed} (unresolved : reached.resolved = false) :
    (bindQualifiers source context segments isFirst reached).owner? = none := by
  induction segments generalizing isFirst reached with
  | nil => simp [bindQualifiers, Prefixed.owner?, unresolved]
  | cons segment rest ih =>
    apply ih
    simp [unresolved]

/-- What a segment in front of a name is looked up as: among the members of the scope that the ones
before it lead to, or outwards from the context if it is the first. -/
def qualifier? (state : State) (context : Context) (text : String) (position : Nat) :
    Option Nat → Option Nat
  | some scope => state.scopes.lookupMember .qualifier text scope
  | none => state.scopes.lookup .qualifier text position context.scope

theorem qualifier?_unspelled (apart : state.scopes.Apart state.head?) (position : Nat)
    (scope : Option Nat) : qualifier? state context "" position scope = none := by
  have unspelled (binding : Nat) : ¬ state.scopes.Holds "" binding := fun holds =>
    apart.spelled_of_holds holds rfl
  rw [Option.eq_none_iff_forall_ne_some]
  intro binding found
  cases scope with
  | some scope => exact unspelled binding (Scopes.holds_of_lookupMember found)
  | none => exact unspelled binding (Scopes.holds_of_lookup found)

theorem scopeOfQualifiers?_cons (segment : ParseTree) (rest : List ParseTree)
    (scope : Option Nat) :
    scopeOfQualifiers? source state context (segment :: rest) scope =
      (segment.text? source).bind fun text =>
        ((qualifier? state context text segment.start scope).bind state.memberScope?).bind
          fun next => scopeOfQualifiers? source state context rest (some next) := by
  simp only [scopeOfQualifiers?]
  cases segment.text? source with
  | none => rfl
  | some text =>
    simp only [Option.bind_some]
    cases scope <;> simp only [qualifier?] <;> split <;> rename_i found <;> simp [found]

variable (source context) in
/-- To note a segment in front of a name leaves scopes and members as they are.  The way goes on from
the scope of the members of what the segment names. -/
theorem exists_bindQualifiers_cons (segment : ParseTree) (rest : List ParseTree) {isFirst : Bool}
    {current : State} {scope : Option Nat} (notes : NotesNames state current)
    (begun : isFirst = true ∨ scope.isSome = true) :
    ∃ bound, NotesNames state bound ∧
      bindQualifiers source context (segment :: rest) isFirst ⟨current, scope, true⟩ =
        let next := (qualifier? state context (segment.text source) segment.start scope).bind
          state.memberScope?
        bindQualifiers source context rest false ⟨bound, next, next.isSome⟩ := by
  have scopes : (current.addName source segment context false).1.scopes = state.scopes :=
    notes.scopes
  have noted := notes.trans
    (bindQualifiers_notesNames source context [segment] isFirst ⟨current, scope, true⟩)
  refine ⟨_, noted, ?_⟩
  have members := funext noted.memberScopes
  cases scope with
  | some scope =>
    simp only [bindQualifiers, scopes] at members ⊢
    rw [members]
    rfl
  | none =>
    have isFirst : isFirst = true := begun.resolve_right nofun
    simp only [bindQualifiers, scopes, isFirst, Bool.and_self, if_true] at members ⊢
    rw [members]
    rfl

theorem bindQualifiers_owner? (apart : state.scopes.Apart state.head?)
    (segments : List ParseTree) {isFirst : Bool} {current : State} {scope : Option Nat}
    (notes : NotesNames state current) (begun : isFirst = true ∨ scope.isSome = true) :
    (bindQualifiers source context segments isFirst ⟨current, scope, true⟩).owner? =
      scopeOfQualifiers? source state context segments scope := by
  induction segments generalizing isFirst current scope with
  | nil => simp [bindQualifiers, scopeOfQualifiers?, Prefixed.owner?]
  | cons segment rest ih =>
    obtain ⟨bound, noted, same⟩ :=
      exists_bindQualifiers_cons source context segment rest notes begun
    rw [same, scopeOfQualifiers?_cons]
    cases spells : segment.text? source with
    | none =>
      have unspelled : segment.text source = "" := by simp [ParseTree.text, spells]
      simp only [unspelled, qualifier?_unspelled apart]
      exact bindQualifiers_unresolved rest false rfl
    | some text =>
      have isText : segment.text source = text := by simp [ParseTree.text, spells]
      simp only [isText, Option.bind_some]
      cases (qualifier? state context text segment.start scope).bind state.memberScope? with
      | none => exact bindQualifiers_unresolved rest false rfl
      | some next => exact ih noted (.inr rfl)

/-- The owner of a qualified declarator is what the segments in front of its name lead to. -/
theorem ownerScope?_eq_owner? (apart : state.scopes.Apart state.head?)
    {declarator name : ParseTree} (named : declarator.declaratorName? = some name)
    (qualified : isQualified name.kind = true)
    (segmented : (QualifiedName.ofTree name).segments ≠ []) :
    ownerScope? source state declarator context =
      (state.prefixed source name context).owner? := by
  have isSegmented : (QualifiedName.ofTree name).segments.isEmpty = false := by
    simpa using segmented
  simp only [ownerScope?, named, qualified, isSegmented, Bool.not_true, Bool.false_eq_true,
    if_false, Bool.or_false, prefixed]
  cases (QualifiedName.ofTree name).isBroken with
  | true => exact (bindQualifiers_unresolved _ true rfl).symm
  | false => exact (bindQualifiers_owner? apart _ (.refl state) (.inl rfl)).symm

/-! ## What a qualified declaration binds -/

/-- The occurrence that a declaration adds last is bound to what a scope itself has for its
spelling. -/
def BindsMember (source : List Char) (declared : State × Option Nat) (last : ParseTree)
    (kind : SymbolKind) (owner : Nat) : Prop :=
  ∃ binding, declared.2 = some binding ∧
    declared.1.names.back? =
      some ⟨last.text source, locationOf source last, true, some binding⟩ ∧
    declared.1.scopes.local? kind.space (last.text source) owner = some binding

variable {name last : ParseTree} {kind : SymbolKind} {typeRef : Option TypeRef} {owner : Nat}

theorem declareQualified_of_owner (apart : state.scopes.Apart state.head?)
    (isLast : (QualifiedName.ofTree name).segments.getLast? = some last)
    (owned : (state.prefixed source name context).owner? = some owner) :
    state.declareQualified source name context kind typeRef =
      (state.prefixed source name context).state.declare source last context owner kind
        typeRef := by
  have scopes := (prefixed_notesNames source state name context).scopes
  have alone : (state.prefixed source name context).state.scopes.imports owner = [] := by
    rw [scopes]
    exact apart.imports_eq owner
  rw [declareQualified_eq_settle, isLast]
  simp only [owned]
  rw [Scopes.lookupMember_eq_local? _ _ _ alone, declare_eq_settle]

theorem declareQualified_of_no_owner
    (isLast : (QualifiedName.ofTree name).segments.getLast? = some last)
    (unowned : (state.prefixed source name context).owner? = none) :
    (state.declareQualified source name context kind typeRef).2 = none := by
  rw [declareQualified_eq_settle, isLast]
  simp only [unowned]

theorem declareQualified_bindsMember (apart : state.scopes.Apart state.head?)
    (isLast : (QualifiedName.ofTree name).segments.getLast? = some last)
    (spelled : last.text source ≠ "")
    (owned : (state.prefixed source name context).owner? = some owner)
    (made : owner < state.scopes.next) :
    BindsMember source (state.declareQualified source name context kind typeRef) last kind
      owner := by
  rw [declareQualified_of_owner apart isLast owned]
  have scopes := (prefixed_notesNames source state name context).scopes
  generalize (state.prefixed source name context).state = noted at scopes
  have declares := declare_declares source noted last context owner kind typeRef
  cases bound : (noted.declare source last context owner kind typeRef).2 with
  | none =>
    obtain ⟨result, -⟩ := settle_settles source noted last context owner kind typeRef
      (noted.scopes.local? kind.space (last.text source) owner) spelled (.inl rfl)
    rw [← declare_eq_settle, bound] at result
    cases result
  | some binding =>
    refine ⟨binding, bound, ?_, local?_of_declare (scopes ▸ made) bound⟩
    rw [declares.names, bound]
    exact Array.back?_push

variable (context kind typeRef) in
/-- A declarator has an owner exactly where the declaration of its name binds it, and then the name
is bound to a member of that owner. -/
theorem ownerScope?_binds (apart : state.scopes.Apart state.head?) (members : MembersApart state)
    {declarator : ParseTree} (named : declarator.declaratorName? = some name)
    (qualified : isQualified name.kind = true)
    (isLast : (QualifiedName.ofTree name).segments.getLast? = some last)
    (spelled : last.text source ≠ "") :
    ((ownerScope? source state declarator context).isSome =
      (state.declareQualified source name context kind typeRef).2.isSome) ∧
    ∀ owner, ownerScope? source state declarator context = some owner →
      BindsMember source (state.declareQualified source name context kind typeRef) last kind
        owner := by
  have segmented : (QualifiedName.ofTree name).segments ≠ [] := by
    intro none
    simp [none] at isLast
  have same : ownerScope? source state declarator context = _ :=
    ownerScope?_eq_owner? apart named qualified segmented
  have binds (owner : Nat) (owned : ownerScope? source state declarator context = some owner) :
      BindsMember source (state.declareQualified source name context kind typeRef) last kind
        owner :=
    declareQualified_bindsMember apart isLast spelled (same.symm.trans owned)
      (ownerScope?_lt members.made members.file owned)
  refine ⟨?_, binds⟩
  cases owned : ownerScope? source state declarator context with
  | none =>
    rw [declareQualified_of_no_owner isLast (same.symm.trans owned)]
  | some owner =>
    obtain ⟨binding, bound, -⟩ := binds owner owned
    rw [bound]
    rfl

end Owner

/-! ## Owners in later states -/

section Still

variable {source : List Char} {before after : State} {context other : Context}

theorem qualifier?_eq_of_still (still : Still before after)
    (apart : before.scopes.Apart before.head?) (apartToo : after.scopes.Apart after.head?)
    (same : other.scope = context.scope) (made : context.scope < before.scopes.next)
    (text : String) (position : Nat) {scope : Option Nat}
    (isMade : ∀ number ∈ scope, number < before.scopes.next) :
    qualifier? after other text position scope = qualifier? before context text position scope := by
  cases scope with
  | some scope =>
    simp only [qualifier?]
    rw [Scopes.lookupMember_eq_local? _ _ _ (apart.imports_eq scope),
      Scopes.lookupMember_eq_local? _ _ _ (apartToo.imports_eq scope)]
    exact Scopes.local?_eq_of_kept still.types (still.scopes scope (isMade scope rfl))
  | none =>
    simp only [qualifier?, same]
    exact Scopes.lookup_eq_of_kept still.types apart.alone still.scopes position made

theorem scopeOfQualifiers?_eq_of_still (still : Still before after)
    (apart : before.scopes.Apart before.head?) (apartToo : after.scopes.Apart after.head?)
    (members : MembersMade before) (same : other.scope = context.scope)
    (made : context.scope < before.scopes.next) (segments : List ParseTree) {scope : Option Nat}
    (isMade : ∀ number ∈ scope, number < before.scopes.next) :
    scopeOfQualifiers? source after other segments scope =
      scopeOfQualifiers? source before context segments scope := by
  induction segments generalizing scope with
  | nil => rfl
  | cons segment rest ih =>
    have memberScopes := funext still.memberScopes
    rw [scopeOfQualifiers?_cons, scopeOfQualifiers?_cons, memberScopes]
    cases segment.text? source with
    | none => rfl
    | some text =>
      simp only [Option.bind_some]
      rw [qualifier?_eq_of_still still apart apartToo same made text segment.start isMade]
      cases found : (qualifier? before context text segment.start scope).bind
        before.memberScope? with
      | none => rfl
      | some next =>
        refine ih fun number isNext => ?_
        cases isNext
        obtain ⟨binding, -, isMembers⟩ := Option.bind_eq_some_iff.1 found
        exact members binding next isMembers

theorem ownerScope?_eq_of_still (still : Still before after)
    (apart : before.scopes.Apart before.head?) (apartToo : after.scopes.Apart after.head?)
    (members : MembersApart before) (same : other.scope = context.scope)
    (made : context.scope < before.scopes.next) (declarator : ParseTree) :
    ownerScope? source after declarator other = ownerScope? source before declarator context := by
  unfold ownerScope?
  cases declarator.declaratorName? with
  | none => rfl
  | some name =>
    simp only
    split
    · rfl
    · split
      · rfl
      · refine scopeOfQualifiers?_eq_of_still still apart apartToo members.made same made _ ?_
        intro number isFile
        split at isFile <;> cases isFile
        exact members.file

end Still

end Walk

end CrossReference
