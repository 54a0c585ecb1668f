import CrossReference.Proofs.Walk.Bound
import CrossReference.Proofs.Walk.Inside

/-!
# Regions of scopes

A region is a part of what a walk gathers: some of the scopes and some of the symbols.  It is closed
if the scopes in it hold symbols in it, and if the members of these are in scopes in it.  Frames that
speak of scopes in a closed region leave all scopes outside as they are, for all that they declare is
declared in the region.  Only a qualified name may reach out of it.
-/

set_option autoImplicit false

namespace CrossReference.Walk

open ParseTree State

/-- Some scopes and some symbols. -/
structure Region where
  scopes : Nat → Prop
  symbols : Nat → Prop

namespace Region

/-- Scopes in the region hold symbols in it, which have their members in it. -/
structure Closed (region : Region) (state : State) : Prop where
  entries : ∀ scope binding, region.scopes scope → state.scopes.HoldsIn scope binding →
    region.symbols binding
  members : ∀ binding scope, region.symbols binding → state.memberScope? binding = some scope →
    region.scopes scope

/-- A closed region to which all belongs that is yet to be made. -/
structure Hosts (region : Region) (state : State) : Prop extends region.Closed state where
  newScopes : ∀ scope, state.scopes.next ≤ scope → region.scopes scope
  newSymbols : ∀ binding, state.symbols.size ≤ binding → region.symbols binding

/-- Outside of the region the scopes stay as they are, and so do the scopes of members. -/
structure Spares (region : Region) (before after : State) : Prop where
  scopes : ∀ scope, ¬ region.scopes scope → after.scopes.all[scope]? = before.scopes.all[scope]?
  members : ∀ binding, ¬ region.symbols binding →
    after.memberScope? binding = before.memberScope? binding

variable {region : Region} {before middle after : State}

theorem Spares.refl (state : State) : region.Spares state state where
  scopes _ _ := rfl
  members _ _ := rfl

theorem Spares.trans (first : region.Spares before middle) (last : region.Spares middle after) :
    region.Spares before after where
  scopes scope outside := (last.scopes scope outside).trans (first.scopes scope outside)
  members binding outside := (last.members binding outside).trans (first.members binding outside)

def none : Region where
  scopes _ := False
  symbols _ := False

theorem closed_none (state : State) : none.Closed state where
  entries _ _ := False.elim
  members _ _ := False.elim

def grown (region : Region) (state : State) : Region where
  scopes scope := region.scopes scope ∨ state.scopes.next ≤ scope
  symbols binding := region.symbols binding ∨ state.symbols.size ≤ binding

theorem Closed.hosts {state : State} (closed : region.Closed state) :
    (region.grown state).Hosts state where
  entries scope binding inside held := by
    rcases inside with known | isNew
    · exact .inl (closed.entries scope binding known held)
    · obtain ⟨_, _, _, there, -⟩ := held
      rw [Array.getElem?_eq_none isNew] at there
      cases there
  members binding scope inside found := by
    rcases inside with known | isNew
    · exact .inl (closed.members binding scope known found)
    · rw [memberScope?, Array.getElem?_eq_none isNew] at found
      cases found
  newScopes _ := .inr
  newSymbols _ := .inr

def other (region : Region) : Region where
  scopes scope := ¬ region.scopes scope
  symbols binding := ¬ region.symbols binding

theorem other_other (region : Region) : region.other.other = region := by
  simp [other]

/-- A region is closed, and so is all that is not in it. -/
structure Divides (region : Region) (state : State) : Prop where
  inside : region.Closed state
  outside : region.other.Closed state

theorem Divides.symm {state : State} (divides : region.Divides state) :
    region.other.Divides state :=
  ⟨divides.outside, region.other_other.symm ▸ divides.inside⟩

end Region

/-! ## Frames of a region -/

structure Context.In (region : Region) (context : Context) : Prop where
  scope : region.scopes context.scope
  declareIn : region.scopes context.declareIn

def Mode.In (region : Region) : Mode → Prop
  | .declarator _ _ (some scope) => region.scopes scope
  | .declarator _ _ none | .plain | .body | .member _ | .branch _ => True

structure Frame.In (region : Region) (frame : Frame) : Prop where
  context : frame.context.In region
  mode : frame.mode.In region

/-- Whether a visit of a frame declares a qualified name.  A class or an enum that is only named
declares nothing. -/
def Frame.declaresQualifiedName (frame : Frame) : Bool :=
  match frame.mode with
  | .plain | .member _ =>
      hasQualifiedTag frame.tree && ((frame.tree.child? "body").isSome || frame.declaresTag)
  | .declarator _ _ _ => isQualified frame.tree.kind
  | .body | .branch _ => false

section In

variable {region : Region} {context : Context} {scope : Nat}

theorem Context.in_within (inside : region.scopes scope) : (context.within scope).In region :=
  ⟨inside, inside⟩

theorem in_declaratorMode {kind : SymbolKind} {typeRef : Option TypeRef} {parameters : Option Nat}
    (inside : Mode.In region (.declarator kind typeRef parameters)) (tree : ParseTree) :
    (declaratorMode kind typeRef parameters tree).In region := by
  unfold declaratorMode
  split
  · exact inside
  · trivial

end In

/-- A visit stays in a region that hosts the state: it spares all outside, and what it leaves speaks
of the region only. -/
structure StaysIn (region : Region) (before : State) (visited : Visited) : Prop where
  hosts : region.Hosts visited.1
  spares : region.Spares before visited.1
  left : ∀ next ∈ visited.2, next.In region

namespace StaysIn

variable {region : Region} {before middle after : State} {first last frames : List Frame}

theorem refl (hosts : region.Hosts before) : StaysIn region before (before, []) where
  hosts := hosts
  spares := .refl before
  left := List.forall_mem_nil _

theorem of_same (hosts : region.Hosts before) (scopes : after.scopes = before.scopes)
    (size : before.symbols.size ≤ after.symbols.size)
    (members : ∀ binding, after.memberScope? binding = before.memberScope? binding) :
    StaysIn region before (after, []) where
  hosts :=
    { entries := fun scope binding inside held => hosts.entries scope binding inside (scopes ▸ held)
      members := fun binding scope inside found =>
        hosts.members binding scope inside (members binding ▸ found)
      newScopes := fun scope new => hosts.newScopes scope (scopes ▸ new)
      newSymbols := fun binding new => hosts.newSymbols binding (Nat.le_trans size new) }
  spares := ⟨fun _ _ => by rw [scopes], fun binding _ => members binding⟩
  left := List.forall_mem_nil _

theorem append (begun : StaysIn region before (middle, first))
    (ended : StaysIn region middle (after, last)) :
    StaysIn region before (after, first ++ last) where
  hosts := ended.hosts
  spares := begun.spares.trans ended.spares
  left next member := by
    rcases List.mem_append.1 member with isFirst | isLast
    · exact begun.left next isFirst
    · exact ended.left next isLast

theorem leaves (changed : StaysIn region before (after, []))
    (left : ∀ next ∈ frames, next.In region) : StaysIn region before (after, frames) where
  hosts := changed.hosts
  spares := changed.spares
  left := left

theorem leaves_map (changed : StaysIn region before (after, [])) {trees : List ParseTree}
    {frameOf : ParseTree → Frame} (each : ∀ child, (frameOf child).In region) :
    StaysIn region before (after, trees.map frameOf) := by
  refine changed.leaves fun next member => ?_
  obtain ⟨child, -, rfl⟩ := List.mem_map.1 member
  exact each child

theorem leaves_one (changed : StaysIn region before (after, [])) {frame : Frame}
    (inside : frame.In region) : StaysIn region before (after, [frame]) := by
  refine changed.leaves fun next member => ?_
  rwa [List.mem_singleton.1 member]

theorem of_declare (hosts : region.Hosts before) {scope : Nat} (inside : region.scopes scope)
    {binding : Nat} (isSymbol : region.symbols binding) (space : NameSpace) (name : String)
    (position : Nat)
    (scopes : after.scopes = before.scopes.declare scope space name binding position)
    (size : before.symbols.size ≤ after.symbols.size)
    (members : ∀ other, after.memberScope? other = before.memberScope? other) :
    StaysIn region before (after, []) where
  hosts :=
    { entries := fun other held isInside isHeld => by
        rw [scopes] at isHeld
        rcases Scopes.holdsIn_of_declare isHeld with old | ⟨-, isNew⟩
        · exact hosts.entries other held isInside old
        · exact isNew ▸ isSymbol
      members := fun other scope isInside found =>
        hosts.members other scope isInside (members other ▸ found)
      newScopes := fun other new => hosts.newScopes other (by
        rwa [scopes, Scopes.next_declare] at new)
      newSymbols := fun other new => hosts.newSymbols other (Nat.le_trans size new) }
  spares :=
    { scopes := fun other outside => by
        have different : ¬ scope = other := fun same => outside (same ▸ inside)
        rw [scopes, Scopes.getElem?_declare, if_neg different]
      members := fun other _ => members other }
  left := List.forall_mem_nil _

end StaysIn

/-! ## Changes of the state -/

section Changes

variable {source : List Char} {region : Region} {state : State} {tree : ParseTree}
  {context : Context}

theorem staysIn_openDeclaration (hosts : region.Hosts state) (kind : String) (context : Context) :
    StaysIn region state ((state.openDeclaration kind context).1, []) :=
  .of_same hosts (by simp) (by simp) fun _ => by simp [memberScope?]

theorem staysIn_notes {after : State} (hosts : region.Hosts state)
    (notes : NotesNames state after) : StaysIn region state (after, []) :=
  .of_same hosts notes.scopes notes.grows.symbols notes.memberScopes

/-- What is declared in a scope of the region is a symbol of it, a new one or one that the scope
held. -/
theorem staysIn_declare (source : List Char) (hosts : region.Hosts state) (name : ParseTree)
    (inner : Context) {scope : Nat} (inside : region.scopes scope) (kind : SymbolKind) (typeRef : Option TypeRef) :
    StaysIn region state ((state.declare source name inner scope kind typeRef).1, []) ∧
      ∀ binding ∈ (state.declare source name inner scope kind typeRef).2,
        region.symbols binding := by
  have declares := declare_declares source state name inner scope kind typeRef
  rw [declare_eq_settle] at declares ⊢
  by_cases spelled : name.text source = ""
  · rw [settle_unspelled source state name inner scope kind typeRef _ spelled]
    exact ⟨.of_same hosts rfl (Nat.le_refl _) fun _ => rfl, nofun⟩
  · obtain ⟨result, settles⟩ := settle_settles source state name inner scope kind typeRef
      (state.scopes.local? kind.space (name.text source) scope) spelled (.inl rfl)
    have scopes := settles.scopes
    have grown := declares.grows.symbols
    rw [result]
    cases found : state.scopes.local? kind.space (name.text source) scope with
    | some known =>
      have isSymbol := hosts.entries scope known inside (Scopes.holdsIn_of_local? found)
      rw [found] at scopes grown declares
      exact ⟨.of_same hosts scopes grown declares.memberScopes, fun _ same => by
        obtain rfl := Option.some.inj same
        exact isSymbol⟩
    | none =>
      have isSymbol := hosts.newSymbols state.symbols.size (Nat.le_refl _)
      rw [found] at scopes grown declares
      exact ⟨.of_declare hosts inside isSymbol _ _ _ scopes grown declares.memberScopes,
        fun _ same => by
          obtain rfl := Option.some.inj same
          exact isSymbol⟩

theorem staysIn_pushScope (hosts : region.Hosts state) (kind : ScopeKind) (parent : Nat) :
    StaysIn region state ((state.pushScope kind parent).1, []) where
  hosts :=
    { entries := fun scope binding inside held =>
        hosts.entries scope binding inside (Scopes.holdsIn_of_push held)
      members := hosts.members
      newScopes := fun scope new => by
        simp only [pushScope, Scopes.next, Scopes.push, Array.size_push] at new
        exact hosts.newScopes scope (Nat.le_of_lt new)
      newSymbols := hosts.newSymbols }
  spares :=
    { scopes := fun scope outside => by
        have different : scope ≠ state.scopes.all.size := fun same =>
          outside (hosts.newScopes scope (Nat.le_of_eq same.symm))
        simp [pushScope, Scopes.push, Array.getElem?_push, different]
      members := fun _ _ => rfl }
  left := List.forall_mem_nil _

theorem Region.Hosts.pushed (hosts : region.Hosts state) (kind : ScopeKind) (parent : Nat) :
    region.scopes (state.pushScope kind parent).2 :=
  hosts.newScopes _ (Nat.le_refl _)

theorem staysIn_openMembers (hosts : region.Hosts state) {binding : Option Nat}
    (inside : ∀ known ∈ binding, region.symbols known) (kind : ScopeKind) (parent : Nat) :
    StaysIn region state ((state.openMembers binding kind parent).1, []) ∧
      region.scopes (state.openMembers binding kind parent).2 := by
  obtain ⟨scope, found, same⟩ | ⟨pushed, isNext, known⟩ :=
    openMembers_cases state binding kind parent
  · obtain ⟨owner, isOwner, isScope⟩ := Option.bind_eq_some_iff.1 found
    rw [same]
    exact ⟨.refl hosts, hosts.members owner scope (inside owner isOwner) isScope⟩
  · have new := staysIn_pushScope hosts kind parent
    have isNew : region.scopes state.scopes.next := hosts.newScopes _ (Nat.le_refl _)
    refine ⟨⟨?_, ?_, List.forall_mem_nil _⟩, isNext ▸ isNew⟩
    · refine ⟨⟨fun scope held isInside isHeld => ?_, fun other scope isInside found => ?_⟩,
        fun scope later => ?_, fun other later => ?_⟩
      · exact new.hosts.entries scope held isInside (by rwa [pushed] at isHeld)
      · rcases known other scope found with old | ⟨-, rfl⟩
        · exact hosts.members other scope isInside old
        · exact isNew
      · exact new.hosts.newScopes scope (by rwa [pushed] at later)
      · exact hosts.newSymbols other (by rwa [openMembers_symbols_size] at later)
    · refine ⟨fun scope outside => ?_, fun other outside => Option.ext fun scope => ⟨?_, ?_⟩⟩
      · rw [pushed]
        exact new.spares.scopes scope outside
      · intro found
        rcases known other scope found with old | ⟨isOther, -⟩
        · exact old
        · exact absurd (inside other isOther) outside
      · exact openMembers_keepsMembers state binding kind parent other scope

theorem staysIn_visitEach {step : State → ParseTree → Visited} {trees : List ParseTree}
    (hosts : region.Hosts state)
    (each : ∀ current, region.Hosts current → ∀ child ∈ trees,
      StaysIn region current (step current child)) :
    StaysIn region state (visitEach step trees state) := by
  induction trees generalizing state with
  | nil => exact .refl hosts
  | cons first rest ih =>
    have begun := each state hosts first List.mem_cons_self
    exact begun.append (ih begun.hosts fun current kept other member =>
      each current kept other (List.mem_cons_of_mem _ member))

theorem staysIn_visitUse (hosts : region.Hosts state) (inside : context.In region)
    (name : ParseTree) (space : NameSpace) (effect : Effect) :
    StaysIn region state (visitUse source state name context space effect) := by
  obtain ⟨notes, -⟩ := addUses_notesNames source context (QualifiedName.ofTree name).segments state
  have noted : StaysIn region state
      (state.noteUse source name context space effect, []) := by
    unfold noteUse
    simp only
    split
    · exact staysIn_notes hosts notes
    · exact (staysIn_notes hosts notes).append
        (.of_same (staysIn_notes hosts notes).hosts rfl (Nat.le_refl _) fun _ => rfl)
  exact noted.leaves_map fun _ => ⟨inside, trivial⟩

end Changes

/-! ## Visits -/

section Visits

variable {source : List Char} {region : Region} {state : State} {tree : ParseTree}
  {context : Context} {frame : Frame}

theorem staysIn_visitFunction (hosts : region.Hosts state) (inside : frame.context.In region) :
    StaysIn region state (visitFunction source state frame.tree frame.context) := by
  have begun := staysIn_openDeclaration hosts frame.tree.kind frame.context
  have isNew : region.scopes state.scopes.next := hosts.newScopes _ (Nat.le_refl _)
  have inner : (state.openDeclaration frame.tree.kind frame.context).2.In region :=
    ⟨inside.scope, inside.declareIn⟩
  rw [visitFunction_eq]
  refine (begun.append (staysIn_pushScope begun.hosts .function _)).leaves_map fun child => ?_
  unfold functionPart
  split
  · exact ⟨inner, isNew⟩
  · split
    · exact ⟨Context.in_within isNew, trivial⟩
    · split
      · exact ⟨Context.in_within isNew, trivial⟩
      · exact ⟨inner, trivial⟩

theorem staysIn_visitDeclaration (hosts : region.Hosts state) (inside : context.In region)
    (kind : SymbolKind) : StaysIn region state (visitDeclaration state tree context kind) := by
  have noParameters : Mode.In region (.declarator kind tree.declaredType? none) := trivial
  exact (staysIn_openDeclaration hosts tree.kind context).leaves_map fun child =>
    ⟨⟨inside.scope, inside.declareIn⟩, in_declaratorMode noParameters child⟩

theorem staysIn_visitElaborated (hosts : region.Hosts state) (inside : context.In region) :
    StaysIn region state (visitElaborated source state tree context) := by
  refine staysIn_visitEach hosts fun current kept child _ => ?_
  split
  · exact staysIn_visitUse kept inside child .tag .none
  · exact (StaysIn.refl kept).leaves_one ⟨inside, trivial⟩

theorem staysIn_visitTag (source : List Char) (hosts : region.Hosts state) (inside : context.In region)
    {declareIn : Nat} (isScope : region.scopes declareIn) (kind : SymbolKind)
    (allowTemplate : Bool)
    (unqualified : ∀ name, tree.child? "name" = some name → isQualified name.kind = false) :
    StaysIn region state
        ((visitTag source state tree context declareIn kind allowTemplate).1.1,
          (visitTag source state tree context declareIn kind allowTemplate).2) ∧
      ∀ binding ∈ (visitTag source state tree context declareIn kind allowTemplate).1.2,
        region.symbols binding := by
  unfold visitTag
  split
  · exact ⟨.refl hosts, nofun⟩
  · rename_i name found
    rw [unqualified name found]
    split
    · contradiction
    · split
      · simp only
        split
        · rename_i plain _
          obtain ⟨declared, isSymbol⟩ := staysIn_declare source hosts plain context
            isScope kind none
          exact ⟨declared.leaves_map fun _ => ⟨inside, trivial⟩, isSymbol⟩
        · exact ⟨(StaysIn.refl hosts).leaves_map fun _ => ⟨inside, trivial⟩, nofun⟩
      · exact staysIn_declare source hosts name context isScope kind none

theorem staysIn_visitClassPart (hosts : region.Hosts state) (inside : context.In region)
    {scope : Nat} (isScope : region.scopes scope) (child : ParseTree) :
    StaysIn region state (visitClassPart source tree context scope state child) := by
  unfold visitClassPart
  split
  · exact .refl hosts
  · split
    · exact (StaysIn.refl hosts).leaves_one ⟨Context.in_within isScope, trivial⟩
    · split
      · refine staysIn_visitEach hosts fun current kept base _ => ?_
        split
        · exact staysIn_visitUse kept inside base .qualifier _
        · exact (StaysIn.refl kept).leaves_one ⟨inside, trivial⟩
      · exact (StaysIn.refl hosts).leaves_one ⟨inside, trivial⟩

theorem staysIn_written (source : List Char) (hosts : region.Hosts state) (inside : context.In region)
    (kind : SymbolKind) (allowTemplate : Bool)
    (unqualified : ∀ name, tree.child? "name" = some name → isQualified name.kind = false)
    (memberKind : ScopeKind) :
    let (opened, inner) := state.openDeclaration tree.kind context
    let ((declared, binding), frames) :=
      visitTag source opened tree inner context.declareIn kind allowTemplate
    let (entered, scope) := declared.openMembers binding memberKind context.scope
    StaysIn region state (declared, frames) ∧
      StaysIn region state (entered.noteSpecifier tree scope, frames) ∧ region.scopes scope := by
  have begun := staysIn_openDeclaration hosts tree.kind context
  have inner : (state.openDeclaration tree.kind context).2.In region :=
    ⟨inside.scope, inside.declareIn⟩
  have tag := staysIn_visitTag source begun.hosts inner inside.declareIn kind
    allowTemplate unqualified
  simp only at tag ⊢
  generalize visitTag source (state.openDeclaration tree.kind context).1 tree
    (state.openDeclaration tree.kind context).2 context.declareIn kind allowTemplate = result
      at tag ⊢
  obtain ⟨⟨declared, binding⟩, frames⟩ := result
  obtain ⟨tag, isSymbol⟩ := tag
  have tagged := begun.append tag
  obtain ⟨entered, isScope⟩ := staysIn_openMembers tag.hosts isSymbol memberKind context.scope
  have noted : StaysIn region declared
      ((declared.openMembers binding memberKind context.scope).1.noteSpecifier tree
        (declared.openMembers binding memberKind context.scope).2, []) :=
    entered.append (.of_same entered.hosts rfl (Nat.le_refl _) fun _ => rfl)
  exact ⟨tagged, by simpa using tagged.append noted, isScope⟩

theorem unqualified_tag
    (manner : frame.mode = .plain ∨ ∃ object, frame.mode = .member object)
    (form : (∃ kind, frame.tree.form = .classSpecifier kind) ∨ frame.tree.form = .enumSpecifier)
    (declared : ((frame.tree.child? "body").isSome || frame.declaresTag) = true)
    (unqualified : frame.declaresQualifiedName = false) :
    ∀ name, frame.tree.child? "name" = some name → isQualified name.kind = false := by
  intro name found
  have noTag : hasQualifiedTag frame.tree = false := by
    rcases manner with plain | ⟨object, member⟩
    · simpa [Frame.declaresQualifiedName, plain, declared] using unqualified
    · simpa [Frame.declaresQualifiedName, member, declared] using unqualified
  rcases form with ⟨kind, isClass⟩ | isEnum
  · simpa [hasQualifiedTag, isClass, found] using noTag
  · simpa [hasQualifiedTag, isEnum, found] using noTag

theorem staysIn_visitClass (hosts : region.Hosts state) (inside : context.In region)
    (kind : SymbolKind) (declaresTag : Bool)
    (unqualified : ((tree.child? "body").isSome || declaresTag) = true →
      ∀ name, tree.child? "name" = some name → isQualified name.kind = false) :
    StaysIn region state (visitClass source state tree context kind declaresTag) := by
  have written := fun declared => staysIn_written source hosts inside kind true
    (unqualified declared) .classBody
  have inner : (state.openDeclaration tree.kind context).2.In region :=
    ⟨inside.scope, inside.declareIn⟩
  unfold visitClass
  simp only at written ⊢
  generalize visitTag source (state.openDeclaration tree.kind context).1 tree
    (state.openDeclaration tree.kind context).2 context.declareIn kind true = result at written ⊢
  obtain ⟨⟨declared, binding⟩, frames⟩ := result
  simp only at written ⊢
  split
  · exact staysIn_visitElaborated hosts inside
  · rename_i isDeclared
    obtain ⟨tagged, entered, isScope⟩ := written (by
      simp only [Bool.and_eq_true, Bool.not_eq_true', not_and, Bool.not_eq_false] at isDeclared
      rw [Bool.or_eq_true, or_iff_not_imp_left]
      simpa using isDeclared)
    split
    · exact tagged
    · exact entered.append (staysIn_visitEach entered.hosts fun current kept child _ =>
        staysIn_visitClassPart kept inner isScope child)

theorem StaysIn.leaves_body {before after : State} {inner body : Context}
    (changed : StaysIn region before (after, [])) (outer : inner.In region)
    (inside : body.In region) (children : List ParseTree) :
    StaysIn region before (after, children.map fun child =>
      Frame.child tree (if child.field = "body" then body else inner) .plain child) := by
  refine changed.leaves_map fun child => ⟨?_, trivial⟩
  simp only [Frame.child]
  split
  · exact inside
  · exact outer

theorem staysIn_visitEnum (hosts : region.Hosts state) (inside : context.In region)
    (declaresTag : Bool)
    (unqualified : ((tree.child? "body").isSome || declaresTag) = true →
      ∀ name, tree.child? "name" = some name → isQualified name.kind = false) :
    StaysIn region state (visitEnum source state tree context declaresTag) := by
  have written := fun declared => staysIn_written source hosts inside .enumName false
    (unqualified declared) .namespaceBody
  have inner : (state.openDeclaration tree.kind context).2.In region :=
    ⟨inside.scope, inside.declareIn⟩
  unfold visitEnum
  simp only at written ⊢
  generalize visitTag source (state.openDeclaration tree.kind context).1 tree
    (state.openDeclaration tree.kind context).2 context.declareIn .enumName false = result
      at written ⊢
  obtain ⟨⟨declared, binding⟩, frames⟩ := result
  simp only at written ⊢
  split
  · exact staysIn_visitElaborated hosts inside
  · rename_i isDeclared
    obtain ⟨tagged, entered, isScope⟩ := written (by
      simp only [Bool.and_eq_true, Bool.not_eq_true', not_and, Bool.not_eq_false] at isDeclared
      rw [Bool.or_eq_true, or_iff_not_imp_left]
      simpa using isDeclared)
    split
    · refine entered.append (StaysIn.leaves_body (.refl entered.hosts) inner ⟨isScope, ?_⟩ _)
      simp only
      split
      · exact isScope
      · exact inside.declareIn
    · exact tagged.append (StaysIn.leaves_body (.refl tagged.hosts) inner inner _)

theorem staysIn_visitEnumerator (hosts : region.Hosts state) (inside : context.In region) :
    StaysIn region state (visitEnumerator source state tree context) := by
  have begun := staysIn_openDeclaration hosts tree.kind context
  refine begun.append (staysIn_visitEach begun.hosts fun current kept child _ => ?_)
  split
  · exact (StaysIn.refl kept).leaves_one ⟨⟨inside.scope, inside.declareIn⟩, trivial⟩
  · obtain ⟨declared, isSymbol⟩ := staysIn_declare source kept child
      (state.openDeclaration tree.kind context).2 inside.declareIn .enumerator none
    simp only at declared isSymbol ⊢
    split
    · rename_i binding bound
      split
      · exact declared.append (.of_declare declared.hosts inside.scope (isSymbol binding bound)
          .ordinary (child.text source) child.start rfl (Nat.le_refl _) fun _ => rfl)
      · exact declared
    · exact declared

theorem staysIn_visitNamespaceSegments (source : List Char) (hosts : region.Hosts state)
    (inner : Context) (segments : List ParseTree) {scope : Nat} (isScope : region.scopes scope) :
    StaysIn region state ((visitNamespaceSegments source inner segments state scope).1, []) ∧
      region.scopes (visitNamespaceSegments source inner segments state scope).2 := by
  induction segments generalizing state scope with
  | nil => exact ⟨.refl hosts, isScope⟩
  | cons segment rest ih =>
    obtain ⟨declared, isSymbol⟩ := staysIn_declare source hosts segment inner isScope
      .namespaceName none
    obtain ⟨entered, isMembers⟩ := staysIn_openMembers declared.hosts isSymbol .namespaceBody scope
    obtain ⟨others, isLast⟩ := ih entered.hosts isMembers
    exact ⟨(declared.append entered).append others, isLast⟩

theorem staysIn_visitNamespace (hosts : region.Hosts state) (inside : context.In region) :
    StaysIn region state (visitNamespace source state tree context) := by
  have begun := staysIn_openDeclaration hosts tree.kind context
  have entered (segments : List ParseTree) := staysIn_visitNamespaceSegments source begun.hosts
    (state.openDeclaration tree.kind context).2 segments inside.declareIn
  have inner : (state.openDeclaration tree.kind context).2.In region :=
    ⟨inside.scope, inside.declareIn⟩
  exact (begun.append (entered _).1).leaves_body inner (Context.in_within (entered _).2) _

theorem staysIn_visitTemplate (hosts : region.Hosts state) (inside : context.In region) :
    StaysIn region state (visitTemplate state tree context) := by
  have begun := staysIn_openDeclaration hosts tree.kind context
  have isNew := begun.hosts.pushed .templateHead context.scope
  refine (begun.append (staysIn_pushScope begun.hosts .templateHead context.scope)).leaves_map
    fun child => ⟨?_, trivial⟩
  simp only [Frame.child]
  split
  · exact Context.in_within isNew
  · exact ⟨isNew, inside.declareIn⟩

theorem staysIn_declaredChildren (hosts : region.Hosts state) (inside : context.In region)
    (test : ParseTree → Prop) [DecidablePred test] (kind : SymbolKind)
    (typeRef : Option TypeRef) :
    StaysIn region state
      (let (opened, inner) := state.openDeclaration tree.kind context
       visitEach
         (fun state child =>
           if test child then
             ((state.declare source child inner context.declareIn kind typeRef).1, [])
           else (state, [Frame.child tree inner .plain child]))
         tree.namedChildren opened) := by
  have begun := staysIn_openDeclaration hosts tree.kind context
  refine begun.append (staysIn_visitEach begun.hosts fun current kept child _ => ?_)
  split
  · exact (staysIn_declare source kept child _ inside.declareIn kind typeRef).1
  · exact (StaysIn.refl kept).leaves_one ⟨⟨inside.scope, inside.declareIn⟩, trivial⟩

theorem staysIn_visitUsing (hosts : region.Hosts state) (inside : context.In region) :
    StaysIn region state (visitUsing source state tree context) := by
  have begun := staysIn_openDeclaration hosts tree.kind context
  have inner : (state.openDeclaration tree.kind context).2.In region :=
    ⟨inside.scope, inside.declareIn⟩
  refine begun.append (staysIn_visitEach begun.hosts fun current kept child _ => ?_)
  split
  · exact staysIn_visitUse kept inner child .ordinary _
  · exact (StaysIn.refl kept).leaves_one ⟨inner, trivial⟩

theorem staysIn_visitMacroDefinition (hosts : region.Hosts state) :
    StaysIn region state (visitMacroDefinition source state tree context, []) := by
  have begun := staysIn_openDeclaration hosts tree.kind context
  have ofDefines {before after : State} {name : ParseTree} {result : Option Nat}
      (kept : region.Hosts before) (defines : State.Defines source name result before after) :
      StaysIn region before (after, []) :=
    .of_same kept defines.scopes defines.symbols defines.memberScopes
  unfold visitMacroDefinition
  simp only
  generalize state.openDeclaration tree.kind context = start at begun ⊢
  split
  · exact begun
  · rename_i nameTree found
    split
    · exact begun.append (ofDefines begun.hosts (addName_defines source start.1 nameTree start.2))
    · have defines (values : Condition.Macros) :=
        defineMacro_defines source start.1 nameTree start.2 tree.stop values rfl
      split <;> exact begun.append (ofDefines begun.hosts (defines _))

theorem staysIn_visitDirective (hosts : region.Hosts state) :
    StaysIn region state (visitDirective source state tree context, []) := by
  unfold visitDirective
  simp only
  split
  · exact .refl hosts
  · split
    · exact .refl hosts
    · split <;> exact .of_same hosts rfl (Nat.le_refl _) fun _ => rfl

theorem staysIn_visitConditional (hosts : region.Hosts state) (inside : context.In region)
    (taken : Bool) : StaysIn region state (visitConditional source state tree context taken) := by
  refine (StaysIn.refl hosts).leaves_map fun child => ?_
  split
  · exact ⟨inside, trivial⟩
  · split
    · exact ⟨inside, trivial⟩
    · exact ⟨⟨inside.scope, inside.declareIn⟩, trivial⟩

theorem staysIn_visitBlock (hosts : region.Hosts state) (tree : ParseTree) (context : Context) :
    StaysIn region state (visitBlock state tree context) := by
  have isNew := hosts.pushed .block context.scope
  have noParameters : Mode.In region (.declarator .variable tree.declaredType? none) := trivial
  unfold visitBlock
  simp only
  split
  · exact (staysIn_pushScope hosts .block context.scope).leaves_map fun _ =>
      ⟨Context.in_within isNew, trivial⟩
  · exact (staysIn_pushScope hosts .block context.scope).leaves_map fun child =>
      ⟨Context.in_within isNew, in_declaratorMode noParameters child⟩

theorem staysIn_visitLambda (hosts : region.Hosts state) (inside : context.In region) :
    StaysIn region state (visitLambda state tree context) := by
  have isNew := hosts.pushed .function context.scope
  refine (staysIn_pushScope hosts .function context.scope).leaves_map fun child => ?_
  split
  · exact ⟨Context.in_within isNew, trivial⟩
  · split
    · exact ⟨Context.in_within isNew, trivial⟩
    · exact ⟨inside, trivial⟩

theorem staysIn_visitMemberAccess (hosts : region.Hosts state) (inside : context.In region) :
    StaysIn region state (visitMemberAccess state tree context) := by
  refine (StaysIn.refl hosts).leaves_map fun child => ⟨inside, ?_⟩
  simp only [Frame.child]
  split <;> trivial

theorem staysIn_childFrames (hosts : region.Hosts state) (inside : context.In region) :
    StaysIn region state (state, childFrames tree context) :=
  (StaysIn.refl hosts).leaves_map fun _ => ⟨inside, trivial⟩

theorem staysIn_visitFunctionDeclarator (hosts : region.Hosts state) (inside : context.In region)
    {kind : SymbolKind} {typeRef : Option TypeRef} {parameters : Option Nat}
    (isScope : Mode.In region (.declarator kind typeRef parameters)) :
    StaysIn region state
      (visitFunctionDeclarator state tree context kind typeRef parameters) := by
  have parts {after : State} {scope : Nat} (declared : SymbolKind)
      (changed : StaysIn region state (after, [])) (isInner : region.scopes scope) :
      StaysIn region state (after, tree.namedChildren.map fun child =>
        if child.field = "declarator" then
          Frame.child tree context (.declarator declared typeRef none) child
        else if child.field = "parameters" then
          Frame.child tree (context.within scope) .plain child
        else Frame.child tree { context with scope := scope } .plain child) := by
    refine changed.leaves_map fun child => ?_
    split
    · exact ⟨inside, trivial⟩
    · split
      · exact ⟨Context.in_within isInner, trivial⟩
      · exact ⟨⟨isInner, inside.declareIn⟩, trivial⟩
  cases parameters with
  | some scope => exact parts _ (.refl hosts) isScope
  | none =>
    exact parts _ (staysIn_pushScope hosts .function context.scope)
      (hosts.pushed .function context.scope)

theorem staysIn_declareEach (hosts : region.Hosts state) (inner : Context) {declareIn : Nat}
    (isScope : region.scopes declareIn) (kind : SymbolKind) (trees : List ParseTree) :
    StaysIn region state (trees.foldl (fun state child =>
      (state.declare source child inner declareIn kind none).1) state, []) := by
  induction trees generalizing state with
  | nil => exact .refl hosts
  | cons first rest ih =>
    have declared := (staysIn_declare source hosts first inner isScope kind none).1
    exact declared.append (ih declared.hosts)

theorem staysIn_visitDeclarator {kind : SymbolKind} {typeRef : Option TypeRef}
    {parameters : Option Nat} (hosts : region.Hosts state) (inside : frame.In region)
    (manner : frame.mode = .declarator kind typeRef parameters)
    (unqualified : frame.declaresQualifiedName = false) :
    StaysIn region state (visitDeclarator source state frame kind typeRef parameters) := by
  have nothing := StaysIn.refl hosts
  have context := inside.context
  have isScope := inside.mode
  rw [manner] at isScope
  simp only [Frame.declaresQualifiedName, manner] at unqualified
  unfold visitDeclarator
  simp only [unqualified]
  split
  · exact (staysIn_declare source hosts frame.tree frame.context context.declareIn kind typeRef).1
  · split
    · contradiction
    · split
      · exact staysIn_visitFunctionDeclarator hosts context isScope
      · split
        · exact nothing.leaves_map fun child => ⟨context, in_declaratorMode isScope child⟩
        · split
          · refine StaysIn.leaves_map ?_ fun _ => ⟨context, trivial⟩
            split
            · rename_i name _
              exact (staysIn_declare source hosts name frame.context context.declareIn kind typeRef).1
            · exact nothing
          · split
            · exact staysIn_declareEach hosts frame.context context.declareIn .variable _
            · split
              · refine nothing.leaves_map fun child => ⟨context, ?_⟩
                simp only [Frame.child]
                split
                · exact isScope
                · trivial
              · exact nothing.leaves_one ⟨context, trivial⟩

theorem staysIn_visitPlain
    (manner : frame.mode = .plain ∨ ∃ object, frame.mode = .member object)
    (hosts : region.Hosts state) (inside : frame.context.In region)
    (unqualified : frame.declaresQualifiedName = false) :
    StaysIn region state
      (visitPlain source state frame.tree frame.declaresTag frame.context) := by
  unfold visitPlain
  split <;> rename_i form
  · exact .refl hosts
  · exact staysIn_visitFunction hosts inside
  · exact staysIn_visitDeclaration hosts inside _
  · exact staysIn_visitClass hosts inside _ frame.declaresTag fun declared =>
      unqualified_tag manner (.inl ⟨_, form⟩) declared unqualified
  · exact staysIn_visitEnum hosts inside frame.declaresTag fun declared =>
      unqualified_tag manner (.inr form) declared unqualified
  · exact staysIn_visitEnumerator hosts inside
  · exact staysIn_visitNamespace hosts inside
  · exact staysIn_visitTemplate hosts inside
  · exact staysIn_declaredChildren hosts inside _ .templateParameter none
  · exact staysIn_declaredChildren hosts inside _ .typeAlias frame.tree.declaredType?
  · exact staysIn_visitUsing hosts inside
  · exact staysIn_visitMacroDefinition hosts
  · exact staysIn_visitDirective hosts
  · exact staysIn_visitConditional hosts inside false
  · exact staysIn_visitBlock hosts frame.tree frame.context
  · exact staysIn_visitLambda hosts inside
  · exact staysIn_visitMemberAccess hosts inside
  · exact staysIn_visitUse hosts inside frame.tree _ _
  · exact staysIn_childFrames hosts inside

/-- A visit of a frame of the region stays in it, unless it declares a qualified name. -/
theorem staysIn_visit (hosts : region.Hosts state) (inside : frame.In region)
    (unqualified : frame.declaresQualifiedName = false) :
    StaysIn region state (visit source state frame) := by
  unfold visit
  split
  · rename_i plain
    exact staysIn_visitPlain (.inl plain) hosts inside.context unqualified
  · exact staysIn_childFrames hosts inside.context
  · rename_i manner
    exact staysIn_visitDeclarator hosts inside manner unqualified
  · rename_i object member
    split
    · have named := staysIn_notes hosts (addName_notesNames source state frame.tree frame.context)
      exact named.append (.of_same named.hosts rfl (Nat.le_refl _) fun _ => rfl)
    · exact staysIn_visitPlain (.inr ⟨object, member⟩) hosts inside.context unqualified
  · exact staysIn_visitConditional hosts inside.context _

end Visits

/-! ## Two sides -/

structure AllMade (state : State) : Prop where
  symbols : ∀ scope binding, state.scopes.HoldsIn scope binding → binding < state.symbols.size
  members : MembersMade state

theorem Region.Divides.grown {region : Region} {before after : State} {frames : List Frame}
    (divides : region.Divides before) (made : AllMade before)
    (stays : StaysIn (region.grown before) before (after, frames)) :
    (region.grown before).Divides after where
  inside := stays.hosts.toClosed
  outside :=
    { entries := by
        rintro scope binding outside held (isInside | isNew)
        · obtain ⟨inner, text, entry, there, listed⟩ := held
          rw [stays.spares.scopes scope outside] at there
          exact divides.outside.entries scope binding (fun within => outside (.inl within))
            ⟨inner, text, entry, there, listed⟩ isInside
        · obtain ⟨inner, text, entry, there, listed⟩ := held
          rw [stays.spares.scopes scope outside] at there
          have known := made.symbols scope binding ⟨inner, text, entry, there, listed⟩
          omega
      members := by
        rintro binding scope outside found (isInside | isNew)
        · rw [stays.spares.members binding outside] at found
          exact divides.outside.members binding scope (fun within => outside (.inl within)) found
            isInside
        · rw [stays.spares.members binding outside] at found
          have known := made.members binding scope found
          omega }

/-! ## Walks -/

/-- Nowhere in a walk over frames a qualified name is declared. -/
def DeclareUnqualified (source : List Char) (start : State) (frames : List Frame) : Prop :=
  ∀ visited state frame waiting, Reaches source start frames visited state (frame :: waiting) →
    frame.declaresQualifiedName = false

/-- A walk over frames of the region stays in it as long as no qualified name is declared. -/
theorem Reaches.staysIn {source : List Char} {region : Region} {start state : State}
    {frames visited waiting : List Frame}
    (reached : Reaches source start frames visited state waiting) (hosts : region.Hosts start)
    (inside : ∀ frame ∈ frames, frame.In region)
    (unqualified : DeclareUnqualified source start frames) :
    StaysIn region start (state, waiting) := by
  refine reached.invariant (fun _ state waiting => StaysIn region start (state, waiting))
    ((StaysIn.refl hosts).leaves inside) ?_
  intro visited state frame waiting moment sofar
  obtain ⟨isInside, others⟩ := List.forall_mem_cons.1 sofar.left
  have next : StaysIn region state (Walk.visit source state frame) :=
    staysIn_visit sofar.hosts isInside (unqualified visited state frame waiting moment)
  refine ⟨next.hosts, sofar.spares.trans next.spares, fun later member => ?_⟩
  rcases List.mem_append.1 member with isNext | waits
  · exact next.left later isNext
  · exact others later waits

theorem staysIn_run {source : List Char} {region : Region} {start : State} {frames : List Frame}
    (hosts : region.Hosts start) (inside : ∀ frame ∈ frames, frame.In region)
    (unqualified : DeclareUnqualified source start frames) :
    StaysIn region start (run source start frames, []) := by
  obtain ⟨visited, ended⟩ := exists_reaches_run source start frames
  exact ended.staysIn hosts inside unqualified

end CrossReference.Walk
