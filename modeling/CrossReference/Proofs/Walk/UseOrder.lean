import CrossReference.Proofs.Walk.Owners
import CrossReference.Proofs.Walk.Pending
import CrossReference.Proofs.Walk.Sharing
import Mathlib.Data.List.Nodup
import Mathlib.Data.List.Pairwise

/-!
# The order of uses

Binding a use writes to its own occurrences, and what it writes depends on no binding of another
occurrence.  So what the walk has bound stays as it is, and uses without effects may be bound in any
order.
-/

set_option autoImplicit false

namespace CrossReference.Walk

open ParseTree

namespace State

/-! ## Bindings that are set -/

section Bindings

variable (state : State)

theorem setBinding_getElem? (name other : Nat) (binding : Option Nat) :
    (state.setBinding name binding).names[other]? =
      if name = other then (state.names[other]?).map ({ · with binding := binding })
      else state.names[other]? := by
  simp only [setBinding, Array.getElem?_modify]

theorem setBinding_spelling (name other : Nat) (binding : Option Nat) :
    (state.setBinding name binding).spelling other = state.spelling other := by
  simp only [spelling, setBinding_getElem?]
  by_cases same : name = other
  · rw [if_pos same]
    cases state.names[other]? <;> rfl
  · rw [if_neg same]

theorem setBinding_comm {first second : Nat} (different : first ≠ second)
    (binding other : Option Nat) :
    (state.setBinding first binding).setBinding second other =
      (state.setBinding second other).setBinding first binding := by
  unfold setBinding
  congr 1
  apply Array.ext_getElem?
  intro index
  simp only [Array.getElem?_modify]
  split <;> split <;> first | rfl | omega

def bindAll (bindings : List (Nat × Option Nat)) : State :=
  bindings.foldl (fun state (name, binding) => state.setBinding name binding) state

theorem bindAll_cons (name : Nat) (binding : Option Nat) (rest : List (Nat × Option Nat)) :
    state.bindAll ((name, binding) :: rest) = (state.setBinding name binding).bindAll rest := rfl

theorem bindAll_quiet (bindings : List (Nat × Option Nat)) :
    (state.bindAll bindings).scopes = state.scopes ∧
      (state.bindAll bindings).macros = state.macros ∧
      (state.bindAll bindings).symbols = state.symbols := by
  induction bindings generalizing state with
  | nil => exact ⟨rfl, rfl, rfl⟩
  | cons pair rest ih => exact ih (state.setBinding pair.1 pair.2)

theorem bindAll_setBinding {name : Nat} (binding : Option Nat)
    {bindings : List (Nat × Option Nat)} (apart : ∀ pair ∈ bindings, pair.1 ≠ name) :
    (state.setBinding name binding).bindAll bindings =
      (state.bindAll bindings).setBinding name binding := by
  induction bindings generalizing state with
  | nil => rfl
  | cons pair rest ih =>
    have here := apart pair List.mem_cons_self
    rw [bindAll_cons, bindAll_cons, setBinding_comm state here.symm,
      ih _ fun later member => apart later (List.mem_cons_of_mem _ member)]

theorem bindAll_comm {first second : List (Nat × Option Nat)}
    (apart : ∀ pair ∈ first, ∀ other ∈ second, pair.1 ≠ other.1) :
    (state.bindAll first).bindAll second = (state.bindAll second).bindAll first := by
  induction first generalizing state with
  | nil => rfl
  | cons pair rest ih =>
    have later := ih (state.setBinding pair.1 pair.2)
      fun next member => apart next (List.mem_cons_of_mem _ member)
    have here := bindAll_setBinding state pair.2
      fun other member => (apart pair List.mem_cons_self other member).symm
    rw [bindAll_cons, later, here, bindAll_cons]

theorem bindAll_getElem?_of_forall_ne {bindings : List (Nat × Option Nat)} {name : Nat}
    (apart : ∀ pair ∈ bindings, pair.1 ≠ name) :
    (state.bindAll bindings).names[name]? = state.names[name]? := by
  induction bindings generalizing state with
  | nil => rfl
  | cons pair rest ih =>
    rw [bindAll_cons, ih _ fun later member => apart later (List.mem_cons_of_mem _ member),
      setBinding_getElem?, if_neg (apart pair List.mem_cons_self)]

end Bindings

/-! ## What a use reads -/

def segmentBindings (state : State) (use : PendingUse) :
    List Nat → Option Nat → Bool → List (Nat × Option Nat)
  | [], _, _ => []
  | [name], scope, isFirst =>
      [(name, state.segmentBinding? use scope isFirst use.space (state.spelling name))]
  | name :: rest, scope, isFirst =>
      let binding := state.segmentBinding? use scope isFirst .qualifier (state.spelling name)
      (name, binding) :: segmentBindings state use rest (binding.bind state.scope?) false

theorem segmentBindings_names (state : State) (use : PendingUse) (names : List Nat)
    (scope : Option Nat) (isFirst : Bool) :
    (state.segmentBindings use names scope isFirst).map Prod.fst = names := by
  fun_induction segmentBindings state use names scope isFirst with
  | case1 => rfl
  | case2 => rfl
  | case3 name rest scope isFirst notLast binding ih => rw [List.map_cons, ih]

theorem segmentBindings_setBinding (state : State) (use : PendingUse) (names : List Nat)
    (scope : Option Nat) (isFirst : Bool) (name : Nat) (binding : Option Nat) :
    (state.setBinding name binding).segmentBindings use names scope isFirst =
      state.segmentBindings use names scope isFirst := by
  have segment (scope : Option Nat) (isFirst : Bool) (space : NameSpace) (text : String) :
      (state.setBinding name binding).segmentBinding? use scope isFirst space text =
        state.segmentBinding? use scope isFirst space text := rfl
  have scopes : (state.setBinding name binding).scope? = state.scope? := rfl
  fun_induction segmentBindings state use names scope isFirst with
  | case1 => rfl
  | case2 => simp only [segmentBindings, segment, setBinding_spelling]
  | case3 first rest scope isFirst notLast binding ih =>
    rw [segmentBindings]
    · simp only [segment, setBinding_spelling, scopes]
      exact congrArg _ ih
    · exact notLast

theorem segmentBindings_bindAll (state : State) (use : PendingUse) (names : List Nat)
    (scope : Option Nat) (isFirst : Bool) (bindings : List (Nat × Option Nat)) :
    (state.bindAll bindings).segmentBindings use names scope isFirst =
      state.segmentBindings use names scope isFirst := by
  induction bindings generalizing state with
  | nil => rfl
  | cons pair rest ih => rw [bindAll_cons, ih, segmentBindings_setBinding]

theorem bindSegments_eq (use : PendingUse) (names : List Nat) (scope : Option Nat)
    (isFirst : Bool) (state : State) :
    (bindSegments use names scope isFirst state).1 =
      state.bindAll (state.segmentBindings use names scope isFirst) := by
  fun_induction bindSegments use names scope isFirst state with
  | case1 => rfl
  | case2 => rfl
  | case3 name rest scope isFirst state notLast binding bound ih =>
    rw [ih, segmentBindings_setBinding, segmentBindings]
    · rfl
    · exact notLast

/-! ## Uses that are resolved -/

/-- What a use is bound to. -/
def useBindings (state : State) (use : PendingUse) : List (Nat × Option Nat) :=
  state.segmentBindings use use.names (if use.isGlobal then some Scopes.file else none) true

theorem useBindings_names (state : State) (use : PendingUse) :
    (state.useBindings use).map Prod.fst = use.names :=
  segmentBindings_names state use _ _ _

theorem mem_names_of_mem_useBindings {state : State} {use : PendingUse} {pair : Nat × Option Nat}
    (member : pair ∈ state.useBindings use) : pair.1 ∈ use.names := by
  rw [← useBindings_names state use]
  exact List.mem_map_of_mem member

theorem applyEffect_names (state : State) (binding : Nat) (effect : Effect) :
    (state.applyEffect binding effect).names = state.names := by
  cases effect <;> unfold applyEffect <;> simp only <;> split <;> try rfl
  split <;> rfl

theorem resolveUse_of_plain (state : State) {use : PendingUse} (plain : use.effect = .none) :
    state.resolveUse use = state.bindAll (state.useBindings use) := by
  rw [useBindings, ← bindSegments_eq]
  unfold resolveUse
  simp only
  split
  · rw [plain]
    rfl
  · rfl

/-- Uses without effects that have no occurrence in common may be resolved in either order. -/
theorem resolveUse_comm (state : State) {first second : PendingUse}
    (plainFirst : first.effect = .none) (plainSecond : second.effect = .none)
    (apart : first.names.Disjoint second.names) :
    (state.resolveUse first).resolveUse second = (state.resolveUse second).resolveUse first := by
  have independent (use other : PendingUse) :
      (state.bindAll (state.useBindings use)).useBindings other = state.useBindings other :=
    segmentBindings_bindAll state other _ _ _ _
  simp only [resolveUse_of_plain _ plainFirst, resolveUse_of_plain _ plainSecond, independent]
  apply bindAll_comm
  intro pair isFirst other isSecond same
  exact apart (mem_names_of_mem_useBindings isFirst)
    (same ▸ mem_names_of_mem_useBindings isSecond)

theorem resolveUse_getElem? (state : State) {use : PendingUse} {name : Nat}
    (other : name ∉ use.names) : (state.resolveUse use).names[name]? = state.names[name]? := by
  have bound : (bindSegments use use.names (if use.isGlobal then some Scopes.file else none) true
      state).1.names[name]? = state.names[name]? := by
    rw [bindSegments_eq]
    apply bindAll_getElem?_of_forall_ne
    rintro pair member rfl
    exact other (mem_names_of_mem_useBindings member)
  unfold resolveUse
  simp only
  split
  · rw [applyEffect_names]
    exact bound
  · exact bound

theorem foldl_resolveUse_getElem? (state : State) {uses : List PendingUse} {name : Nat}
    (other : ∀ use ∈ uses, name ∉ use.names) :
    (uses.foldl resolveUse state).names[name]? = state.names[name]? := by
  induction uses generalizing state with
  | nil => rfl
  | cons use rest ih =>
    rw [List.foldl_cons, ih _ fun later member => other later (List.mem_cons_of_mem _ member),
      resolveUse_getElem? state (other use List.mem_cons_self)]

theorem learnTypeScope_names (state : State) (binding : Nat) :
    (state.learnTypeScope binding).names = state.names := by
  unfold learnTypeScope
  split
  · rfl
  · split
    · rfl
    · split <;> rfl

theorem learnTypeScopes_names (state : State) : state.learnTypeScopes.names = state.names := by
  have once (current : State) : current.learnTypeScopesOnce.names = current.names :=
    List.foldlRecOn (motive := fun between : State => between.names = current.names) _ _ rfl
      fun between same binding _ => (learnTypeScope_names between binding).trans same
  exact List.foldlRecOn (motive := fun between : State => between.names = state.names) _ _ rfl
    fun between same _ _ => (once between).trans same

theorem resolveMember_getElem? (state : State) {member : PendingMember} {name : Nat}
    (other : member.name ≠ name) :
    (state.resolveMember member).names[name]? = state.names[name]? := by
  unfold resolveMember
  simp only
  split
  · rw [setBinding_getElem?, if_neg other]
  · rfl

theorem foldl_resolveMember_getElem? (state : State) {members : List PendingMember} {name : Nat}
    (other : ∀ member ∈ members, member.name ≠ name) :
    (members.foldl resolveMember state).names[name]? = state.names[name]? := by
  induction members generalizing state with
  | nil => rfl
  | cons member rest ih =>
    rw [List.foldl_cons, ih _ fun later isLater => other later (List.mem_cons_of_mem _ isLater),
      resolveMember_getElem? state (other member List.mem_cons_self)]

/-! ## The second pass -/

/-- Bind everything that the walk left unbound, the uses in an order of one's own. -/
def resolveInOrder (state : State) (order : List PendingUse) : State :=
  state.members.toList.foldl resolveMember (order.foldl resolveUse state).learnTypeScopes

theorem resolve_eq_resolveInOrder (state : State) :
    state.resolve = state.resolveInOrder state.usesInOrder := rfl

theorem usesInOrder_perm (state : State) : state.usesInOrder.Perm state.uses.toList := by
  have both := List.filter_append_perm (fun use : PendingUse => use.effect ≠ .none)
    state.uses.toList
  simpa [usesInOrder] using both

theorem resolve_getElem?_of_not_mem {state : State} {name : Nat}
    (settled : name ∉ state.waitingNames) : state.resolve.names[name]? = state.names[name]? := by
  rw [waitingNames, List.mem_append, not_or] at settled
  obtain ⟨noUse, noMember⟩ := settled
  have uses : ∀ use ∈ state.usesInOrder, name ∉ use.names := by
    intro use member isName
    exact noUse (List.mem_flatMap.2 ⟨use, state.usesInOrder_perm.mem_iff.1 member, isName⟩)
  have members : ∀ member ∈ state.members.toList, member.name ≠ name := by
    intro member isMember same
    exact noMember (List.mem_map.2 ⟨member, isMember, same⟩)
  rw [resolve, foldl_resolveMember_getElem? _ members, learnTypeScopes_names,
    foldl_resolveUse_getElem? _ uses]

theorem WaitsApart.disjoint {state : State} (apart : state.WaitsApart) {first second : PendingUse}
    (isFirst : first ∈ state.uses.toList) (isSecond : second ∈ state.uses.toList)
    (different : first ≠ second) : first.names.Disjoint second.names := by
  have nodup := (List.nodup_append.1 apart.nodup).1
  have symmetric : Std.Symm (Function.onFun List.Disjoint PendingUse.names) :=
    ⟨fun _ _ disjoint => List.disjoint_comm.1 disjoint⟩
  exact (List.nodup_flatMap.1 nodup).2.forall isFirst isSecond different

/-- The order of the uses without effects does not matter. -/
theorem foldl_resolveUse_perm {state start : State} (apart : state.WaitsApart)
    {uses order : List PendingUse} (same : order.Perm uses)
    (wait : ∀ use ∈ uses, use ∈ state.uses.toList ∧ use.effect = .none) :
    order.foldl resolveUse start = uses.foldl resolveUse start := by
  refine (same.symm.foldl_eq' ?_ start).symm
  intro first isFirst second isSecond current
  by_cases equal : first = second
  · rw [equal]
  · obtain ⟨waitsFirst, plainFirst⟩ := wait first isFirst
    obtain ⟨waitsSecond, plainSecond⟩ := wait second isSecond
    exact resolveUse_comm current plainFirst plainSecond
      (apart.disjoint waitsFirst waitsSecond equal)

end State

open State

/-! ## Segments of qualified declarations -/

def qualifiedTag? (tree : ParseTree) (declaresTag : Bool) : Option ParseTree :=
  match tree.form with
  | .classSpecifier _ | .enumSpecifier =>
      if isElaborated tree declaresTag then none
      else (tree.child? "name").filter fun name => isQualified name.kind
  | _ => none

def Frame.qualifiedName? (frame : Frame) : Option ParseTree :=
  match frame.mode with
  | .plain | .member _ => qualifiedTag? frame.tree frame.declaresTag
  | .declarator _ _ _ => if isQualified frame.tree.kind then some frame.tree else none
  | .body | .branch _ => none

/-- In a change the segments of a name get the next numbers and do not wait.  After them uses may
begin to wait. -/
def NotesSegments (source : List Char) (name : ParseTree) (before after : State) : Prop :=
  ∃ middle used, AddsNames source (QualifiedName.ofTree name).segments before middle ∧
    middle.waitingNames = before.waitingNames ∧ Awaits source used middle after

namespace NotesSegments

variable {source : List Char} {name : ParseTree} {before middle after : State}

theorem declareQualified (state : State) (tree : ParseTree) (context : Context) (kind : SymbolKind)
    (typeRef : Option TypeRef) :
    NotesSegments source tree state
      (state.declareQualified source tree context kind typeRef).1 := by
  refine ⟨_, [], addsNames_declareQualified source state tree context kind typeRef, ?_, .refl _⟩
  obtain same | ⟨middle, last, notes, declares⟩ :=
    declareQualified_declares source state tree context kind typeRef
  · rw [same]
  · simp [waitingNames, declares.uses, declares.members, notes.uses, notes.members]

theorem openDeclaration_before {state : State} (kind : String) (context : Context)
    (notes : NotesSegments source name (state.openDeclaration kind context).1 after) :
    NotesSegments source name state after := by
  obtain ⟨middle, used, adds, waiting, later⟩ := notes
  refine ⟨middle, used, (addsNames_openDeclaration source state context kind).after_quiet adds, ?_,
    later⟩
  rw [waiting]
  simp [waitingNames]

theorem then_awaits {used : List (ParseTree × NameSpace)}
    (notes : NotesSegments source name before middle) (awaits : Awaits source used middle after) :
    NotesSegments source name before after := by
  obtain ⟨between, first, adds, waiting, later⟩ := notes
  exact ⟨between, first ++ used, adds, waiting, later.append awaits⟩

theorem settled (notes : NotesSegments source name before after) (apart : before.WaitsApart)
    {index : Nat} {segment : ParseTree}
    (isSegment : (QualifiedName.ofTree name).segments[index]? = some segment) :
    ∃ found, after.names[before.names.size + index]? = some found ∧
      found.place = placeOf source segment ∧ before.names.size + index ∉ after.waitingNames := by
  obtain ⟨middle, used, adds, waiting, later⟩ := notes
  have place := adds.place_eq index
  rw [isSegment] at place
  obtain ⟨found, there, isPlace⟩ := Option.map_eq_some_iff.1 place
  have known := (Array.getElem?_eq_some_iff.1 there).1
  refine ⟨found, later.grows.occurrence_eq there, isPlace, ?_⟩
  rw [later.mem_waitingNames_iff known, waiting]
  intro waits
  have old := (apart.unbound _ waits).lt_size
  omega

end NotesSegments

section Visits

variable (source : List Char) (state : State) {tree name : ParseTree}
  (found : tree.child? "name" = some name) (qualified : isQualified name.kind = true)

include found qualified

theorem notesSegments_visitTag (inner : Context) (declareIn : Nat) (kind : SymbolKind)
    (allowTemplate : Bool) :
    NotesSegments source name state
      (visitTag source state tree inner declareIn kind allowTemplate).1.1 := by
  unfold visitTag
  rw [found]
  simp only
  rw [if_pos qualified]
  exact .declareQualified state name inner kind none

theorem notesSegments_visitClass (context : Context) (kind : SymbolKind) {declaresTag : Bool}
    (declares : isElaborated tree declaresTag = false) :
    NotesSegments source name state (visitClass source state tree context kind declaresTag).1 := by
  have tagged := notesSegments_visitTag source
    (state.openDeclaration tree.kind context).1 found qualified
    (state.openDeclaration tree.kind context).2 context.declareIn kind true
  apply NotesSegments.openDeclaration_before tree.kind context
  unfold visitClass
  simp only
  rw [if_neg (by simpa [isElaborated] using declares)]
  split
  · exact tagged
  · have entered (binding : Option Nat) := tagged.then_awaits
      (awaits_openMembers source _ binding .classBody context.scope)
    have parts (inner : Context) (scope : Nat) := awaits_visitEach source
      (fun current child => awaits_visitClassPart source current tree inner scope child)
      tree.namedChildren
    exact ((entered _).then_awaits (awaits_noteSpecifier source _ _ _)).then_awaits (parts _ _ _)

theorem notesSegments_visitEnum (context : Context) {declaresTag : Bool}
    (declares : isElaborated tree declaresTag = false) :
    NotesSegments source name state (visitEnum source state tree context declaresTag).1 := by
  have tagged := notesSegments_visitTag source
    (state.openDeclaration tree.kind context).1 found qualified
    (state.openDeclaration tree.kind context).2 context.declareIn .enumName false
  apply NotesSegments.openDeclaration_before tree.kind context
  unfold visitEnum
  simp only
  rw [if_neg (by simpa [isElaborated] using declares)]
  split
  · have entered (binding : Option Nat) := tagged.then_awaits
      (awaits_openMembers source _ binding .namespaceBody context.scope)
    exact (entered _).then_awaits (awaits_noteSpecifier source _ _ _)
  · exact tagged

omit found qualified

theorem notesSegments_visitPlain (context : Context) {declaresTag : Bool}
    (declares : qualifiedTag? tree declaresTag = some name) :
    NotesSegments source name state (visitPlain source state tree declaresTag context).1 := by
  unfold qualifiedTag? at declares
  unfold visitPlain
  cases form : tree.form with
  | classSpecifier kind =>
    simp only [form] at declares
    split at declares
    · cases declares
    · rename_i notElaborated
      obtain ⟨found, qualified⟩ := Option.filter_eq_some_iff.1 declares
      exact notesSegments_visitClass source state found qualified context kind
        (Bool.not_eq_true _ ▸ notElaborated)
  | enumSpecifier =>
    simp only [form] at declares
    split at declares
    · cases declares
    · rename_i notElaborated
      obtain ⟨found, qualified⟩ := Option.filter_eq_some_iff.1 declares
      exact notesSegments_visitEnum source state found qualified context
        (Bool.not_eq_true _ ▸ notElaborated)
  | _ => simp only [form, reduceCtorEq] at declares

/-- A visit of a frame that declares a qualified name notes the segments of it first. -/
theorem visit_notesSegments {frame : Frame} (declares : frame.qualifiedName? = some name) :
    NotesSegments source name state (visit source state frame).1 := by
  unfold Frame.qualifiedName? at declares
  unfold visit
  cases manner : frame.mode with
  | plain =>
    simp only [manner] at declares
    exact notesSegments_visitPlain source state frame.context declares
  | member object =>
    simp only [manner] at declares
    simp only
    split
    · rename_i isField
      have form : frame.tree.form = .name := by
        rw [form, isField]
        decide
      simp [qualifiedTag?, form] at declares
    · exact notesSegments_visitPlain source state frame.context declares
  | declarator kind typeRef parameters =>
    simp only [manner, Option.ite_none_right_eq_some, Option.some.injEq] at declares
    obtain ⟨qualified, rfl⟩ := declares
    simp only
    unfold visitDeclarator
    have notPlain : ¬isPlainName frame.tree.kind = true := by
      intro isPlain
      rw [isQualified_of_isPlainName isPlain] at qualified
      cases qualified
    simp only
    rw [if_neg notPlain, if_pos qualified]
    exact .declareQualified state frame.tree frame.context kind typeRef
  | body => simp [manner] at declares
  | branch taken => simp [manner] at declares

end Visits

/-- An occurrence is a segment in front of a qualified declaration. -/
def QualifiesAt (source : List Char) (language : Language) (tree : ParseTree) (name : Nat)
    (segment : ParseTree) : Prop :=
  ∃ visited state frame waiting node index,
    Reaches source (State.initial (language = .cpp)) [Frame.root tree] visited state
      (frame :: waiting) ∧
    frame.qualifiedName? = some node ∧ name = state.names.size + index ∧
    (QualifiedName.ofTree node).segments.dropLast[index]? = some segment

theorem Reaches.waitsApart {source : List Char} {language : Language} {tree : ParseTree}
    {visited waiting : List Frame} {state : State}
    (reached : Reaches source (State.initial (language = .cpp)) [Frame.root tree] visited state
      waiting) : state.WaitsApart :=
  reached.invariant (fun _ state _ => state.WaitsApart) (waitsApart_initial _)
    fun _ state frame _ _ apart => (visit_awaits source state frame).waitsApart apart

/-- Binding what waits leaves what the walk has bound: the occurrences that declare, and the
segments in front of qualified declarations.  What waits without an effect may be bound in any
order. -/
theorem second_pass_respects_first (source : List Char) (language : Language) (tree : ParseTree) :
    let walked := SourceUnit.walked source language tree
    (∀ (name : Nat) (found : NameNode), walked.names[name]? = some found →
      found.declares = true → walked.resolve.names[name]? = some found) ∧
    (∀ name segment, QualifiesAt source language tree name segment →
      ∃ found, walked.names[name]? = some found ∧ found.place = placeOf source segment ∧
        walked.resolve.names[name]? = some found) ∧
    (∀ (state : State) (use : PendingUse), use.effect = .none →
      (state.resolveUse use).scopes = state.scopes ∧
        (state.resolveUse use).macros = state.macros ∧
        (state.resolveUse use).symbols = state.symbols ∧
        ∀ name, name ∉ use.names →
          (state.resolveUse use).names[name]? = state.names[name]?) ∧
    ∀ order : List PendingUse,
      order.Perm (walked.uses.toList.filter fun use => use.effect = .none) →
      walked.resolveInOrder (walked.uses.toList.filter (fun use => use.effect ≠ .none) ++ order) =
        walked.resolve := by
  intro walked
  have apart : walked.WaitsApart := walked_waitsApart source language tree
  refine ⟨fun name found there declares => ?_, fun name segment qualifies => ?_,
    fun state use plain => ?_, fun order perm => ?_⟩
  · have settled : name ∉ walked.waitingNames := by
      intro waits
      obtain ⟨other, isThere, isUse, -⟩ := apart.unbound name waits
      rw [there] at isThere
      cases isThere
      rw [declares] at isUse
      cases isUse
    rw [resolve_getElem?_of_not_mem settled, there]
  · obtain ⟨visited, state, frame, waiting, node, index, moment, declares, rfl, isSegment⟩ :=
      qualifies
    have inside : (QualifiedName.ofTree node).segments[index]? = some segment := by
      rw [List.getElem?_dropLast] at isSegment
      split at isSegment
      · exact isSegment
      · cases isSegment
    have notes := visit_notesSegments source state declares
    obtain ⟨found, there, place, settled⟩ := notes.settled moment.waitsApart inside
    have known := (Array.getElem?_eq_some_iff.1 there).1
    have atEnd : walked.names[state.names.size + index]? = some found :=
      moment.visit.grows_walked.occurrence_eq there
    refine ⟨found, atEnd, place, ?_⟩
    rw [resolve_getElem?_of_not_mem, atEnd]
    rwa [moment.visit.mem_waitingNames_walked known]
  · obtain ⟨scopes, macros, symbols⟩ := bindAll_quiet state (state.useBindings use)
    rw [← resolveUse_of_plain state plain] at scopes macros symbols
    exact ⟨scopes, macros, symbols, fun name other => resolveUse_getElem? state other⟩
  · rw [resolve_eq_resolveInOrder, resolveInOrder, resolveInOrder, usesInOrder, List.foldl_append,
      List.foldl_append, foldl_resolveUse_perm apart perm]
    intro use member
    obtain ⟨waits, plain⟩ := List.mem_filter.1 member
    exact ⟨waits, of_decide_eq_true plain⟩

/-! ## A segment that is bound before the uses -/

def qualifiedText : List Char := "namespace n{}struct n::m{};a;b;".toList

def ownerName : ParseTree := ruleNode 2 "namespace_identifier" "name" 10 11 []

def ownerBody : ParseTree := ruleNode 3 "declaration_list" "body" 11 13 []

def ownerNamespace : ParseTree := ruleNode 1 "namespace_definition" "" 0 13 [ownerName, ownerBody]

def qualifierSegment : ParseTree := ruleNode 6 "namespace_identifier" "scope" 20 21 []

def memberSegment : ParseTree := ruleNode 7 "type_identifier" "name" 23 24 []

def memberName : ParseTree :=
  ruleNode 5 "qualified_identifier" "name" 20 24 [qualifierSegment, memberSegment]

def memberStruct : ParseTree :=
  ruleNode 4 "struct_specifier" "" 13 26
    [memberName, ruleNode 8 "field_declaration_list" "body" 24 26 []]

def firstUse : ParseTree :=
  ruleNode 9 "expression_statement" "" 27 29 [ruleNode 10 "identifier" "" 27 28 []]

def secondUse : ParseTree :=
  ruleNode 11 "expression_statement" "" 29 31 [ruleNode 12 "identifier" "" 29 30 []]

def qualifiedTree : ParseTree :=
  ruleNode 0 "translation_unit" "" 0 31 [ownerNamespace, memberStruct, firstUse, secondUse]

theorem visit_qualifiedTree (state : State) :
    visit qualifiedText state (Frame.root qualifiedTree) =
      (state, [ownerNamespace, memberStruct, firstUse, secondUse].map
        fun tree => ⟨tree, true, .file, .plain⟩) := by
  have form : qualifiedTree.form = .transparent := by decide
  simp only [visit, Frame.root, visitPlain, form]
  rfl

theorem visit_ownerNamespace (state : State) :
    visit qualifiedText state ⟨ownerNamespace, true, .file, .plain⟩ =
      (let (opened, inner) := state.openDeclaration "namespace_definition" .file
       let (declared, scope) :=
         visitNamespaceSegments qualifiedText inner [ownerName] opened Scopes.file
       (declared, [⟨ownerBody, false, inner.within scope, .plain⟩])) := by
  have form : ownerNamespace.form = .namespaceDefinition := by decide
  simp only [visit, visitPlain, form]
  rfl

theorem visit_ownerBody (state : State) (context : Context) :
    visit qualifiedText state ⟨ownerBody, false, context, .plain⟩ = (state, []) := by
  have form : ownerBody.form = .transparent := by decide
  simp only [visit, visitPlain, form]
  rfl

theorem qualifiesAt_qualifierSegment :
    QualifiesAt qualifiedText .cpp qualifiedTree 1 qualifierSegment := by
  have begun : Reaches qualifiedText (State.initial (Language.cpp = .cpp))
      [Frame.root qualifiedTree] [] _ _ := .start
  have opened := begun.visit_eq (visit_qualifiedTree _)
  have declared := (opened.visit_eq (visit_ownerNamespace _)).visit_eq (visit_ownerBody _ _)
  have segments :
      (QualifiedName.ofTree memberName).segments = [qualifierSegment, memberSegment] := by
    rw [QualifiedName.ofTree, QualifiedName.ofTreeFrom]
    change (QualifiedName.append _ (QualifiedName.ofTreeFrom false memberSegment)).segments = _
    rw [QualifiedName.ofTreeFrom]
    rfl
  refine ⟨_, _, _, _, memberName, 0, declared, rfl, by decide +kernel, ?_⟩
  rw [segments]
  rfl

/-- The segment keeps the namespace that the walk has bound it to, and the two uses may be bound the
other way round. -/
theorem bound_segment_stays_bound :
    let walked := SourceUnit.walked qualifiedText .cpp qualifiedTree
    QualifiesAt qualifiedText .cpp qualifiedTree 1 qualifierSegment ∧
      walked.binding? 1 = some 0 ∧ walked.resolve.names[1]? = walked.names[1]? ∧
      (walked.uses.toList.filter fun use => use.effect = .none).length = 2 ∧
      walked.resolveInOrder (walked.uses.toList.filter (fun use => use.effect ≠ .none) ++
        (walked.uses.toList.filter fun use => use.effect = .none).reverse) = walked.resolve := by
  intro walked
  obtain ⟨-, segments, -, order⟩ := second_pass_respects_first qualifiedText .cpp qualifiedTree
  obtain ⟨found, there, -, kept⟩ := segments 1 qualifierSegment qualifiesAt_qualifierSegment
  refine ⟨qualifiesAt_qualifierSegment, ?_, ?_, ?_, ?_⟩
  · decide +kernel
  · rw [kept, there]
  · decide +kernel
  · exact order _ (List.reverse_perm _)

end CrossReference.Walk
