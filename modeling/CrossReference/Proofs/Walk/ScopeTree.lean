import CrossReference.Proofs.ParseTree.Places
import CrossReference.Proofs.Scope.Extends
import CrossReference.Proofs.Walk.Contexts
import CrossReference.Proofs.Walk.Pending

/-!
# The tree of scopes that a walk grows

All that a visit does keeps to the scope in which its frame looks names up: the uses that begin to
wait are searched from there, and the frames that are left look names up there or inside of it.
`SentElsewhere` lists the frames that are sent to another scope: they belong to functions that are
defined outside of their class, to classes that have a scope for their members already, and to
namespaces.
-/

set_option autoImplicit false

namespace CrossReference.Walk

open ParseTree State

/-! ## Scopes stay in their places -/

theorem State.Declares.scopes_extend {source : List Char} {tree : ParseTree} {kind : SymbolKind}
    {result : Option Nat} {before after : State}
    (declares : Declares source tree kind result before after) :
    before.scopes.Extends after.scopes := by
  obtain ⟨-, scopes, -⟩ | ⟨scope, existing, -, settles⟩ := declares.symbol
  · rw [scopes]
    exact .refl _
  · rw [settles.scopes]
    split
    · exact .refl _
    · exact .declare _ _ _ _ _ _

theorem Edit.scopes_extend {source : List Char} {frame : Frame} {before after : State}
    (edit : Edit source frame before after) : before.scopes.Extends after.scopes := by
  have same (scopes : after.scopes = before.scopes) : before.scopes.Extends after.scopes :=
    scopes ▸ .refl _
  cases edit with
  | opened => exact same (by simp)
  | noted notes => exact same notes.scopes
  | declared isKind declares => exact declares.scopes_extend
  | shared scope isEnumerator declares =>
    exact declares.scopes_extend.trans (Scopes.Extends.declare _ scope .ordinary _ _ _)
  | pushed kind parent => exact .push _ _ _
  | entered binding kind parent =>
    obtain scopes | scopes := openMembers_scopes before binding kind parent
    · exact same scopes
    · rw [scopes]
      exact .push _ _ _
  | specified => exact .refl _
  | awaited => exact .refl _
  | accessed => exact .refl _
  | defined isDirective isKind defines => exact same defines.scopes
  | revoked => exact .refl _

theorem Edits.scopes_extend {source : List Char} {frame : Frame} {before after : State}
    (edits : Edits source frame before after) : before.scopes.Extends after.scopes := by
  induction edits with
  | refl => exact .refl _
  | tail _ last ih => exact ih.trans last.scopes_extend

theorem Reaches.scopes_extend {source : List Char} {start state : State}
    {frames visited waiting : List Frame}
    (reached : Reaches source start frames visited state waiting) :
    state.scopes.Extends (run source start frames).scopes :=
  reached.holds_at_end (fun later => state.scopes.Extends later.scopes) (.refl _)
    fun _ later frame _ _ grown => grown.trans (edits_visit source later frame).scopes_extend

theorem Reaches.extends_start {source : List Char} {start state : State}
    {frames visited waiting : List Frame}
    (reached : Reaches source start frames visited state waiting) :
    start.scopes.Extends state.scopes :=
  reached.invariant (fun _ state _ => start.scopes.Extends state.scopes) (.refl _)
    fun _ state frame _ _ grown => grown.trans (edits_visit source state frame).scopes_extend

/-! ## Changes that keep to a scope -/

/-- A position is that of a name in a tree. -/
def NamedAt (source : List Char) (tree : ParseTree) (position : Nat) : Prop :=
  ∃ node, Within node tree ∧ node.text source ≠ "" ∧ position = node.start

theorem NamedAt.widen {source : List Char} {inner outer : ParseTree} {position : Nat}
    (named : NamedAt source inner position) (lies : Within inner outer) :
    NamedAt source outer position := by
  obtain ⟨node, within, spelled, same⟩ := named
  exact ⟨node, within.trans lies, spelled, same⟩

/-- All that a change does keeps to a node and to a scope: entries begin at names in the node, uses
begin at nodes in it and are searched from the scope, and the frames that are left look names up
there or inside of it, but for those that are sent elsewhere. -/
structure KeepsTo (source : List Char) (tree : ParseTree) (scope : Nat) (elsewhere : Frame → Prop)
    (before : State) (visited : Visited) : Prop where
  grown : before.scopes.Extends visited.1.scopes
  nested : before.scopes.Nested → visited.1.scopes.Nested
  entries : ∀ home text entry, visited.1.scopes.Lists home text entry →
    before.scopes.Lists home text entry ∨ NamedAt source tree entry.declaredAt
  uses : ∀ use ∈ visited.1.uses, use ∈ before.uses ∨
    use.scope = scope ∧ ∃ node, Within node tree ∧ use.position = node.start
  left : ∀ next ∈ visited.2,
    visited.1.scopes.Encloses scope next.context.scope ∨ elsewhere next

namespace KeepsTo

variable {source : List Char} {tree : ParseTree} {scope : Nat} {elsewhere : Frame → Prop}
  {before middle after : State} {first last frames : List Frame}

/-- Where no scope is made and no use begins to wait, only entries and frames have to be looked
at. -/
theorem of_next_eq (grown : before.scopes.Extends after.scopes)
    (next : after.scopes.next = before.scopes.next) (uses : after.uses = before.uses)
    (entries : ∀ home text entry, after.scopes.Lists home text entry →
      before.scopes.Lists home text entry ∨ NamedAt source tree entry.declaredAt) :
    KeepsTo source tree scope elsewhere before (after, []) where
  grown := grown
  nested := grown.nested next
  entries := entries
  uses _ member := .inl (uses ▸ member)
  left := List.forall_mem_nil _

theorem of_same (scopes : after.scopes = before.scopes) (uses : after.uses = before.uses) :
    KeepsTo source tree scope elsewhere before (after, []) :=
  .of_next_eq (scopes ▸ .refl _) (by rw [scopes]) uses fun _ _ _ lists => .inl (scopes ▸ lists)

theorem refl (state : State) : KeepsTo source tree scope elsewhere state (state, []) :=
  .of_same rfl rfl

theorem of_declares {node : ParseTree} {kind : SymbolKind} {result : Option Nat}
    (declares : Declares source node kind result before after) (lies : Within node tree) :
    KeepsTo source tree scope elsewhere before (after, []) := by
  refine .of_next_eq declares.scopes_extend declares.next_eq declares.uses
    fun home text entry lists => ?_
  obtain ⟨-, scopes, -⟩ | ⟨declareIn, existing, -, settles⟩ := declares.symbol
  · exact .inl (scopes ▸ lists)
  · rw [settles.scopes] at lists
    split at lists
    · exact .inl lists
    · refine (Scopes.lists_of_declare lists).imp_right fun new => ?_
      exact ⟨node, lies, settles.spelled, by rw [new.2]⟩

theorem append (begun : KeepsTo source tree scope elsewhere before (middle, first))
    (ended : KeepsTo source tree scope elsewhere middle (after, last)) :
    KeepsTo source tree scope elsewhere before (after, first ++ last) where
  grown := begun.grown.trans ended.grown
  nested nested := ended.nested (begun.nested nested)
  entries home text entry lists := by
    rcases ended.entries home text entry lists with earlier | new
    · exact begun.entries home text entry earlier
    · exact .inr new
  uses use member := by
    rcases ended.uses use member with earlier | inScope
    · exact begun.uses use earlier
    · exact .inr inScope
  left next member := by
    rcases List.mem_append.1 member with isFirst | isLast
    · exact (begun.left next isFirst).imp_left ended.grown.encloses
    · exact ended.left next isLast

theorem leaves (changed : KeepsTo source tree scope elsewhere before (after, []))
    (left : ∀ next ∈ frames, after.scopes.Encloses scope next.context.scope ∨ elsewhere next) :
    KeepsTo source tree scope elsewhere before (after, frames) where
  grown := changed.grown
  nested := changed.nested
  entries := changed.entries
  uses := changed.uses
  left := left

theorem leaves_map (changed : KeepsTo source tree scope elsewhere before (after, []))
    {trees : List ParseTree} {frameOf : ParseTree → Frame}
    (same : ∀ child, (frameOf child).context.scope = scope) :
    KeepsTo source tree scope elsewhere before (after, trees.map frameOf) := by
  refine changed.leaves fun next member => ?_
  obtain ⟨child, -, rfl⟩ := List.mem_map.1 member
  rw [same]
  exact .inl .self

theorem leaves_one (changed : KeepsTo source tree scope elsewhere before (after, []))
    {frame : Frame} (same : frame.context.scope = scope) :
    KeepsTo source tree scope elsewhere before (after, [frame]) := by
  refine changed.leaves fun next member => ?_
  rw [List.mem_singleton.1 member, same]
  exact .inl .self

end KeepsTo

/-! ## Visits -/

section Visits

variable {source : List Char} {state : State} {context : Context} {elsewhere : Frame → Prop}
  {tree : ParseTree} {scope : Nat}

theorem keepsTo_openDeclaration (context : Context) (kind : String) :
    KeepsTo source tree scope elsewhere state ((state.openDeclaration kind context).1, []) :=
  .of_same (by simp) (by simp)

theorem keepsTo_pushScope (kind : ScopeKind) {parent : Nat} (made : parent < state.scopes.next) :
    KeepsTo source tree scope elsewhere state ((state.pushScope kind parent).1, []) where
  grown := .push _ _ _
  nested nested := nested.push fun outer isParent => by
    cases isParent
    exact made
  entries _ _ _ lists := .inl (Scopes.lists_of_push lists)
  uses _ := .inl
  left := List.forall_mem_nil _

theorem keepsTo_openMembers (binding : Option Nat) (kind : ScopeKind) {parent : Nat}
    (made : parent < state.scopes.next) :
    KeepsTo source tree scope elsewhere state ((state.openMembers binding kind parent).1, []) := by
  have pushed : KeepsTo source tree scope elsewhere state ((state.pushScope kind parent).1, []) :=
    keepsTo_pushScope kind made
  unfold openMembers
  split
  · exact .refl state
  · cases binding with
    | none => exact pushed
    | some binding => exact pushed.append (.of_same rfl rfl)

theorem keepsTo_visitUse {name : ParseTree} (lies : Within name tree) (space : NameSpace)
    (effect : Effect) :
    KeepsTo source tree context.scope elsewhere state
      (visitUse source state name context space effect) := by
  obtain ⟨notes, -⟩ := addUses_notesNames source context (QualifiedName.ofTree name).segments state
  have scopes : (state.noteUse source name context space effect).scopes = state.scopes := by
    unfold noteUse
    simp only
    split <;> exact notes.scopes
  have noted : KeepsTo source tree context.scope elsewhere state
      (state.noteUse source name context space effect, []) := by
    refine ⟨scopes ▸ .refl _, fun nested => scopes ▸ nested,
      fun _ _ _ lists => .inl (scopes ▸ lists), fun use member => ?_, List.forall_mem_nil _⟩
    simp only [noteUse_uses] at member
    split at member
    · exact .inl member
    · rcases Array.mem_push.1 member with old | rfl
      · exact .inl old
      · exact .inr ⟨rfl, name, lies, rfl⟩
  exact noted.leaves_map fun _ => rfl

theorem keepsTo_visitEach {step : State → ParseTree → Visited} {trees : List ParseTree}
    (each : ∀ current, state.scopes.Extends current.scopes → ∀ child ∈ trees,
      KeepsTo source tree scope elsewhere current (step current child)) :
    KeepsTo source tree scope elsewhere state (visitEach step trees state) := by
  induction trees generalizing state with
  | nil => exact .refl state
  | cons first rest ih =>
    have begun := each state (.refl _) first List.mem_cons_self
    exact begun.append (ih fun current grown other member =>
      each current (begun.grown.trans grown) other (List.mem_cons_of_mem _ member))

theorem keepsTo_declare {name : ParseTree} (lies : Within name tree) (inner : Context)
    (declareIn : Nat) (kind : SymbolKind) (typeRef : Option TypeRef) :
    KeepsTo source tree scope elsewhere state
      ((state.declare source name inner declareIn kind typeRef).1, []) :=
  .of_declares (declare_declares source state name inner declareIn kind typeRef) lies

theorem keepsTo_visitQualified {name : ParseTree} (lies : Within name tree) (kind : SymbolKind)
    (typeRef : Option TypeRef) :
    KeepsTo source tree context.scope elsewhere state
      ((visitQualified source state name context kind typeRef).1.1,
        (visitQualified source state name context kind typeRef).2) := by
  have declared : KeepsTo source tree context.scope elsewhere state
      ((state.declareQualified source name context kind typeRef).1, []) := by
    obtain same | ⟨middle, last, isLast, notes, declares⟩ :=
      declareQualified_declares_last source state name context kind typeRef
    · rw [same]
      exact .refl state
    · have within := (QualifiedName.ofTree_liesWithin name).segments last
        (List.mem_of_getLast? isLast)
      exact (KeepsTo.of_same notes.scopes notes.uses).append
        (.of_declares declares (within.trans lies))
  exact declared.leaves_map fun _ => rfl

theorem keepsTo_visitElaborated :
    KeepsTo source tree context.scope elsewhere state
      (visitElaborated source state tree context) := by
  refine keepsTo_visitEach fun current _ child member => ?_
  split
  · exact keepsTo_visitUse (Within.of_mem_namedChildren member) .tag .none
  · exact (KeepsTo.refl current).leaves_one rfl

theorem keepsTo_visitTag (context : Context) (declareIn : Nat) (kind : SymbolKind)
    (allowTemplate : Bool) :
    KeepsTo source tree context.scope elsewhere state
      ((visitTag source state tree context declareIn kind allowTemplate).1.1,
        (visitTag source state tree context declareIn kind allowTemplate).2) := by
  unfold visitTag
  split
  · exact .refl state
  · rename_i name found
    have lies := Within.of_child? found
    split
    · exact keepsTo_visitQualified lies kind none
    · split
      · simp only
        split
        · rename_i plain isPlain
          exact (keepsTo_declare ((Within.of_child? isPlain).trans lies) context declareIn kind
            none).leaves_map fun _ => rfl
        · exact (KeepsTo.refl state).leaves_map fun _ => rfl
      · exact keepsTo_declare lies context declareIn kind none

theorem next_visitTag (tree : ParseTree) (inner : Context) (declareIn : Nat) (kind : SymbolKind)
    (allowTemplate : Bool) :
    (visitTag source state tree inner declareIn kind allowTemplate).1.1.scopes.next =
      state.scopes.next := by
  obtain same | ⟨middle, name, result, notes, declares⟩ :=
    visitTag_cases source state tree inner declareIn kind allowTemplate
  · rw [same]
  · exact declares.next_eq.trans (by rw [notes.scopes])

theorem scopeOfQualifiers?_holds {holds : Nat → Prop}
    (members : ∀ binding scope, state.memberScope? binding = some scope → holds scope)
    (segments : List ParseTree) {start : Option Nat} (started : ∀ scope ∈ start, holds scope)
    {owner : Nat}
    (found : scopeOfQualifiers? source state context segments start = some owner) :
    holds owner := by
  induction segments generalizing start with
  | nil => exact started owner found
  | cons segment rest ih =>
    simp only [scopeOfQualifiers?] at found
    split at found
    · cases found
    · split at found
      · rename_i scope isScope
        refine ih (fun other same => ?_) found
        cases same
        obtain ⟨binding, -, isMembers⟩ := Option.bind_eq_some_iff.1 isScope
        exact members binding scope isMembers
      · cases found

theorem ownerScope?_holds {holds : Nat → Prop}
    (members : ∀ binding scope, state.memberScope? binding = some scope → holds scope)
    (file : holds Scopes.file) {declarator : ParseTree} {owner : Nat}
    (found : State.ownerScope? source state declarator context = some owner) : holds owner := by
  unfold State.ownerScope? at found
  split at found
  · cases found
  · split at found
    · cases found
    · simp only at found
      split at found
      · cases found
      · refine scopeOfQualifiers?_holds members _ (fun scope isFile => ?_) found
        split at isFile <;> cases isFile
        exact file

theorem ownerScope?_lt (members : MembersMade state) (file : Scopes.file < state.scopes.next)
    {declarator : ParseTree} {owner : Nat}
    (found : State.ownerScope? source state declarator context = some owner) :
    owner < state.scopes.next :=
  ownerScope?_holds members file found

end Visits

/-! ## Frames that are sent elsewhere -/

def Frame.owner? (source : List Char) (state : State) (frame : Frame) : Option Nat :=
  (frame.tree.child? "declarator").bind fun declarator =>
    State.ownerScope? source (state.openDeclaration frame.tree.kind frame.context).1 declarator
      frame.context

/-- The ways in which a visit sends a frame to a scope that need not lie in that of the frame
visited. -/
inductive SentElsewhere (source : List Char) (state : State) (frame next : Frame) : Prop where
  /-- The body of a function that is defined outside of its class, and what initializes members. -/
  | definition {owner : Nat} (form : frame.tree.form = .function)
      (isOwner : frame.owner? source state = some owner)
      (inside : next.context.scope = state.scopes.next)
  /-- The parameters of a function that is being defined. -/
  | parameters {kind : SymbolKind} {typeRef : Option TypeRef} {scope : Nat}
      (manner : frame.mode = .declarator kind typeRef (some scope))
      (inside : next.context.scope = scope)
  /-- The body of a class or an enum of which the members have a scope already. -/
  | members (form : (∃ kind, frame.tree.form = .classSpecifier kind) ∨
        frame.tree.form = .enumSpecifier)
      (isBody : next.tree.field = "body") (made : next.context.scope < state.scopes.next)
  | namespaceBody (form : frame.tree.form = .namespaceDefinition)
      (isBody : next.tree.field = "body")

section Frames

variable {source : List Char} {state : State} {context : Context} {frame : Frame}
  {elsewhere : Frame → Prop}

theorem encloses_pushScope (state : State) (kind : ScopeKind) (parent : Nat) :
    (state.pushScope kind parent).1.scopes.Encloses parent (state.pushScope kind parent).2 :=
  Scopes.encloses_push state.scopes kind parent

def functionPart (tree : ParseTree) (inner : Context) (scope : Nat) (child : ParseTree) : Frame :=
  if child.field = "declarator" then
    Frame.child tree inner (.declarator .function none (some scope)) child
  else if child.field = "body" then Frame.child tree (inner.within scope) .body child
  else if child.kind = "field_initializer_list" then
    Frame.child tree (inner.within scope) .plain child
  else Frame.child tree inner .plain child

theorem functionPart_tree (tree : ParseTree) (inner : Context) (scope : Nat) (child : ParseTree) :
    (functionPart tree inner scope child).tree = child := by
  unfold functionPart
  split
  · rfl
  · split
    · rfl
    · split <;> rfl

theorem visitFunction_eq (source : List Char) (state : State) (frame : Frame) :
    visitFunction source state frame.tree frame.context =
      (let (opened, inner) := state.openDeclaration frame.tree.kind frame.context
       ((opened.pushScope .function ((frame.owner? source state).getD frame.context.scope)).1,
        frame.tree.namedChildren.map (functionPart frame.tree inner state.scopes.next))) := by
  have scopes := openDeclaration_scopes state frame.tree.kind frame.context
  rw [← scopes]
  rfl

theorem keepsTo_visitFunction (form : frame.tree.form = .function) (members : MembersMade state)
    (under : frame.context.Under state.scopes.next) :
    KeepsTo source frame.tree frame.context.scope (SentElsewhere source state frame) state
      (visitFunction source state frame.tree frame.context) := by
  have opened : Edits source frame state _ := edits_openDeclaration state
  have scopes := openDeclaration_scopes state frame.tree.kind frame.context
  have made : (frame.owner? source state).getD frame.context.scope < state.scopes.next := by
    cases owner : frame.owner? source state with
    | none => exact under.scope
    | some owner =>
      obtain ⟨declarator, -, isOwner⟩ := Option.bind_eq_some_iff.1 owner
      have bound := ownerScope?_lt (opened.membersMade members)
        (scopes ▸ Nat.zero_lt_of_lt under.scope) isOwner
      rwa [scopes] at bound
  rw [visitFunction_eq]
  simp only
  have begun : KeepsTo source frame.tree frame.context.scope (SentElsewhere source state frame)
      state _ := keepsTo_openDeclaration frame.context frame.tree.kind
  have inner : (state.openDeclaration frame.tree.kind frame.context).2.scope =
    frame.context.scope := rfl
  generalize state.openDeclaration frame.tree.kind frame.context = start at scopes begun inner ⊢
  refine (begun.append (keepsTo_pushScope .function (scopes ▸ made))).leaves fun next member => ?_
  have within (next : Frame) (inside : next.context.scope = state.scopes.next) :
      (start.1.pushScope .function
        ((frame.owner? source state).getD frame.context.scope)).1.scopes.Encloses
          frame.context.scope next.context.scope ∨ SentElsewhere source state frame next := by
    cases owner : frame.owner? source state with
    | none =>
      left
      rw [inside, ← scopes]
      exact encloses_pushScope start.1 .function frame.context.scope
    | some owner' => exact .inr (.definition form owner inside)
  obtain ⟨child, -, rfl⟩ := List.mem_map.1 member
  unfold functionPart
  split
  · exact .inl (inner ▸ .self)
  · split
    · exact within _ rfl
    · split
      · exact within _ rfl
      · exact .inl (inner ▸ .self)

theorem keepsTo_visitDeclaration (kind : SymbolKind) :
    KeepsTo source frame.tree frame.context.scope elsewhere state
      (visitDeclaration state frame.tree frame.context kind) :=
  (keepsTo_openDeclaration frame.context frame.tree.kind).leaves_map fun _ => rfl

theorem keepsTo_visitClassPart {tree child : ParseTree} (lies : Within child tree)
    (context : Context) (scope : Nat)
    (body : child.field = "body" →
      state.scopes.Encloses context.scope scope ∨
        elsewhere (Frame.child tree (context.within scope) .plain child)) :
    KeepsTo source tree context.scope elsewhere state
      (visitClassPart source tree context scope state child) := by
  have nothing : KeepsTo source tree context.scope elsewhere state (state, []) := .refl state
  unfold visitClassPart
  split
  · exact nothing
  · split
    · rename_i isBody
      refine nothing.leaves fun next member => ?_
      rw [List.mem_singleton.1 member]
      exact body isBody
    · split
      · refine keepsTo_visitEach fun current _ base isBase => ?_
        split
        · exact keepsTo_visitUse ((Within.of_mem_namedChildren isBase).trans lies) .qualifier _
        · exact (KeepsTo.refl current).leaves_one rfl
      · exact nothing.leaves_one rfl

theorem openMembers_encloses (members : MembersMade state) (binding : Option Nat)
    (kind : ScopeKind) (parent : Nat) :
    (state.openMembers binding kind parent).1.scopes.Encloses parent
        (state.openMembers binding kind parent).2 ∨
      (state.openMembers binding kind parent).2 < state.scopes.next := by
  obtain ⟨scope, found, same⟩ | ⟨pushed, isNext, -⟩ := openMembers_cases state binding kind parent
  · obtain ⟨owner, -, isScope⟩ := Option.bind_eq_some_iff.1 found
    rw [same]
    exact .inr (members owner scope isScope)
  · rw [pushed, isNext]
    exact .inl (Scopes.encloses_push state.scopes kind parent)

theorem keepsTo_written (source : List Char) {kind : SymbolKind} (allowTemplate : Bool)
    (form : (∃ kind, frame.tree.form = .classSpecifier kind) ∨ frame.tree.form = .enumSpecifier)
    (isKind : frame.declaredKind? = some kind) (members : MembersMade state)
    (under : frame.context.Under state.scopes.next) (memberKind : ScopeKind) :
    let (opened, inner) := state.openDeclaration frame.tree.kind frame.context
    let ((declared, binding), frames) :=
      visitTag source opened frame.tree inner frame.context.declareIn kind allowTemplate
    let (entered, scope) := declared.openMembers binding memberKind frame.context.scope
    KeepsTo source frame.tree frame.context.scope (SentElsewhere source state frame) state
        (declared, frames) ∧
      KeepsTo source frame.tree frame.context.scope (SentElsewhere source state frame) state
        (entered.noteSpecifier frame.tree scope, frames) ∧
      ∀ next : Frame, next.tree.field = "body" → next.context.scope = scope →
        entered.scopes.Encloses frame.context.scope next.context.scope ∨
          SentElsewhere source state frame next := by
  have begun : KeepsTo source frame.tree frame.context.scope (SentElsewhere source state frame)
      state _ := keepsTo_openDeclaration frame.context frame.tree.kind
  have tag : KeepsTo source frame.tree frame.context.scope (SentElsewhere source state frame)
      (state.openDeclaration frame.tree.kind frame.context).1 _ :=
    keepsTo_visitTag (state.openDeclaration frame.tree.kind frame.context).2
      frame.context.declareIn kind allowTemplate
  have edits : Edits source frame state _ := (edits_openDeclaration state).trans
    (edits_visitTag (state.openDeclaration frame.tree.kind frame.context).1 frame.tree
      (state.openDeclaration frame.tree.kind frame.context).2 frame.context.declareIn allowTemplate
      isKind)
  have made := edits.membersMade members
  have opened := congrArg Scopes.next
    (openDeclaration_scopes state frame.tree.kind frame.context)
  have next : (visitTag source (state.openDeclaration frame.tree.kind frame.context).1 frame.tree
      (state.openDeclaration frame.tree.kind frame.context).2 frame.context.declareIn kind
      allowTemplate).1.1.scopes.next = state.scopes.next :=
    (next_visitTag frame.tree _ _ kind allowTemplate).trans opened
  have tagged := begun.append tag
  simp only at tagged made next ⊢
  generalize visitTag source (state.openDeclaration frame.tree.kind frame.context).1 frame.tree
    (state.openDeclaration frame.tree.kind frame.context).2 frame.context.declareIn kind
    allowTemplate = result at tagged made next ⊢
  obtain ⟨⟨declared, binding⟩, frames⟩ := result
  simp only at tagged made next ⊢
  have noted : KeepsTo source frame.tree frame.context.scope (SentElsewhere source state frame)
      declared
      ((declared.openMembers binding memberKind frame.context.scope).1.noteSpecifier frame.tree
        (declared.openMembers binding memberKind frame.context.scope).2, []) :=
    (keepsTo_openMembers binding memberKind (next ▸ under.scope)).append (.of_same rfl rfl)
  have entered := tagged.append noted
  refine ⟨tagged, by simpa using entered, fun next isBody isScope => ?_⟩
  rw [isScope]
  obtain within | old := openMembers_encloses made binding memberKind frame.context.scope
  · exact .inl within
  · exact .inr (.members form isBody (by omega))

theorem keepsTo_visitClass {kind : SymbolKind} (form : frame.tree.form = .classSpecifier kind)
    (isKind : frame.declaredKind? = some kind) (members : MembersMade state)
    (under : frame.context.Under state.scopes.next) (declaresTag : Bool) :
    KeepsTo source frame.tree frame.context.scope (SentElsewhere source state frame) state
      (visitClass source state frame.tree frame.context kind declaresTag) := by
  have written := keepsTo_written source true (.inl ⟨kind, form⟩) isKind members under .classBody
  unfold visitClass
  simp only at written ⊢
  generalize visitTag source (state.openDeclaration frame.tree.kind frame.context).1 frame.tree
    (state.openDeclaration frame.tree.kind frame.context).2 frame.context.declareIn kind true =
      result at written ⊢
  obtain ⟨⟨declared, binding⟩, frames⟩ := result
  simp only at written ⊢
  generalize declared.openMembers binding .classBody frame.context.scope = result at written ⊢
  obtain ⟨entered, scope⟩ := result
  obtain ⟨tagged, entered, body⟩ := written
  simp only
  split
  · exact keepsTo_visitElaborated
  · split
    · exact tagged
    · refine entered.append (keepsTo_visitEach fun current grown child isChild => ?_)
      exact keepsTo_visitClassPart (Within.of_mem_namedChildren isChild)
        (state.openDeclaration frame.tree.kind frame.context).2 scope fun isBody =>
          (body (Frame.child frame.tree
            ((state.openDeclaration frame.tree.kind frame.context).2.within scope) .plain child)
              isBody rfl).imp_left grown.encloses

theorem KeepsTo.leaves_body {before after : State} {scope : Nat} {tree : ParseTree}
    {inner body : Context} (changed : KeepsTo source tree scope elsewhere before (after, []))
    (same : inner.scope = scope) (sent : ∀ next : Frame, next.tree.field = "body" →
      next.context.scope = body.scope →
        after.scopes.Encloses scope next.context.scope ∨ elsewhere next)
    (children : List ParseTree) :
    KeepsTo source tree scope elsewhere before (after, children.map fun child =>
      Frame.child tree (if child.field = "body" then body else inner) .plain child) := by
  refine changed.leaves fun next member => ?_
  obtain ⟨child, -, rfl⟩ := List.mem_map.1 member
  by_cases isBody : child.field = "body"
  · exact sent _ isBody (by simp [Frame.child, isBody])
  · simp only [Frame.child, isBody, if_false, same]
    exact .inl .self

theorem keepsTo_visitEnum (form : frame.tree.form = .enumSpecifier)
    (isKind : frame.declaredKind? = some .enumName) (members : MembersMade state)
    (under : frame.context.Under state.scopes.next) (declaresTag : Bool) :
    KeepsTo source frame.tree frame.context.scope (SentElsewhere source state frame) state
      (visitEnum source state frame.tree frame.context declaresTag) := by
  have written := keepsTo_written source false (.inr form) isKind members under .namespaceBody
  have inner : (state.openDeclaration frame.tree.kind frame.context).2.scope =
    frame.context.scope := rfl
  unfold visitEnum
  simp only at written ⊢
  generalize visitTag source (state.openDeclaration frame.tree.kind frame.context).1 frame.tree
    (state.openDeclaration frame.tree.kind frame.context).2 frame.context.declareIn .enumName
      false = result at written ⊢
  obtain ⟨⟨declared, binding⟩, frames⟩ := result
  simp only at written ⊢
  generalize declared.openMembers binding .namespaceBody frame.context.scope = result at written ⊢
  obtain ⟨entered, scope⟩ := result
  obtain ⟨tagged, entered, body⟩ := written
  simp only
  split
  · exact keepsTo_visitElaborated
  · split
    · exact entered.append (KeepsTo.leaves_body (.refl _) inner body _)
    · refine tagged.append (KeepsTo.leaves_map (.refl _) fun child => ?_)
      simp only [Frame.child]
      split <;> exact inner

theorem keepsTo_visitEnumerator (tree : ParseTree) :
    KeepsTo source tree context.scope elsewhere state
      (visitEnumerator source state tree context) := by
  have inner : (state.openDeclaration tree.kind context).2.scope = context.scope := rfl
  refine (keepsTo_openDeclaration context tree.kind).append
    (keepsTo_visitEach fun current _ child isChild => ?_)
  split
  · exact (KeepsTo.refl current).leaves_one inner
  · have lies := Within.of_mem_namedChildren isChild
    have declares := declare_declares source current child
      (state.openDeclaration tree.kind context).2 context.declareIn .enumerator none
    have declared : KeepsTo source tree context.scope elsewhere current _ :=
      .of_declares declares lies
    simp only
    split
    · rename_i binding bound
      have spelled : child.text source ≠ "" := by
        obtain ⟨unbound, -⟩ | ⟨_, _, -, settles⟩ := declares.symbol
        · cases unbound.symm.trans bound
        · exact settles.spelled
      split
      · refine declared.append (.of_next_eq (.declare _ _ .ordinary _ _ _)
          (Scopes.next_declare _ _ .ordinary _ _ _) rfl fun home text entry lists => ?_)
        exact (Scopes.lists_of_declare lists).imp_right fun new =>
          ⟨child, lies, spelled, by rw [new.2]⟩
      · exact declared
    · exact declared

theorem keepsTo_visitNamespaceSegments {tree : ParseTree} {outer : Nat}
    (members : MembersMade state) (inner : Context) (segments : List ParseTree)
    (lie : ∀ segment ∈ segments, Within segment tree) {scope : Nat}
    (made : scope < state.scopes.next) :
    KeepsTo source tree outer elsewhere state
      ((visitNamespaceSegments source inner segments state scope).1, []) := by
  induction segments generalizing state scope with
  | nil => exact .refl state
  | cons segment rest ih =>
    obtain ⟨lies, lieRest⟩ := List.forall_mem_cons.1 lie
    have declares := declare_declares source state segment inner scope .namespaceName none
    have declared := members.of_same declares.memberScopes (Nat.le_of_eq declares.next_eq.symm)
    have named : KeepsTo source tree outer elsewhere state _ := .of_declares declares lies
    have entered := named.append
      (keepsTo_openMembers (state.declare source segment inner scope .namespaceName none).2
        .namespaceBody (declares.next_eq.symm ▸ made))
    exact entered.append (ih (declared.openMembers _ .namespaceBody scope) lieRest
      (openMembers_lt_next _ .namespaceBody scope declared))

theorem keepsTo_visitNamespace (form : frame.tree.form = .namespaceDefinition)
    (members : MembersMade state) (under : frame.context.Under state.scopes.next) :
    KeepsTo source frame.tree frame.context.scope (SentElsewhere source state frame) state
      (visitNamespace source state frame.tree frame.context) := by
  have opened : Edits source frame state _ := edits_openDeclaration state
  have scopes := openDeclaration_scopes state frame.tree.kind frame.context
  have segments : KeepsTo source frame.tree frame.context.scope
      (SentElsewhere source state frame) state
      ((visitNamespace source state frame.tree frame.context).1, []) := by
    refine (keepsTo_openDeclaration frame.context frame.tree.kind).append
      (keepsTo_visitNamespaceSegments (opened.membersMade members) _ _ (fun segment member => ?_)
        (scopes.symm ▸ under.declareIn))
    split at member
    · rename_i name isName
      exact ((standApart_of_splitsInto (splitsInto_namespaceSegments name)).within segment
        member).trans (Within.of_child? isName)
    · cases member
  have inner : (state.openDeclaration frame.tree.kind frame.context).2.scope =
    frame.context.scope := rfl
  exact segments.leaves_body inner (fun next isBody _ => .inr (.namespaceBody form isBody)) _

theorem keepsTo_visitTemplate (tree : ParseTree) (under : context.Under state.scopes.next) :
    KeepsTo source tree context.scope elsewhere state (visitTemplate state tree context) := by
  have scopes := openDeclaration_scopes state tree.kind context
  have pushed : KeepsTo source tree context.scope elsewhere state
      ((visitTemplate state tree context).1, []) :=
    (keepsTo_openDeclaration context tree.kind).append
      (keepsTo_pushScope .templateHead (scopes.symm ▸ under.scope))
  refine pushed.leaves fun next member => .inl ?_
  obtain ⟨child, -, rfl⟩ := List.mem_map.1 member
  have within := encloses_pushScope (state.openDeclaration tree.kind context).1 .templateHead
    context.scope
  simp only [Frame.child]
  split <;> exact within

theorem keepsTo_declaredChildren (tree : ParseTree) (test : ParseTree → Prop)
    [DecidablePred test] (kind : SymbolKind) (typeRef : Option TypeRef) :
    KeepsTo source tree context.scope elsewhere state
      (let (opened, inner) := state.openDeclaration tree.kind context
       visitEach
         (fun state child =>
           if test child then
             ((state.declare source child inner context.declareIn kind typeRef).1, [])
           else (state, [Frame.child tree inner .plain child]))
         tree.namedChildren opened) := by
  refine (keepsTo_openDeclaration context tree.kind).append
    (keepsTo_visitEach fun current _ child isChild => ?_)
  split
  · exact keepsTo_declare (Within.of_mem_namedChildren isChild) _ _ _ _
  · exact (KeepsTo.refl current).leaves_one rfl

theorem keepsTo_visitUsing (tree : ParseTree) :
    KeepsTo source tree context.scope elsewhere state (visitUsing source state tree context) := by
  have inner : (state.openDeclaration tree.kind context).2.scope = context.scope := rfl
  refine (keepsTo_openDeclaration context tree.kind).append
    (keepsTo_visitEach fun current _ child isChild => ?_)
  split
  · exact inner ▸ keepsTo_visitUse (Within.of_mem_namedChildren isChild) .ordinary _
  · exact (KeepsTo.refl current).leaves_one inner

theorem keepsTo_visitMacroDefinition (tree : ParseTree) :
    KeepsTo source tree context.scope elsewhere state
      (visitMacroDefinition source state tree context, []) := by
  have begun : KeepsTo source tree context.scope elsewhere state _ :=
    keepsTo_openDeclaration context tree.kind
  have ofDefines {before after : State} {name : ParseTree} {result : Option Nat}
      (defines : State.Defines source name result before after) :
      KeepsTo source tree context.scope elsewhere before (after, []) :=
    .of_same defines.scopes defines.uses
  unfold visitMacroDefinition
  simp only
  generalize state.openDeclaration tree.kind context = start at begun ⊢
  split
  · exact begun
  · rename_i nameTree found
    split
    · exact begun.append (ofDefines (addName_defines source start.1 nameTree start.2))
    · have defines (values : Condition.Macros) :=
        defineMacro_defines source start.1 nameTree start.2 tree.stop values rfl
      split <;> exact begun.append (ofDefines (defines _))

theorem keepsTo_visitDirective (tree : ParseTree) :
    KeepsTo source tree context.scope elsewhere state
      (visitDirective source state tree context, []) := by
  unfold visitDirective
  simp only
  split
  · exact .refl state
  · split
    · exact .refl state
    · split <;> exact .of_same rfl rfl

theorem keepsTo_visitConditional (tree : ParseTree) (taken : Bool) :
    KeepsTo source tree context.scope elsewhere state
      (visitConditional source state tree context taken) := by
  refine (KeepsTo.refl state).leaves_map fun child => ?_
  split
  · rfl
  · split <;> rfl

theorem keepsTo_visitBlock (tree : ParseTree) (under : context.Under state.scopes.next) :
    KeepsTo source tree context.scope elsewhere state (visitBlock state tree context) := by
  have within := encloses_pushScope state .block context.scope
  have pushed : KeepsTo source tree context.scope elsewhere state
      ((state.pushScope .block context.scope).1, []) := keepsTo_pushScope .block under.scope
  unfold visitBlock
  simp only
  split <;>
  · refine pushed.leaves fun next member => .inl ?_
    obtain ⟨child, -, rfl⟩ := List.mem_map.1 member
    exact within

theorem keepsTo_visitLambda (tree : ParseTree) (under : context.Under state.scopes.next) :
    KeepsTo source tree context.scope elsewhere state (visitLambda state tree context) := by
  have within := encloses_pushScope state .function context.scope
  refine (keepsTo_pushScope .function under.scope).leaves fun next member => .inl ?_
  obtain ⟨child, -, rfl⟩ := List.mem_map.1 member
  split
  · exact within
  · split
    · exact within
    · exact .self

theorem keepsTo_visitFunctionDeclarator {kind : SymbolKind} {typeRef : Option TypeRef}
    {parameters : Option Nat} (manner : frame.mode = .declarator kind typeRef parameters)
    (under : frame.context.Under state.scopes.next) :
    KeepsTo source frame.tree frame.context.scope (SentElsewhere source state frame) state
      (visitFunctionDeclarator state frame.tree frame.context kind typeRef parameters) := by
  have parts {after : State} {scope : Nat} (declared : SymbolKind)
      (changed : KeepsTo source frame.tree frame.context.scope (SentElsewhere source state frame)
        state (after, []))
      (within : ∀ next : Frame, next.context.scope = scope →
        after.scopes.Encloses frame.context.scope next.context.scope ∨
          SentElsewhere source state frame next) :
      KeepsTo source frame.tree frame.context.scope (SentElsewhere source state frame) state
        (after, frame.tree.namedChildren.map fun child =>
          if child.field = "declarator" then
            Frame.child frame.tree frame.context (.declarator declared typeRef none) child
          else if child.field = "parameters" then
            Frame.child frame.tree (frame.context.within scope) .plain child
          else Frame.child frame.tree { frame.context with scope := scope } .plain child) := by
    refine changed.leaves fun next member => ?_
    obtain ⟨child, -, rfl⟩ := List.mem_map.1 member
    split
    · exact .inl .self
    · split <;> exact within _ rfl
  cases parameters with
  | some scope => exact parts _ (.refl state) fun next inside => .inr (.parameters manner inside)
  | none =>
    refine parts _ (keepsTo_pushScope .function under.scope) fun next inside => .inl ?_
    rw [inside]
    exact encloses_pushScope state .function frame.context.scope

theorem keepsTo_declareEach {tree : ParseTree} {scope : Nat} (inner : Context) (declareIn : Nat)
    (kind : SymbolKind) {trees : List ParseTree} (lie : ∀ child ∈ trees, Within child tree) :
    KeepsTo source tree scope elsewhere state (trees.foldl (fun state child =>
      (state.declare source child inner declareIn kind none).1) state, []) := by
  induction trees generalizing state with
  | nil => exact .refl state
  | cons first rest ih =>
    obtain ⟨lies, lieRest⟩ := List.forall_mem_cons.1 lie
    exact (keepsTo_declare lies inner declareIn kind none).append (ih lieRest)

theorem keepsTo_visitDeclarator {kind : SymbolKind} {typeRef : Option TypeRef}
    {parameters : Option Nat} (manner : frame.mode = .declarator kind typeRef parameters)
    (under : frame.context.Under state.scopes.next) :
    KeepsTo source frame.tree frame.context.scope (SentElsewhere source state frame) state
      (visitDeclarator source state frame kind typeRef parameters) := by
  have nothing : KeepsTo source frame.tree frame.context.scope (SentElsewhere source state frame)
      state (state, []) := .refl state
  unfold visitDeclarator
  simp only
  split
  · exact keepsTo_declare (.root _) frame.context _ kind typeRef
  · split
    · exact keepsTo_visitQualified (.root _) kind typeRef
    · split
      · exact keepsTo_visitFunctionDeclarator manner under
      · split
        · exact nothing.leaves_map fun _ => rfl
        · split
          · refine KeepsTo.leaves_map ?_ fun _ => rfl
            split
            · rename_i name isName
              exact keepsTo_declare (Within.of_child? isName) frame.context _ kind typeRef
            · exact nothing
          · split
            · exact keepsTo_declareEach frame.context _ .variable fun child member =>
                Within.of_mem_namedChildren (List.mem_filter.1 member).1
            · split
              · exact nothing.leaves_map fun _ => rfl
              · exact nothing.leaves_one rfl

theorem keepsTo_visitPlain
    (manner : frame.mode = .plain ∨ ∃ object, frame.mode = .member object)
    (members : MembersMade state) (under : frame.context.Under state.scopes.next)
    (declaresTag : Bool) :
    KeepsTo source frame.tree frame.context.scope (SentElsewhere source state frame) state
      (visitPlain source state frame.tree declaresTag frame.context) := by
  have isKind {form : Form} (same : frame.tree.form = form) {kind : SymbolKind}
      (declared : form.declaredKind? = some kind) : frame.declaredKind? = some kind := by
    rcases manner with plain | ⟨object, member⟩ <;>
      simp [Frame.declaredKind?, *]
  unfold visitPlain
  split <;> rename_i form
  · exact .refl state
  · exact keepsTo_visitFunction form members under
  · exact keepsTo_visitDeclaration _
  · exact keepsTo_visitClass form (isKind form rfl) members under declaresTag
  · exact keepsTo_visitEnum form (isKind form rfl) members under declaresTag
  · exact keepsTo_visitEnumerator frame.tree
  · exact keepsTo_visitNamespace form members under
  · exact keepsTo_visitTemplate frame.tree under
  · exact keepsTo_declaredChildren frame.tree _ .templateParameter none
  · exact keepsTo_declaredChildren frame.tree (·.field = "name") .typeAlias
      frame.tree.declaredType?
  · exact keepsTo_visitUsing frame.tree
  · exact keepsTo_visitMacroDefinition frame.tree
  · exact keepsTo_visitDirective frame.tree
  · exact keepsTo_visitConditional frame.tree false
  · exact keepsTo_visitBlock frame.tree under
  · exact keepsTo_visitLambda frame.tree under
  · exact (KeepsTo.refl state).leaves_map fun _ => rfl
  · exact keepsTo_visitUse (.root _) _ _
  · exact (KeepsTo.refl state).leaves_map fun _ => rfl

/-- Every visit keeps to the scope in which its frame looks names up. -/
theorem visit_keepsTo (members : MembersMade state) (under : frame.Under state.scopes.next) :
    KeepsTo source frame.tree frame.context.scope (SentElsewhere source state frame) state
      (visit source state frame) := by
  unfold visit
  split
  · rename_i plain
    exact keepsTo_visitPlain (.inl plain) members under.context frame.declaresTag
  · exact (KeepsTo.refl state).leaves_map fun _ => rfl
  · rename_i manner
    exact keepsTo_visitDeclarator manner under.context
  · rename_i object member
    split
    · exact .of_same rfl rfl
    · exact keepsTo_visitPlain (.inr ⟨object, member⟩) members under.context frame.declaresTag
  · exact keepsTo_visitConditional frame.tree _

end Frames

end CrossReference.Walk
