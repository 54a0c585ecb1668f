import CrossReference.Proofs.Walk.Frames
import CrossReference.Proofs.Walk.Members

/-!
# The scopes that frames speak of

All scopes that a frame speaks of have been made: the one in which it looks names up, the one that
receives its declarations and the one for the parameters of a function.  The frames that come out of
a visit speak of those of the frame visited, of scopes that the visit makes and of scopes of members.
-/

set_option autoImplicit false

namespace CrossReference.Walk

open ParseTree State

structure Context.Under (bound : Nat) (context : Context) : Prop where
  scope : context.scope < bound
  declareIn : context.declareIn < bound

def Mode.Under (bound : Nat) : Mode → Prop
  | .declarator _ _ (some scope) => scope < bound
  | .declarator _ _ none | .plain | .body | .member _ | .branch _ => True

structure Frame.Under (bound : Nat) (frame : Frame) : Prop where
  context : frame.context.Under bound
  mode : frame.mode.Under bound

section Under

variable {bound larger : Nat} {context : Context} {mode : Mode} {frame : Frame}

theorem Context.Under.mono (under : context.Under bound) (le : bound ≤ larger) :
    context.Under larger where
  scope := Nat.lt_of_lt_of_le under.scope le
  declareIn := Nat.lt_of_lt_of_le under.declareIn le

theorem Context.under_within {scope : Nat} (made : scope < bound) :
    (context.within scope).Under bound :=
  ⟨made, made⟩

theorem Mode.Under.mono (under : mode.Under bound) (le : bound ≤ larger) : mode.Under larger := by
  unfold Mode.Under at under ⊢
  split
  · exact Nat.lt_of_lt_of_le under le
  all_goals trivial

theorem Frame.Under.mono (under : frame.Under bound) (le : bound ≤ larger) : frame.Under larger :=
  ⟨under.context.mono le, under.mode.mono le⟩

theorem under_plainChild (under : context.Under bound) (parent tree : ParseTree) :
    (Frame.child parent context .plain tree).Under bound :=
  ⟨under, trivial⟩

theorem declaratorMode_under {kind : SymbolKind} {typeRef : Option TypeRef} {parameters : Option Nat}
    (under : Mode.Under bound (.declarator kind typeRef parameters)) (tree : ParseTree) :
    (declaratorMode kind typeRef parameters tree).Under bound := by
  unfold declaratorMode
  split
  · exact under
  · trivial

theorem under_map {frameOf : ParseTree → Frame} {trees : List ParseTree}
    (each : ∀ tree, (frameOf tree).Under bound) : ∀ next ∈ trees.map frameOf, next.Under bound := by
  intro next member
  obtain ⟨tree, -, rfl⟩ := List.mem_map.1 member
  exact each tree

theorem under_apart (under : context.Under bound) (trees : List ParseTree) :
    ∀ next ∈ trees.map (Frame.apart context), next.Under bound :=
  under_map fun _ => ⟨under, trivial⟩

theorem under_childFrames (under : context.Under bound) (tree : ParseTree) :
    ∀ next ∈ childFrames tree context, next.Under bound :=
  under_map fun _ => ⟨under, trivial⟩

theorem under_single (under : frame.Under bound) : ∀ next ∈ [frame], next.Under bound := by
  intro next member
  rwa [List.mem_singleton.1 member]

theorem under_append {first second : List Frame} (one : ∀ next ∈ first, next.Under bound)
    (two : ∀ next ∈ second, next.Under bound) : ∀ next ∈ first ++ second, next.Under bound := by
  intro next member
  rcases List.mem_append.1 member with isFirst | isSecond
  · exact one next isFirst
  · exact two next isSecond

end Under

/-! ## Frames that come out of visits -/

section Visits

variable {source : List Char} {state : State} {tree : ParseTree} {context : Context} {bound : Nat}

theorem under_openDeclaration (state : State) (under : context.Under bound) (kind : String) :
    (state.openDeclaration kind context).2.Under bound :=
  ⟨under.scope, under.declareIn⟩

theorem under_visitUse (under : context.Under bound) (space : NameSpace) (effect : Effect) :
    ∀ next ∈ (visitUse source state tree context space effect).2, next.Under bound :=
  under_apart under _

theorem under_visitElaborated (under : context.Under bound) :
    ∀ next ∈ (visitElaborated source state tree context).2, next.Under bound := by
  apply forall_mem_visitEach
  intro state child _ next member
  split at member
  · exact under_visitUse under _ _ next member
  · exact under_single (under_plainChild under tree child) next member

theorem under_visitTag (under : context.Under bound) (declareIn : Nat) (kind : SymbolKind)
    (allowTemplate : Bool) :
    ∀ next ∈ (visitTag source state tree context declareIn kind allowTemplate).2,
      next.Under bound := by
  unfold visitTag
  split
  · exact List.forall_mem_nil _
  · split
    · exact under_apart under _
    · split
      · simp only
        split <;> exact under_apart under _
      · exact List.forall_mem_nil _

theorem under_visitClassPart {scope : Nat} (under : context.Under bound) (made : scope < bound)
    (child : ParseTree) :
    ∀ next ∈ (visitClassPart source tree context scope state child).2, next.Under bound := by
  unfold visitClassPart
  split
  · exact List.forall_mem_nil _
  · split
    · exact under_single ⟨Context.under_within made, trivial⟩
    · split
      · apply forall_mem_visitEach
        intro state base _ next member
        split at member
        · exact under_visitUse under _ _ next member
        · exact under_single (under_plainChild under child base) next member
      · exact under_single (under_plainChild under tree child)

theorem under_visitTypeParameter (under : context.Under bound) :
    ∀ next ∈ (visitTypeParameter source state tree context).2, next.Under bound := by
  have inner := under_openDeclaration state under tree.kind
  apply forall_mem_visitEach
  intro state child _ next member
  split at member
  · cases member
  · exact under_single (under_plainChild inner tree child) next member

theorem under_visitEnumerator (under : context.Under bound) :
    ∀ next ∈ (visitEnumerator source state tree context).2, next.Under bound := by
  have inner := under_openDeclaration state under tree.kind
  apply forall_mem_visitEach
  intro state child _ next member
  split at member
  · exact under_single (under_plainChild inner tree child) next member
  · simp only at member
    split at member
    · split at member <;> cases member
    · cases member

theorem under_visitAlias (under : context.Under bound) :
    ∀ next ∈ (visitAlias source state tree context).2, next.Under bound := by
  have inner := under_openDeclaration state under tree.kind
  apply forall_mem_visitEach
  intro state child _ next member
  split at member
  · cases member
  · exact under_single (under_plainChild inner tree child) next member

theorem under_visitUsing (under : context.Under bound) :
    ∀ next ∈ (visitUsing source state tree context).2, next.Under bound := by
  have inner := under_openDeclaration state under tree.kind
  apply forall_mem_visitEach
  intro state child _ next member
  split at member
  · exact under_visitUse inner _ _ next member
  · exact under_single (under_plainChild inner tree child) next member

theorem under_visitConditional (under : context.Under bound) (taken : Bool) :
    ∀ next ∈ (visitConditional source state tree context taken).2, next.Under bound := by
  apply under_map
  intro child
  split
  · exact ⟨under, trivial⟩
  · split
    · exact ⟨under, trivial⟩
    · exact ⟨⟨under.scope, under.declareIn⟩, trivial⟩

theorem lt_next_pushScope (state : State) (kind : ScopeKind) (parent : Nat) :
    (state.pushScope kind parent).2 < (state.pushScope kind parent).1.scopes.next := by
  simp [pushScope, Scopes.next, Scopes.push]

theorem under_pushScope (under : context.Under state.scopes.next) (kind : ScopeKind)
    (parent : Nat) : context.Under (state.pushScope kind parent).1.scopes.next :=
  under.mono (by simp [pushScope, Scopes.next, Scopes.push])

theorem under_visitFunction (under : context.Under state.scopes.next) :
    ∀ next ∈ (visitFunction source state tree context).2,
      next.Under (visitFunction source state tree context).1.scopes.next := by
  have opened := openDeclaration_scopes state tree.kind context
  have inner := under_openDeclaration state under tree.kind
  unfold visitFunction
  simp only
  generalize state.openDeclaration tree.kind context = start at opened inner ⊢
  rw [← opened] at inner
  have made := lt_next_pushScope start.1 .function
  apply under_map
  intro child
  split
  · exact ⟨under_pushScope inner _ _, made _⟩
  · split
    · exact ⟨Context.under_within (made _), trivial⟩
    · split
      · exact ⟨Context.under_within (made _), trivial⟩
      · exact ⟨under_pushScope inner _ _, trivial⟩

theorem under_visitTemplate (under : context.Under state.scopes.next) :
    ∀ next ∈ (visitTemplate state tree context).2,
      next.Under (visitTemplate state tree context).1.scopes.next := by
  have opened := openDeclaration_scopes state tree.kind context
  have inner := under_openDeclaration state under tree.kind
  unfold visitTemplate
  simp only
  generalize state.openDeclaration tree.kind context = start at opened inner ⊢
  rw [← opened] at inner
  have made := lt_next_pushScope start.1 .templateHead context.scope
  apply under_map
  intro child
  refine ⟨?_, trivial⟩
  simp only [Frame.child]
  split
  · exact Context.under_within made
  · exact ⟨made, (under_pushScope inner _ _).declareIn⟩

theorem under_visitBlock :
    ∀ next ∈ (visitBlock state tree context).2,
      next.Under (visitBlock state tree context).1.scopes.next := by
  have made := lt_next_pushScope state .block context.scope
  unfold visitBlock
  simp only
  split
  · exact under_childFrames (Context.under_within made) tree
  · apply under_map
    intro child
    refine ⟨Context.under_within made, ?_⟩
    simp only [Frame.child, declaratorMode]
    split <;> trivial

theorem under_visitLambda (under : context.Under state.scopes.next) :
    ∀ next ∈ (visitLambda state tree context).2,
      next.Under (visitLambda state tree context).1.scopes.next := by
  have made := lt_next_pushScope state .function context.scope
  apply under_map
  intro child
  split
  · exact ⟨Context.under_within made, trivial⟩
  · split
    · exact ⟨Context.under_within made, trivial⟩
    · exact ⟨under_pushScope under _ _, trivial⟩

theorem under_visitMemberAccess (under : context.Under bound) :
    ∀ next ∈ (visitMemberAccess state tree context).2, next.Under bound := by
  apply under_map
  intro child
  refine ⟨under, ?_⟩
  simp only [Frame.child]
  split <;> trivial

theorem under_visitFunctionDeclarator {kind : SymbolKind} {typeRef : Option TypeRef}
    {parameters : Option Nat} (under : context.Under state.scopes.next)
    (made : Mode.Under state.scopes.next (.declarator kind typeRef parameters)) :
    ∀ next ∈ (visitFunctionDeclarator state tree context kind typeRef parameters).2,
      next.Under
        (visitFunctionDeclarator state tree context kind typeRef parameters).1.scopes.next := by
  have parts (bound scope : Nat) (outer : context.Under bound) (isMade : scope < bound)
      (declared : SymbolKind) : ∀ next ∈ tree.namedChildren.map fun child =>
        if child.field = "declarator" then
          Frame.child tree context (.declarator declared typeRef none) child
        else if child.field = "parameters" then
          Frame.child tree (context.within scope) .plain child
        else Frame.child tree { context with scope := scope } .plain child,
      next.Under bound := by
    apply under_map
    intro child
    split
    · exact ⟨outer, trivial⟩
    · split
      · exact ⟨Context.under_within isMade, trivial⟩
      · exact ⟨⟨isMade, outer.declareIn⟩, trivial⟩
  cases parameters with
  | some scope => exact parts _ scope under made _
  | none =>
    exact parts _ _ (under_pushScope under .function context.scope) (lt_next_pushScope state _ _) _

theorem under_visitDeclarator {frame : Frame} {kind : SymbolKind} {typeRef : Option TypeRef}
    {parameters : Option Nat} (manner : frame.mode = .declarator kind typeRef parameters)
    (under : frame.Under state.scopes.next) :
    ∀ next ∈ (visitDeclarator source state frame kind typeRef parameters).2,
      next.Under
        (visitDeclarator source state frame kind typeRef parameters).1.scopes.next := by
  have edits : Edits source frame state _ :=
    edits_visitDeclarator state kind typeRef parameters manner
  have grown := edits.next_le
  have mode := under.mode
  rw [manner] at mode
  revert grown
  unfold visitDeclarator
  simp only
  split
  · intro _
    exact List.forall_mem_nil _
  · split
    · intro grown
      exact under_apart (under.context.mono grown) _
    · split
      · intro _
        exact under_visitFunctionDeclarator under.context mode
      · split
        · intro _
          exact under_map fun child => ⟨under.context, declaratorMode_under mode child⟩
        · split
          · intro grown
            exact under_apart (under.context.mono grown) _
          · split
            · intro _
              exact List.forall_mem_nil _
            · split
              · intro _
                apply under_map
                intro child
                refine ⟨under.context, ?_⟩
                simp only [Frame.child]
                split
                · exact mode
                · trivial
              · intro _
                exact under_single ⟨under.context, trivial⟩

theorem under_visitDeclaration (under : context.Under bound) (kind : SymbolKind) :
    ∀ next ∈ (visitDeclaration state tree context kind).2, next.Under bound := by
  have noParameters : Mode.Under bound (.declarator kind tree.declaredType? none) := trivial
  exact under_map fun child =>
    ⟨under_openDeclaration state under tree.kind, declaratorMode_under noParameters child⟩

theorem under_visitClass {frame : Frame} {kind : SymbolKind}
    (isKind : frame.declaredKind? = some kind) (members : MembersMade state)
    (under : frame.context.Under state.scopes.next) (declaresTag : Bool) :
    ∀ next ∈ (visitClass source state frame.tree frame.context kind declaresTag).2,
      next.Under
        (visitClass source state frame.tree frame.context kind declaresTag).1.scopes.next := by
  have edits : Edits source frame state _ := edits_visitClass state declaresTag isKind
  have tag : Edits source frame state _ := (edits_openDeclaration state).trans
    (edits_visitTag (state.openDeclaration frame.tree.kind frame.context).1 frame.tree
      (state.openDeclaration frame.tree.kind frame.context).2 frame.context.declareIn true isKind)
  have inner : (state.openDeclaration frame.tree.kind frame.context).2.Under _ :=
    under_openDeclaration state (under.mono edits.next_le) frame.tree.kind
  have parts (current : State) (inner : Context) (scope : Nat) : Edits source frame current
      (visitEach (visitClassPart source frame.tree inner scope) frame.tree.namedChildren
        current).1 :=
    edits_visitEach (fun _ child => edits_visitClassPart frame.tree inner scope _ child) current
  revert inner
  unfold visitClass
  simp only
  split
  · exact fun inner => under_visitElaborated ⟨inner.scope, inner.declareIn⟩
  · split
    · exact fun inner => under_visitTag inner _ _ _
    · intro inner
      have made (binding : Option Nat) (kind : ScopeKind) (parent : Nat) :=
        openMembers_lt_next binding kind parent (tag.membersMade members)
      apply under_append (under_visitTag inner _ _ _)
      apply forall_mem_visitEach
      intro current child _
      apply under_visitClassPart inner
      exact Nat.lt_of_lt_of_le (made _ _ _) (parts (State.noteSpecifier _ frame.tree _) _ _).next_le

theorem under_body {inner body : Context} (outer : inner.Under bound) (inside : body.Under bound)
    (children : List ParseTree) :
    ∀ next ∈ children.map fun child =>
        Frame.child tree (if child.field = "body" then body else inner) .plain child,
      next.Under bound := by
  apply under_map
  intro child
  refine ⟨?_, trivial⟩
  simp only [Frame.child]
  split
  · exact inside
  · exact outer

theorem under_visitEnum {frame : Frame} (isKind : frame.declaredKind? = some .enumName)
    (members : MembersMade state) (under : frame.context.Under state.scopes.next) (declaresTag : Bool) :
    ∀ next ∈ (visitEnum source state frame.tree frame.context declaresTag).2,
      next.Under
        (visitEnum source state frame.tree frame.context declaresTag).1.scopes.next := by
  have edits : Edits source frame state _ := edits_visitEnum state declaresTag isKind
  have tag : Edits source frame state _ := (edits_openDeclaration state).trans
    (edits_visitTag (state.openDeclaration frame.tree.kind frame.context).1 frame.tree
      (state.openDeclaration frame.tree.kind frame.context).2 frame.context.declareIn false isKind)
  have inner : (state.openDeclaration frame.tree.kind frame.context).2.Under _ :=
    under_openDeclaration state (under.mono edits.next_le) frame.tree.kind
  revert inner
  unfold visitEnum
  simp only
  split
  · exact fun inner => under_visitElaborated ⟨inner.scope, inner.declareIn⟩
  · split
    · intro inner
      have made (binding : Option Nat) (kind : ScopeKind) (parent : Nat) :=
        openMembers_lt_next binding kind parent (tag.membersMade members)
      apply under_append (under_visitTag inner _ _ _)
      apply under_body inner
      refine ⟨made _ _ _, ?_⟩
      simp only
      split
      · exact made _ _ _
      · exact inner.declareIn
    · intro inner
      exact under_append (under_visitTag inner _ _ _) (under_body inner inner _)

theorem lt_next_visitNamespaceSegments (members : MembersMade state) (inner : Context)
    (segments : List ParseTree) {scope : Nat} (made : scope < state.scopes.next) :
    (visitNamespaceSegments source inner segments state scope).2 <
      (visitNamespaceSegments source inner segments state scope).1.scopes.next := by
  induction segments generalizing state scope with
  | nil => exact made
  | cons segment rest ih =>
    have declares := declare_declares source state segment inner scope .namespaceName none
    have declared := members.of_same declares.memberScopes (Nat.le_of_eq declares.next_eq.symm)
    exact ih (declared.openMembers _ .namespaceBody scope)
      (openMembers_lt_next _ .namespaceBody scope declared)

theorem under_visitNamespace {frame : Frame} (isKind : frame.declaredKind? = some .namespaceName)
    (members : MembersMade state) (under : frame.context.Under state.scopes.next) :
    ∀ next ∈ (visitNamespace source state frame.tree frame.context).2,
      next.Under (visitNamespace source state frame.tree frame.context).1.scopes.next := by
  have edits : Edits source frame state _ := edits_visitNamespace state isKind
  have opened : Edits source frame state _ := edits_openDeclaration state
  have inner : (state.openDeclaration frame.tree.kind frame.context).2.Under _ :=
    under_openDeclaration state (under.mono edits.next_le) frame.tree.kind
  exact under_body inner (Context.under_within
    (lt_next_visitNamespaceSegments (opened.membersMade members) _ _
      (Nat.lt_of_lt_of_le under.declareIn opened.next_le))) _

theorem under_visitPlain {frame : Frame}
    (manner : frame.mode = .plain ∨ ∃ object, frame.mode = .member object)
    (members : MembersMade state) (under : frame.context.Under state.scopes.next)
    (declaresTag : Bool) :
    ∀ next ∈ (visitPlain source state frame.tree declaresTag frame.context).2,
      next.Under (visitPlain source state frame.tree declaresTag frame.context).1.scopes.next := by
  have isKind {form : Form} (same : frame.tree.form = form) {kind : SymbolKind}
      (declared : form.declaredKind? = some kind) : frame.declaredKind? = some kind := by
    rcases manner with plain | ⟨object, member⟩ <;>
      simp [Frame.declaredKind?, *]
  have edits : Edits source frame state _ := edits_visitPlain state declaresTag manner
  have later := under.mono edits.next_le
  revert later
  unfold visitPlain
  split
  · exact fun _ => List.forall_mem_nil _
  · exact fun _ => under_visitFunction under
  · exact fun later => under_visitDeclaration later _
  · rename_i form
    exact fun _ => under_visitClass (isKind form rfl) members under declaresTag
  · rename_i form
    exact fun _ => under_visitEnum (isKind form rfl) members under declaresTag
  · exact fun later => under_visitEnumerator later
  · rename_i form
    exact fun _ => under_visitNamespace (isKind form rfl) members under
  · exact fun _ => under_visitTemplate under
  · exact fun later => under_visitTypeParameter later
  · exact fun later => under_visitAlias later
  · exact fun later => under_visitUsing later
  · exact fun _ => List.forall_mem_nil _
  · exact fun _ => List.forall_mem_nil _
  · exact fun later => under_visitConditional later false
  · exact fun _ => under_visitBlock
  · exact fun _ => under_visitLambda under
  · exact fun later => under_visitMemberAccess later
  · exact fun later => under_visitUse later _ _
  · exact fun later => under_childFrames later frame.tree

/-- All scopes that the frames of a visit speak of have been made after it. -/
theorem under_visit {frame : Frame} (members : MembersMade state)
    (under : frame.Under state.scopes.next) :
    ∀ next ∈ (visit source state frame).2,
      next.Under (visit source state frame).1.scopes.next := by
  unfold visit
  split
  · rename_i plain
    exact under_visitPlain (.inl plain) members under.context frame.declaresTag
  · exact under_childFrames under.context frame.tree
  · rename_i manner
    exact under_visitDeclarator manner under
  · rename_i object member
    split
    · exact List.forall_mem_nil _
    · exact under_visitPlain (.inr ⟨object, member⟩) members under.context frame.declaresTag
  · exact under_visitConditional under.context _

end Visits

/-- At every moment of a walk over a tree all scopes that waiting frames speak of have been made. -/
theorem Reaches.under {source : List Char} {tagsAreTypes : Bool} {tree : ParseTree}
    {visited waiting : List Frame} {state : State}
    (reached : Reaches source (State.initial tagsAreTypes) [Frame.root tree] visited state
      waiting) :
    MembersMade state ∧ ∀ frame ∈ waiting, frame.Under state.scopes.next := by
  have noMembers : MembersMade (State.initial tagsAreTypes) := fun _ _ found => by
    simp [State.initial, memberScope?] at found
  have root : (Frame.root tree).Under (State.initial tagsAreTypes).scopes.next :=
    ⟨⟨Nat.zero_lt_one, Nat.zero_lt_one⟩, trivial⟩
  refine reached.invariant
    (fun _ state waiting => MembersMade state ∧ ∀ frame ∈ waiting, frame.Under state.scopes.next)
    ⟨noMembers, under_single root⟩ ?_
  rintro _ state frame rest _ ⟨members, under⟩
  have edits := edits_visit source state frame
  refine ⟨edits.membersMade members, under_append (under_visit members ?_) fun next member => ?_⟩
  · exact under frame List.mem_cons_self
  · exact (under next (List.mem_cons_of_mem _ member)).mono edits.next_le

end CrossReference.Walk
