import CrossReference.Proofs.Scope.Outwards
import CrossReference.Proofs.Walk.Declarators
import CrossReference.Proofs.Walk.Inside
import CrossReference.Proofs.Walk.Placements

/-!
# The class around a frame

Frames are followed down a tree as long as no function, class, enum or namespace is entered.  All
scopes that are made on the way lie right in the one before, and none is that of a class, so that
the class around a frame stays the same.
-/

set_option autoImplicit false

namespace CrossReference

namespace Scopes

theorem Extends.enclosingClass_eq {before after : Scopes} (grown : before.Extends after)
    (nested : before.Nested) (nestedAfter : after.Nested) {scope : Nat} (made : scope < before.next) :
    after.enclosingClass scope = before.enclosingClass scope := by
  induction scope using Nat.strongRecOn with
  | ind scope ih =>
    obtain ⟨found, there⟩ := exists_of_lt_next made
    obtain ⟨later, thereLater, kept⟩ := grown.scopes scope found there
    by_cases isClass : found.kind = .classBody
    · rw [enclosingClass_of_class there isClass,
        enclosingClass_of_class thereLater (kept.kind.trans isClass)]
    · rw [enclosingClass_of_other nested there isClass,
        enclosingClass_of_other nestedAfter thereLater (kept.kind ▸ isClass), kept.parent]
      cases around : found.parent with
      | none => rfl
      | some parent =>
        have earlier : parent < scope := nested scope found parent there around
        exact ih parent earlier (Nat.lt_trans earlier made)

/-- A scope lies in itself if it is that of a class, and otherwise in what the scope around it lies
in. -/
theorem enclosingClass_eq {scopes : Scopes} (nested : scopes.Nested) {scope : Nat}
    {here : Scope} (isHere : scopes.all[scope]? = some here) :
    scopes.enclosingClass scope =
      if here.kind = .classBody then some scope else here.parent.bind scopes.enclosingClass := by
  by_cases isClass : here.kind = .classBody
  · rw [if_pos isClass, enclosingClass_of_class isHere isClass]
  · rw [if_neg isClass, enclosingClass_of_other nested isHere isClass]

theorem enclosingClass_of_parent {scopes : Scopes} (nested : scopes.Nested) {scope parent : Nat}
    {found : Scope} (there : scopes.all[scope]? = some found) (isOther : found.kind ≠ .classBody)
    (around : found.parent = some parent) :
    scopes.enclosingClass scope = scopes.enclosingClass parent := by
  rw [enclosingClass_of_other nested there isOther, around, Option.bind_some]

end Scopes

namespace Walk

open ParseTree State

/-! ## Where frames look names up -/

/-- A frame that is left belongs to a function, or is the body of a class, an enum or a namespace.
-/
inductive GoesInto (frame next : Frame) : Prop where
  | function (form : frame.tree.form = .function)
  | parameters {kind : SymbolKind} {typeRef : Option TypeRef} {scope : Nat}
      (manner : frame.mode = .declarator kind typeRef (some scope))
  | body (form : (∃ kind, frame.tree.form = .classSpecifier kind) ∨
        frame.tree.form = .enumSpecifier ∨ frame.tree.form = .namespaceDefinition)
      (isBody : next.tree.field = "body")

/-- The kind of the scope that the visit of a block, a lambda, a template or the declarator of a
function makes for what it leaves. -/
def Frame.opens? (frame : Frame) : Option ScopeKind :=
  match frame.mode with
  | .plain | .member _ =>
      match frame.tree.form with
      | .template => some .templateHead
      | .block => some .block
      | .lambda => some .function
      | _ => none
  | .declarator _ _ none => if frame.tree.kind ∈ functionDeclaratorKinds then some .function else none
  | .declarator _ _ (some _) | .body | .branch _ => none

theorem Frame.opens?_ne_class {frame : Frame} {kind : ScopeKind} (opens : frame.opens? = some kind) :
    kind ≠ .classBody := by
  rintro rfl
  unfold Frame.opens? at opens
  repeat' split at opens
  all_goals cases opens

section Left

variable (source : List Char) (state : State) (tree : ParseTree) (context : Context)

theorem scope_of_map {trees : List ParseTree} {frameOf : ParseTree → Frame} {scope : Nat}
    (same : ∀ child, (frameOf child).context.scope = scope) :
    ∀ next ∈ trees.map frameOf, next.context.scope = scope := by
  intro next member
  obtain ⟨child, -, rfl⟩ := List.mem_map.1 member
  exact same child

theorem scope_of_single {frame : Frame} {scope : Nat} (same : frame.context.scope = scope) :
    ∀ next ∈ [frame], next.context.scope = scope := by
  intro next member
  rw [List.mem_singleton.1 member, same]

theorem scope_of_visitUse (space : NameSpace) (effect : Effect) :
    ∀ next ∈ (visitUse source state tree context space effect).2,
      next.context.scope = context.scope :=
  scope_of_map fun _ => rfl

theorem scope_of_visitElaborated :
    ∀ next ∈ (visitElaborated source state tree context).2, next.context.scope = context.scope := by
  refine forall_mem_visitEach (fun state child _ => ?_) state
  split
  · exact scope_of_visitUse source state child context .tag .none
  · exact scope_of_single rfl

theorem scope_of_visitTag (declareIn : Nat) (kind : SymbolKind) (allowTemplate : Bool) :
    ∀ next ∈ (visitTag source state tree context declareIn kind allowTemplate).2,
      next.context.scope = context.scope := by
  unfold visitTag
  split
  · exact List.forall_mem_nil _
  · split
    · exact scope_of_map fun _ => rfl
    · split
      · simp only
        split <;> exact scope_of_map fun _ => rfl
      · exact List.forall_mem_nil _

theorem scope_of_visitClassPart (scope : Nat) (child : ParseTree) :
    ∀ next ∈ (visitClassPart source tree context scope state child).2,
      next.context.scope = context.scope ∨ next.tree.field = "body" := by
  unfold visitClassPart
  split
  · exact List.forall_mem_nil _
  · split
    · rename_i isBody
      exact fun next member => .inr (List.mem_singleton.1 member ▸ isBody)
    · split
      · refine forall_mem_visitEach (fun state base _ => ?_) state
        split
        · exact fun next member =>
            .inl (scope_of_visitUse source state base context .qualifier _ next member)
        · exact fun next member => .inl (scope_of_single rfl next member)
      · exact fun next member => .inl (scope_of_single rfl next member)

theorem scope_of_visitClass (kind : SymbolKind) (declaresTag : Bool) :
    ∀ next ∈ (visitClass source state tree context kind declaresTag).2,
      next.context.scope = context.scope ∨ next.tree.field = "body" := by
  have inner : (state.openDeclaration tree.kind context).2.scope = context.scope := rfl
  have tag := scope_of_visitTag source (state.openDeclaration tree.kind context).1 tree
    (state.openDeclaration tree.kind context).2 context.declareIn kind true
  unfold visitClass
  simp only
  split
  · exact fun next member => .inl (scope_of_visitElaborated source state tree context next member)
  · split
    · exact fun next member => .inl ((tag next member).trans inner)
    · intro next member
      rcases List.mem_append.1 member with isFirst | isLater
      · exact .inl ((tag next isFirst).trans inner)
      · rw [← inner]
        exact forall_mem_visitEach (fun state child _ =>
          scope_of_visitClassPart source state tree (State.openDeclaration _ tree.kind context).2 _
            child) _ next isLater

theorem scope_of_parts {inner body : Context} {scope : Nat} (same : inner.scope = scope)
    (children : List ParseTree) :
    ∀ next ∈ children.map fun child =>
        Frame.child tree (if child.field = "body" then body else inner) .plain child,
      next.context.scope = scope ∨ next.tree.field = "body" := by
  intro next member
  obtain ⟨child, -, rfl⟩ := List.mem_map.1 member
  by_cases isBody : child.field = "body"
  · exact .inr isBody
  · left
    simp only [Frame.child, isBody, if_false, same]

theorem scope_of_visitEnum (declaresTag : Bool) :
    ∀ next ∈ (visitEnum source state tree context declaresTag).2,
      next.context.scope = context.scope ∨ next.tree.field = "body" := by
  have inner : (state.openDeclaration tree.kind context).2.scope = context.scope := rfl
  have tag := scope_of_visitTag source (state.openDeclaration tree.kind context).1 tree
    (state.openDeclaration tree.kind context).2 context.declareIn .enumName false
  unfold visitEnum
  simp only
  split
  · exact fun next member => .inl (scope_of_visitElaborated source state tree context next member)
  · intro next member
    rcases List.mem_append.1 member with isFirst | isLater
    · exact .inl ((tag next isFirst).trans inner)
    · exact scope_of_parts tree inner _ next isLater

theorem scope_of_visitEnumerator :
    ∀ next ∈ (visitEnumerator source state tree context).2,
      next.context.scope = context.scope := by
  refine forall_mem_visitEach (fun state child _ => ?_) _
  split
  · exact scope_of_single rfl
  · simp only
    split
    · split <;> exact List.forall_mem_nil _
    · exact List.forall_mem_nil _

theorem scope_of_visitTypeParameter :
    ∀ next ∈ (visitTypeParameter source state tree context).2,
      next.context.scope = context.scope := by
  refine forall_mem_visitEach (fun state child _ => ?_) _
  split
  · exact List.forall_mem_nil _
  · exact scope_of_single rfl

theorem scope_of_visitAlias :
    ∀ next ∈ (visitAlias source state tree context).2, next.context.scope = context.scope := by
  refine forall_mem_visitEach (fun state child _ => ?_) _
  split
  · exact List.forall_mem_nil _
  · exact scope_of_single rfl

theorem scope_of_visitUsing :
    ∀ next ∈ (visitUsing source state tree context).2, next.context.scope = context.scope := by
  refine forall_mem_visitEach (fun state child _ => ?_) _
  split
  · exact scope_of_visitUse source state child _ .ordinary _
  · exact scope_of_single rfl

theorem scope_of_visitConditional (taken : Bool) :
    ∀ next ∈ (visitConditional source state tree context taken).2,
      next.context.scope = context.scope := by
  refine scope_of_map fun child => ?_
  split
  · rfl
  · split <;> rfl

theorem scope_of_visitTemplate :
    ∀ next ∈ (visitTemplate state tree context).2, next.context.scope = state.scopes.next := by
  have opened := congrArg Scopes.next (openDeclaration_scopes state tree.kind context)
  refine scope_of_map fun child => ?_
  split <;> exact opened

theorem scope_of_visitBlock :
    ∀ next ∈ (visitBlock state tree context).2, next.context.scope = state.scopes.next := by
  unfold visitBlock
  simp only
  split <;> exact scope_of_map fun _ => rfl

theorem scope_of_visitLambda :
    ∀ next ∈ (visitLambda state tree context).2,
      next.context.scope = context.scope ∨ next.context.scope = state.scopes.next := by
  intro next member
  obtain ⟨child, -, rfl⟩ := List.mem_map.1 member
  split
  · exact .inr rfl
  · split
    · exact .inr rfl
    · exact .inl rfl

theorem scope_of_visitFunctionDeclarator (kind : SymbolKind) (typeRef : Option TypeRef) :
    ∀ next ∈ (visitFunctionDeclarator state tree context kind typeRef none).2,
      next.context.scope = context.scope ∨ next.context.scope = state.scopes.next := by
  intro next member
  obtain ⟨child, -, rfl⟩ := List.mem_map.1 member
  split
  · exact .inl rfl
  · split <;> exact .inr rfl

end Left

section Visits

variable {source : List Char} {state : State} {frame next : Frame}

/-- A frame that is left looks names up where the one visited does, or in the scope that is made for
it, or else something is entered. -/
def LooksUp (state : State) (frame next : Frame) : Prop :=
  next.context.scope = frame.context.scope ∨
    (∃ kind, frame.opens? = some kind) ∧ next.context.scope = state.scopes.next ∨
    GoesInto frame next

theorem opens?_of_form (manner : frame.mode = .plain ∨ ∃ object, frame.mode = .member object) :
    frame.opens? = match frame.tree.form with
      | .template => some .templateHead
      | .block => some .block
      | .lambda => some .function
      | _ => none := by
  unfold Frame.opens?
  rcases manner with plain | ⟨object, member⟩
  · rw [plain]
  · rw [member]

theorem looksUp_of_form (manner : frame.mode = .plain ∨ ∃ object, frame.mode = .member object)
    (left : next ∈ (visitPlain source state frame.tree frame.declaresTag frame.context).2) :
    LooksUp state frame next := by
  have opens := opens?_of_form manner
  have same (sees : next.context.scope = frame.context.scope) : LooksUp state frame next := .inl sees
  have body (sees : next.context.scope = frame.context.scope ∨ next.tree.field = "body")
      (form : (∃ kind, frame.tree.form = .classSpecifier kind) ∨
        frame.tree.form = .enumSpecifier ∨ frame.tree.form = .namespaceDefinition) :
      LooksUp state frame next := sees.imp_right fun isBody => .inr (.body form isBody)
  have fresh {kind : ScopeKind} (opens : frame.opens? = some kind)
      (sees : next.context.scope = state.scopes.next) : LooksUp state frame next :=
    .inr (.inl ⟨⟨kind, opens⟩, sees⟩)
  have opened : (state.openDeclaration frame.tree.kind frame.context).1.scopes.next =
      state.scopes.next := congrArg Scopes.next (openDeclaration_scopes state _ _)
  unfold visitPlain at left
  split at left <;> rename_i form <;> simp only [form] at opens
  · cases left
  · exact .inr (.inr (.function form))
  · exact same (scope_of_map (fun _ => by rfl) next left)
  · exact body (scope_of_visitClass source state frame.tree frame.context _ _ next left)
      (.inl ⟨_, form⟩)
  · exact body (scope_of_visitEnum source state frame.tree frame.context _ next left)
      (.inr (.inl form))
  · exact same (scope_of_visitEnumerator source state frame.tree frame.context next left)
  · exact body (scope_of_parts frame.tree (by rfl) _ next left) (.inr (.inr form))
  · exact fresh opens (scope_of_visitTemplate state frame.tree frame.context next left)
  · exact same (scope_of_visitTypeParameter source state frame.tree frame.context next left)
  · exact same (scope_of_visitAlias source state frame.tree frame.context next left)
  · exact same (scope_of_visitUsing source state frame.tree frame.context next left)
  · cases left
  · cases left
  · exact same (scope_of_visitConditional source state frame.tree frame.context false next left)
  · exact fresh opens (scope_of_visitBlock state frame.tree frame.context next left)
  · exact (scope_of_visitLambda state frame.tree frame.context next left).elim same (fresh opens)
  · exact same (scope_of_map (fun _ => by rfl) next left)
  · exact same (scope_of_visitUse source state frame.tree frame.context _ _ next left)
  · exact same (scope_of_map (fun _ => by rfl) next left)

theorem scope_of_otherDeclarator {kind : SymbolKind} {typeRef : Option TypeRef}
    {parameters : Option Nat} (noFunction : frame.tree.kind ∉ functionDeclaratorKinds) :
    ∀ next ∈ (visitDeclarator source state frame kind typeRef parameters).2,
      next.context.scope = frame.context.scope := by
  unfold visitDeclarator
  simp only [noFunction, if_false]
  split
  · exact List.forall_mem_nil _
  · split
    · exact scope_of_map fun _ => rfl
    · split
      · exact scope_of_map fun _ => rfl
      · split
        · exact scope_of_map fun _ => rfl
        · split
          · exact List.forall_mem_nil _
          · split
            · exact scope_of_map fun _ => rfl
            · exact scope_of_single rfl

theorem looksUp_of_declarator {kind : SymbolKind} {typeRef : Option TypeRef} {parameters : Option Nat}
    (manner : frame.mode = .declarator kind typeRef parameters)
    (left : next ∈ (visitDeclarator source state frame kind typeRef parameters).2) :
    LooksUp state frame next := by
  by_cases isFunction : frame.tree.kind ∈ functionDeclaratorKinds
  · rw [visitDeclarator_of_function isFunction] at left
    cases parameters with
    | some scope => exact .inr (.inr (.parameters manner))
    | none =>
      have opens : frame.opens? = some .function := by simp [Frame.opens?, manner, isFunction]
      exact (scope_of_visitFunctionDeclarator state frame.tree frame.context kind typeRef next
        left).imp_right fun fresh => .inl ⟨⟨_, opens⟩, fresh⟩
  · exact .inl (scope_of_otherDeclarator isFunction next left)

theorem looksUp_of_mem_visit (left : next ∈ (visit source state frame).2) :
    LooksUp state frame next := by
  unfold visit at left
  split at left <;> rename_i manner
  · exact looksUp_of_form (.inl manner) left
  · exact .inl (scope_of_map (fun _ => by rfl) next left)
  · exact looksUp_of_declarator manner left
  · split at left
    · cases left
    · exact looksUp_of_form (.inr ⟨_, manner⟩) left
  · exact .inl (scope_of_visitConditional source state frame.tree frame.context _ next left)

theorem scopes_of_opens {kind : ScopeKind} (opens : frame.opens? = some kind) :
    (visit source state frame).1.scopes = state.scopes.push kind (some frame.context.scope) := by
  have byForm (manner : frame.mode = .plain ∨ ∃ object, frame.mode = .member object) :
      (visit source state frame).1.scopes =
        state.scopes.push kind (some frame.context.scope) := by
    rw [opens?_of_form manner] at opens
    split at opens <;> rename_i form <;> cases opens
    · rw [visit_of_form frame manner (by simp [form])]
      simp only [visitPlain, form, visitTemplate, pushScope, openDeclaration_scopes]
    · rw [visit_of_form frame manner (by simp [form])]
      simp only [visitPlain, form, visitBlock, pushScope]
      split <;> rfl
    · rw [visit_of_form frame manner (by simp [form])]
      simp only [visitPlain, form, visitLambda, pushScope]
  cases manner : frame.mode with
  | plain => exact byForm (.inl manner)
  | member object => exact byForm (.inr ⟨object, manner⟩)
  | body | branch => simp [Frame.opens?, manner] at opens
  | declarator declared typeRef parameters =>
    cases parameters with
    | some scope => simp [Frame.opens?, manner] at opens
    | none =>
      simp only [Frame.opens?, manner] at opens
      split at opens <;> cases opens
      rename_i isFunction
      simp only [visit, manner, visitDeclarator_of_function isFunction, visitFunctionDeclarator,
        pushScope]

end Visits

/-! ## Frames in one class -/

/-- In the walk over a tree a frame is below some others, and on the way down to it nothing is
entered. -/
inductive SharesClass (source : List Char) (language : Language) (tree : ParseTree)
    (first : List Frame) : Frame → Prop where
  | first {frame : Frame} (isFirst : frame ∈ first) : SharesClass source language tree first frame
  | visit {visited waiting : List Frame} {state : State} {frame next : Frame}
      (shares : SharesClass source language tree first frame)
      (moment : Reaches source (State.initial (language = .cpp)) [Frame.root tree] visited state
        (frame :: waiting))
      (isNext : next ∈ (Walk.visit source state frame).2) (stays : ¬ GoesInto frame next) :
      SharesClass source language tree first next

section Walks

variable {source : List Char} {language : Language} {tree : ParseTree}

/-- A visit that enters nothing keeps to the class around its frame. -/
theorem Reaches.enclosingClass_of_next {visited waiting : List Frame} {state : State}
    {frame next : Frame}
    (moment : Reaches source (State.initial (language = .cpp)) [Frame.root tree] visited state
      (frame :: waiting))
    (isNext : next ∈ (Walk.visit source state frame).2) (stays : ¬ GoesInto frame next) :
    (SourceUnit.walked source language tree).scopes.enclosingClass next.context.scope =
      (SourceUnit.walked source language tree).scopes.enclosingClass frame.context.scope := by
  rcases looksUp_of_mem_visit isNext with same | ⟨⟨kind, opens⟩, fresh⟩ | entered
  · rw [same]
  · have pushed : (Walk.visit source state frame).1.scopes.all[state.scopes.next]? =
        some (Scope.fresh kind (some frame.context.scope)) := by
      rw [scopes_of_opens opens]
      exact Array.getElem?_push_size
    obtain ⟨here, isHere, kept⟩ := moment.visit.scopes_extend.scopes _ _ pushed
    rw [fresh]
    exact Scopes.enclosingClass_of_parent (walked_nested source language tree) isHere
      (kept.kind ▸ Frame.opens?_ne_class opens) kept.parent
  · exact absurd entered stays

/-- All frames below one that enter nothing are in the class that it is in. -/
theorem SharesClass.enclosingClass_eq {top frame : Frame}
    (shares : SharesClass source language tree [top] frame) :
    (SourceUnit.walked source language tree).scopes.enclosingClass frame.context.scope =
      (SourceUnit.walked source language tree).scopes.enclosingClass top.context.scope := by
  induction shares with
  | first isFirst => rw [List.mem_singleton.1 isFirst]
  | visit shares moment isNext stays ih => exact (moment.enclosingClass_of_next isNext stays).trans ih

/-- A child of a node of which only what is inside counts, or of the body of a function, is in the
class around the node. -/
theorem SharesClass.exists_child {visited waiting first : List Frame} {state : State} {frame : Frame}
    {child : ParseTree} (shares : SharesClass source language tree first frame)
    (moment : Reaches source (State.initial (language = .cpp)) [Frame.root tree] visited state
      (frame :: waiting))
    (form : frame.tree.form = .transparent ∧ frame.mode = .plain ∨
      frame.tree.form = .block ∧ frame.mode = .body) (isChild : child ∈ frame.tree.namedChildren) :
    ∃ before after later next, Reaches source (State.initial (language = .cpp)) [Frame.root tree]
        before later (next :: after) ∧ next.tree = child ∧ next.mode = .plain ∧
      SharesClass source language tree first next := by
  have left : Frame.child frame.tree frame.context .plain child ∈
      (Walk.visit source state frame).2 := by
    rcases form with ⟨form, plain⟩ | ⟨-, body⟩
    · simp only [Walk.visit, plain, visitPlain, form]
      exact List.mem_map_of_mem isChild
    · simp only [Walk.visit, body]
      exact List.mem_map_of_mem isChild
  have stays : ¬ GoesInto frame (Frame.child frame.tree frame.context .plain child) := by
    rintro (isFunction | manner | ⟨⟨kind, isClass⟩ | isEnum | isNamespace, -⟩)
    all_goals simp_all
  obtain ⟨before, later, rest, reached⟩ := moment.exists_next left
  exact ⟨before, rest, later, _, reached, rfl, rfl, shares.visit moment left stays⟩

end Walks

end Walk

end CrossReference
