import CrossReference.Proofs.Walk.Declare
import CrossReference.Walk.Run

/-!
# Who owns what a visit finds

A visit begins at most one declaration, before it does anything else.  Whatever it finds after that
belongs to one owner: the declaration that it has begun or, if it begins none, the owner of the frame
visited.  The names that it adds are listed by the owner, in the order in which they are added, and
all frames that it leaves belong to the owner as well.
-/

set_option autoImplicit false

namespace CrossReference.Walk

open ParseTree

namespace State

variable (state : State)

def nestedIn (declaration : Nat) : List Nat :=
  ((state.declarations[declaration]?).map (·.nested)).getD []

def namesIn (declaration : Nat) : List Nat :=
  ((state.declarations[declaration]?).map (·.names)).getD []

def under : Option Nat → List Nat
  | none => state.topLevel
  | some declaration => state.nestedIn declaration

end State

theorem range'_append_range' {first middle last : Nat} (low : first ≤ middle) (high : middle ≤ last) :
    List.range' first (middle - first) ++ List.range' middle (last - middle) =
      List.range' first (last - first) := by
  have start : middle = first + (middle - first) := by omega
  have whole : last - first = (middle - first) + (last - middle) := by omega
  rw [whole, ← List.range'_append_1, ← start]

/-- No declaration is begun, and the names that are added are listed by the owner. -/
structure Fills (owner : Option Nat) (before after : State) : Prop where
  size : after.declarations.size = before.declarations.size
  under : ∀ other, after.under other = before.under other
  names : before.names.size ≤ after.names.size
  listed : ∀ declaration < before.declarations.size,
    after.namesIn declaration = before.namesIn declaration ++
      if owner = some declaration then
        List.range' before.names.size (after.names.size - before.names.size)
      else []

namespace Fills

variable {owner : Option Nat} {before middle after : State}

theorem quiet (topLevel : after.topLevel = before.topLevel)
    (declarations : after.declarations = before.declarations)
    (names : after.names.size = before.names.size) : Fills owner before after where
  size := by rw [declarations]
  under other := by
    cases other with
    | none => exact topLevel
    | some declaration => simp only [State.under, State.nestedIn, declarations]
  names := Nat.le_of_eq names.symm
  listed declaration _ := by simp [State.namesIn, declarations, names]

theorem refl (state : State) : Fills owner state state :=
  .quiet rfl rfl rfl

theorem trans (first : Fills owner before middle) (last : Fills owner middle after) :
    Fills owner before after where
  size := last.size.trans first.size
  under other := (last.under other).trans (first.under other)
  names := Nat.le_trans first.names last.names
  listed declaration known := by
    have known' : declaration < middle.declarations.size := by rw [first.size]; exact known
    rw [last.listed declaration known', first.listed declaration known, List.append_assoc]
    split
    · rw [range'_append_range' first.names last.names]
    · rfl

end Fills

/-! ## Changes of the state -/

section Changes

variable (source : List Char) {owner : Option Nat} (state : State) (tree : ParseTree)
  (context : Context)

theorem fills_addName (declares : Bool) :
    Fills context.owner state (state.addName source tree context declares).1 where
  size := by simp
  under other := by
    cases other with
    | none => rfl
    | some declaration =>
      simp only [State.under, State.nestedIn, State.addName]
      cases context.owner with
      | none => rfl
      | some parent =>
        simp only [Array.getElem?_modify]
        by_cases same : parent = declaration
        · rw [if_pos same]
          cases state.declarations[declaration]? <;> rfl
        · rw [if_neg same]
  names := by simp
  listed declaration known := by
    have there := Array.getElem?_eq_getElem known
    simp only [State.namesIn, State.addName]
    cases context.owner with
    | none => simp
    | some parent =>
      by_cases same : parent = declaration
      · subst same
        simp [Array.getElem?_modify, there]
      · simp [Array.getElem?_modify, same]

theorem fills_setBinding (name : Nat) (binding : Option Nat) :
    Fills owner state (state.setBinding name binding) :=
  .quiet rfl rfl (by simp [State.setBinding])

theorem fills_bindDeclaration (name binding : Nat) (typeRef : Option TypeRef) :
    Fills owner state (state.bindDeclaration name binding typeRef) :=
  .quiet rfl rfl (by simp [State.bindDeclaration, State.setBinding])

theorem fills_symbolIn (existing : Option Nat) (scope : Nat) (kind : SymbolKind) (text : String)
    (position : Nat) : Fills owner state (state.symbolIn existing scope kind text position).1 := by
  cases existing <;> exact .quiet rfl rfl rfl

theorem fills_pushScope (kind : ScopeKind) (parent : Nat) :
    Fills owner state (state.pushScope kind parent).1 :=
  .quiet rfl rfl rfl

theorem fills_noteSpecifier (scope : Nat) : Fills owner state (state.noteSpecifier tree scope) :=
  .quiet rfl rfl rfl

theorem fills_openMembers (owner binding : Option Nat) (kind : ScopeKind) (parent : Nat) :
    Fills owner state (state.openMembers binding kind parent).1 := by
  rw [State.openMembers_eq]
  exact .quiet rfl rfl rfl

theorem fills_settle (scope : Nat) (kind : SymbolKind) (typeRef : Option TypeRef)
    (existing : Option Nat) :
    Fills context.owner state
      (state.settle source tree context scope kind typeRef existing).1 := by
  have named := fills_addName source state tree context true
  unfold State.settle
  simp only
  split
  · exact named
  · apply named.trans
    exact (fills_symbolIn _ existing scope kind (tree.text source) tree.start).trans
      (fills_bindDeclaration _ _ _ typeRef)

theorem fills_declare (scope : Nat) (kind : SymbolKind) (typeRef : Option TypeRef) :
    Fills context.owner state (state.declare source tree context scope kind typeRef).1 := by
  rw [State.declare_eq_settle]
  exact fills_settle source state tree context scope kind typeRef _

theorem fills_bindQualifiers (segments : List ParseTree) (isFirst : Bool)
    (reached : State.Prefixed) :
    Fills context.owner reached.state
      (State.bindQualifiers source context segments isFirst reached).state := by
  induction segments generalizing isFirst reached with
  | nil => exact .refl reached.state
  | cons segment rest ih =>
    have named := fills_addName source reached.state segment context false
    have bound (binding : Option Nat) := named.trans
      (fills_setBinding _ reached.state.names.size binding)
    exact Fills.trans (bound _) (ih false ⟨_, _, _⟩)

theorem fills_declareQualified (kind : SymbolKind) (typeRef : Option TypeRef) :
    Fills context.owner state
      (state.declareQualified source tree context kind typeRef).1 := by
  rw [State.declareQualified_eq_settle]
  split
  · exact .refl state
  · rename_i last _
    have qualifiers : Fills context.owner state (state.prefixed source tree context).state :=
      fills_bindQualifiers source context _ true ⟨state, _, _⟩
    simp only
    split
    · exact qualifiers.trans (fills_addName source _ last context true)
    · rename_i scope _
      exact qualifiers.trans (fills_settle source _ last context scope kind typeRef _)

theorem fills_addUses (segments : List ParseTree) :
    Fills context.owner state (State.addUses source context segments state).1 := by
  induction segments generalizing state with
  | nil => exact .refl state
  | cons segment rest ih =>
    exact (fills_addName source state segment context false).trans (ih _)

theorem fills_noteUse (space : NameSpace) (effect : Effect) :
    Fills context.owner state (state.noteUse source tree context space effect) := by
  have added := fills_addUses source state context (QualifiedName.ofTree tree).segments
  unfold State.noteUse
  simp only
  split
  · exact added
  · exact added.trans (.quiet rfl rfl rfl)

theorem fills_visitNamespaceSegments (segments : List ParseTree) (scope : Nat) :
    Fills context.owner state
      (visitNamespaceSegments source context segments state scope).1 := by
  induction segments generalizing state scope with
  | nil => exact .refl state
  | cons segment rest ih =>
    have declared := fills_declare source state segment context scope .namespaceName none
    have entered (binding : Option Nat) := declared.trans
      (fills_openMembers _ _ binding .namespaceBody scope)
    exact (entered _).trans (ih _ _)

theorem fills_declareEach (trees : List ParseTree) :
    Fills context.owner state (trees.foldl
      (fun state child =>
        (state.declare source child context context.declareIn .variable none).1) state) := by
  induction trees generalizing state with
  | nil => exact .refl state
  | cons child rest ih =>
    exact (fills_declare source state child context context.declareIn .variable none).trans (ih _)

theorem fills_defineMacro (name : String) (start : Nat) :
    Fills owner state (state.defineMacro name start).1 := by
  unfold State.defineMacro
  split <;> exact .quiet rfl rfl rfl

theorem fills_visitDirective :
    Fills owner state (visitDirective source state tree context) := by
  unfold visitDirective
  simp only
  split
  · exact .refl state
  · split
    · exact .refl state
    · split <;> exact .quiet rfl rfl rfl

end Changes

/-! ## Visits -/

/-- All that a visit does from a state on belongs to an owner. -/
structure Stays (owner : Option Nat) (before : State) (visited : Visited) : Prop where
  fills : Fills owner before visited.1
  owners : ∀ frame ∈ visited.2, frame.context.owner = owner

namespace Stays

variable {owner : Option Nat} {before state after : State} {visited : Visited}
  {frames later : List Frame}

theorem nothing (fills : Fills owner before after) : Stays owner before (after, []) :=
  ⟨fills, nofun⟩

theorem after_fills (fills : Fills owner before state) (stays : Stays owner state visited) :
    Stays owner before visited :=
  ⟨fills.trans stays.fills, stays.owners⟩

theorem trans (first : Stays owner before (state, frames))
    (last : Stays owner state (after, later)) : Stays owner before (after, frames ++ later) where
  fills := first.fills.trans last.fills
  owners frame member := by
    rcases List.mem_append.1 member with isFirst | isLast
    · exact first.owners frame isFirst
    · exact last.owners frame isLast

theorem leaves (fills : Fills owner before after) (trees : List ParseTree)
    (frameOf : ParseTree → Frame) (owners : ∀ tree, (frameOf tree).context.owner = owner) :
    Stays owner before (after, trees.map frameOf) where
  fills := fills
  owners frame member := by
    obtain ⟨tree, -, rfl⟩ := List.mem_map.1 member
    exact owners tree

theorem leaves_one (state : State) (frame : Frame) :
    Stays frame.context.owner state (state, [frame]) where
  fills := .refl state
  owners other member := by rw [List.mem_singleton.1 member]

theorem visitEach {step : State → ParseTree → Visited} {trees : List ParseTree}
    (each : ∀ state tree, Stays owner state (step state tree)) (state : State) :
    Stays owner state (Walk.visitEach step trees state) := by
  induction trees generalizing state with
  | nil => exact .nothing (.refl state)
  | cons tree rest ih => exact (each state tree).trans (ih (step state tree).1)

end Stays

/-- A visit begins a declaration with a node in a context, and the rest of it belongs to that. -/
abbrev Begins (tree : ParseTree) (context : Context) (state : State) (visited : Visited) : Prop :=
  Stays (state.openDeclaration tree.kind context).2.owner
    (state.openDeclaration tree.kind context).1 visited

section Visits

variable (source : List Char) (state : State) (tree : ParseTree) (context : Context)

theorem stays_visitUse (space : NameSpace) (effect : Effect) :
    Stays context.owner state (visitUse source state tree context space effect) :=
  .leaves (fills_noteUse source state tree context space effect) _ _ fun _ => rfl

theorem stays_visitQualified (kind : SymbolKind) (typeRef : Option TypeRef) :
    Stays context.owner state
      ((visitQualified source state tree context kind typeRef).1.1,
        (visitQualified source state tree context kind typeRef).2) :=
  .leaves (fills_declareQualified source state tree context kind typeRef) _ _ fun _ => rfl

theorem begins_visitFunction :
    Begins tree context state (visitFunction source state tree context) := by
  refine Stays.leaves (fills_pushScope _ _ _) _ _ fun child => ?_
  split
  · rfl
  · split
    · rfl
    · split <;> rfl

theorem begins_visitDeclaration (kind : SymbolKind) :
    Begins tree context state (visitDeclaration state tree context kind) :=
  .leaves (.refl _) _ _ fun _ => rfl

theorem stays_visitElaborated :
    Stays context.owner state (visitElaborated source state tree context) := by
  apply Stays.visitEach
  intro state child
  split
  · exact stays_visitUse source state child context .tag .none
  · exact .leaves_one state (Frame.child tree context .plain child)

theorem stays_visitTag (declareIn : Nat) (kind : SymbolKind) (allowTemplate : Bool) :
    Stays context.owner state
      ((visitTag source state tree context declareIn kind allowTemplate).1.1,
        (visitTag source state tree context declareIn kind allowTemplate).2) := by
  unfold visitTag
  split
  · exact .nothing (.refl state)
  · rename_i name _
    split
    · exact stays_visitQualified source state name context kind none
    · split
      · simp only
        split
        · rename_i plain _
          exact .leaves (fills_declare source state plain context declareIn kind none) _ _
            fun _ => rfl
        · exact .leaves (.refl state) _ _ fun _ => rfl
      · exact .nothing (fills_declare source state name context declareIn kind none)

theorem stays_visitClassPart (scope : Nat) (child : ParseTree) :
    Stays context.owner state (visitClassPart source tree context scope state child) := by
  unfold visitClassPart
  split
  · exact .nothing (.refl state)
  · split
    · exact .leaves_one state (Frame.child tree (context.within scope) .plain child)
    · split
      · apply Stays.visitEach
        intro state base
        split
        · exact stays_visitUse source state base context .qualifier (.base scope)
        · exact .leaves_one state (Frame.child child context .plain base)
      · exact .leaves_one state (Frame.child tree context .plain child)

def isElaborated (tree : ParseTree) (declaresTag : Bool) : Bool :=
  !(tree.child? "body").isSome && !declaresTag

theorem visitClass_of_isElaborated (kind : SymbolKind) {declaresTag : Bool}
    (uses : isElaborated tree declaresTag = true) :
    visitClass source state tree context kind declaresTag =
      visitElaborated source state tree context :=
  if_pos uses

theorem visitEnum_of_isElaborated {declaresTag : Bool}
    (uses : isElaborated tree declaresTag = true) :
    visitEnum source state tree context declaresTag =
      visitElaborated source state tree context :=
  if_pos uses

theorem begins_visitClass (kind : SymbolKind) {declaresTag : Bool}
    (declares : ¬isElaborated tree declaresTag = true) :
    Begins tree context state (visitClass source state tree context kind declaresTag) := by
  unfold visitClass Begins
  simp only
  split
  · rename_i uses
    exact absurd uses declares
  · generalize state.openDeclaration tree.kind context = start
    obtain ⟨start, inner⟩ := start
    have tag := stays_visitTag source start tree inner context.declareIn kind true
    generalize visitTag source start tree inner context.declareIn kind true = declared at tag ⊢
    obtain ⟨⟨declared, binding⟩, frames⟩ := declared
    simp only at tag ⊢
    split
    · exact tag
    · have entered := fills_openMembers declared inner.owner binding .classBody
        context.scope
      generalize declared.openMembers binding .classBody context.scope = members at entered ⊢
      apply Stays.trans tag
      apply Stays.after_fills (entered.trans (fills_noteSpecifier members.1 tree members.2))
      apply Stays.visitEach
      intro state child
      exact stays_visitClassPart source state tree inner members.2 child

theorem begins_visitEnum {declaresTag : Bool}
    (declares : ¬isElaborated tree declaresTag = true) :
    Begins tree context state (visitEnum source state tree context declaresTag) := by
  unfold visitEnum Begins
  simp only
  split
  · rename_i uses
    exact absurd uses declares
  · generalize state.openDeclaration tree.kind context = start
    obtain ⟨start, inner⟩ := start
    have tag := stays_visitTag source start tree inner context.declareIn .enumName false
    generalize visitTag source start tree inner context.declareIn .enumName false = declared
      at tag ⊢
    obtain ⟨⟨declared, binding⟩, frames⟩ := declared
    simp only at tag ⊢
    apply Stays.trans tag
    split
    · have entered := fills_openMembers declared inner.owner binding .namespaceBody
        context.scope
      refine Stays.leaves (entered.trans (fills_noteSpecifier _ tree _)) _ _ fun child => ?_
      split <;> rfl
    · refine Stays.leaves (.refl declared) _ _ fun child => ?_
      split <;> rfl

theorem visitClass_stays_or_begins (kind : SymbolKind) (declaresTag : Bool) :
    Stays context.owner state (visitClass source state tree context kind declaresTag) ∨
      Begins tree context state (visitClass source state tree context kind declaresTag) := by
  by_cases uses : isElaborated tree declaresTag = true
  · rw [visitClass_of_isElaborated source state tree context kind uses]
    exact .inl (stays_visitElaborated source state tree context)
  · exact .inr (begins_visitClass source state tree context kind uses)

theorem visitEnum_stays_or_begins (declaresTag : Bool) :
    Stays context.owner state (visitEnum source state tree context declaresTag) ∨
      Begins tree context state (visitEnum source state tree context declaresTag) := by
  by_cases uses : isElaborated tree declaresTag = true
  · rw [visitEnum_of_isElaborated source state tree context uses]
    exact .inl (stays_visitElaborated source state tree context)
  · exact .inr (begins_visitEnum source state tree context uses)

theorem begins_visitEnumerator :
    Begins tree context state (visitEnumerator source state tree context) := by
  apply Stays.visitEach
  intro current child
  split
  · exact .leaves_one current (Frame.child tree _ .plain child)
  · have declared := fills_declare source current child
      (state.openDeclaration tree.kind context).2 context.declareIn .enumerator none
    simp only
    split
    · split
      · exact .nothing (declared.trans (.quiet rfl rfl rfl))
      · exact .nothing declared
    · exact .nothing declared

theorem begins_visitNamespace :
    Begins tree context state (visitNamespace source state tree context) := by
  refine Stays.leaves (fills_visitNamespaceSegments source _ _ _ _) _ _ fun child => ?_
  split <;> rfl

theorem begins_visitTemplate :
    Begins tree context state (visitTemplate state tree context) := by
  refine Stays.leaves (fills_pushScope _ _ _) _ _ fun child => ?_
  split <;> rfl

theorem begins_visitTypeParameter :
    Begins tree context state (visitTypeParameter source state tree context) := by
  apply Stays.visitEach
  intro current child
  split
  · exact .nothing (fills_declare source current child _ _ _ none)
  · exact .leaves_one current (Frame.child tree _ .plain child)

theorem begins_visitAlias :
    Begins tree context state (visitAlias source state tree context) := by
  apply Stays.visitEach
  intro current child
  split
  · exact .nothing (fills_declare source current child _ _ _ _)
  · exact .leaves_one current (Frame.child tree _ .plain child)

theorem begins_visitUsing :
    Begins tree context state (visitUsing source state tree context) := by
  apply Stays.visitEach
  intro current child
  split
  · exact stays_visitUse source current child _ .ordinary _
  · exact .leaves_one current (Frame.child tree _ .plain child)

theorem begins_visitMacroDefinition :
    Begins tree context state (visitMacroDefinition source state tree context, []) := by
  unfold visitMacroDefinition Begins
  simp only
  generalize state.openDeclaration tree.kind context = start
  obtain ⟨start, inner⟩ := start
  apply Stays.nothing
  split
  · exact .refl start
  · rename_i name _
    have named := fills_addName source start name inner true
    split
    · exact named
    · have defined := named.trans (fills_defineMacro _ (name.text source) tree.stop)
      have bound (binding : Option Nat) := defined.trans
        (fills_setBinding _ start.names.size binding)
      split
      · exact (bound _).trans (.quiet rfl rfl rfl)
      · exact bound _

theorem stays_visitConditional (taken : Bool) :
    Stays context.owner state (visitConditional source state tree context taken) := by
  refine Stays.leaves (.refl state) _ _ fun child => ?_
  split
  · rfl
  · split <;> rfl

theorem stays_visitBlock : Stays context.owner state (visitBlock state tree context) := by
  unfold visitBlock
  simp only
  split <;> exact .leaves (fills_pushScope state _ _) _ _ fun _ => rfl

theorem stays_visitLambda : Stays context.owner state (visitLambda state tree context) := by
  refine Stays.leaves (fills_pushScope state _ _) _ _ fun child => ?_
  split
  · rfl
  · split <;> rfl

theorem stays_visitFunctionDeclarator (kind : SymbolKind) (typeRef : Option TypeRef)
    (parameters : Option Nat) :
    Stays context.owner state
      (visitFunctionDeclarator state tree context kind typeRef parameters) := by
  refine Stays.leaves ?_ _ _ fun child => ?_
  · cases parameters with
    | none => exact fills_pushScope state _ _
    | some scope => exact .refl state
  · split
    · rfl
    · split <;> rfl

theorem stays_visitDeclarator (frame : Frame) (kind : SymbolKind) (typeRef : Option TypeRef)
    (parameters : Option Nat) :
    Stays frame.context.owner state
      (visitDeclarator source state frame kind typeRef parameters) := by
  unfold visitDeclarator
  simp only
  split
  · exact .nothing (fills_declare source state frame.tree frame.context _ kind typeRef)
  · split
    · exact stays_visitQualified source state frame.tree frame.context kind typeRef
    · split
      · exact stays_visitFunctionDeclarator state frame.tree frame.context kind typeRef parameters
      · split
        · exact .leaves (.refl state) _ _ fun _ => rfl
        · split
          · split
            · rename_i name _
              exact .leaves (fills_declare source state name frame.context _ kind typeRef) _ _
                fun _ => rfl
            · exact .leaves (.refl state) _ _ fun _ => rfl
          · split
            · exact .nothing (fills_declareEach source state frame.context _)
            · split
              · exact .leaves (.refl state) _ _ fun _ => rfl
              · exact .leaves_one state { frame with mode := .plain }

theorem visitPlain_stays_or_begins (declaresTag : Bool) :
    Stays context.owner state (visitPlain source state tree declaresTag context) ∨
      Begins tree context state (visitPlain source state tree declaresTag context) := by
  unfold visitPlain
  split
  · exact .inl (.nothing (.refl state))
  · exact .inr (begins_visitFunction source state tree context)
  · exact .inr (begins_visitDeclaration state tree context _)
  · exact visitClass_stays_or_begins source state tree context _ declaresTag
  · exact visitEnum_stays_or_begins source state tree context declaresTag
  · exact .inr (begins_visitEnumerator source state tree context)
  · exact .inr (begins_visitNamespace source state tree context)
  · exact .inr (begins_visitTemplate state tree context)
  · exact .inr (begins_visitTypeParameter source state tree context)
  · exact .inr (begins_visitAlias source state tree context)
  · exact .inr (begins_visitUsing source state tree context)
  · exact .inr (begins_visitMacroDefinition source state tree context)
  · exact .inl (.nothing (fills_visitDirective source state tree context))
  · exact .inl (stays_visitConditional source state tree context false)
  · exact .inl (stays_visitBlock state tree context)
  · exact .inl (stays_visitLambda state tree context)
  · exact .inl (.leaves (.refl state) _ _ fun _ => rfl)
  · exact .inl (stays_visitUse source state tree context _ _)
  · exact .inl (.leaves (.refl state) _ _ fun _ => rfl)

end Visits

/-- What a visit finds belongs to the owner of the frame or to a declaration that it begins. -/
theorem visit_stays_or_begins (source : List Char) (state : State) (frame : Frame) :
    Stays frame.context.owner state (visit source state frame) ∨
      Begins frame.tree frame.context state (visit source state frame) := by
  unfold visit
  split
  · exact visitPlain_stays_or_begins source state frame.tree frame.context frame.declaresTag
  · exact .inl (.leaves (.refl state) _ _ fun _ => rfl)
  · exact .inl (stays_visitDeclarator source state frame _ _ _)
  · split
    · have named := fills_addName source state frame.tree frame.context false
      exact .inl (.nothing (named.trans (.quiet rfl rfl rfl)))
    · exact visitPlain_stays_or_begins source state frame.tree frame.context frame.declaresTag
  · exact .inl (stays_visitConditional source state frame.tree frame.context _)

end CrossReference.Walk
