import CrossReference.Proofs.ParseTree.Within
import CrossReference.Walk.Run

/-!
# Frames that come out of visits

A frame that a visit leaves stands for a node within the one visited.  Only conditions decide
whether what they hold is compiled in: all frames that another node leaves are compiled in just as
the node is, and those of a condition only if the condition is.
-/

set_option autoImplicit false

namespace CrossReference.Walk

open ParseTree

/-- A frame that a node in a context leaves: it lies within the node, it is compiled in if that is,
and it is no alternative of a condition. -/
structure Inherits (tree : ParseTree) (context : Context) (frame : Frame) : Prop where
  within : Within frame.tree tree
  active : frame.context.active = context.active
  noBranch : ∀ taken, frame.mode ≠ .branch taken

namespace Inherits

variable {tree parent part : ParseTree} {context inner : Context} {mode : Mode}

theorem child (lies : Within part tree) (active : inner.active = context.active)
    (noBranch : ∀ taken, mode ≠ .branch taken) :
    Inherits tree context (Frame.child parent inner mode part) :=
  ⟨lies, active, noBranch⟩

theorem plainChild (lies : Within part tree) (active : inner.active = context.active) :
    Inherits tree context (Frame.child parent inner .plain part) :=
  .child lies active fun _ => nofun

theorem apart (lies : Within part tree) (active : inner.active = context.active) :
    Inherits tree context (Frame.apart inner part) :=
  ⟨lies, active, fun _ => nofun⟩

theorem widen {frame : Frame} (inherits : Inherits part inner frame) (lies : Within part tree)
    (active : inner.active = context.active) : Inherits tree context frame :=
  ⟨inherits.within.trans lies, inherits.active.trans active, inherits.noBranch⟩

end Inherits

theorem declaratorMode_ne_branch (kind : SymbolKind) (typeRef : Option TypeRef)
    (parameters : Option Nat) (tree : ParseTree) (taken : Bool) :
    declaratorMode kind typeRef parameters tree ≠ .branch taken := by
  unfold declaratorMode
  split <;> exact nofun

theorem forall_mem_visitEach {step : State → ParseTree → Visited} {holds : Frame → Prop}
    {trees : List ParseTree}
    (each : ∀ state, ∀ tree ∈ trees, ∀ frame ∈ (step state tree).2, holds frame) (state : State) :
    ∀ frame ∈ (visitEach step trees state).2, holds frame := by
  induction trees generalizing state with
  | nil => simp [visitEach]
  | cons tree rest ih =>
    intro frame member
    rcases List.mem_append.1 member with first | later
    · exact each state tree (by simp) frame first
    · exact ih (fun state other found => each state other (by simp [found])) _ frame later

theorem mem_visitEach {step : State → ParseTree → Visited} {trees : List ParseTree}
    {child : ParseTree} {frame : Frame} (isChild : child ∈ trees)
    (left : ∀ state, frame ∈ (step state child).2) (state : State) :
    frame ∈ (visitEach step trees state).2 := by
  induction trees generalizing state with
  | nil => cases isChild
  | cons first rest ih =>
    rcases List.mem_cons.1 isChild with rfl | isLater
    · exact List.mem_append_left _ (left state)
    · exact List.mem_append_right _ (ih isLater _)

theorem forall_mem_map_namedChildren {holds : Frame → Prop} {tree : ParseTree}
    {frameOf : ParseTree → Frame} (each : ∀ child, Within child tree → holds (frameOf child)) :
    ∀ frame ∈ tree.namedChildren.map frameOf, holds frame := by
  intro frame member
  obtain ⟨child, isChild, rfl⟩ := List.mem_map.1 member
  exact each child (Within.of_mem_namedChildren isChild)

variable (source : List Char)

theorem inherits_visitUse (state : State) (tree : ParseTree) (context : Context)
    (space : NameSpace) (effect : Effect) :
    ∀ frame ∈ (visitUse source state tree context space effect).2, Inherits tree context frame := by
  intro frame member
  obtain ⟨extra, isExtra, rfl⟩ := List.mem_map.1 member
  exact .apart ((QualifiedName.ofTree_liesWithin tree).extras extra isExtra) rfl

theorem inherits_visitQualified (state : State) (tree : ParseTree) (context : Context)
    (kind : SymbolKind) (typeRef : Option TypeRef) :
    ∀ frame ∈ (visitQualified source state tree context kind typeRef).2,
      Inherits tree context frame := by
  intro frame member
  obtain ⟨extra, isExtra, rfl⟩ := List.mem_map.1 member
  exact .apart ((QualifiedName.ofTree_liesWithin tree).extras extra isExtra) rfl

theorem inherits_childFrames (tree : ParseTree) (context inner : Context)
    (active : inner.active = context.active) :
    ∀ frame ∈ childFrames tree inner, Inherits tree context frame :=
  forall_mem_map_namedChildren fun _ lies => .plainChild lies active

theorem inherits_visitFunction (state : State) (tree : ParseTree) (context : Context) :
    ∀ frame ∈ (visitFunction source state tree context).2, Inherits tree context frame := by
  refine forall_mem_map_namedChildren fun child lies => ?_
  split
  · exact .child lies rfl fun _ => nofun
  · split
    · exact .child lies rfl fun _ => nofun
    · split <;> exact .plainChild lies rfl

theorem inherits_visitDeclaration (state : State) (tree : ParseTree) (context : Context)
    (kind : SymbolKind) :
    ∀ frame ∈ (visitDeclaration state tree context kind).2, Inherits tree context frame :=
  forall_mem_map_namedChildren fun _ lies =>
    .child lies rfl (declaratorMode_ne_branch _ _ _ _)

theorem inherits_visitElaborated (state : State) (tree : ParseTree) (context : Context) :
    ∀ frame ∈ (visitElaborated source state tree context).2, Inherits tree context frame := by
  refine forall_mem_visitEach (fun state child isChild frame member => ?_) state
  have lies := Within.of_mem_namedChildren isChild
  split at member
  · exact (inherits_visitUse source state child context .tag .none frame member).widen lies rfl
  · rw [List.mem_singleton.1 member]
    exact .plainChild lies rfl

theorem inherits_visitTag (state : State) (tree : ParseTree) (inner : Context)
    (declareIn : Nat) (kind : SymbolKind) (allowTemplate : Bool) :
    ∀ frame ∈ (visitTag source state tree inner declareIn kind allowTemplate).2,
      Inherits tree inner frame := by
  intro frame member
  unfold visitTag at member
  split at member
  · exact absurd member (by simp)
  · rename_i name found
    have lies := Within.of_child? found
    split at member
    · exact (inherits_visitQualified source state name inner kind none frame member).widen lies rfl
    · split at member
      · have arguments : ∀ frame ∈ (name.child? "arguments").toList.map (Frame.apart inner),
            Inherits tree inner frame := by
          intro frame member
          obtain ⟨argument, isArgument, rfl⟩ := List.mem_map.1 member
          exact .apart ((Within.of_mem_child? isArgument).trans lies) rfl
        split at member <;> exact arguments frame member
      · exact absurd member (by simp)

theorem inherits_visitClassPart (tree : ParseTree) (inner : Context) (scope : Nat)
    (state : State) (child : ParseTree) (lies : Within child tree) :
    ∀ frame ∈ (visitClassPart source tree inner scope state child).2,
      Inherits tree inner frame := by
  intro frame member
  unfold visitClassPart at member
  split at member
  · exact absurd member (by simp)
  · split at member
    · rw [List.mem_singleton.1 member]
      exact .plainChild lies rfl
    · split at member
      · refine forall_mem_visitEach (fun state base isBase frame member => ?_) state frame member
        have liesBase := (Within.of_mem_namedChildren isBase).trans lies
        split at member
        · exact (inherits_visitUse source state base inner .qualifier _ frame member).widen
            liesBase rfl
        · rw [List.mem_singleton.1 member]
          exact .plainChild liesBase rfl
      · rw [List.mem_singleton.1 member]
        exact .plainChild lies rfl

theorem inherits_visitClass (state : State) (tree : ParseTree) (context : Context)
    (kind : SymbolKind) (declaresTag : Bool) :
    ∀ frame ∈ (visitClass source state tree context kind declaresTag).2,
      Inherits tree context frame := by
  intro frame member
  unfold visitClass at member
  simp only at member
  split at member
  · exact inherits_visitElaborated source state tree context frame member
  · have tag := inherits_visitTag source (state.openDeclaration tree.kind context).1 tree
      (state.openDeclaration tree.kind context).2 context.declareIn kind true
    split at member
    · exact (tag frame member).widen (.root tree) rfl
    · rcases List.mem_append.1 member with ofTag | ofPart
      · exact (tag frame ofTag).widen (.root tree) rfl
      · refine forall_mem_visitEach (fun state child isChild frame member => ?_) _ frame ofPart
        exact (inherits_visitClassPart source tree _ _ state child
          (Within.of_mem_namedChildren isChild) frame member).widen (.root tree) rfl

theorem inherits_filter_map (tree : ParseTree) (context : Context) (test : ParseTree → Bool)
    (contextOf : ParseTree → Context)
    (active : ∀ child, (contextOf child).active = context.active) :
    ∀ frame ∈ (tree.namedChildren.filter test).map fun child =>
      Frame.child tree (contextOf child) .plain child, Inherits tree context frame := by
  intro frame member
  obtain ⟨child, isChild, rfl⟩ := List.mem_map.1 member
  exact .plainChild (Within.of_mem_namedChildren ((List.mem_filter.1 isChild).1)) (active child)

theorem inherits_visitEnum (state : State) (tree : ParseTree) (context : Context)
    (declaresTag : Bool) :
    ∀ frame ∈ (visitEnum source state tree context declaresTag).2,
      Inherits tree context frame := by
  intro frame member
  unfold visitEnum at member
  simp only at member
  split at member
  · exact inherits_visitElaborated source state tree context frame member
  · rcases List.mem_append.1 member with ofTag | ofPart
    · exact (inherits_visitTag source _ tree _ context.declareIn .enumName false frame ofTag).widen
        (.root tree) rfl
    · refine inherits_filter_map tree context _ _ (fun child => ?_) frame ofPart
      split <;> (try split) <;> rfl

theorem inherits_visitEnumerator (state : State) (tree : ParseTree) (context : Context) :
    ∀ frame ∈ (visitEnumerator source state tree context).2, Inherits tree context frame := by
  refine forall_mem_visitEach (fun state child isChild frame member => ?_) _
  split at member
  · rw [List.mem_singleton.1 member]
    exact .plainChild (Within.of_mem_namedChildren isChild) rfl
  · simp only at member
    split at member
    · split at member <;> exact absurd member (by simp)
    · exact absurd member (by simp)

theorem inherits_visitNamespace (state : State) (tree : ParseTree) (context : Context) :
    ∀ frame ∈ (visitNamespace source state tree context).2, Inherits tree context frame := by
  refine inherits_filter_map tree context _ _ fun child => ?_
  split <;> rfl

theorem inherits_visitTemplate (state : State) (tree : ParseTree) (context : Context) :
    ∀ frame ∈ (visitTemplate state tree context).2, Inherits tree context frame := by
  refine forall_mem_map_namedChildren fun child lies => .plainChild lies ?_
  split <;> rfl

theorem inherits_visitTypeParameter (state : State) (tree : ParseTree) (context : Context) :
    ∀ frame ∈ (visitTypeParameter source state tree context).2, Inherits tree context frame := by
  refine forall_mem_visitEach (fun state child isChild frame member => ?_) _
  split at member
  · exact absurd member (by simp)
  · rw [List.mem_singleton.1 member]
    exact .plainChild (Within.of_mem_namedChildren isChild) rfl

theorem inherits_visitAlias (state : State) (tree : ParseTree) (context : Context) :
    ∀ frame ∈ (visitAlias source state tree context).2, Inherits tree context frame := by
  refine forall_mem_visitEach (fun state child isChild frame member => ?_) _
  split at member
  · exact absurd member (by simp)
  · rw [List.mem_singleton.1 member]
    exact .plainChild (Within.of_mem_namedChildren isChild) rfl

theorem inherits_visitUsing (state : State) (tree : ParseTree) (context : Context) :
    ∀ frame ∈ (visitUsing source state tree context).2, Inherits tree context frame := by
  refine forall_mem_visitEach (fun state child isChild frame member => ?_) _
  have lies := Within.of_mem_namedChildren isChild
  split at member
  · exact (inherits_visitUse source state child _ .ordinary _ frame member).widen lies rfl
  · rw [List.mem_singleton.1 member]
    exact .plainChild lies rfl

theorem inherits_visitBlock (state : State) (tree : ParseTree) (context : Context) :
    ∀ frame ∈ (visitBlock state tree context).2, Inherits tree context frame := by
  unfold visitBlock
  simp only
  split
  · exact inherits_childFrames tree context _ rfl
  · exact forall_mem_map_namedChildren fun _ lies =>
      .child lies rfl (declaratorMode_ne_branch _ _ _ _)

theorem inherits_visitLambda (state : State) (tree : ParseTree) (context : Context) :
    ∀ frame ∈ (visitLambda state tree context).2, Inherits tree context frame := by
  refine forall_mem_map_namedChildren fun child lies => ?_
  split
  · exact .plainChild lies rfl
  · split
    · exact .child lies rfl fun _ => nofun
    · exact .plainChild lies rfl

theorem inherits_visitMemberAccess (state : State) (tree : ParseTree) (context : Context) :
    ∀ frame ∈ (visitMemberAccess state tree context).2, Inherits tree context frame := by
  refine forall_mem_map_namedChildren fun child lies => .child lies rfl fun taken => ?_
  split <;> exact nofun

theorem inherits_visitPlain (state : State) (tree : ParseTree) (declaresTag : Bool)
    (context : Context) (noCondition : tree.form ≠ .conditional) :
    ∀ frame ∈ (visitPlain source state tree declaresTag context).2,
      Inherits tree context frame := by
  unfold visitPlain
  split
  · simp
  · exact inherits_visitFunction source state tree context
  · exact inherits_visitDeclaration state tree context _
  · exact inherits_visitClass source state tree context _ declaresTag
  · exact inherits_visitEnum source state tree context declaresTag
  · exact inherits_visitEnumerator source state tree context
  · exact inherits_visitNamespace source state tree context
  · exact inherits_visitTemplate state tree context
  · exact inherits_visitTypeParameter source state tree context
  · exact inherits_visitAlias source state tree context
  · exact inherits_visitUsing source state tree context
  · simp
  · simp
  · rename_i isCondition
    exact absurd isCondition noCondition
  · exact inherits_visitBlock state tree context
  · exact inherits_visitLambda state tree context
  · exact inherits_visitMemberAccess state tree context
  · exact inherits_visitUse source state tree context _ _
  · exact inherits_childFrames tree context context rfl

theorem inherits_visitFunctionDeclarator (state : State) (tree : ParseTree) (context : Context)
    (kind : SymbolKind) (typeRef : Option TypeRef) (parameters : Option Nat) :
    ∀ frame ∈ (visitFunctionDeclarator state tree context kind typeRef parameters).2,
      Inherits tree context frame := by
  refine forall_mem_map_namedChildren fun child lies => ?_
  split
  · exact .child lies rfl fun _ => nofun
  · split <;> exact .plainChild lies rfl

theorem inherits_visitDeclarator (state : State) (frame : Frame) (kind : SymbolKind)
    (typeRef : Option TypeRef) (parameters : Option Nat) :
    ∀ next ∈ (visitDeclarator source state frame kind typeRef parameters).2,
      Inherits frame.tree frame.context next := by
  intro next member
  unfold visitDeclarator at member
  simp only at member
  split at member
  · exact absurd member (by simp)
  · split at member
    · exact inherits_visitQualified source state frame.tree frame.context kind typeRef next member
    · split at member
      · exact inherits_visitFunctionDeclarator state frame.tree frame.context kind typeRef
          parameters next member
      · split at member
        · exact forall_mem_map_namedChildren (fun child lies => .child lies rfl
            (declaratorMode_ne_branch kind typeRef parameters child)) next member
        · split at member
          · obtain ⟨argument, isArgument, rfl⟩ := List.mem_map.1 member
            exact .apart (Within.of_mem_child? isArgument) rfl
          · split at member
            · exact absurd member (by simp)
            · split at member
              · refine forall_mem_map_namedChildren (fun child lies => .child lies rfl
                  fun taken => ?_) next member
                split <;> exact nofun
              · rw [List.mem_singleton.1 member]
                exact ⟨.root frame.tree, rfl, fun _ => nofun⟩

def Frame.isCondition (frame : Frame) : Bool :=
  match frame.mode with
  | .plain | .member _ => frame.tree.form = .conditional
  | .branch _ => true
  | .body | .declarator _ _ _ => false

/-- All frames that come out of a visit are compiled in just as the frame visited, unless that is a
condition. -/
theorem inherits_visit (state : State) (frame : Frame) (noCondition : frame.isCondition = false) :
    ∀ next ∈ (visit source state frame).2, Inherits frame.tree frame.context next := by
  unfold Frame.isCondition at noCondition
  unfold visit
  split
  · rename_i plain
    exact inherits_visitPlain source state frame.tree frame.declaresTag frame.context
      (by simpa [plain] using noCondition)
  · exact inherits_childFrames frame.tree frame.context frame.context rfl
  · exact inherits_visitDeclarator source state frame _ _ _
  · rename_i object member
    split
    · simp
    · exact inherits_visitPlain source state frame.tree frame.declaresTag frame.context
        (by simpa [member] using noCondition)
  · rename_i taken branch
    simp [branch] at noCondition

theorem active_of_mem_visitConditional {state : State} {tree : ParseTree} {context : Context}
    {taken : Bool} {frame : Frame}
    (member : frame ∈ (visitConditional source state tree context taken).2) :
    Within frame.tree tree ∧ (frame.context.active = true → context.active = true) := by
  obtain ⟨child, isChild, rfl⟩ := List.mem_map.1 member
  have lies := Within.of_mem_namedChildren isChild
  split
  · exact ⟨lies, id⟩
  · split
    · exact ⟨lies, id⟩
    · refine ⟨lies, fun active => ?_⟩
      simp only [Frame.child, Bool.and_eq_true] at active
      exact active.1.1

theorem visit_of_isCondition (state : State) {frame : Frame}
    (isCondition : frame.isCondition = true) :
    ∃ taken,
      visit source state frame = visitConditional source state frame.tree frame.context taken := by
  unfold Frame.isCondition at isCondition
  unfold visit
  split at isCondition
  · rename_i plain
    exact ⟨false, by simp_all [visitPlain]⟩
  · rename_i object manner
    have noName : frame.tree.kind ≠ "field_identifier" := by
      intro isName
      have isForm : frame.tree.form = .name := by
        rw [form, isName]
        decide
      simp [isForm] at isCondition
    exact ⟨false, by simp_all [visitPlain]⟩
  · rename_i taken branch
    exact ⟨taken, by simp [branch]⟩
  · cases isCondition
  · cases isCondition

/-- What comes out of a visit lies within the node visited, and is compiled in only if that is. -/
theorem active_of_mem_visit {state : State} {frame next : Frame}
    (member : next ∈ (visit source state frame).2) :
    Within next.tree frame.tree ∧
      (next.context.active = true → frame.context.active = true) := by
  cases isCondition : frame.isCondition with
  | false =>
    have inherits := inherits_visit source state frame isCondition next member
    exact ⟨inherits.within, fun active => inherits.active ▸ active⟩
  | true =>
    obtain ⟨taken, same⟩ := visit_of_isCondition source state isCondition
    exact active_of_mem_visitConditional source (same ▸ member)

end CrossReference.Walk
