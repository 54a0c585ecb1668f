import CrossReference.Proofs.SourceUnit.Forest
import CrossReference.Proofs.Walk.Bound
import CrossReference.Proofs.Walk.Frames
import CrossReference.Proofs.Walk.Sharing

/-!
# Declared names belong to declarations

A node that is visited by its form begins a declaration before it declares anything, and before it
leaves declarators.  Range loops are the exception: the declarator of their variable is left without
a declaration of its own.  So each name that is declared belongs to a declaration as long as every
range loop is below a node that begins one.
-/

set_option autoImplicit false

namespace CrossReference.Walk

open ParseTree State

def Frame.isDeclarator (frame : Frame) : Bool :=
  match frame.mode with
  | .declarator _ _ _ => true
  | .plain | .body | .member _ | .branch _ => false

/-! ## Nodes that are passed over -/

structure Passes (before : State) (visited : Visited) : Prop where
  uses : AddsUses before visited.1
  plain : ∀ frame ∈ visited.2, frame.isDeclarator = false

theorem Passes.nothing {before after : State} (uses : AddsUses before after) :
    Passes before (after, []) where
  uses := uses
  plain _ member := absurd member List.not_mem_nil

section Visits

variable (source : List Char) (state : State) (tree : ParseTree) (context : Context)

theorem isDeclarator_visitUse (space : NameSpace) (effect : Effect) :
    ∀ frame ∈ (visitUse source state tree context space effect).2, frame.isDeclarator = false := by
  intro frame member
  obtain ⟨extra, -, rfl⟩ := List.mem_map.1 member
  rfl

theorem passes_childFrames (inner : Context) : Passes state (state, childFrames tree inner) where
  uses := plain_of_names_eq rfl
  plain := forall_mem_map_namedChildren fun _ _ => rfl

theorem passes_visitUse (space : NameSpace) (effect : Effect) :
    Passes state (visitUse source state tree context space effect) where
  uses := addsUses_of_edits source tree context (edits_visitUse state tree context space effect)
  plain := isDeclarator_visitUse source state tree context space effect

theorem passes_visitElaborated : Passes state (visitElaborated source state tree context) where
  uses := addsUses_of_edits source tree context (edits_visitElaborated state tree context)
  plain := by
    apply forall_mem_visitEach
    intro current child _ frame member
    split at member
    · exact isDeclarator_visitUse source current child context .tag .none frame member
    · rw [List.mem_singleton.1 member]
      rfl

theorem passes_visitConditional (taken : Bool) :
    Passes state (visitConditional source state tree context taken) where
  uses := plain_of_names_eq rfl
  plain := by
    apply forall_mem_map_namedChildren
    intro child _
    split
    · rfl
    · split <;> rfl

theorem passes_visitBlock (noLoop : tree.kind ≠ "for_range_loop") :
    Passes state (visitBlock state tree context) where
  uses := by
    unfold visitBlock
    simp only
    split <;> exact plain_of_names_eq rfl
  plain := by
    unfold visitBlock
    simp only
    rw [if_pos noLoop]
    exact forall_mem_map_namedChildren fun _ _ => rfl

theorem passes_visitLambda : Passes state (visitLambda state tree context) where
  uses := plain_of_names_eq rfl
  plain := by
    apply forall_mem_map_namedChildren
    intro child _
    split
    · rfl
    · split <;> rfl

theorem passes_visitMemberAccess : Passes state (visitMemberAccess state tree context) where
  uses := plain_of_names_eq rfl
  plain := by
    apply forall_mem_map_namedChildren
    intro child _
    split <;> rfl

theorem passes_visitDirective : Passes state (visitDirective source state tree context, []) :=
  .nothing (plain_of_names_eq (visitDirective_quiet source state tree context).2)

theorem visitPlain_begins_or_passes (declaresTag : Bool)
    (noLoop : tree.kind ≠ "for_range_loop") :
    Begins tree context state (visitPlain source state tree declaresTag context) ∨
      Passes state (visitPlain source state tree declaresTag context) := by
  unfold visitPlain
  split
  · exact .inr (.nothing (plain_of_names_eq rfl))
  · exact .inl (begins_visitFunction source state tree context)
  · exact .inl (begins_visitDeclaration state tree context _)
  · by_cases uses : isElaborated tree declaresTag = true
    · rw [visitClass_of_isElaborated source state tree context _ uses]
      exact .inr (passes_visitElaborated source state tree context)
    · exact .inl (begins_visitClass source state tree context _ uses)
  · by_cases uses : isElaborated tree declaresTag = true
    · rw [visitEnum_of_isElaborated source state tree context uses]
      exact .inr (passes_visitElaborated source state tree context)
    · exact .inl (begins_visitEnum source state tree context uses)
  · exact .inl (begins_visitEnumerator source state tree context)
  · exact .inl (begins_visitNamespace source state tree context)
  · exact .inl (begins_visitTemplate state tree context)
  · exact .inl (begins_visitTypeParameter source state tree context)
  · exact .inl (begins_visitAlias source state tree context)
  · exact .inl (begins_visitUsing source state tree context)
  · exact .inl (begins_visitMacroDefinition source state tree context)
  · exact .inr (passes_visitDirective source state tree context)
  · exact .inr (passes_visitConditional source state tree context false)
  · exact .inr (passes_visitBlock state tree context noLoop)
  · exact .inr (passes_visitLambda state tree context)
  · exact .inr (passes_visitMemberAccess state tree context)
  · exact .inr (passes_visitUse source state tree context _ _)
  · exact .inr (passes_childFrames state tree context)

theorem visit_begins_or_passes (frame : Frame) (noDeclarator : frame.isDeclarator = false)
    (noLoop : frame.tree.kind ≠ "for_range_loop") :
    Begins frame.tree frame.context state (visit source state frame) ∨
      Passes state (visit source state frame) := by
  unfold Frame.isDeclarator at noDeclarator
  unfold visit
  split <;> rename_i manner <;> simp only [manner] at noDeclarator
  · exact visitPlain_begins_or_passes source state frame.tree frame.context frame.declaresTag noLoop
  · exact .inr (passes_childFrames state frame.tree frame.context)
  · cases noDeclarator
  · split
    · exact .inr (.nothing (addName_notesNames source state frame.tree frame.context).plain)
    · exact visitPlain_begins_or_passes source state frame.tree frame.context frame.declaresTag
        noLoop
  · exact .inr (passes_visitConditional source state frame.tree frame.context _)

end Visits

/-! ## Frames without an owner -/

variable (source : List Char) (language : Language) (tree : ParseTree)

inductive Exposed : Frame → Prop where
  | root : Exposed (Frame.root tree)
  | step {visited waiting : List Frame} {state : State} {frame next : Frame}
      (moment : Reaches source (State.initial (language = .cpp)) [Frame.root tree] visited state
        (frame :: waiting))
      (outer : Exposed frame)
      (none : (visit source state frame).1.declarations.size = state.declarations.size)
      (left : next ∈ (visit source state frame).2) : Exposed next

/-- Each range loop is below a node that begins a declaration. -/
def RangeLoopsInside : Prop :=
  ∀ frame, Exposed source language tree frame → frame.tree.kind ≠ "for_range_loop"

/-- Of the frames that wait, only those without a declaration around them have no owner, and none of
these is a declarator. -/
structure Covered (state : State) (frames : List Frame) : Prop where
  exposed : ∀ frame ∈ frames, frame.context.owner = none →
    Exposed source language tree frame ∧ frame.isDeclarator = false
  known : ∀ frame ∈ frames, ∀ declaration, frame.context.owner = some declaration →
    declaration < state.declarations.size

variable {source language tree}

theorem Begins.size {state : State} {frame : Frame}
    (begins : Begins frame.tree frame.context state (visit source state frame)) :
    (visit source state frame).1.declarations.size = state.declarations.size + 1 := by
  rw [begins.fills.size, openDeclaration_size]

namespace Covered

variable {state : State} {frame : Frame} {visited waiting : List Frame}

theorem start (tagsAreTypes : Bool) :
    Covered source language tree (State.initial tagsAreTypes) [Frame.root tree] where
  exposed frame member _ := by
    rw [List.mem_singleton.1 member]
    exact ⟨.root, rfl⟩
  known frame member declaration isOwner := by
    rw [List.mem_singleton.1 member] at isOwner
    cases isOwner

theorem visit (inside : RangeLoopsInside source language tree)
    (covered : Covered source language tree state (frame :: waiting))
    (moment : Reaches source (State.initial (language = .cpp)) [Frame.root tree] visited state
      (frame :: waiting)) :
    Covered source language tree (visit source state frame).1
      ((visit source state frame).2 ++ waiting) := by
  obtain stays | begins := visit_stays_or_begins source state frame
  · have size := stays.fills.size
    constructor
    case exposed =>
      intro next member noOwner
      rcases List.mem_append.1 member with left | waits
      · rw [stays.owners next left] at noOwner
        obtain ⟨exposed, noDeclarator⟩ := covered.exposed frame List.mem_cons_self noOwner
        refine ⟨.step moment exposed size left, ?_⟩
        obtain begins | passes :=
          visit_begins_or_passes source state frame noDeclarator (inside frame exposed)
        · have grown := begins.size
          omega
        · exact passes.plain next left
      · exact covered.exposed next (List.mem_cons_of_mem _ waits) noOwner
    case known =>
      intro next member declaration isOwner
      rw [size]
      rcases List.mem_append.1 member with left | waits
      · rw [stays.owners next left] at isOwner
        exact covered.known frame List.mem_cons_self declaration isOwner
      · exact covered.known next (List.mem_cons_of_mem _ waits) declaration isOwner
  · constructor
    case exposed =>
      intro next member noOwner
      rcases List.mem_append.1 member with left | waits
      · rw [begins.owners next left] at noOwner
        cases noOwner
      · exact covered.exposed next (List.mem_cons_of_mem _ waits) noOwner
    case known =>
      intro next member declaration isOwner
      rw [begins.size]
      rcases List.mem_append.1 member with left | waits
      · rw [begins.owners next left] at isOwner
        obtain rfl : state.declarations.size = declaration := Option.some.inj isOwner
        exact Nat.lt_succ_self _
      · have bound := covered.known next (List.mem_cons_of_mem _ waits) declaration isOwner
        omega

end Covered

theorem Reaches.covered {visited waiting : List Frame} {state : State}
    (inside : RangeLoopsInside source language tree)
    (reached : Reaches source (State.initial (language = .cpp)) [Frame.root tree] visited state
      waiting) : Covered source language tree state waiting :=
  reached.invariant (fun _ state waiting => Covered source language tree state waiting) (.start _)
    fun _ _ _ _ moment covered => covered.visit inside moment

/-! ## Owners of names -/

theorem Fills.mem_namesIn {before after : State} {declaration name : Nat}
    (fills : Fills (some declaration) before after)
    (known : declaration < before.declarations.size) (new : before.names.size ≤ name)
    (bound : name < after.names.size) : name ∈ after.namesIn declaration := by
  rw [fills.listed declaration known, if_pos rfl]
  apply List.mem_append_right
  rw [List.mem_range'_1]
  omega

theorem mem_namesIn_run {state : State} {declaration name : Nat}
    (listed : name ∈ state.namesIn declaration) (frames : List Frame) :
    name ∈ (run source state frames).namesIn declaration := by
  have known (state : State) (listed : name ∈ state.namesIn declaration) :
      declaration < state.declarations.size := by
    apply Nat.lt_of_not_le
    intro unknown
    simp [namesIn, Array.getElem?_eq_none unknown] at listed
  fun_induction run source state frames with
  | case1 state => exact listed
  | case2 state frame rest visited ih =>
    apply ih
    obtain stays | begins := visit_stays_or_begins source state frame
    · rw [stays.fills.listed declaration (known state listed)]
      exact List.mem_append_left _ listed
    · rw [← openDeclaration_namesIn state frame.tree.kind frame.context] at listed
      rw [begins.fills.listed declaration (known _ listed)]
      exact List.mem_append_left _ listed

theorem Begins.mem_namesIn {state : State} {frame : Frame} {name : Nat}
    (begins : Begins frame.tree frame.context state (visit source state frame))
    (new : state.names.size ≤ name) (bound : name < (visit source state frame).1.names.size) :
    name ∈ (visit source state frame).1.namesIn state.declarations.size := by
  apply Fills.mem_namesIn begins.fills
  · rw [openDeclaration_size]
    exact Nat.lt_succ_self _
  · rw [openDeclaration_names]
    exact new
  · exact bound

/-- A visit puts each name that it declares into a declaration. -/
theorem Covered.exists_owner {state : State} {frame : Frame} {waiting : List Frame}
    (inside : RangeLoopsInside source language tree)
    (covered : Covered source language tree state (frame :: waiting)) {name : Nat}
    {found : NameNode} (new : state.names.size ≤ name)
    (there : (Walk.visit source state frame).1.names[name]? = some found)
    (declares : found.declares = true) :
    ∃ declaration, name ∈ (Walk.visit source state frame).1.namesIn declaration := by
  obtain ⟨bound, -⟩ := Array.getElem?_eq_some_iff.1 there
  obtain stays | begins := visit_stays_or_begins source state frame
  · cases owner : frame.context.owner with
    | some declaration =>
      rw [owner] at stays
      have known := covered.known frame List.mem_cons_self declaration owner
      exact ⟨declaration, stays.fills.mem_namesIn known new bound⟩
    | none =>
      obtain ⟨exposed, noDeclarator⟩ := covered.exposed frame List.mem_cons_self owner
      obtain begins | passes :=
        visit_begins_or_passes source state frame noDeclarator (inside frame exposed)
      · exact ⟨state.declarations.size, begins.mem_namesIn new bound⟩
      · rw [passes.uses name found new there] at declares
        cases declares
  · exact ⟨state.declarations.size, begins.mem_namesIn new bound⟩

theorem DeclaresAt.exists_owner {name : Nat} {text : String} {kind : SymbolKind} {state : State}
    {frame : Frame} (declared : DeclaresAt source language tree name text kind state frame)
    (inside : RangeLoopsInside source language tree) :
    ∃ declaration, name ∈ (SourceUnit.walked source language tree).namesIn declaration := by
  obtain ⟨visited, waiting, moment⟩ := declared.moment
  obtain ⟨found, there, declares, -⟩ := declared.added
  obtain ⟨declaration, listed⟩ :=
    (moment.covered inside).exists_owner inside declared.new there declares
  rw [SourceUnit.walked, ← moment.visit.run_eq]
  exact ⟨declaration, mem_namesIn_run listed _⟩

end CrossReference.Walk
