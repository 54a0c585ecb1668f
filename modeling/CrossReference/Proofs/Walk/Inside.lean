import CrossReference.Proofs.Walk.ScopeTree

/-!
# What lies inside of a scope

Frames that a visit leaves are followed down the tree.  As long as none of them departs, all that is
below looks names up inside of the scope of the first ones.
-/

set_option autoImplicit false

namespace CrossReference.Walk

open ParseTree State

/-! ## Moments -/

section Moments

variable {source : List Char}

theorem Reaches.keepsTo {tagsAreTypes : Bool} {tree : ParseTree} {visited waiting : List Frame}
    {state : State} {frame : Frame}
    (moment : Reaches source (State.initial tagsAreTypes) [Frame.root tree] visited state
      (frame :: waiting)) :
    KeepsTo source frame.tree frame.context.scope (SentElsewhere source state frame) state
      (Walk.visit source state frame) := by
  obtain ⟨members, under⟩ := moment.under
  exact visit_keepsTo members (under frame List.mem_cons_self)

theorem Reaches.nested {tagsAreTypes : Bool} {tree : ParseTree} {visited waiting : List Frame}
    {state : State}
    (reached : Reaches source (State.initial tagsAreTypes) [Frame.root tree] visited state
      waiting) : state.scopes.Nested := by
  have initial : (Scopes.initial tagsAreTypes).Nested := Scopes.Built.initial.nested
  exact reached.invariant (fun _ state _ => state.scopes.Nested) initial
    fun _ _ _ _ moment => moment.keepsTo.nested

theorem walked_nested (source : List Char) (language : Language) (tree : ParseTree) :
    (SourceUnit.walked source language tree).scopes.Nested := by
  obtain ⟨visited, ended⟩ := exists_reaches_run source
    (State.initial (language = .cpp)) [Frame.root tree]
  exact ended.nested

theorem Reaches.exists_visit {start state : State} {frames visited waiting : List Frame}
    (reached : Reaches source start frames visited state waiting) {frame : Frame}
    (waits : frame ∈ waiting) :
    ∃ before later rest, Reaches source start frames before later (frame :: rest) := by
  fun_induction run source state waiting generalizing visited with
  | case1 state => cases waits
  | case2 state first rest next =>
    rename_i ih
    rcases List.mem_cons.1 waits with rfl | isLater
    · exact ⟨visited, state, rest, reached⟩
    · exact ih reached.visit (List.mem_append_right _ isLater)

theorem Reaches.exists_next {start state : State} {frames visited waiting : List Frame}
    {frame next : Frame}
    (moment : Reaches source start frames visited state (frame :: waiting))
    (left : next ∈ (Walk.visit source state frame).2) :
    ∃ before later rest, Reaches source start frames before later (next :: rest) :=
  moment.visit.exists_visit (List.mem_append_left _ left)

/-- A walk over the first frames that wait is a stretch of the walk over all of them. -/
theorem Reaches.stretch {start state later : State}
    {frames visited first rest done waiting : List Frame}
    (outer : Reaches source start frames visited state (first ++ rest))
    (inner : Reaches source state first done later waiting) :
    Reaches source start frames (visited ++ done) later (waiting ++ rest) := by
  induction inner with
  | start => rwa [List.append_nil]
  | @visit done waiting later frame before ih =>
    have next := Reaches.visit ih
    rw [List.append_assoc] at next
    rw [List.append_assoc]
    exact next

theorem Reaches.exists_past {start state : State} {frames visited first rest : List Frame}
    (outer : Reaches source start frames visited state (first ++ rest)) :
    ∃ done, Reaches source start frames done (run source state first) rest := by
  obtain ⟨done, inner⟩ := exists_reaches_run source state first
  exact ⟨visited ++ done, outer.stretch inner⟩

/-- All that a walk visits lies below one of its first frames. -/
theorem Reaches.exists_within {start state : State} {frames visited waiting : List Frame}
    (reached : Reaches source start frames visited state waiting) :
    ∀ frame ∈ waiting, ∃ first ∈ frames, Within frame.tree first.tree := by
  refine reached.invariant
    (fun _ _ waiting => ∀ frame ∈ waiting, ∃ first ∈ frames, Within frame.tree first.tree)
    (fun frame isFirst => ⟨frame, isFirst, .root _⟩) ?_
  intro visited state frame waiting _ below next member
  rcases List.mem_append.1 member with isNext | waits
  · obtain ⟨first, isFirst, within⟩ := below frame List.mem_cons_self
    exact ⟨first, isFirst, (active_of_mem_visit _ isNext).1.trans within⟩
  · exact below next (List.mem_cons_of_mem _ waits)

/-- Entries that are new after a stretch of a walk begin below its first frames. -/
theorem Reaches.entries_of_stretch {tagsAreTypes : Bool} {tree : ParseTree}
    {visited first rest done waiting : List Frame} {state later : State}
    (outer : Reaches source (State.initial tagsAreTypes) [Frame.root tree] visited state
      (first ++ rest)) (inner : Reaches source state first done later waiting) {home : Nat}
    {text : String} {entry : ScopeEntry} (lists : later.scopes.Lists home text entry) :
    state.scopes.Lists home text entry ∨
      ∃ top ∈ first, NamedAt source top.tree entry.declaredAt := by
  induction inner with
  | start => exact .inl lists
  | @visit done waiting later frame before ih =>
    rcases (outer.stretch before).keepsTo.entries home text entry lists with old | new
    · exact ih old
    · obtain ⟨top, isFirst, within⟩ := before.exists_within frame List.mem_cons_self
      exact .inr ⟨top, isFirst, new.widen within⟩

/-- A node is reached from another one through nodes of which only what is inside counts. -/
inductive Through (outer : ParseTree) : ParseTree → Prop where
  | self : Through outer outer
  | child {between node : ParseTree} (through : Through outer between)
      (form : between.form = .transparent) (isChild : node ∈ between.namedChildren) :
      Through outer node

theorem Through.within {outer node : ParseTree} (through : Through outer node) :
    Within node outer := by
  induction through with
  | self => exact .root outer
  | child _ _ isChild ih => exact (Within.of_mem_namedChildren isChild).trans ih

theorem Reaches.exists_through {start state : State} {frames visited waiting : List Frame}
    {frame : Frame} (moment : Reaches source start frames visited state (frame :: waiting))
    (plain : frame.mode = .plain) {node : ParseTree} (through : Through frame.tree node) :
    ∃ before later next rest, Reaches source start frames before later (next :: rest) ∧
      next.tree = node ∧ next.mode = .plain ∧ next.context = frame.context := by
  induction through with
  | self => exact ⟨visited, state, frame, waiting, moment, rfl, plain, rfl⟩
  | @child between node through form isChild ih =>
    obtain ⟨before, later, next, rest, reached, rfl, manner, same⟩ := ih
    have left : Frame.child next.tree next.context .plain node ∈
        (Walk.visit source later next).2 := by
      simp only [Walk.visit, manner, visitPlain, form]
      exact List.mem_map_of_mem isChild
    obtain ⟨beforeChild, laterChild, restChild, reachedChild⟩ := reached.exists_next left
    exact ⟨beforeChild, laterChild, _, restChild, reachedChild, rfl, rfl, same⟩

end Moments

/-! ## Frames inside of a scope -/

/-- A frame is sent out of a scope that lies around the frame that was visited. -/
structure Departs (source : List Char) (state : State) (home : Nat) (frame next : Frame) :
    Prop where
  sent : SentElsewhere source state frame next
  outside : ¬ (visit source state frame).1.scopes.Encloses home next.context.scope

variable (source : List Char) (language : Language) (tree : ParseTree)

/-- In the walk over a tree a frame is below some that a visit has left inside of a scope, and none
departs from that scope on the way down to it. -/
inductive Inside (home : Nat) (left : List Frame) : Frame → Prop where
  | left {frame : Frame} (isLeft : frame ∈ left) : Inside home left frame
  | visit {visited waiting : List Frame} {state : State} {frame next : Frame}
      (inside : Inside home left frame)
      (moment : Reaches source (State.initial (language = .cpp)) [Frame.root tree] visited state
        (frame :: waiting))
      (isNext : next ∈ (visit source state frame).2)
      (stays : ¬ Departs source state home frame next) : Inside home left next

/-- A use begins to wait with the visit of a frame inside. -/
def UsedInside (home : Nat) (left : List Frame) (use : PendingUse) : Prop :=
  ∃ visited state frame waiting,
    Reaches source (State.initial (language = .cpp)) [Frame.root tree] visited state
      (frame :: waiting) ∧
    Inside source language tree home left frame ∧ use ∉ state.uses ∧
      use ∈ (visit source state frame).1.uses

variable {source language tree} {home : Nat} {left : List Frame}

/-- All that is inside looks names up inside of the scope, if the first frames do. -/
theorem Inside.encloses {frame : Frame} (inside : Inside source language tree home left frame)
    (around : ∀ first ∈ left,
      (SourceUnit.walked source language tree).scopes.Encloses home first.context.scope) :
    (SourceUnit.walked source language tree).scopes.Encloses home frame.context.scope := by
  induction inside with
  | left isLeft => exact around _ isLeft
  | @visit visited waiting state frame next inside moment isNext stays ih =>
    have grown := moment.visit.scopes_extend
    rcases moment.keepsTo.left next isNext with within | sent
    · exact ih.trans (grown.encloses within)
    · by_contra outside
      exact stays ⟨sent, fun within => outside (grown.encloses within)⟩

theorem Inside.exists_within {frame : Frame}
    (inside : Inside source language tree home left frame) :
    ∃ first ∈ left, Within frame.tree first.tree := by
  induction inside with
  | left isLeft => exact ⟨_, isLeft, .root _⟩
  | visit inside moment isNext stays ih =>
    obtain ⟨first, isFirst, within⟩ := ih
    exact ⟨first, isFirst, (active_of_mem_visit _ isNext).1.trans within⟩

namespace UsedInside

variable {use : PendingUse}

theorem encloses (used : UsedInside source language tree home left use)
    (around : ∀ first ∈ left,
      (SourceUnit.walked source language tree).scopes.Encloses home first.context.scope) :
    (SourceUnit.walked source language tree).scopes.Encloses home use.scope := by
  obtain ⟨visited, state, frame, waiting, moment, inside, new, noted⟩ := used
  rw [((moment.keepsTo.uses use noted).resolve_left new).1]
  exact inside.encloses around

theorem exists_node (used : UsedInside source language tree home left use) :
    ∃ first ∈ left, ∃ node, Within node first.tree ∧ use.position = node.start := by
  obtain ⟨visited, state, frame, waiting, moment, inside, new, noted⟩ := used
  obtain ⟨-, node, within, begins⟩ := (moment.keepsTo.uses use noted).resolve_left new
  obtain ⟨first, isFirst, below⟩ := inside.exists_within
  exact ⟨first, isFirst, node, within.trans below, begins⟩

theorem waits (used : UsedInside source language tree home left use) :
    use ∈ (SourceUnit.walked source language tree).uses := by
  obtain ⟨visited, state, frame, waiting, moment, -, -, noted⟩ := used
  obtain ⟨_, awaits⟩ := exists_awaits_run source (visit source state frame).1
    ((visit source state frame).2 ++ waiting)
  rw [moment.visit.run_eq] at awaits
  exact awaits.uses_kept noted

end UsedInside

end CrossReference.Walk
