import CrossReference.Proofs.Walk.Placements

/-!
# The namespaces around the frames of a walk

A walk is followed with, for each frame that waits, the names of the namespaces around it.  Nodes
that have no scope of their own hand these names on, and the body of a namespace has the segments of
its name in addition.
-/

set_option autoImplicit false

namespace CrossReference

open ParseTree

def ParseTree.ownSegments (tree : ParseTree) : List ParseTree :=
  match tree.child? "name" with
  | some name => name.namespaceSegments
  | none => []

namespace Walk

open State

/-! ## The namespaces around a frame -/

/-- Whether the frames that come out of a visit look names up and declare them where the frame
itself does. -/
def Frame.passesOn (frame : Frame) : Bool :=
  match frame.mode with
  | .plain => decide (frame.tree.form = .transparent) || decide (frame.tree.form = .conditional)
  | .branch _ => true
  | .body | .declarator _ _ _ | .member _ => false

def Frame.opensNamespace (frame : Frame) : Bool :=
  decide (frame.mode = .plain) && decide (frame.tree.form = .namespaceDefinition)

/-- A frame that waits, with the names of the namespaces around it if nothing else is around it
that has a scope. -/
structure Site where
  frame : Frame
  path? : Option (List String)

/-- A frame that comes out of the visit of a site.  The body of a namespace has its name around it
as well. -/
def Site.next (source : List Char) (site : Site) (next : Frame) : Site :=
  ⟨next,
    if site.frame.passesOn then site.path?
    else if site.frame.opensNamespace && decide (next.tree.field = "body") then
      site.path?.map (· ++ site.frame.tree.ownSegments.map (·.text source))
    else none⟩

/-- The moments of a walk, with what is around the frames that wait. -/
inductive Located (source : List Char) (start : State) (sites : List Site) :
    State → List Site → Prop where
  | start : Located source start sites start sites
  | visit {state : State} {site : Site} {waiting : List Site}
      (before : Located source start sites state (site :: waiting)) :
      Located source start sites (visit source state site.frame).1
        ((visit source state site.frame).2.map (site.next source) ++ waiting)

section Located

variable {source : List Char} {start state : State} {sites waiting : List Site}

theorem Located.reaches (located : Located source start sites state waiting) :
    ∃ visited, Reaches source start (sites.map Site.frame) visited state
      (waiting.map Site.frame) := by
  induction located with
  | start => exact ⟨[], .start⟩
  | visit before ih =>
    obtain ⟨visited, reached⟩ := ih
    have later := reached.visit
    rename_i site _
    exact ⟨visited ++ [site.frame], by simpa [Function.comp_def, Site.next] using later⟩

/-- Every moment of the walk is located. -/
theorem Reaches.located (sites : List Site) {visited frames : List Frame}
    (reached : Reaches source start (sites.map Site.frame) visited state frames) :
    ∃ waiting, Located source start sites state waiting ∧ waiting.map Site.frame = frames := by
  generalize isStart : sites.map Site.frame = first at reached
  induction reached with
  | start => exact ⟨sites, .start, isStart⟩
  | visit before ih =>
    obtain ⟨waiting, located, same⟩ := ih
    cases waiting with
    | nil => cases same
    | cons site rest =>
      cases same
      exact ⟨_, located.visit, by simp [Function.comp_def, Site.next]⟩

end Located

/-! ## Visits and what is around frames -/

section Visits

variable {source : List Char} {state : State} {frame : Frame}

theorem visit_of_passesOn (passes : frame.passesOn = true) :
    (visit source state frame).1 = state ∧ ∀ next ∈ (visit source state frame).2,
      next.context.scope = frame.context.scope ∧
        next.context.declareIn = frame.context.declareIn := by
  have conditional (taken : Bool) :
      ∀ next ∈ (visitConditional source state frame.tree frame.context taken).2,
        next.context.scope = frame.context.scope ∧
          next.context.declareIn = frame.context.declareIn := by
    intro next member
    obtain ⟨child, -, rfl⟩ := List.mem_map.1 member
    split
    · exact ⟨rfl, rfl⟩
    · split <;> exact ⟨rfl, rfl⟩
  unfold Frame.passesOn at passes
  unfold visit
  split <;> rename_i manner <;> simp only [manner] at passes
  · rcases Bool.or_eq_true_iff.1 passes with isForm | isForm <;>
      simp only [visitPlain, of_decide_eq_true isForm]
    · refine ⟨trivial, fun next member => ?_⟩
      obtain ⟨child, -, rfl⟩ := List.mem_map.1 member
      exact ⟨rfl, rfl⟩
    · exact ⟨rfl, conditional false⟩
  · cases passes
  · cases passes
  · cases passes
  · exact ⟨rfl, conditional _⟩

theorem visit_of_opensNamespace (opens : frame.opensNamespace = true) :
    visit source state frame = visitNamespace source state frame.tree frame.context := by
  obtain ⟨plain, form⟩ := Bool.and_eq_true_iff.1 opens
  simp only [visit, of_decide_eq_true plain, visitPlain, of_decide_eq_true form]

theorem visit_state_of_opensNamespace (source : List Char) (state : State)
    (opens : frame.opensNamespace = true) :
    (visit source state frame).1 =
      (visitNamespaceSegments source (state.openDeclaration frame.tree.kind frame.context).2
        frame.tree.ownSegments (state.openDeclaration frame.tree.kind frame.context).1
        frame.context.declareIn).1 := by
  rw [visit_of_opensNamespace opens]
  rfl

theorem declaredKind?_of_opensNamespace (opens : frame.opensNamespace = true) :
    frame.declaredKind? = some .namespaceName := by
  obtain ⟨plain, form⟩ := Bool.and_eq_true_iff.1 opens
  simp only [Frame.declaredKind?, of_decide_eq_true plain, of_decide_eq_true form]
  rfl

theorem placements_of_opensNamespace (opens : frame.opensNamespace = true) :
    frame.placements source state =
      segmentPlacements source (state.openDeclaration frame.tree.kind frame.context).2
        frame.tree.ownSegments (state.openDeclaration frame.tree.kind frame.context).1
        frame.context.declareIn := by
  obtain ⟨plain, form⟩ := Bool.and_eq_true_iff.1 opens
  simp only [Frame.placements, of_decide_eq_true plain, Frame.formPlacements,
    of_decide_eq_true form]
  rfl

theorem context_of_body (opens : frame.opensNamespace = true) {next : Frame}
    (member : next ∈ (visit source state frame).2) (isBody : next.tree.field = "body") :
    next.context =
      (state.openDeclaration frame.tree.kind frame.context).2.within
        (visitNamespaceSegments source (state.openDeclaration frame.tree.kind frame.context).2
          frame.tree.ownSegments (state.openDeclaration frame.tree.kind frame.context).1
          frame.context.declareIn).2 := by
  rw [visit_of_opensNamespace opens] at member
  obtain ⟨child, -, rfl⟩ := List.mem_map.1 member
  simp only [Frame.child] at isBody ⊢
  rw [if_pos isBody]
  rfl

theorem Located.visit_list {start : State} {sites waiting : List Site} {tree : ParseTree}
    {declaresTag : Bool} {context : Context} {path? : Option (List String)}
    (before : Located source start sites state
      (⟨⟨tree, declaresTag, context, .plain⟩, path?⟩ :: waiting))
    (form : tree.form = .transparent) :
    Located source start sites state
      (tree.namedChildren.map (fun child => ⟨Frame.child tree context .plain child, path?⟩) ++
        waiting) := by
  have passes : Frame.passesOn ⟨tree, declaresTag, context, .plain⟩ = true := by
    simp [Frame.passesOn, form]
  have later := before.visit
  simpa [Walk.visit, visitPlain, form, childFrames, Site.next, passes, Function.comp_def] using
    later

theorem Located.visit_definition {start : State} {sites waiting : List Site}
    {tree name body : ParseTree} {declaresTag : Bool} {context : Context}
    {outer path : List String}
    (before : Located source start sites state
      (⟨⟨tree, declaresTag, context, .plain⟩, some outer⟩ :: waiting))
    (form : tree.form = .namespaceDefinition) (parts : tree.namedChildren = [name, body])
    (isName : name.field = "name") (isBody : body.field = "body")
    (isPath : outer ++ tree.ownSegments.map (·.text source) = path) :
    Located source start sites
      (Walk.visit source state ⟨tree, declaresTag, context, .plain⟩).1
      (⟨Frame.child tree ((state.openDeclaration tree.kind context).2.within
        (visitNamespaceSegments source (state.openDeclaration tree.kind context).2
          tree.ownSegments (state.openDeclaration tree.kind context).1 context.declareIn).2)
        .plain body, some path⟩ :: waiting) := by
  have opens : Frame.opensNamespace ⟨tree, declaresTag, context, .plain⟩ = true := by
    simp [Frame.opensNamespace, form]
  have left : (Walk.visit source state ⟨tree, declaresTag, context, .plain⟩).2 =
      [Frame.child tree ((state.openDeclaration tree.kind context).2.within
        (visitNamespaceSegments source (state.openDeclaration tree.kind context).2
          tree.ownSegments (state.openDeclaration tree.kind context).1 context.declareIn).2)
        .plain body] := by
    rw [visit_of_opensNamespace opens]
    have bodyOnly : tree.namedChildren.filter (·.field ≠ "name") = [body] := by
      simp [parts, isName, isBody]
    simp only [visitNamespace, bodyOnly, List.map_cons, List.map_nil, if_pos isBody]
    rfl
  have later := before.visit
  rw [left] at later
  simpa [Site.next, Frame.passesOn, form, opens, Frame.child, isBody, isPath] using later

end Visits

end Walk

end CrossReference
