import CrossReference.Proofs.ParseTree.Names
import CrossReference.Proofs.ParseTree.Places
import CrossReference.Proofs.Walk.Nodes

/-!
# The order in which parts are named

A visit names some parts of a node at once and leaves others, which are visited before all that
waits. So of two nodes that a walk names, the one below the earlier part is named first, where the
parts are those that some visit makes.  Most visits go through the children of a node in order.
Those of qualified names and of the heads of definitions name a part while they leave another one,
which may stand before it.
-/

set_option autoImplicit false

namespace CrossReference

open ParseTree

def ParseTree.namesAhead (tree : ParseTree) : Bool :=
  match tree.form with
  | .name => isQualified tree.kind
  | .classSpecifier _ | .enumSpecifier | .enumerator | .namespaceDefinition | .typeParameter
  | .alias | .usingDeclaration => true
  | _ => false

namespace Walk

/-! ## The parts that a visit makes -/

/-- The parts that come out of a visit: those it has named, and those it leaves behind them. -/
def partsOf (named : List ParseTree) (visited : Visited) : List ParseTree :=
  named ++ visited.2.map Frame.tree

def Frame.namesAhead (frame : Frame) : Bool :=
  match frame.mode with
  | .plain | .member _ => frame.tree.namesAhead
  | .declarator _ _ _ =>
      isQualified frame.tree.kind || decide (frame.tree.kind = "template_function")
  | .body | .branch _ => false

def InOrder (tree : ParseTree) (parts : List ParseTree) : Prop :=
  parts.Sublist tree.children ∨ parts = [tree]

def GoesInOrder (source : List Char) (tree : ParseTree) (before : State) (visited : Visited) :
    Prop :=
  ∃ named, AddsNames source named before visited.1 ∧ InOrder tree (partsOf named visited)

section InOrder

variable {source : List Char} {tree : ParseTree} {parts named : List ParseTree}
  {before after : State} {visited : Visited}

theorem InOrder.splitsInto (inOrder : InOrder tree parts) : SplitsInto [tree] parts := by
  rcases inOrder with children | rfl
  · exact .of_children (.of_sublist children)
  · exact .refl [tree]

theorem InOrder.stop_le_start (inOrder : InOrder tree parts) (wellFormed : WellFormed source tree)
    {first second : ParseTree} (order : [first, second].Sublist parts) :
    first.stop ≤ second.start := by
  rcases inOrder with children | rfl
  · have ordered := (wellFormed.ordered tree (.root tree)).sublist (order.trans children)
    exact List.rel_of_pairwise_cons ordered (List.mem_singleton_self second)
  · have short := order.length_le
    simp at short

theorem LeavesChildren.goesInOrder (leaves : LeavesChildren source tree before visited) :
    GoesInOrder source tree before visited := by
  refine ⟨[], leaves.quiet, .inl ?_⟩
  rw [partsOf, List.nil_append, leaves.left]
  exact List.filter_sublist

theorem goesInOrder_of_names (adds : AddsNames source named before after)
    (children : named.Sublist tree.children) : GoesInOrder source tree before (after, []) :=
  ⟨named, adds, .inl (by simpa [partsOf] using children)⟩

theorem goesInOrder_of_quiet (quiet : AddsNames source [] before after) :
    GoesInOrder source tree before (after, []) :=
  goesInOrder_of_names quiet (List.nil_sublist _)

theorem goesInOrder_of_itself (adds : AddsNames source [tree] before after) :
    GoesInOrder source tree before (after, []) :=
  ⟨[tree], adds, .inr rfl⟩

end InOrder

section Visits

variable (source : List Char) (state : State)

theorem goesInOrder_visitUse {tree : ParseTree} (plain : isPlainName tree.kind = true)
    (context : Context) (space : NameSpace) (effect : Effect) :
    GoesInOrder source tree state (visitUse source state tree context space effect) := by
  have named := addsNames_noteUse source state tree context space effect
  rw [QualifiedName.ofTree_of_isPlainName plain] at named
  rw [visitUse, QualifiedName.ofTree_of_isPlainName plain]
  exact goesInOrder_of_itself named

theorem goesInOrder_visitPlain {tree : ParseTree} (calm : tree.namesAhead = false)
    (context : Context) (declaresTag : Bool) :
    GoesInOrder source tree state (visitPlain source state tree declaresTag context) := by
  unfold ParseTree.namesAhead at calm
  unfold visitPlain
  cases form : tree.form <;> simp only [form, Bool.true_eq_false] at calm ⊢
  case silent => exact goesInOrder_of_quiet (.refl state)
  case function => exact (leavesChildren_visitFunction source state tree context).goesInOrder
  case declaration kind =>
    exact (leavesChildren_visitDeclaration source state tree context kind).goesInOrder
  case template => exact (leavesChildren_visitTemplate source state tree context).goesInOrder
  case macroDefinition =>
    exact goesInOrder_of_names (addsNames_visitMacroDefinition source state tree context)
      ((find?_toList_sublist _ _).trans List.filter_sublist)
  case directive => exact goesInOrder_of_quiet (addsNames_visitDirective source state tree context)
  case conditional =>
    exact (leavesChildren_visitConditional source state tree context false).goesInOrder
  case block => exact (leavesChildren_visitBlock source state tree context).goesInOrder
  case lambda => exact (leavesChildren_visitLambda source state tree context).goesInOrder
  case memberAccess =>
    exact (leavesChildren_visitMemberAccess source state tree context).goesInOrder
  case name =>
    have plain : isPlainName tree.kind = true := by simpa [calm] using isName_of_form form
    exact goesInOrder_visitUse source state plain context .ordinary .none
  case transparent => exact (leavesChildren_childFrames source state tree context).goesInOrder

theorem goesInOrder_visitDeclarator {frame : Frame}
    (unqualified : isQualified frame.tree.kind = false)
    (noTemplate : frame.tree.kind ≠ "template_function") (kind : SymbolKind)
    (typeRef : Option TypeRef) (parameters : Option Nat) :
    GoesInOrder source frame.tree state
      (visitDeclarator source state frame kind typeRef parameters) := by
  simp only [visitDeclarator, unqualified, Bool.false_eq_true, if_false, if_neg noTemplate]
  split
  · exact goesInOrder_of_itself
      (addsNames_declare source state frame.tree frame.context _ kind typeRef)
  · split
    · exact (leavesChildren_visitFunctionDeclarator source state frame.tree frame.context kind
        typeRef parameters).goesInOrder
    · split
      · exact (leavesChildren_map (.refl state) _ fun _ => rfl).goesInOrder
      · split
        · exact goesInOrder_of_names (addsNames_declareEach source state frame.context _)
            (List.filter_sublist.trans List.filter_sublist)
        · split
          · exact (leavesChildren_map (.refl state) _ fun _ => rfl).goesInOrder
          · exact ⟨[], .refl state, .inr rfl⟩

theorem goesInOrder_visit {frame : Frame} (calm : frame.namesAhead = false) :
    GoesInOrder source frame.tree state (visit source state frame) := by
  unfold Frame.namesAhead at calm
  unfold visit
  cases mode : frame.mode with
  | plain =>
    simp only [mode] at calm
    exact goesInOrder_visitPlain source state calm frame.context frame.declaresTag
  | body => exact (leavesChildren_childFrames source state frame.tree frame.context).goesInOrder
  | declarator kind typeRef parameters =>
    simp only [mode, Bool.or_eq_false_iff, decide_eq_false_iff_not] at calm
    exact goesInOrder_visitDeclarator source state calm.1 calm.2 kind typeRef parameters
  | member object =>
    simp only [mode] at calm
    simp only
    split
    · exact goesInOrder_of_itself
        ((addsNames_addName source state frame.tree frame.context false).quiet_after
          (.of_same rfl rfl))
    · exact goesInOrder_visitPlain source state calm frame.context frame.declaresTag
  | branch taken =>
    exact (leavesChildren_visitConditional source state frame.tree frame.context taken).goesInOrder

theorem visit_of_qualified {frame : Frame} (ahead : frame.namesAhead = true)
    (qualified : isQualified frame.tree.kind = true) :
    AddsNames source (QualifiedName.ofTree frame.tree).segments state (visit source state frame).1 ∧
      (visit source state frame).2.map Frame.tree = (QualifiedName.ofTree frame.tree).extras := by
  have form := form_of_isQualified qualified
  have notPlain : isPlainName frame.tree.kind = false := by
    rw [← Bool.not_eq_true]
    intro plain
    rw [isQualified_of_isPlainName plain] at qualified
    cases qualified
  have notMember : frame.tree.kind ≠ "field_identifier" := by
    intro isMember
    rw [isMember] at notPlain
    cases notPlain
  have left : ((QualifiedName.ofTree frame.tree).extras.map (Frame.apart frame.context)).map
      Frame.tree = (QualifiedName.ofTree frame.tree).extras := by
    rw [List.map_map]
    exact (List.map_congr_left fun _ _ => rfl).trans (List.map_id _)
  unfold Frame.namesAhead at ahead
  unfold visit
  cases mode : frame.mode with
  | plain =>
    simp only [visitPlain, form]
    exact ⟨addsNames_noteUse source state frame.tree frame.context .ordinary .none, left⟩
  | member object =>
    simp only [if_neg notMember, visitPlain, form]
    exact ⟨addsNames_noteUse source state frame.tree frame.context .ordinary .none, left⟩
  | declarator kind typeRef parameters =>
    simp only [visitDeclarator, notPlain, qualified, Bool.false_eq_true, if_false, if_true]
    exact ⟨addsNames_declareQualified source state frame.tree frame.context kind typeRef, left⟩
  | body | branch => simp [mode] at ahead

end Visits

/-! ## Where nodes part -/

/-- The visit of a frame in a walk makes parts of its node. -/
inductive MakesParts (source : List Char) (start : State) (frames : List Frame) (frame : Frame) :
    List ParseTree → Prop where
  | visit {visited waiting : List Frame} {state : State} {named : List ParseTree}
      (reached : Reaches source start frames visited state (frame :: waiting))
      (adds : AddsNames source named state (Walk.visit source state frame).1)
      (splits : SplitsInto [frame.tree] (partsOf named (Walk.visit source state frame))) :
      MakesParts source start frames frame (partsOf named (Walk.visit source state frame))

/-- Two nodes lie below parts that one visit of a walk makes, the first node below the part that is
named, or left, before the other one. -/
inductive PartAt (source : List Char) (start : State) (frames : List Frame)
    (node other : ParseTree) : Prop where
  | parts {frame : Frame} {parts : List ParseTree} {first second : ParseTree}
      (made : MakesParts source start frames frame parts)
      (calm : frame.namesAhead = false → InOrder frame.tree parts)
      (order : [first, second].Sublist parts) (below : Within node first)
      (otherBelow : Within other second) : PartAt source start frames node other

section Parting

variable {source : List Char} {start : State} {frames : List Frame}

theorem MakesParts.splitsInto {frame : Frame} {parts : List ParseTree}
    (made : MakesParts source start frames frame parts) : SplitsInto [frame.tree] parts := by
  cases made with
  | visit reached adds splits => exact splits

theorem PartAt.narrow {node other inner otherInner : ParseTree}
    (parted : PartAt source start frames node other) (below : Within inner node)
    (otherBelow : Within otherInner other) : PartAt source start frames inner otherInner := by
  obtain ⟨made, calm, order, first, second⟩ := parted
  exact ⟨made, calm, order, below.trans first, otherBelow.trans second⟩

/-- Every visit makes parts, in order if it names none while it leaves another one. -/
theorem exists_parts (source : List Char) (state : State) (frame : Frame) :
    ∃ named, AddsNames source named state (visit source state frame).1 ∧
      SplitsInto [frame.tree] (partsOf named (visit source state frame)) ∧
      (frame.namesAhead = false →
        InOrder frame.tree (partsOf named (visit source state frame))) := by
  cases ahead : frame.namesAhead with
  | false =>
    obtain ⟨named, adds, inOrder⟩ := goesInOrder_visit source state ahead
    exact ⟨named, adds, inOrder.splitsInto, fun _ => inOrder⟩
  | true =>
    obtain ⟨named, adds, splits⟩ := divides_visit source state frame
    exact ⟨named, adds, splits, fun calm => Bool.noConfusion calm⟩

theorem pairwise_replace {α : Type} {relation : α → α → Prop} {front parts back : List α}
    {whole : α} (pairwise : (front ++ whole :: back).Pairwise relation) (among : parts.Pairwise relation)
    (before : ∀ other, relation other whole → ∀ part ∈ parts, relation other part)
    (behind : ∀ other, relation whole other → ∀ part ∈ parts, relation part other) :
    (front ++ (parts ++ back)).Pairwise relation := by
  obtain ⟨inFront, inBack, between⟩ := List.pairwise_append.1 pairwise
  obtain ⟨fromWhole, inBack⟩ := List.pairwise_cons.1 inBack
  refine List.pairwise_append.2 ⟨inFront, List.pairwise_append.2 ⟨among, inBack, ?_⟩, ?_⟩
  · exact fun part isPart other isOther => behind other (fromWhole other isOther) part isPart
  · intro other isOther later isLater
    rcases List.mem_append.1 isLater with isPart | isBack
    · exact before other (between other isOther whole List.mem_cons_self) later isPart
    · exact between other isOther later (List.mem_cons_of_mem whole isBack)

/-- At each moment of a walk, what it has named and what waits part from all that comes later in
this order. -/
theorem Reaches.exists_nodes_parted {state : State} {root : Frame} {visited waiting : List Frame}
    (reached : Reaches source start [root] visited state waiting) :
    ∃ nodes, AddsNames source nodes start state ∧
      SplitsInto [root.tree] (nodes ++ waiting.map Frame.tree) ∧
      (nodes ++ waiting.map Frame.tree).Pairwise (PartAt source start [root]) := by
  induction reached with
  | start => exact ⟨[], .refl start, .refl _, List.pairwise_singleton _ _⟩
  | @visit visited waiting state frame before ih =>
    obtain ⟨nodes, adds, splits, parted⟩ := ih
    obtain ⟨named, moreAdds, moreSplits, calm⟩ := exists_parts source state frame
    generalize isParts : partsOf named (Walk.visit source state frame) = parts at moreSplits calm
    have made : MakesParts source start [root] frame parts := by
      subst isParts
      exact .visit before moreAdds moreSplits
    have lies := (standApart_of_splitsInto moreSplits).within
    have same : nodes ++ named ++ ((Walk.visit source state frame).2 ++ waiting).map Frame.tree =
        nodes ++ (parts ++ waiting.map Frame.tree) := by
      simp [← isParts, partsOf]
    refine ⟨nodes ++ named, adds.trans moreAdds, ?_, ?_⟩ <;> rw [same]
    · exact splits.trans ((SplitsInto.refl nodes).append
        (moreSplits.append_right (waiting.map Frame.tree)))
    · refine pairwise_replace parted ?_ ?_ ?_
      · exact List.pairwise_iff_forall_sublist.2 fun order =>
          ⟨made, calm, order, .root _, .root _⟩
      · exact fun other apart part isPart => apart.narrow (.root _) (lies part isPart)
      · exact fun other apart part isPart => apart.narrow (lies part isPart) (.root _)

end Parting

end Walk

end CrossReference
