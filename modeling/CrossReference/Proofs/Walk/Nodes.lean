import CrossReference.Proofs.ParseTree.Parts
import CrossReference.Proofs.Walk.Declare
import CrossReference.Proofs.Walk.Reaches

/-!
# Which nodes a walk names

A visit adds occurrences for some nodes and leaves others to be visited.  All of these are parts of
the node visited, and so at each moment of a walk the nodes that have been named and those that wait
are parts of the whole tree: no node is named twice, and none below a node that is named.
-/

set_option autoImplicit false

namespace CrossReference.Walk

open ParseTree

variable {source : List Char}

def NameNode.place (name : NameNode) : String × Option Location :=
  (name.text, name.location)

def placeOf (source : List Char) (node : ParseTree) : String × Option Location :=
  (node.text source, State.locationOf source node)

/-- Occurrences are added for the nodes of a list, in its order, and the node of each is noted. -/
structure AddsNames (source : List Char) (nodes : List ParseTree) (before after : State) :
    Prop where
  places : after.names.toList.map NameNode.place =
    before.names.toList.map NameNode.place ++ nodes.map (placeOf source)
  nodeIds : after.nameOfNode =
    ((nodes.map ParseTree.id).zipIdx before.names.size).reverse ++ before.nameOfNode

namespace AddsNames

variable {nodes others : List ParseTree} {before middle after : State}

theorem of_same (names : after.names = before.names)
    (nodeIds : after.nameOfNode = before.nameOfNode) : AddsNames source [] before after := by
  refine ⟨?_, ?_⟩
  · simp [names]
  · simp [nodeIds]

theorem refl (state : State) : AddsNames source [] state state :=
  .of_same rfl rfl

theorem size_eq (adds : AddsNames source nodes before after) :
    after.names.size = before.names.size + nodes.length := by
  have lengths := congrArg List.length adds.places
  simpa using lengths

theorem trans (first : AddsNames source nodes before middle)
    (last : AddsNames source others middle after) :
    AddsNames source (nodes ++ others) before after where
  places := by
    rw [last.places, first.places, List.map_append, List.append_assoc]
  nodeIds := by
    rw [last.nodeIds, first.nodeIds, first.size_eq, List.map_append, List.zipIdx_append,
      List.reverse_append, List.append_assoc, List.length_map]

theorem after_quiet (first : AddsNames source [] before middle)
    (last : AddsNames source nodes middle after) : AddsNames source nodes before after :=
  first.trans last

theorem quiet_after (first : AddsNames source nodes before middle)
    (last : AddsNames source [] middle after) : AddsNames source nodes before after := by
  have both := first.trans last
  rwa [List.append_nil] at both

end AddsNames

/-! ## Changes of the state -/

section Changes

variable (source) (state : State) (tree : ParseTree) (context : Context)

theorem addsNames_addName (declares : Bool) :
    AddsNames source [tree] state (state.addName source tree context declares).1 where
  places := by simp [NameNode.place, placeOf]
  nodeIds := rfl

theorem addsNames_setBinding (name : Nat) (binding : Option Nat) :
    AddsNames source [] state (state.setBinding name binding) where
  places := by
    rw [List.map_nil, List.append_nil]
    apply List.ext_getElem?
    intro index
    simp only [State.setBinding, List.getElem?_map, Array.getElem?_toList, Array.getElem?_modify]
    split
    · rw [Option.map_map]
      rfl
    · rfl
  nodeIds := rfl

theorem addsNames_openDeclaration (kind : String) :
    AddsNames source [] state (state.openDeclaration kind context).1 := by
  apply AddsNames.of_same
  · simp
  · unfold State.openDeclaration
    cases context.owner <;> rfl

theorem addsNames_pushScope (kind : ScopeKind) (parent : Nat) :
    AddsNames source [] state (state.pushScope kind parent).1 :=
  .of_same rfl rfl

theorem addsNames_openMembers (binding : Option Nat) (kind : ScopeKind) (parent : Nat) :
    AddsNames source [] state (state.openMembers binding kind parent).1 := by
  apply AddsNames.of_same
  · simp
  · rw [State.openMembers_eq]

theorem addsNames_noteSpecifier (scope : Nat) :
    AddsNames source [] state (state.noteSpecifier tree scope) :=
  .of_same rfl rfl

theorem addsNames_bindDeclaration (name binding : Nat) (typeRef : Option TypeRef) :
    AddsNames source [] state (state.bindDeclaration name binding typeRef) where
  places := (addsNames_setBinding source state name (some binding)).places
  nodeIds := rfl

theorem addsNames_symbolIn (existing : Option Nat) (scope : Nat) (kind : SymbolKind)
    (text : String) (position : Nat) :
    AddsNames source [] state (state.symbolIn existing scope kind text position).1 := by
  apply AddsNames.of_same
  · simp
  · cases existing <;> rfl

theorem addsNames_settle (scope : Nat) (kind : SymbolKind) (typeRef : Option TypeRef)
    (existing : Option Nat) :
    AddsNames source [tree] state
      (state.settle source tree context scope kind typeRef existing).1 := by
  have named := addsNames_addName source state tree context true
  unfold State.settle
  simp only
  split
  · exact named
  · have settled := named.quiet_after
      (addsNames_symbolIn source _ existing scope kind (tree.text source) tree.start)
    exact settled.quiet_after (addsNames_bindDeclaration source _ _ _ typeRef)

theorem addsNames_declare (scope : Nat) (kind : SymbolKind) (typeRef : Option TypeRef) :
    AddsNames source [tree] state
      (state.declare source tree context scope kind typeRef).1 := by
  rw [State.declare_eq_settle]
  exact addsNames_settle source state tree context scope kind typeRef _

theorem addsNames_bindQualifiers (segments : List ParseTree) (isFirst : Bool)
    (reached : State.Prefixed) :
    AddsNames source segments reached.state
      (State.bindQualifiers source context segments isFirst reached).state := by
  induction segments generalizing isFirst reached with
  | nil => exact .refl reached.state
  | cons segment rest ih =>
    have named := addsNames_addName source reached.state segment context false
    have bound (binding : Option Nat) := named.quiet_after
      (addsNames_setBinding source _ reached.state.names.size binding)
    exact AddsNames.trans (bound _) (ih false ⟨_, _, _⟩)

theorem addsNames_declareQualified (kind : SymbolKind) (typeRef : Option TypeRef) :
    AddsNames source (QualifiedName.ofTree tree).segments state
      (state.declareQualified source tree context kind typeRef).1 := by
  rw [State.declareQualified_eq_settle]
  cases found : (QualifiedName.ofTree tree).segments.getLast? with
  | none =>
    rw [List.getLast?_eq_none_iff.1 found]
    exact .refl state
  | some last =>
    have qualifiers : AddsNames source (QualifiedName.ofTree tree).segments.dropLast state
        (state.prefixed source tree context).state :=
      addsNames_bindQualifiers source context _ true ⟨state, _, _⟩
    rw [← List.dropLast_append_getLast? last found]
    simp only
    split
    · exact qualifiers.trans (addsNames_addName source _ last context true)
    · rename_i owner _
      exact qualifiers.trans (addsNames_settle source _ last context owner kind typeRef _)

theorem addsNames_addUses (segments : List ParseTree) :
    AddsNames source segments state (State.addUses source context segments state).1 := by
  induction segments generalizing state with
  | nil => exact .refl state
  | cons segment rest ih =>
    exact (addsNames_addName source state segment context false).trans (ih _)

theorem addsNames_noteUse (space : NameSpace) (effect : Effect) :
    AddsNames source (QualifiedName.ofTree tree).segments state
      (state.noteUse source tree context space effect) := by
  have added := addsNames_addUses source state context (QualifiedName.ofTree tree).segments
  unfold State.noteUse
  simp only
  split
  · exact added
  · exact added.quiet_after (.of_same rfl rfl)

theorem addsNames_visitNamespaceSegments (segments : List ParseTree) (scope : Nat) :
    AddsNames source segments state
      (visitNamespaceSegments source context segments state scope).1 := by
  induction segments generalizing state scope with
  | nil => exact .refl state
  | cons segment rest ih =>
    have declared := addsNames_declare source state segment context scope .namespaceName none
    have entered (binding : Option Nat) := declared.quiet_after
      (addsNames_openMembers source _ binding .namespaceBody scope)
    exact (entered _).trans (ih _ _)

theorem addsNames_defineMacro (name : String) (start : Nat) :
    AddsNames source [] state (state.defineMacro name start).1 := by
  unfold State.defineMacro
  split <;> exact .of_same rfl rfl

theorem addsNames_visitMacroDefinition :
    AddsNames source (tree.child? "name").toList state
      (visitMacroDefinition source state tree context) := by
  have opened := addsNames_openDeclaration source state context tree.kind
  unfold visitMacroDefinition
  cases tree.child? "name" with
  | none => exact opened
  | some name =>
    have named := opened.after_quiet
      (addsNames_addName source _ name (state.openDeclaration tree.kind context).2 true)
    simp only [Option.toList_some]
    split
    · exact named
    · have defined := named.quiet_after
        (addsNames_defineMacro source _ (name.text source) tree.stop)
      have bound (binding : Nat) := defined.quiet_after
        (addsNames_setBinding source _ (state.openDeclaration tree.kind context).1.names.size
          (some binding))
      split
      · exact (bound _).quiet_after (.of_same rfl rfl)
      · exact bound _

theorem addsNames_visitDirective :
    AddsNames source [] state (visitDirective source state tree context) := by
  unfold visitDirective
  simp only
  split
  · exact .refl state
  · split
    · exact .refl state
    · split <;> exact .of_same rfl rfl

theorem addsNames_declareEach (trees : List ParseTree) :
    AddsNames source trees state (trees.foldl
      (fun state child =>
        (state.declare source child context context.declareIn .variable none).1) state) := by
  induction trees generalizing state with
  | nil => exact .refl state
  | cons child rest ih =>
    exact (addsNames_declare source state child context context.declareIn .variable none).trans
      (ih _)

end Changes

/-! ## Dividing a node up -/

/-- What a visit makes of trees: some parts of them are named, and others are left to be visited. -/
def Divides (source : List Char) (trees : List ParseTree) (state : State) (visited : Visited) :
    Prop :=
  ∃ nodes, AddsNames source nodes state visited.1 ∧
    SplitsInto trees (nodes ++ visited.2.map Frame.tree)

namespace Divides

variable {trees others parts : List ParseTree} {before state after : State} {visited : Visited}
  {frames later : List Frame}

theorem of_parts (splits : SplitsInto trees parts) (divides : Divides source parts state visited) :
    Divides source trees state visited := by
  obtain ⟨nodes, adds, divided⟩ := divides
  exact ⟨nodes, adds, splits.trans divided⟩

theorem of_children {tree : ParseTree} (divides : Divides source tree.children state visited) :
    Divides source [tree] state visited :=
  .of_parts (.of_children (.refl tree.children)) divides

theorem of_namedChildren {tree : ParseTree}
    (divides : Divides source tree.namedChildren state visited) :
    Divides source [tree] state visited :=
  .of_parts (.namedChildren tree) divides

theorem leave_out (divides : Divides source trees state visited) (others : List ParseTree) :
    Divides source (trees ++ others) state visited :=
  .of_parts (.of_sublist (List.sublist_append_left trees others)) divides

theorem before_quiet (quiet : AddsNames source [] before state)
    (divides : Divides source trees state visited) : Divides source trees before visited := by
  obtain ⟨nodes, adds, divided⟩ := divides
  exact ⟨nodes, quiet.after_quiet adds, divided⟩

theorem trans (first : Divides source trees before (state, frames))
    (last : Divides source others state (after, later)) :
    Divides source (trees ++ others) before (after, frames ++ later) := by
  obtain ⟨nodes, adds, divided⟩ := first
  obtain ⟨moreNodes, moreAdds, moreDivided⟩ := last
  refine ⟨nodes ++ moreNodes, adds.trans moreAdds, ?_⟩
  refine (divided.append moreDivided).trans (.perm ?_)
  simp only [List.map_append, List.append_assoc]
  apply List.Perm.append_left nodes
  exact List.perm_append_comm_assoc _ _ _

theorem names_and_frames (adds : AddsNames source trees state after) (others : List ParseTree)
    (frameOf : ParseTree → Frame) (ofTree : ∀ tree, (frameOf tree).tree = tree) :
    Divides source (trees ++ others) state (after, others.map frameOf) := by
  refine ⟨trees, adds, ?_⟩
  have same : (others.map frameOf).map Frame.tree = others := by
    rw [List.map_map]
    exact (List.map_congr_left fun tree _ => ofTree tree).trans (List.map_id others)
  rw [same]
  exact .refl _

theorem names (adds : AddsNames source trees state after) :
    Divides source trees state (after, []) := by
  have divides := names_and_frames adds [] Frame.root fun _ => rfl
  rwa [List.append_nil] at divides

theorem leaves (quiet : AddsNames source [] state after) (frameOf : ParseTree → Frame)
    (ofTree : ∀ tree, (frameOf tree).tree = tree) :
    Divides source trees state (after, trees.map frameOf) :=
  names_and_frames quiet trees frameOf ofTree

theorem leaves_one (state : State) (frame : Frame) :
    Divides source [frame.tree] state (state, [frame]) :=
  ⟨[], .refl state, .refl [frame.tree]⟩

theorem nothing (quiet : AddsNames source [] state after) :
    Divides source trees state (after, []) :=
  .of_parts (.of_sublist (List.nil_sublist trees)) (.names quiet)

end Divides

theorem divides_visitEach {step : State → ParseTree → Visited} {trees : List ParseTree}
    (share : ParseTree → List ParseTree)
    (each : ∀ state, ∀ tree ∈ trees, Divides source (share tree) state (step state tree))
    (state : State) :
    Divides source (trees.flatMap share) state (visitEach step trees state) := by
  induction trees generalizing state with
  | nil => exact .nothing (.refl state)
  | cons tree rest ih =>
    have first := each state tree (by simp)
    have later := ih (fun state other member => each state other (by simp [member]))
      (step state tree).1
    exact first.trans later

theorem flatMap_ite_singleton (test : ParseTree → Bool) (trees : List ParseTree) :
    (trees.flatMap fun tree => if test tree then [tree] else []) = trees.filter test := by
  induction trees with
  | nil => rfl
  | cons tree rest ih => cases kept : test tree <;> simp [kept, ih]

theorem divides_visitEach_children {step : State → ParseTree → Visited} {tree : ParseTree}
    (each : ∀ state child, Divides source [child] state (step state child)) (state : State) :
    Divides source [tree] state (visitEach step tree.namedChildren state) := by
  have all := divides_visitEach (fun child => [child])
    (fun state child (_ : child ∈ tree.namedChildren) => each state child) state
  rw [List.flatMap_singleton'] at all
  exact .of_namedChildren all

structure LeavesChildren (source : List Char) (tree : ParseTree) (before : State)
    (visited : Visited) : Prop where
  quiet : AddsNames source [] before visited.1
  left : visited.2.map Frame.tree = tree.namedChildren

theorem leavesChildren_map {tree : ParseTree} {before after : State}
    (quiet : AddsNames source [] before after) (frameOf : ParseTree → Frame)
    (ofTree : ∀ child, (frameOf child).tree = child) :
    LeavesChildren source tree before (after, tree.namedChildren.map frameOf) where
  quiet := quiet
  left := by
    rw [List.map_map]
    exact (List.map_congr_left fun child _ => ofTree child).trans (List.map_id _)

theorem LeavesChildren.divides {tree : ParseTree} {before : State} {visited : Visited}
    (leaves : LeavesChildren source tree before visited) : Divides source [tree] before visited :=
  ⟨[], leaves.quiet, by rw [leaves.left]; exact .namedChildren tree⟩

section Visits

variable (source) (state : State) (tree : ParseTree) (context : Context)

theorem divides_visitUse (space : NameSpace) (effect : Effect) :
    Divides source [tree] state (visitUse source state tree context space effect) := by
  have segments := addsNames_noteUse source state tree context space effect
  have parts := Divides.names_and_frames segments (QualifiedName.ofTree tree).extras
    (Frame.apart context) fun _ => rfl
  exact .of_parts (QualifiedName.splitsInto_ofTree tree) parts

theorem divides_visitQualified (kind : SymbolKind) (typeRef : Option TypeRef) :
    Divides source [tree] state
      ((visitQualified source state tree context kind typeRef).1.1,
        (visitQualified source state tree context kind typeRef).2) := by
  have segments := addsNames_declareQualified source state tree context kind typeRef
  have parts := Divides.names_and_frames segments (QualifiedName.ofTree tree).extras
    (Frame.apart context) fun _ => rfl
  exact .of_parts (QualifiedName.splitsInto_ofTree tree) parts

theorem leavesChildren_visitFunction :
    LeavesChildren source tree state (visitFunction source state tree context) := by
  have opened := addsNames_openDeclaration source state context tree.kind
  have pushed (parent : Nat) := opened.quiet_after
    (addsNames_pushScope source _ .function parent)
  refine leavesChildren_map (pushed _) _ fun child => ?_
  split
  · rfl
  · split
    · rfl
    · split <;> rfl

theorem leavesChildren_visitDeclaration (kind : SymbolKind) :
    LeavesChildren source tree state (visitDeclaration state tree context kind) :=
  leavesChildren_map (addsNames_openDeclaration source state context tree.kind) _ fun _ => rfl

theorem divides_visitElaborated :
    Divides source [tree] state (visitElaborated source state tree context) := by
  apply divides_visitEach_children
  intro state child
  split
  · exact divides_visitUse source state child context .tag .none
  · exact .leaves_one state _

theorem divides_visitTag (inner : Context) (declareIn : Nat) (kind : SymbolKind)
    (allowTemplate : Bool) :
    Divides source (tree.child? "name").toList state
      ((visitTag source state tree inner declareIn kind allowTemplate).1.1,
        (visitTag source state tree inner declareIn kind allowTemplate).2) := by
  unfold visitTag
  cases tree.child? "name" with
  | none => exact .nothing (.refl state)
  | some name =>
    simp only [Option.toList_some]
    split
    · exact divides_visitQualified source state name inner kind none
    · split
      · have parts := splitsInto_two_children name "name" "arguments" (by decide)
        refine .of_parts (.of_children parts) ?_
        cases name.child? "name" with
        | none => exact .leaves (.refl state) _ fun _ => rfl
        | some plain =>
          have declared := addsNames_declare source state plain inner declareIn kind none
          exact .names_and_frames declared _ _ fun _ => rfl
      · exact .names (addsNames_declare source state name inner declareIn kind none)

theorem divides_visitClassPart (inner : Context) (scope : Nat) (child : ParseTree) :
    Divides source (if decide (child.field ≠ "name") then [child] else []) state
      (visitClassPart source tree inner scope state child) := by
  unfold visitClassPart
  by_cases isName : child.field = "name"
  · simp only [isName, if_true]
    exact .nothing (.refl state)
  · simp only [isName, ne_eq, not_false_eq_true, decide_true, if_true, if_false]
    split
    · exact .leaves_one state _
    · split
      · apply divides_visitEach_children
        intro state base
        split
        · exact divides_visitUse source state base inner .qualifier (.base scope)
        · exact .leaves_one state _
      · exact .leaves_one state _

theorem divides_classParts (inner : Context) (scope : Nat) :
    Divides source (tree.namedChildren.filter fun child => child.field ≠ "name") state
      (visitEach (visitClassPart source tree inner scope) tree.namedChildren state) := by
  have each := divides_visitEach
    (fun child => if decide (child.field ≠ "name") then [child] else [])
    (fun state child (_ : child ∈ tree.namedChildren) =>
      divides_visitClassPart source state tree inner scope child) state
  rwa [flatMap_ite_singleton] at each

theorem divides_visitClass (kind : SymbolKind) (declaresTag : Bool) :
    Divides source [tree] state (visitClass source state tree context kind declaresTag) := by
  have opened := addsNames_openDeclaration source state context tree.kind
  have parts := splitsInto_other_parts tree "name"
  unfold visitClass
  simp only
  generalize state.openDeclaration tree.kind context = start at opened ⊢
  obtain ⟨start, inner⟩ := start
  have tag := divides_visitTag source start tree inner context.declareIn kind true
  generalize visitTag source start tree inner context.declareIn kind true = declared at tag ⊢
  obtain ⟨⟨declared, binding⟩, frames⟩ := declared
  simp only at opened tag ⊢
  split
  · exact divides_visitElaborated source state tree context
  · refine .of_children (.of_parts parts (.before_quiet opened ?_))
    split
    · exact tag.leave_out _
    · have entered := addsNames_openMembers source declared binding .classBody context.scope
      generalize declared.openMembers binding .classBody context.scope = members at entered ⊢
      have noted := entered.quiet_after (addsNames_noteSpecifier source members.1 tree members.2)
      have others := divides_classParts source (members.1.noteSpecifier tree members.2) tree inner
        members.2
      exact tag.trans (.before_quiet noted others)

theorem divides_visitEnum (declaresTag : Bool) :
    Divides source [tree] state (visitEnum source state tree context declaresTag) := by
  have opened := addsNames_openDeclaration source state context tree.kind
  have parts := splitsInto_other_parts tree "name"
  unfold visitEnum
  simp only
  generalize state.openDeclaration tree.kind context = start at opened ⊢
  obtain ⟨start, inner⟩ := start
  have tag := divides_visitTag source start tree inner context.declareIn .enumName false
  generalize visitTag source start tree inner context.declareIn .enumName false = declared
    at tag ⊢
  obtain ⟨⟨declared, binding⟩, frames⟩ := declared
  simp only at opened tag ⊢
  split
  · exact divides_visitElaborated source state tree context
  · refine .of_children (.of_parts parts (.before_quiet opened (tag.trans ?_)))
    refine .leaves ?_ _ fun _ => rfl
    split
    · have entered := addsNames_openMembers source declared binding .namespaceBody context.scope
      exact entered.quiet_after (addsNames_noteSpecifier source _ tree _)
    · exact .refl declared

theorem divides_visitEnumerator :
    Divides source [tree] state (visitEnumerator source state tree context) := by
  have opened := addsNames_openDeclaration source state context tree.kind
  unfold visitEnumerator
  simp only
  generalize state.openDeclaration tree.kind context = start at opened ⊢
  obtain ⟨start, inner⟩ := start
  refine .before_quiet opened (divides_visitEach_children (fun state child => ?_) start)
  split
  · exact .leaves_one state _
  · have declared := addsNames_declare source state child inner context.declareIn .enumerator none
    split
    · split
      · exact .names (declared.quiet_after (.of_same rfl rfl))
      · exact .names declared
    · exact .names declared

theorem divides_visitNamespace :
    Divides source [tree] state (visitNamespace source state tree context) := by
  have opened := addsNames_openDeclaration source state context tree.kind
  have parts := splitsInto_other_parts tree "name"
  have segments := addsNames_visitNamespaceSegments source
    (state.openDeclaration tree.kind context).1 (state.openDeclaration tree.kind context).2
  refine .of_children (.of_parts parts (.before_quiet opened ?_))
  unfold visitNamespace
  simp only
  cases tree.child? "name" with
  | none => exact .names_and_frames (segments [] context.declareIn) _ _ fun _ => rfl
  | some name =>
    exact .of_parts ((splitsInto_namespaceSegments name).append (.refl _))
      (.names_and_frames (segments name.namespaceSegments context.declareIn) _ _ fun _ => rfl)

theorem leavesChildren_visitTemplate :
    LeavesChildren source tree state (visitTemplate state tree context) := by
  have opened := addsNames_openDeclaration source state context tree.kind
  have pushed (parent : Nat) := opened.quiet_after
    (addsNames_pushScope source _ .templateHead parent)
  exact leavesChildren_map (pushed _) _ fun _ => rfl

theorem divides_visitTypeParameter :
    Divides source [tree] state (visitTypeParameter source state tree context) := by
  have opened := addsNames_openDeclaration source state context tree.kind
  refine .before_quiet opened (divides_visitEach_children (fun state child => ?_) _)
  split
  · exact .names (addsNames_declare source state child _ _ _ _)
  · exact .leaves_one state _

theorem divides_visitAlias :
    Divides source [tree] state (visitAlias source state tree context) := by
  have opened := addsNames_openDeclaration source state context tree.kind
  refine .before_quiet opened (divides_visitEach_children (fun state child => ?_) _)
  split
  · exact .names (addsNames_declare source state child _ _ _ _)
  · exact .leaves_one state _

theorem divides_visitUsing :
    Divides source [tree] state (visitUsing source state tree context) := by
  have opened := addsNames_openDeclaration source state context tree.kind
  refine .before_quiet opened (divides_visitEach_children (fun state child => ?_) _)
  split
  · exact divides_visitUse source state child _ .ordinary _
  · exact .leaves_one state _

theorem leavesChildren_visitConditional (taken : Bool) :
    LeavesChildren source tree state (visitConditional source state tree context taken) := by
  refine leavesChildren_map (.refl state) _ fun child => ?_
  split
  · rfl
  · split <;> rfl

theorem leavesChildren_visitBlock :
    LeavesChildren source tree state (visitBlock state tree context) := by
  have pushed := addsNames_pushScope source state .block context.scope
  unfold visitBlock
  simp only
  split
  · exact leavesChildren_map pushed _ fun _ => rfl
  · exact leavesChildren_map pushed _ fun _ => rfl

theorem leavesChildren_visitLambda :
    LeavesChildren source tree state (visitLambda state tree context) := by
  have pushed := addsNames_pushScope source state .function context.scope
  refine leavesChildren_map pushed _ fun child => ?_
  split
  · rfl
  · split <;> rfl

theorem leavesChildren_visitMemberAccess :
    LeavesChildren source tree state (visitMemberAccess state tree context) :=
  leavesChildren_map (.refl state) _ fun _ => rfl

theorem leavesChildren_childFrames :
    LeavesChildren source tree state (state, childFrames tree context) :=
  leavesChildren_map (.refl state) _ fun _ => rfl

theorem divides_visitPlain (declaresTag : Bool) :
    Divides source [tree] state (visitPlain source state tree declaresTag context) := by
  unfold visitPlain
  split
  · exact .nothing (.refl state)
  · exact (leavesChildren_visitFunction source state tree context).divides
  · exact (leavesChildren_visitDeclaration source state tree context _).divides
  · exact divides_visitClass source state tree context _ declaresTag
  · exact divides_visitEnum source state tree context declaresTag
  · exact divides_visitEnumerator source state tree context
  · exact divides_visitNamespace source state tree context
  · exact (leavesChildren_visitTemplate source state tree context).divides
  · exact divides_visitTypeParameter source state tree context
  · exact divides_visitAlias source state tree context
  · exact divides_visitUsing source state tree context
  · have name := addsNames_visitMacroDefinition source state tree context
    exact .of_children (.of_parts (splitsInto_child? tree "name") (.names name))
  · exact .nothing (addsNames_visitDirective source state tree context)
  · exact (leavesChildren_visitConditional source state tree context false).divides
  · exact (leavesChildren_visitBlock source state tree context).divides
  · exact (leavesChildren_visitLambda source state tree context).divides
  · exact (leavesChildren_visitMemberAccess source state tree context).divides
  · exact divides_visitUse source state tree context _ _
  · exact (leavesChildren_childFrames source state tree context).divides

theorem leavesChildren_visitFunctionDeclarator (kind : SymbolKind) (typeRef : Option TypeRef)
    (parameters : Option Nat) :
    LeavesChildren source tree state
      (visitFunctionDeclarator state tree context kind typeRef parameters) := by
  refine leavesChildren_map ?_ _ fun child => ?_
  · cases parameters with
    | none => exact addsNames_pushScope source state .function context.scope
    | some scope => exact .refl state
  · split
    · rfl
    · split <;> rfl

theorem divides_visitDeclarator (frame : Frame) (kind : SymbolKind) (typeRef : Option TypeRef)
    (parameters : Option Nat) :
    Divides source [frame.tree] state
      (visitDeclarator source state frame kind typeRef parameters) := by
  unfold visitDeclarator
  simp only
  split
  · exact .names (addsNames_declare source state frame.tree frame.context _ kind typeRef)
  · split
    · exact divides_visitQualified source state frame.tree frame.context kind typeRef
    · split
      · exact (leavesChildren_visitFunctionDeclarator source state frame.tree frame.context kind
          typeRef parameters).divides
      · split
        · exact (leavesChildren_map (.refl state) _ fun _ => rfl).divides
        · split
          · have parts := splitsInto_two_children frame.tree "name" "arguments" (by decide)
            refine .of_children (.of_parts parts ?_)
            cases frame.tree.child? "name" with
            | none => exact .leaves (.refl state) _ fun _ => rfl
            | some name =>
              have declared := addsNames_declare source state name frame.context
                frame.context.declareIn kind typeRef
              exact .names_and_frames declared _ _ fun _ => rfl
          · split
            · have names := addsNames_declareEach source state frame.context
                (frame.tree.namedChildren.filter (·.kind = "identifier"))
              exact .of_namedChildren
                (.of_parts (.of_sublist List.filter_sublist) (.names names))
            · split
              · exact (leavesChildren_map (.refl state) _ fun _ => rfl).divides
              · exact .leaves_one state _

end Visits

/-- Every visit divides up the node visited. -/
theorem divides_visit (source : List Char) (state : State) (frame : Frame) :
    Divides source [frame.tree] state (visit source state frame) := by
  unfold visit
  split
  · exact divides_visitPlain source state frame.tree frame.context frame.declaresTag
  · exact (leavesChildren_childFrames source state frame.tree frame.context).divides
  · exact divides_visitDeclarator source state frame _ _ _
  · split
    · have named := addsNames_addName source state frame.tree frame.context false
      exact .names (named.quiet_after (.of_same rfl rfl))
    · exact divides_visitPlain source state frame.tree frame.context frame.declaresTag
  · exact (leavesChildren_visitConditional source state frame.tree frame.context _).divides

/-- At each moment of a walk, what is named and what waits are parts of what the walk started
with. -/
theorem Reaches.divides {start state : State} {frames visited waiting : List Frame}
    (reached : Reaches source start frames visited state waiting) :
    Divides source (frames.map Frame.tree) start (state, waiting) := by
  induction reached with
  | start => exact ⟨[], .refl start, .refl _⟩
  | @visit visited waiting state frame before ih =>
    obtain ⟨nodes, adds, divided⟩ := ih
    obtain ⟨more, moreAdds, moreDivided⟩ := divides_visit source state frame
    refine ⟨nodes ++ more, adds.trans moreAdds, divided.trans ?_⟩
    simp only [List.map_cons, List.map_append, List.append_assoc]
    refine (SplitsInto.refl nodes).append ?_
    rw [← List.append_assoc]
    exact moreDivided.append_right (waiting.map Frame.tree)

/-- A walk names parts of the nodes that it started with. -/
theorem exists_addsNames_run (source : List Char) (start : State) (frames : List Frame) :
    ∃ nodes, AddsNames source nodes start (run source start frames) ∧
      SplitsInto (frames.map Frame.tree) nodes := by
  obtain ⟨visited, reached⟩ := exists_reaches_run source start frames
  obtain ⟨nodes, adds, divided⟩ := reached.divides
  exact ⟨nodes, adds, by simpa using divided⟩

end CrossReference.Walk
