import CrossReference.Proofs.Preprocessor
import CrossReference.Proofs.Walk.Frames
import CrossReference.Proofs.Walk.Resolve

/-!
# What is compiled in

The walk goes through a grouped tree as the preprocessor does: it visits the nodes that the
preprocessor lists, in that order, and those that are kept are compiled in.  Where nothing is
compiled in the walk opens no declarations that are, and learns nothing of macros.
-/

set_option autoImplicit false

namespace CrossReference.Walk

open ParseTree Preprocessor

variable (source : List Char)

/-! ## Frames without directives -/

structure IsPlain (active : Bool) (frame : Frame) : Prop where
  free : hasDirective frame.tree = false
  active : frame.context.active = active
  noBranch : ∀ taken, frame.mode ≠ .branch taken

theorem IsPlain.isDirective_eq {active : Bool} {frame : Frame} (plain : IsPlain active frame) :
    frame.isDirective = false ∧ frame.isCondition = false := by
  have noForm := form_of_not_hasDirective plain.free
  rw [Bool.eq_false_iff, ne_eq, Form.isDirective_iff, not_or, not_or] at noForm
  obtain ⟨noCondition, noDefinition, noDirective⟩ := noForm
  unfold Frame.isDirective Frame.isCondition
  cases manner : frame.mode with
  | branch taken => exact absurd manner (plain.noBranch taken)
  | plain | body | declarator kind typeRef parameters | member object =>
    simp [noCondition, noDefinition, noDirective]

theorem IsPlain.visit {active : Bool} {frame : Frame} (plain : IsPlain active frame)
    (state : State) : ∀ next ∈ (visit source state frame).2, IsPlain active next := by
  intro next member
  have inherits := inherits_visit source state frame plain.isDirective_eq.2 next member
  exact ⟨hasDirective_of_within inherits.within plain.free, inherits.active.trans plain.active,
    inherits.noBranch⟩

theorem run_isPlain (active : Bool) (state : State) (frames : List Frame)
    (plain : ∀ frame ∈ frames, IsPlain active frame) :
    OpensOnly active state (run source state frames) ∧
      (run source state frames).macroValues = state.macroValues := by
  fun_induction run source state frames with
  | case1 state => exact ⟨.refl _ _, rfl⟩
  | case2 state frame rest visited ih =>
    have first := plain frame (by simp)
    obtain ⟨opens, values⟩ := ih fun next member => by
      rcases List.mem_append.1 member with fromVisit | waiting
      · exact first.visit source state next fromVisit
      · exact plain next (by simp [waiting])
    obtain ⟨-, here⟩ := visit_grows source state frame
    rw [first.active] at here
    exact ⟨here.trans (run_grows source _ _) opens,
      values.trans (visit_macros_eq source state first.isDirective_eq.1).2⟩

/-! ## Frames that are not compiled in -/

/-- Where nothing is compiled in, a walk opens no declaration that is, and leaves the table of
macros as it is. -/
theorem run_inactive (state : State) (frames : List Frame)
    (inactive : ∀ frame ∈ frames, frame.context.active = false) :
    OpensOnly false state (run source state frames) ∧
      (run source state frames).macroValues = state.macroValues := by
  fun_induction run source state frames with
  | case1 state => exact ⟨.refl _ _, rfl⟩
  | case2 state frame rest visited ih =>
    have first := inactive frame (by simp)
    obtain ⟨opens, values⟩ := ih fun next member => by
      rcases List.mem_append.1 member with fromVisit | waiting
      · rw [Bool.eq_false_iff]
        intro active
        rw [(active_of_mem_visit source fromVisit).2 active] at first
        cases first
      · exact inactive next (by simp [waiting])
    obtain ⟨-, here⟩ := visit_grows source state frame
    rw [first] at here
    refine ⟨here.trans (run_grows source _ _) opens, values.trans ?_⟩
    rw [visit_macroValues, first, Bool.and_false]
    rfl

/-! ## The nodes that the preprocessor lists -/

def itemFrame (context : Context) (item : Item) : Frame :=
  ⟨item.tree, item.declaresTag, { context with active := item.kept }, .plain⟩

/-- The walk over the nodes that the preprocessor lists, one after the other. -/
def walkItems (context : Context) (state : State) (items : List Item) : State :=
  items.foldl (fun state item => run source state [itemFrame context item]) state

theorem run_of_no_frames {state : State} {frame : Frame}
    (leavesNone : (visit source state frame).2 = []) :
    run source state [frame] = (visit source state frame).1 := by
  rw [run_cons, leavesNone, List.append_nil, run_nil]

theorem run_directive (context : Context) (state : State) (item : Item)
    (form : item.tree.form = .macroDefinition ∨ item.tree.form = .directive) :
    (itemFrame context item).isDirective = true ∧
      run source state [itemFrame context item] =
        (visit source state (itemFrame context item)).1 := by
  have isDirective : (itemFrame context item).isDirective = true := by
    change (decide (item.tree.form = .macroDefinition) ||
      decide (item.tree.form = .directive)) = true
    simpa using form
  obtain ⟨-, same⟩ | ⟨-, same⟩ := visit_of_isDirective source state isDirective <;>
    exact ⟨isDirective, run_of_no_frames source (by rw [same])⟩

theorem run_leaf (context : Context) (state : State) (item : Item) (leaf : item.isLeaf = true) :
    OpensOnly item.kept state (run source state [itemFrame context item]) := by
  simp only [Item.isLeaf, Bool.or_eq_true, decide_eq_true_eq, Bool.not_eq_true'] at leaf
  rcases leaf with form | free
  · rw [(run_directive source context state item form).2]
    exact (visit_grows source state _).2
  · refine (run_isPlain source item.kept state _ fun frame member => ?_).1
    rw [List.mem_singleton.1 member]
    exact ⟨free, rfl, fun _ => nofun⟩

/-! ## The walk and the preprocessor -/

/-- A walk over frames agrees with a result of the preprocessor: it is the walk over the nodes
listed, and the tables are the same after it. -/
structure Agrees (context : Context) (state : State) (frames : List Frame)
    (result : Condition.Macros × List Item) : Prop where
  walk : run source state frames = walkItems source context state result.2
  table : (run source state frames).macroValues = result.1

theorem Agrees.none (context : Context) (state : State) :
    Agrees source context state [] (state.macroValues, []) :=
  ⟨by simp [walkItems], by simp⟩

variable {source} in
theorem Agrees.append {context : Context} {state : State} {first second : List Frame}
    {front back : Condition.Macros × List Item}
    (agreesFirst : Agrees source context state first front)
    (agreesSecond : Agrees source context (run source state first) second back) :
    Agrees source context state (first ++ second) (back.1, front.2 ++ back.2) where
  walk := by
    rw [run_append, agreesSecond.walk, agreesFirst.walk, walkItems, walkItems, walkItems,
      List.foldl_append]
  table := by rw [run_append, agreesSecond.table]

theorem Agrees.one {context : Context} {state : State} {item : Item} {macros : Condition.Macros}
    (table : (run source state [itemFrame context item]).macroValues = macros) :
    Agrees source context state [itemFrame context item] (macros, [item]) :=
  ⟨rfl, table⟩

theorem Agrees.free (context : Context) (state : State) (item : Item)
    (free : hasDirective item.tree = false) :
    Agrees source context state [itemFrame context item] (state.macroValues, [item]) := by
  refine .one source (run_isPlain source item.kept state _ fun frame member => ?_).2
  rw [List.mem_singleton.1 member]
  exact ⟨free, rfl, fun _ => nofun⟩

theorem Agrees.directive (context : Context) (state : State) (item : Item)
    (form : item.tree.form = .macroDefinition ∨ item.tree.form = .directive) :
    Agrees source context state [itemFrame context item]
      (if item.kept then carryOut source state.macroValues item.tree else state.macroValues,
        [item]) := by
  obtain ⟨isDirective, same⟩ := run_directive source context state item form
  refine .one source ?_
  rw [same, visit_macroValues, isDirective, Bool.true_and]
  rfl

theorem visit_plain (state : State) (tree : ParseTree) (declaresTag : Bool) (context : Context) :
    visit source state ⟨tree, declaresTag, context, .plain⟩ =
      visitPlain source state tree declaresTag context := rfl

theorem visit_branch (state : State) (tree : ParseTree) (declaresTag : Bool) (context : Context)
    (taken : Bool) :
    visit source state ⟨tree, declaresTag, context, .branch taken⟩ =
      visitConditional source state tree context taken := rfl

/-- The frame of a child of a branch, where the contents of the branch are compiled in or not and
the branch is taken or not. -/
def partFrame (declaresTag : Bool) (context : Context) (kept here taken : Bool)
    (child : ParseTree) : Frame :=
  match partOf child with
  | .token | .operand => ⟨child, declaresTag, { context with active := kept }, .plain⟩
  | .alternative => ⟨child, declaresTag, { context with active := kept }, .branch taken⟩
  | .content => ⟨child, declaresTag, { context with active := here }, .plain⟩

theorem branchHolds?_eq (state : State) (tree : ParseTree) :
    branchHolds? source state tree = holds? source state.macroValues tree := rfl

theorem visitConditional_eq (state : State) (tree : ParseTree) (context : Context)
    (kept taken : Bool) :
    visitConditional source state tree { context with active := kept } taken =
      (state, tree.namedChildren.map
        (partFrame tree.declaresTags context kept
          (kept && (!taken && mayHold source state.macroValues tree))
          (taken || (holds? source state.macroValues tree).getD true))) := by
  unfold visitConditional
  simp only
  congr 1
  refine List.map_congr_left fun child isChild => ?_
  have named : child.isNamed = true := (List.mem_filter.1 isChild).2
  unfold partFrame partOf
  by_cases operand : child.field = "condition" || child.field = "name"
  · simp [named, operand, Frame.child]
  · by_cases alternative : child.field = "alternative"
    · simp [named, alternative, Frame.child, branchHolds?_eq]
    · simp [named, operand, alternative, Frame.child, branchHolds?_eq, mayHold, Bool.and_assoc]

theorem run_of_visit {state : State} {frame : Frame} {frames : List Frame}
    (visited : visit source state frame = (state, frames)) :
    run source state [frame] = run source state frames := by
  rw [run_cons, visited, List.append_nil]

variable {source} in
theorem Agrees.of_visit {context : Context} {state : State} {frame : Frame} {frames : List Frame}
    {result : Condition.Macros × List Item} (visited : visit source state frame = (state, frames))
    (agrees : Agrees source context state frames result) :
    Agrees source context state [frame] result :=
  ⟨(run_of_visit source visited).trans agrees.walk,
    (run_of_visit source visited).symm ▸ agrees.table⟩

/-- The number of the branch that is kept is what the walk will find out, as far as there are
branches left. -/
def InStep (macros : Condition.Macros) (taken : Bool) (choice : Option Nat)
    (branches : List ParseTree) : Prop :=
  branches = [] ∨ choice = if taken then none else choice? source macros branches

variable {source} in
theorem InStep.after {macros later : Condition.Macros} {taken : Bool} {choice : Option Nat}
    {branches : List ParseTree} (inStep : InStep source macros taken choice branches)
    (same : taken = false → later = macros) : InStep source later taken choice branches := by
  rcases inStep with none | rfl
  · exact .inl none
  · cases taken with
    | true => exact .inr rfl
    | false => exact .inr (by rw [same rfl])

/-- What the visit of a branch finds out is in step with the preprocessor. -/
theorem inStep_of_branch (macros : Condition.Macros) (kept taken : Bool) (label : NodeLabel)
    (children : List ParseTree) (choice : Option Nat)
    (inStep : choice =
      if taken then none else choice? source macros (chain (.node label children))) :
    let here := kept && (!taken && mayHold source macros (.node label children))
    let after := taken || (holds? source macros (.node label children)).getD true
    here = (kept && decide (choice = some 0)) ∧ (after = false → here = false) ∧
      InStep source macros after (next? choice) (alternatives children) := by
  obtain ⟨first, next⟩ := choice_step source macros taken (.node label children)
    (alternatives children)
  rw [← chain, ← inStep] at first next
  refine ⟨by rw [first], fun untaken => ?_, .inr next⟩
  obtain ⟨rfl, undecided⟩ := Bool.or_eq_false_iff.1 untaken
  have fails : holds? source macros (.node label children) = some false := by
    generalize holds? source macros (.node label children) = holds at undecided
    rcases holds with _ | _ | _ <;> simp_all
  simp [mayHold, fails]

mutual

/-- The walk goes through a grouped tree as the preprocessor does. -/
theorem agrees_process (declaresTag kept : Bool) (context : Context) (state : State)
    (tree : ParseTree) (grouped : isGrouped tree = true) :
    Agrees source context state
      [⟨tree, declaresTag, { context with active := kept }, .plain⟩]
      (process source declaresTag kept state.macroValues tree) := by
  match tree with
  | .node label children =>
    unfold isGrouped at grouped
    unfold process
    simp only
    split <;> rename_i form <;> simp only [form] at grouped
    · refine .of_visit ?_ (agrees_processAll _ kept context state children grouped)
      rw [visit_plain, visitPlain, ParseTree.form, kind, ParseTree.label, form]
      rfl
    · obtain ⟨isHere, untaken, inStep⟩ :=
        inStep_of_branch source state.macroValues kept false label children _ rfl
      refine .of_visit (Eq.trans ?_ (visitConditional_eq source state _ context kept false))
        (agrees_processBranch _ kept _ _ _ context state children grouped isHere untaken inStep)
      rw [visit_plain, visitPlain, ParseTree.form, kind, ParseTree.label, form]
    · exact .directive source context state ⟨_, declaresTag, kept⟩ (.inl form)
    · exact .directive source context state ⟨_, declaresTag, kept⟩ (.inr form)
    · rename_i noCondition noDefinition
      have free := hasDirective_of_form noCondition noDefinition form (by simpa using grouped)
      exact .free source context state ⟨_, declaresTag, kept⟩ free

theorem agrees_processAll (declaresTag kept : Bool) (context : Context) (state : State)
    (trees : List ParseTree) (grouped : allGrouped trees = true) :
    Agrees source context state
      ((trees.filter (·.isNamed)).map fun tree =>
        ⟨tree, declaresTag, { context with active := kept }, .plain⟩)
      (processAll source declaresTag kept state.macroValues trees) := by
  match trees with
  | [] => exact .none source context state
  | first :: rest =>
    obtain ⟨firstGrouped, restGrouped⟩ := Bool.and_eq_true_iff.1 grouped
    unfold processAll
    cases named : first.isNamed with
    | false =>
      rw [List.filter_cons_of_neg (by simp [named])]
      exact agrees_processAll declaresTag kept context state rest restGrouped
    | true =>
      rw [named] at firstGrouped
      rw [List.filter_cons_of_pos named]
      have agrees := agrees_process declaresTag kept context state first firstGrouped
      refine agrees.append ?_
      rw [← agrees.table]
      exact agrees_processAll declaresTag kept context _ rest restGrouped

/-- The walk goes through the children of a branch as the preprocessor does, if it is in step with
the number of the branch that is kept. -/
theorem agrees_processBranch (declaresTag kept here taken : Bool) (choice : Option Nat)
    (context : Context) (state : State) (trees : List ParseTree) (branch : isBranch trees = true)
    (isHere : here = (kept && decide (choice = some 0))) (untaken : taken = false → here = false)
    (inStep : InStep source state.macroValues taken (next? choice) (alternatives trees)) :
    Agrees source context state
      ((trees.filter (·.isNamed)).map (partFrame declaresTag context kept here taken))
      (processBranch source declaresTag kept choice state.macroValues trees) := by
  match trees with
  | [] => exact .none source context state
  | .node label children :: rest =>
    obtain ⟨firstGrouped, restGrouped⟩ := Bool.and_eq_true_iff.1 branch
    unfold processBranch
    unfold alternatives at inStep
    cases part : partOf (.node label children) with
    | token =>
      have unnamed := (partOf_eq_token_iff _).1 part
      rw [List.filter_cons_of_neg (by simp [unnamed])]
      simp only [part, Part.isAlternative, Bool.false_eq_true, if_false] at inStep ⊢
      exact agrees_processBranch declaresTag kept here taken choice context state rest
        restGrouped isHere untaken inStep
    | operand =>
      simp only [part, Part.isAlternative, Bool.false_eq_true, if_false, Bool.not_eq_true']
        at inStep firstGrouped ⊢
      rw [List.filter_cons_of_pos (isNamed_of_partOf part nofun), List.map_cons,
        partFrame, part]
      have agrees := Agrees.free source context state ⟨_, declaresTag, kept⟩ firstGrouped
      have later := agrees_processBranch declaresTag kept here taken choice context _ rest
        restGrouped isHere untaken (inStep.after fun _ => agrees.table)
      rw [agrees.table] at later
      exact agrees.append later
    | alternative =>
      simp only [part, Part.isAlternative, if_true, Bool.and_eq_true, Bool.not_eq_true']
        at inStep firstGrouped ⊢
      obtain ⟨isAlternative, single⟩ := firstGrouped
      rw [List.filter_cons_of_pos (isNamed_of_partOf part nofun), List.map_cons,
        partFrame, part]
      obtain ⟨isHere', untaken', inStep'⟩ :=
        inStep_of_branch source state.macroValues kept taken label children (next? choice)
          (inStep.resolve_left nofun)
      have visited := (visit_branch source state (.node label children) declaresTag
        { context with active := kept } taken).trans
          (visitConditional_eq source state _ context kept taken)
      have agrees := Agrees.of_visit visited (agrees_processBranch _ kept _ _ _ context state
        children isAlternative isHere' untaken' inStep')
      refine agrees.append ?_
      rw [← agrees.table]
      exact agrees_processBranch declaresTag kept here taken choice context _ rest
        restGrouped isHere untaken (.inl (alternatives_eq_nil single))
    | content =>
      simp only [part, Part.isAlternative, Bool.false_eq_true, if_false] at inStep firstGrouped ⊢
      rw [List.filter_cons_of_pos (isNamed_of_partOf part nofun), List.map_cons,
        partFrame, part]
      subst isHere
      have agrees := agrees_process declaresTag (kept && decide (choice = some 0)) context state _
        firstGrouped
      have goes := goes_process source declaresTag (kept && decide (choice = some 0))
        state.macroValues _ firstGrouped
      have later := agrees_processBranch declaresTag kept _ taken choice context _ rest
        restGrouped rfl untaken (inStep.after fun isUntaken =>
          agrees.table.trans (goes.dropped (untaken isUntaken)).1)
      rw [agrees.table] at later
      exact agrees.append later

end

/-! ## The unit of a grouped tree -/

theorem walkItems_grows (context : Context) (state : State) (items : List Item) :
    State.Grows state (walkItems source context state items) :=
  List.foldlRecOn _ _ (.refl state) fun current known _ _ =>
    known.trans (run_grows source current _)

/-- Every declaration is opened by one of the nodes listed, and compiled in as that is kept. -/
theorem exists_item_of_declaration (context : Context) (items : List Item)
    (leaves : ∀ item ∈ items, item.isLeaf = true) (state : State) (declaration : Nat)
    (new : state.declarations.size ≤ declaration)
    (known : declaration < (walkItems source context state items).declarations.size) :
    ∃ front item back, items = front ++ item :: back ∧
      (walkItems source context state front).declarations.size ≤ declaration ∧
      declaration < (walkItems source context state (front ++ [item])).declarations.size ∧
      ∃ kind,
        (walkItems source context state items).mark? declaration = some (kind, item.kept) := by
  induction items generalizing state with
  | nil => exact absurd known (Nat.not_lt_of_le new)
  | cons first rest ih =>
    have grows := walkItems_grows source context (run source state [itemFrame context first]) rest
    by_cases here : declaration < (run source state [itemFrame context first]).declarations.size
    · refine ⟨[], first, rest, rfl, new, here, ?_⟩
      obtain ⟨mark, found⟩ := Option.ne_none_iff_exists'.1 fun none =>
        absurd ((State.mark?_eq_none_iff _).1 none) (Nat.not_le_of_lt here)
      have active := run_leaf source context state first (leaves first (by simp)) declaration mark
        new found
      exact ⟨mark.1, by rw [← active]; exact grows.mark?_eq found⟩
    · obtain ⟨front, item, back, split, low, high, marked⟩ :=
        ih (fun item member => leaves item (by simp [member])) _ (Nat.le_of_not_lt here) known
      exact ⟨first :: front, item, back, by rw [split]; rfl, low, high, marked⟩

theorem isActive_eq_of_mark? {language : Language} {withDeclarations : Bool} {tree : ParseTree}
    {declaration : Nat} {mark : String × Bool}
    (marked : (SourceUnit.walked source language tree).mark? declaration = some mark) :
    (SourceUnit.ofTree source language withDeclarations tree).toTranslationUnit.isActive
      declaration = mark.2 := by
  obtain ⟨found, there, rfl⟩ := Option.map_eq_some_iff.1 marked
  have kept : (SourceUnit.walked source language tree).resolve.declarations[declaration]? =
      some found := by
    rw [(walked_rebinds source language tree).declarations, there]
  simp [TranslationUnit.isActive, SourceUnit.toTranslationUnit, SourceUnit.ofTree, kept]

/-- What is compiled in is what the preprocessor keeps, and the tables of macros agree in the end.
Where nothing is compiled in, nothing is learnt of macros and no declaration is compiled in. -/
theorem active_iff_kept (language : Language) (withDeclarations : Bool) (tree : ParseTree)
    (grouped : isGrouped tree = true) :
    SourceUnit.walked source language tree =
        walkItems source .file (State.initial (language = .cpp))
          (process source false true [] tree).2 ∧
      (SourceUnit.walked source language tree).macroValues =
        (process source false true [] tree).1 ∧
      (∀ declaration <
          (SourceUnit.ofTree source language withDeclarations tree).declarations.size,
        ∃ front item back, (process source false true [] tree).2 = front ++ item :: back ∧
          (walkItems source .file (State.initial (language = .cpp)) front).declarations.size ≤
            declaration ∧
          declaration < (walkItems source .file (State.initial (language = .cpp))
            (front ++ [item])).declarations.size ∧
          ((SourceUnit.ofTree source language withDeclarations tree).toTranslationUnit.isActive
            declaration = true ↔ item.kept = true)) ∧
      ∀ state frame, frame.context.active = false →
        (run source state [frame]).macroValues = state.macroValues ∧
          ∀ declaration mark, state.declarations.size ≤ declaration →
            (run source state [frame]).mark? declaration = some mark → mark.2 = false := by
  have agrees := agrees_process source false true .file (State.initial (language = .cpp)) tree
    grouped
  have goes := goes_process source false true [] tree grouped
  have walk : SourceUnit.walked source language tree =
      walkItems source .file (State.initial (language = .cpp))
        (process source false true [] tree).2 := agrees.walk
  refine ⟨walk, agrees.table, fun declaration known => ?_, fun state frame inactive => ?_⟩
  · have size : declaration < (walkItems source .file (State.initial (language = .cpp))
        (process source false true [] tree).2).declarations.size := by
      rw [← walk]
      exact (walked_rebinds source language tree).declarations ▸ known
    obtain ⟨front, item, back, split, low, high, kind, marked⟩ :=
      exists_item_of_declaration source .file _ goes.leaves _ declaration
        (by simp [State.initial]) size
    refine ⟨front, item, back, split, low, high, ?_⟩
    rw [isActive_eq_of_mark? source (walk ▸ marked)]
  · obtain ⟨opens, values⟩ := run_inactive source state [frame] (by simpa using inactive)
    exact ⟨values, opens⟩

def branches : List Char := "#if A\nint x;\n#else\n#define V 1\n#endif\n".toList

def branchTree : ParseTree :=
  ruleNode 0 "translation_unit" "" 0 38
    [ruleNode 1 "preproc_if" "" 0 37
      [ruleNode 2 "identifier" "condition" 4 5 [],
        ruleNode 3 "declaration" "" 6 12
          [ruleNode 4 "primitive_type" "type" 6 9 [],
            ruleNode 5 "identifier" "declarator" 10 11 []],
        ruleNode 6 "preproc_else" "alternative" 13 31
          [ruleNode 7 "preproc_def" "" 19 31
            [ruleNode 8 "identifier" "name" 27 28 [],
              ruleNode 9 "preproc_arg" "value" 29 30 []]]]]

/-- The declaration of the first branch is dropped, and the macro of the second one is defined. -/
theorem second_branch_is_kept :
    isGrouped branchTree = true ∧
      (process branches false true [] branchTree).2.map (·.kept) = [true, false, true] ∧
      (SourceUnit.walked branches .cpp branchTree).macroValues = [("V", some 1)] := by
  have grouped : isGrouped branchTree = true := by decide +kernel
  refine ⟨grouped, by decide +kernel, ?_⟩
  rw [(active_iff_kept branches .cpp true branchTree grouped).2.1]
  decide +kernel

end CrossReference.Walk
