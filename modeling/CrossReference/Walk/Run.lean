import CrossReference.Walk.Visit

/-!
# The walk

`run` visits frames one after the other, the frames that come out of a visit before those that were
already waiting, so that all below a node is done before its next sibling.  It ends on every tree,
since a visit always takes away more weight than it gives back.
-/

set_option autoImplicit false

namespace CrossReference.Walk

open ParseTree

variable (source : List Char)

def total (share : ParseTree → Nat) : List ParseTree → Nat
  | [] => 0
  | tree :: rest => share tree + total share rest

theorem weight_visitEach_le {step : State → ParseTree → Visited} {share : ParseTree → Nat}
    {trees : List ParseTree}
    (bounded : ∀ state, ∀ tree ∈ trees, weight (step state tree).2 ≤ share tree)
    (state : State) :
    weight (visitEach step trees state).2 ≤ total share trees := by
  induction trees generalizing state with
  | nil => simp [visitEach, weight]
  | cons tree rest ih =>
    have first := bounded state tree (by simp)
    have later := ih (fun state other member => bounded state other (by simp [member]))
      (step state tree).1
    simp only [visitEach, weight_append, total]
    omega

theorem total_size (trees : List ParseTree) :
    total (fun tree => 2 * tree.size) trees = 2 * sizes trees := by
  induction trees with
  | nil => simp [total, sizes]
  | cons tree rest ih =>
    simp only [total, ih, sizes]
    omega

theorem total_ite_size (test : ParseTree → Bool) (trees : List ParseTree) :
    total (fun tree => if test tree then 2 * tree.size else 0) trees =
      2 * sizes (trees.filter test) := by
  induction trees with
  | nil => simp [total, sizes]
  | cons tree rest ih =>
    cases kept : test tree
    · simp [total, kept, ih]
    · simp only [total, ih, kept, if_true, List.filter_cons, sizes]
      omega

theorem weight_visitEach_le_sizes {step : State → ParseTree → Visited} {trees : List ParseTree}
    (bounded : ∀ state, ∀ tree ∈ trees, weight (step state tree).2 ≤ 2 * tree.size)
    (state : State) :
    weight (visitEach step trees state).2 ≤ 2 * sizes trees := by
  rw [← total_size]
  exact weight_visitEach_le bounded state

theorem weight_single (frame : Frame) : weight [frame] ≤ 2 * frame.tree.size := by
  have bound := frame.weight_le
  simpa [weight] using bound

theorem weight_namedChildren_le (tree : ParseTree) (frameOf : ParseTree → Frame)
    (ofTree : ∀ child, (frameOf child).tree = child) :
    weight (tree.namedChildren.map frameOf) ≤ 2 * sizes tree.children := by
  have mapped := weight_map_le frameOf tree.namedChildren ofTree
  have named := sizes_namedChildren_le tree
  omega

theorem weight_apart_le (context : Context) (trees : List ParseTree) :
    weight (trees.map (Frame.apart context)) ≤ 2 * sizes trees :=
  weight_map_le _ _ fun _ => rfl

theorem sizes_other_parts_le (tree : ParseTree) (part : String) :
    sizes (tree.child? part).toList +
        sizes (tree.namedChildren.filter fun child => child.field ≠ part) ≤
      sizes tree.children := by
  have found := sizes_find?_le (·.field = part) tree.children
  have both := sizes_filter_add_le (·.field = part)
    (fun child => decide (child.field ≠ part) && child.isNamed) tree.children (by intro child same; simp_all)
  simp only [child?, namedChildren, List.filter_filter]
  omega

theorem weight_visitUse_le (state : State) (tree : ParseTree) (context : Context)
    (space : NameSpace) (effect : Effect)
    (isName : (isPlainName tree.kind || isQualified tree.kind || isTemplateName tree.kind) = true) :
    weight (visitUse source state tree context space effect).2 ≤ 2 * sizes tree.children := by
  have apart := weight_apart_le context (QualifiedName.ofTree tree).extras
  have extras := QualifiedName.extras_lt isName
  rw [size_eq] at extras
  simp only [visitUse]
  omega

theorem weight_visitQualified_le (state : State) (tree : ParseTree) (context : Context)
    (kind : SymbolKind) (typeRef : Option TypeRef)
    (isName : (isPlainName tree.kind || isQualified tree.kind || isTemplateName tree.kind) = true) :
    weight (visitQualified source state tree context kind typeRef).2 ≤
      2 * sizes tree.children := by
  have apart := weight_apart_le context (QualifiedName.ofTree tree).extras
  have extras := QualifiedName.extras_lt isName
  rw [size_eq] at extras
  simp only [visitQualified]
  omega

theorem two_mul_sizes_children_le (tree : ParseTree) :
    2 * sizes tree.children ≤ 2 * tree.size := by
  rw [size_eq]
  omega

theorem two_mul_sizes_namedChildren_le (tree : ParseTree) :
    2 * sizes tree.namedChildren ≤ 2 * sizes tree.children := by
  have named := sizes_namedChildren_le tree
  omega

theorem weight_visitElaborated_le (state : State) (tree : ParseTree) (context : Context) :
    weight (visitElaborated source state tree context).2 ≤ 2 * sizes tree.children := by
  refine Nat.le_trans (weight_visitEach_le_sizes (fun state child _ => ?_) state)
    (two_mul_sizes_namedChildren_le tree)
  split
  · rename_i isUse
    refine Nat.le_trans (weight_visitUse_le source state child context .tag .none ?_)
      (two_mul_sizes_children_le child)
    simp_all
  · exact weight_single _

theorem weight_visitTag_le (state : State) (tree : ParseTree) (inner : Context)
    (declareIn : Nat) (kind : SymbolKind) (allowTemplate : Bool) :
    weight (visitTag source state tree inner declareIn kind allowTemplate).2 ≤
      2 * sizes (tree.child? "name").toList := by
  unfold visitTag
  cases found : tree.child? "name" with
  | none => simp [weight]
  | some name =>
    have below := two_mul_sizes_children_le name
    simp only [Option.toList_some, sizes]
    split
    · rename_i qualified
      have bound := weight_visitQualified_le source state name inner kind none
        (by simp [qualified])
      omega
    · split
      · have apart := weight_apart_le inner (name.child? "arguments").toList
        have part := sizes_child?_le name "arguments"
        split <;> (simp only; omega)
      · simp [weight]

theorem weight_visitClassPart_le (tree : ParseTree) (inner : Context) (scope : Nat)
    (state : State) (child : ParseTree) :
    weight (visitClassPart source tree inner scope state child).2 ≤
      if decide (child.field ≠ "name") then 2 * child.size else 0 := by
  unfold visitClassPart
  split
  · rename_i isName
    simp [isName, weight]
  · rename_i isOther
    simp only [ne_eq, isOther, not_false_eq_true, decide_true, if_true]
    split
    · exact weight_single _
    · split
      · refine Nat.le_trans (weight_visitEach_le_sizes (fun state base _ => ?_) state)
          (Nat.le_trans (two_mul_sizes_namedChildren_le child) (two_mul_sizes_children_le child))
        split
        · rename_i isBase
          refine Nat.le_trans (weight_visitUse_le source state base inner .qualifier _ ?_)
            (two_mul_sizes_children_le base)
          simp only [Bool.or_eq_true, decide_eq_true_eq] at isBase
          rcases isBase with (plain | template) | qualified
          · simp [isPlainName, plain]
          · simp [isTemplateName, template]
          · simp [qualified]
        · exact weight_single _
      · exact weight_single _

theorem weight_visitClass_le (state : State) (tree : ParseTree) (context : Context)
    (kind : SymbolKind) (declaresTag : Bool) :
    weight (visitClass source state tree context kind declaresTag).2 ≤
      2 * sizes tree.children := by
  have parts := sizes_other_parts_le tree "name"
  unfold visitClass
  simp only
  split
  · exact weight_visitElaborated_le source state tree context
  · have tag := weight_visitTag_le source (state.openDeclaration tree.kind context).1 tree
      (state.openDeclaration tree.kind context).2 context.declareIn kind true
    split
    · simp only
      omega
    · simp only [weight_append]
      refine Nat.le_trans (Nat.add_le_add tag
        (weight_visitEach_le (fun state child _ =>
          weight_visitClassPart_le source tree _ _ state child) _)) ?_
      rw [total_ite_size]
      omega

theorem weight_visitEnum_le (state : State) (tree : ParseTree) (context : Context)
    (declaresTag : Bool) :
    weight (visitEnum source state tree context declaresTag).2 ≤ 2 * sizes tree.children := by
  have parts := sizes_other_parts_le tree "name"
  unfold visitEnum
  simp only
  split
  · exact weight_visitElaborated_le source state tree context
  · have tag := weight_visitTag_le source (state.openDeclaration tree.kind context).1 tree
      (state.openDeclaration tree.kind context).2 context.declareIn .enumName false
    simp only [weight_append]
    refine Nat.le_trans (Nat.add_le_add tag (weight_map_le _ _ fun _ => rfl)) ?_
    omega

theorem weight_visitEnumerator_le (state : State) (tree : ParseTree) (context : Context) :
    weight (visitEnumerator source state tree context).2 ≤ 2 * sizes tree.children := by
  refine Nat.le_trans (weight_visitEach_le_sizes (fun state child _ => ?_) _)
    (two_mul_sizes_namedChildren_le tree)
  split
  · exact weight_single _
  · simp only
    split
    · split <;> simp [weight]
    · simp [weight]

theorem weight_visitNamespace_le (state : State) (tree : ParseTree) (context : Context) :
    weight (visitNamespace source state tree context).2 ≤ 2 * sizes tree.children := by
  have parts := sizes_other_parts_le tree "name"
  unfold visitNamespace
  refine Nat.le_trans (weight_map_le _ _ fun _ => rfl) ?_
  omega

theorem weight_visitTypeParameter_le (state : State) (tree : ParseTree) (context : Context) :
    weight (visitTypeParameter source state tree context).2 ≤ 2 * sizes tree.children := by
  refine Nat.le_trans (weight_visitEach_le_sizes (fun state child _ => ?_) _)
    (two_mul_sizes_namedChildren_le tree)
  split
  · simp [weight]
  · exact weight_single _

theorem weight_visitAlias_le (state : State) (tree : ParseTree) (context : Context) :
    weight (visitAlias source state tree context).2 ≤ 2 * sizes tree.children := by
  refine Nat.le_trans (weight_visitEach_le_sizes (fun state child _ => ?_) _)
    (two_mul_sizes_namedChildren_le tree)
  split
  · simp [weight]
  · exact weight_single _

theorem weight_visitUsing_le (state : State) (tree : ParseTree) (context : Context) :
    weight (visitUsing source state tree context).2 ≤ 2 * sizes tree.children := by
  refine Nat.le_trans (weight_visitEach_le_sizes (fun state child _ => ?_) _)
    (two_mul_sizes_namedChildren_le tree)
  split
  · rename_i isName
    refine Nat.le_trans (weight_visitUse_le source state child _ .ordinary _ ?_)
      (two_mul_sizes_children_le child)
    simp_all
  · exact weight_single _

theorem weight_visitConditional_le (state : State) (tree : ParseTree) (context : Context)
    (taken : Bool) :
    weight (visitConditional source state tree context taken).2 ≤ 2 * sizes tree.children := by
  refine weight_namedChildren_le tree _ fun child => ?_
  split
  · rfl
  · split <;> rfl

theorem weight_visitBlock_le (state : State) (tree : ParseTree) (context : Context) :
    weight (visitBlock state tree context).2 ≤ 2 * sizes tree.children := by
  unfold visitBlock
  simp only
  split <;> exact weight_namedChildren_le tree _ fun _ => rfl

theorem weight_visitLambda_le (state : State) (tree : ParseTree) (context : Context) :
    weight (visitLambda state tree context).2 ≤ 2 * sizes tree.children := by
  refine weight_namedChildren_le tree _ fun child => ?_
  split
  · rfl
  · split <;> rfl

theorem weight_visitFunction_le (state : State) (tree : ParseTree) (context : Context) :
    weight (visitFunction source state tree context).2 ≤ 2 * sizes tree.children := by
  refine weight_namedChildren_le tree _ fun child => ?_
  split
  · rfl
  · split
    · rfl
    · split <;> rfl

theorem weight_visitPlain_le (state : State) (tree : ParseTree) (declaresTag : Bool)
    (context : Context) :
    weight (visitPlain source state tree declaresTag context).2 ≤ 2 * sizes tree.children := by
  unfold visitPlain
  split
  · simp [weight]
  · exact weight_visitFunction_le source state tree context
  · exact weight_namedChildren_le tree _ fun _ => rfl
  · exact weight_visitClass_le source state tree context _ declaresTag
  · exact weight_visitEnum_le source state tree context declaresTag
  · exact weight_visitEnumerator_le source state tree context
  · exact weight_visitNamespace_le source state tree context
  · exact weight_namedChildren_le tree _ fun _ => rfl
  · exact weight_visitTypeParameter_le source state tree context
  · exact weight_visitAlias_le source state tree context
  · exact weight_visitUsing_le source state tree context
  · simp [weight]
  · simp [weight]
  · exact weight_visitConditional_le source state tree context false
  · exact weight_visitBlock_le state tree context
  · exact weight_visitLambda_le state tree context
  · exact weight_namedChildren_le tree _ fun _ => rfl
  · rename_i isName
    exact weight_visitUse_le source state tree context _ _ (by simp [isName_of_form isName])
  · exact weight_namedChildren_le tree _ fun _ => rfl

theorem weight_visitFunctionDeclarator_le (state : State) (tree : ParseTree) (context : Context)
    (kind : SymbolKind) (typeRef : Option TypeRef) (parameters : Option Nat) :
    weight (visitFunctionDeclarator state tree context kind typeRef parameters).2 ≤
      2 * sizes tree.children := by
  refine weight_namedChildren_le tree _ fun child => ?_
  split
  · rfl
  · split <;> rfl

/-- A node that looks like no declarator is put back, to be visited in the plain manner. -/
theorem visitDeclarator_of_unknown (state : State) (frame : Frame) (kind : SymbolKind)
    (typeRef : Option TypeRef) (parameters : Option Nat)
    (unknown : isDeclaratorLike frame.tree.kind = false) :
    visitDeclarator source state frame kind typeRef parameters =
      (state, [{ frame with mode := .plain }]) := by
  simp only [isDeclaratorLike, Bool.or_eq_false_iff, decide_eq_false_iff_not] at unknown
  obtain ⟨⟨⟨noDeclarator, noName⟩, unqualified⟩, noTemplate⟩ := unknown
  have other {known : String} (isDeclarator : isDeclaratorKind known = true) :
      frame.tree.kind ≠ known := by
    rintro same
    rw [same, isDeclarator] at noDeclarator
    cases noDeclarator
  have noFunction : frame.tree.kind ∉ functionDeclaratorKinds := by
    intro member
    have all : ∀ known ∈ functionDeclaratorKinds, isDeclaratorKind known = true := by decide
    exact other (all _ member) rfl
  simp only [visitDeclarator, noName, unqualified, noFunction, noTemplate, noDeclarator,
    other (by decide : isDeclaratorKind "init_declarator" = true),
    other (by decide : isDeclaratorKind "structured_binding_declarator" = true),
    Bool.false_eq_true, if_false]

theorem weight_visitDeclarator_le (state : State) (frame : Frame) (kind : SymbolKind)
    (typeRef : Option TypeRef) (parameters : Option Nat)
    (known : isDeclaratorLike frame.tree.kind = true) :
    weight (visitDeclarator source state frame kind typeRef parameters).2 ≤
      2 * sizes frame.tree.children := by
  unfold visitDeclarator
  simp only
  split
  · simp [weight]
  · split
    · rename_i qualified
      exact weight_visitQualified_le source state frame.tree frame.context kind typeRef
        (by simp [qualified])
    · split
      · exact weight_visitFunctionDeclarator_le state frame.tree frame.context kind typeRef
          parameters
      · split
        · exact weight_namedChildren_le frame.tree
            (fun child => Frame.child frame.tree frame.context
              (declaratorMode kind typeRef parameters child) child) fun _ => rfl
        · split
          · have apart := weight_apart_le frame.context (frame.tree.child? "arguments").toList
            have part := sizes_child?_le frame.tree "arguments"
            simp only
            omega
          · split
            · simp [weight]
            · split
              · exact weight_namedChildren_le frame.tree _ fun _ => rfl
              · simp_all [isDeclaratorLike]

/-- Whether a visit puts the node back, to be visited once more: it was to be visited as a declarator,
and looks like none. -/
def Frame.isPutBack (frame : Frame) : Bool :=
  match frame.mode with
  | .declarator _ _ _ => !isDeclaratorLike frame.tree.kind
  | .plain | .body | .member _ | .branch _ => false

theorem visit_of_isPutBack (state : State) {frame : Frame} (putBack : frame.isPutBack = true) :
    visit source state frame = (state, [{ frame with mode := .plain }]) := by
  cases manner : frame.mode with
  | declarator kind typeRef parameters =>
    rw [Frame.isPutBack, manner] at putBack
    simp only [visit, manner]
    exact visitDeclarator_of_unknown source state frame kind typeRef parameters
      (by simpa using putBack)
  | plain | body | member | branch =>
    rw [Frame.isPutBack, manner] at putBack
    cases putBack

theorem weight_visit_le (state : State) {frame : Frame} (final : frame.isPutBack = false) :
    weight (visit source state frame).2 ≤ 2 * sizes frame.tree.children := by
  have plain := weight_visitPlain_le source state frame.tree frame.declaresTag frame.context
  unfold visit
  split
  · exact plain
  · exact weight_namedChildren_le frame.tree (Frame.child frame.tree frame.context .plain)
      fun _ => rfl
  · rename_i kind typeRef parameters manner
    refine weight_visitDeclarator_le source state frame kind typeRef parameters ?_
    rw [Frame.isPutBack, manner] at final
    simpa using final
  · split
    · simp [weight]
    · exact plain
  · rename_i taken manner
    exact weight_visitConditional_le source state frame.tree frame.context taken

/-- A visit takes away more weight than it gives back. -/
theorem weight_visit_lt (state : State) (frame : Frame) :
    weight (visit source state frame).2 < frame.weight := by
  have whole := size_eq frame.tree
  cases putBack : frame.isPutBack with
  | false =>
    have bound := weight_visit_le source state putBack
    have least := frame.le_weight
    omega
  | true =>
    rw [visit_of_isPutBack source state putBack]
    cases manner : frame.mode with
    | declarator =>
      simp only [weight, Frame.weight, manner]
      omega
    | plain | body | member | branch =>
      rw [Frame.isPutBack, manner] at putBack
      cases putBack

/-- Visit all frames, and those that come out of the visits, from the first to the last. -/
def run (state : State) (frames : List Frame) : State :=
  match frames with
  | [] => state
  | frame :: rest =>
      let visited := visit source state frame
      run visited.1 (visited.2 ++ rest)
termination_by weight frames
decreasing_by
  have lighter := weight_visit_lt source state frame
  simp only [weight_append, weight]
  omega

end CrossReference.Walk
