import CrossReference.Proofs.Walk.Parameters

/-!
# Declarators inside of declarators

What is declared stands inside of declarators, each one around the next.  All of them are visited in
the context of the outermost one.  The scope for parameters that the declarator of a definition is
given goes to the outermost declarator of a function; each one further in gets a scope of its own.
-/

set_option autoImplicit false

namespace CrossReference.Walk

open ParseTree State

def isWrapper (kind : String) : Bool :=
  isDeclaratorKind kind && !functionDeclaratorKinds.contains kind &&
    kind ≠ "init_declarator" && kind ≠ "structured_binding_declarator"

/-- A declarator stands inside of another one, with so many declarators of functions around it. -/
inductive InnerAt (outer : ParseTree) : Nat → ParseTree → Prop where
  | self : InnerAt outer 0 outer
  | function {depth : Nat} {between inner : ParseTree} (outside : InnerAt outer depth between)
      (isFunction : between.kind ∈ functionDeclaratorKinds)
      (isChild : inner ∈ between.namedChildren) (field : inner.field = "declarator") :
      InnerAt outer (depth + 1) inner
  | initialized {depth : Nat} {between inner : ParseTree} (outside : InnerAt outer depth between)
      (isInitialized : between.kind = "init_declarator")
      (isChild : inner ∈ between.namedChildren) (field : inner.field = "declarator") :
      InnerAt outer depth inner
  | wrapped {depth : Nat} {between inner : ParseTree} (outside : InnerAt outer depth between)
      (isWrapped : isWrapper between.kind = true) (isChild : inner ∈ between.namedChildren)
      (found : between.innerDeclarator? = some inner) : InnerAt outer depth inner

def IsParameterName (function node : ParseTree) : Prop :=
  ∃ list parameter declarator depth,
    list ∈ function.namedChildren ∧ list.field = "parameters" ∧ Through list parameter ∧
    parameter.form = .declaration .parameter ∧
    declarator ∈ parameter.namedChildren ∧ declarator.field = "declarator" ∧
    InnerAt declarator depth node ∧ isPlainName node.kind = true

/-- A node is the name of a parameter that stands in a list. -/
def ParameterIn (list node : ParseTree) : Prop :=
  ∃ parameter declarator depth,
    Through list parameter ∧ parameter.form = .declaration .parameter ∧
    declarator ∈ parameter.namedChildren ∧ declarator.field = "declarator" ∧
    InnerAt declarator depth node ∧ isPlainName node.kind = true

section Visits

variable {source : List Char} {state : State} {frame : Frame} {kind : SymbolKind}
  {typeRef : Option TypeRef} {parameters : Option Nat}

theorem isPlainName_of_isDeclaratorKind {kind : String} (isKind : isDeclaratorKind kind = true) :
    isPlainName kind = false ∧ isQualified kind = false := by
  constructor
  · by_contra isName
    simp only [isPlainName, Bool.not_eq_false, decide_eq_true_eq, List.mem_cons,
      List.not_mem_nil, or_false] at isName
    rcases isName with rfl | rfl | rfl | rfl | rfl | rfl <;> exact absurd isKind (by decide)
  · by_contra isName
    simp only [isQualified, Bool.not_eq_false, decide_eq_true_eq, List.mem_cons,
      List.not_mem_nil, or_false] at isName
    rcases isName with rfl | rfl | rfl <;> exact absurd isKind (by decide)

theorem isDeclaratorKind_of_function {kind : String} (isFunction : kind ∈ functionDeclaratorKinds) :
    isDeclaratorKind kind = true := by
  simp only [functionDeclaratorKinds, List.mem_cons, List.not_mem_nil, or_false] at isFunction
  rcases isFunction with rfl | rfl | rfl | rfl <;> decide

theorem visitDeclarator_of_function (isFunction : frame.tree.kind ∈ functionDeclaratorKinds) :
    visitDeclarator source state frame kind typeRef parameters =
      visitFunctionDeclarator state frame.tree frame.context kind typeRef parameters := by
  obtain ⟨noName, unqualified⟩ :=
    isPlainName_of_isDeclaratorKind (isDeclaratorKind_of_function isFunction)
  simp only [visitDeclarator, noName, unqualified, isFunction, if_true, Bool.false_eq_true,
    if_false]

theorem visitDeclarator_of_init (isInit : frame.tree.kind = "init_declarator") :
    visitDeclarator source state frame kind typeRef parameters =
      (state, frame.tree.namedChildren.map fun child =>
        Frame.child frame.tree frame.context (declaratorMode kind typeRef parameters child)
          child) := by
  have noName : isPlainName "init_declarator" = false := by decide
  have unqualified : isQualified "init_declarator" = false := by decide
  have noFunction : "init_declarator" ∉ functionDeclaratorKinds := by decide
  simp only [visitDeclarator, isInit, noName, unqualified, noFunction, if_true,
    Bool.false_eq_true, if_false]

theorem visitDeclarator_of_wrapper (isWrapped : isWrapper frame.tree.kind = true) :
    visitDeclarator source state frame kind typeRef parameters =
      (state, frame.tree.namedChildren.map fun child =>
        Frame.child frame.tree frame.context
          (if some child.id = frame.tree.innerDeclarator?.map ParseTree.id then
            .declarator kind typeRef parameters else .plain) child) := by
  simp only [isWrapper, Bool.and_eq_true, Bool.not_eq_true', decide_eq_true_eq,
    List.contains_eq_mem, decide_eq_false_iff_not] at isWrapped
  obtain ⟨⟨⟨isDeclarator, noFunction⟩, noInit⟩, noBinding⟩ := isWrapped
  obtain ⟨noName, unqualified⟩ := isPlainName_of_isDeclaratorKind isDeclarator
  have noTemplate : frame.tree.kind ≠ "template_function" := by
    intro isTemplate
    rw [isTemplate] at isDeclarator
    exact absurd isDeclarator (by decide)
  simp only [visitDeclarator, noName, unqualified, noFunction, noInit, noTemplate, noBinding,
    isDeclarator, if_true, Bool.false_eq_true, if_false]

end Visits

/-! ## How declarators are visited -/

section Moments

variable {source : List Char} {start state : State} {frames visited waiting : List Frame}
  {frame : Frame} {kind : SymbolKind} {typeRef : Option TypeRef} {parameters : Option Nat}

theorem exists_left_of_function (manner : frame.mode = .declarator kind typeRef parameters)
    (isFunction : frame.tree.kind ∈ functionDeclaratorKinds) {inner : ParseTree}
    (isChild : inner ∈ frame.tree.namedChildren) (field : inner.field = "declarator") :
    ∃ declared, Frame.child frame.tree frame.context (.declarator declared typeRef none) inner ∈
        (Walk.visit source state frame).2 ∧ (kind = .parameter → declared = .parameter) := by
  simp only [Walk.visit, manner, visitDeclarator_of_function isFunction, visitFunctionDeclarator]
  refine ⟨_, List.mem_map.2 ⟨inner, isChild, if_pos field⟩, ?_⟩
  rintro rfl
  rfl

/-- A declarator inside of another one is visited in the same context.  It is given the scope for
parameters if no declarator of a function stands around it. -/
theorem Reaches.exists_declarator
    (moment : Reaches source start frames visited state (frame :: waiting))
    (manner : frame.mode = .declarator kind typeRef parameters) {depth : Nat} {node : ParseTree}
    (inner : InnerAt frame.tree depth node) :
    ∃ before later next rest kindThere,
      Reaches source start frames before later (next :: rest) ∧ next.tree = node ∧
      next.context = frame.context ∧
      next.mode = .declarator kindThere typeRef (if depth = 0 then parameters else none) ∧
      (kind = .parameter → kindThere = .parameter) := by
  induction inner with
  | self => exact ⟨visited, state, frame, waiting, kind, moment, rfl, rfl, manner, id⟩
  | @function depth between inner outside isFunction isChild field ih =>
    obtain ⟨before, later, next, rest, kindThere, reached, rfl, same, mode, kept⟩ := ih
    obtain ⟨declared, left, still⟩ := exists_left_of_function mode isFunction isChild field
    obtain ⟨beforeChild, laterChild, restChild, reachedChild⟩ := reached.exists_next left
    exact ⟨beforeChild, laterChild, _, restChild, declared, reachedChild, rfl, same, rfl,
      fun isParameter => still (kept isParameter)⟩
  | @initialized depth between inner outside isInitialized isChild field ih =>
    obtain ⟨before, later, next, rest, kindThere, reached, rfl, same, mode, kept⟩ := ih
    have left : Frame.child next.tree next.context
        (.declarator kindThere typeRef (if depth = 0 then parameters else none)) inner ∈
        (Walk.visit source later next).2 := by
      simp only [Walk.visit, mode, visitDeclarator_of_init isInitialized]
      exact List.mem_map.2 ⟨inner, isChild, by simp only [declaratorMode, field, if_true]⟩
    obtain ⟨beforeChild, laterChild, restChild, reachedChild⟩ := reached.exists_next left
    exact ⟨beforeChild, laterChild, _, restChild, kindThere, reachedChild, rfl, same, rfl, kept⟩
  | @wrapped depth between inner outside isWrapped isChild found ih =>
    obtain ⟨before, later, next, rest, kindThere, reached, rfl, same, mode, kept⟩ := ih
    have left : Frame.child next.tree next.context
        (.declarator kindThere typeRef (if depth = 0 then parameters else none)) inner ∈
        (Walk.visit source later next).2 := by
      simp only [Walk.visit, mode, visitDeclarator_of_wrapper isWrapped, found]
      exact List.mem_map.2 ⟨inner, isChild, by simp only [Option.map_some, if_true]⟩
    obtain ⟨beforeChild, laterChild, restChild, reachedChild⟩ := reached.exists_next left
    exact ⟨beforeChild, laterChild, _, restChild, kindThere, reachedChild, rfl, same, rfl, kept⟩

/-- The parameters that stand in a list are declared in the scope that receives the declarations of
the list. -/
theorem Reaches.exists_parameterIn
    (moment : Reaches source start frames visited state (frame :: waiting))
    (plain : frame.mode = .plain) {node : ParseTree} (isName : ParameterIn frame.tree node) :
    ∃ before later next rest,
      Reaches source start frames before later (next :: rest) ∧
      next.parameterNames[0]? = some node ∧
      next.context.declareIn = frame.context.declareIn := by
  obtain ⟨parameter, declarator, depth, through, isParameter, isDeclarator, field, inner, isPlain⟩ :=
    isName
  obtain ⟨_, between, next, _, reached, rfl, manner, context⟩ :=
    moment.exists_through plain through
  have declared : Frame.child next.tree (between.openDeclaration next.tree.kind next.context).2
      (.declarator .parameter next.tree.declaredType? none) declarator ∈
        (Walk.visit source between next).2 := by
    simp only [Walk.visit, manner, visitPlain, isParameter, visitDeclaration]
    exact List.mem_map.2 ⟨declarator, isDeclarator, by simp only [declaratorMode, field, if_true]⟩
  obtain ⟨_, _, _, reachedDeclarator⟩ := reached.exists_next declared
  obtain ⟨before, later, name, rest, kindThere, reachedName, rfl, same, mode, kept⟩ :=
    reachedDeclarator.exists_declarator rfl inner
  refine ⟨before, later, name, rest, reachedName, ?_, ?_⟩
  · rw [kept rfl] at mode
    simp only [Frame.parameterNames, mode, isPlain, if_true, List.getElem?_cons_zero]
  · rw [same, ← context]
    rfl

/-- The parameters of the declarator of a function are declared in the scope that it is given for
them, or else in a new one. -/
theorem Reaches.exists_parameter
    (moment : Reaches source start frames visited state (frame :: waiting))
    (manner : frame.mode = .declarator kind typeRef parameters)
    (isFunction : frame.tree.kind ∈ functionDeclaratorKinds) {node : ParseTree}
    (isName : IsParameterName frame.tree node) :
    ∃ before later next rest,
      Reaches source start frames before later (next :: rest) ∧
      next.parameterNames[0]? = some node ∧
      next.context.declareIn = parameters.getD state.scopes.next := by
  obtain ⟨list, parameter, declarator, depth, isList, isParameters, stands⟩ := isName
  have listed : Frame.child frame.tree
      (frame.context.within (parameters.getD state.scopes.next)) .plain list ∈
        (Walk.visit source state frame).2 := by
    simp only [Walk.visit, manner, visitDeclarator_of_function isFunction, visitFunctionDeclarator]
    refine List.mem_map.2 ⟨list, isList, ?_⟩
    rw [isParameters, if_neg (by decide), if_pos rfl]
    cases parameters <;> rfl
  obtain ⟨_, _, _, reachedList⟩ := moment.exists_next listed
  exact reachedList.exists_parameterIn rfl ⟨parameter, declarator, depth, stands⟩

/-- A parameter that is declared in a stretch of a walk over a tree has an entry in its scope.  If
the scope had none of its spelling before, the entry begins below the first frames of the stretch. -/
theorem Reaches.exists_entry {language : Language} {tree : ParseTree} {first rest done : List Frame}
    {later : State} {next : Frame}
    (outer : Reaches source (State.initial (language = .cpp)) [Frame.root tree] visited state
      (first ++ rest)) (inner : Reaches source state first done later (next :: waiting))
    {node : ParseTree} (isNode : next.parameterNames[0]? = some node)
    (spelled : node.text source ≠ "")
    (unlisted : ∀ entry,
      ¬ state.scopes.Lists next.context.declareIn (node.text source) entry) :
    ∃ name entry, ParameterAt source language tree node next.context.declareIn name ∧
      (SourceUnit.walked source language tree).scopes.Lists next.context.declareIn
        (node.text source) entry ∧
      ∃ top ∈ first, NamedAt source top.tree entry.declaredAt := by
  have whole := outer.stretch inner
  obtain ⟨-, under⟩ := whole.under
  obtain ⟨found, -, -, -, held⟩ :=
    enters_parameterNames source later (under next List.mem_cons_self) 0 node isNode
  obtain ⟨entry, -, lists⟩ := held spelled
  refine ⟨_, entry, ⟨_, _, next, _, 0, whole, isNode, rfl, rfl⟩,
    whole.visit.scopes_extend.lists lists, ?_⟩
  exact (outer.entries_of_stretch inner.visit lists).resolve_left (unlisted entry)

end Moments

end CrossReference.Walk
