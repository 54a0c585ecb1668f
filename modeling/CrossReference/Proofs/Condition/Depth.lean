import CrossReference.Proofs.Condition.Decided

/-!
# Conditions of any depth

`evaluateFully` gives the value of a condition however deep it is, and `Evaluated` says which nodes
have to be evaluated for it, and how far below the condition they lie.  The bound on levels only
leaves conditions undecided: what is decided within it is decided in the same way without it, even
where a part was cut off, and a condition for which no node below the last level has to be evaluated
has the same value, or none, with the bound and without.
-/

set_option autoImplicit false

namespace CrossReference.Condition

/-! ## Operands -/

def asksRight (operator : String) (left : Option Int64) : Prop :=
  if operator = "&&" then left ≠ some 0
  else if operator = "||" then left = none ∨ left = some 0
  else left ≠ none

instance (operator : String) (left : Option Int64) : Decidable (asksRight operator left) := by
  unfold asksRight
  infer_instance

theorem operation?_eq_of_not_asksRight {operator : String} {left : Option Int64}
    (settled : ¬ asksRight operator left) (right other : Option Int64) :
    operation? operator left right = operation? operator left other := by
  unfold asksRight at settled
  unfold operation?
  split <;> rename_i isAnd
  · rw [if_pos isAnd, ne_eq, Decidable.not_not] at settled
    rw [settled]
    rfl
  · rw [if_neg isAnd] at settled
    split <;> rename_i isOr
    · rw [if_pos isOr, not_or] at settled
      obtain ⟨value, isValue⟩ := Option.ne_none_iff_exists'.1 settled.1
      have nonzero : value ≠ 0 := fun zero => settled.2 (zero ▸ isValue)
      simp [isValue, disjunction?, nonzero]
    · rw [if_neg isOr, ne_eq, Decidable.not_not] at settled
      rw [settled]
      rfl

namespace Expression

/-- The nodes that are evaluated for the value of a node, given the values that nodes have.  What a
conjunction, disjunction or conditional passes over is not among them. -/
def operands (value? : ParseTree → Option Int64) : Expression → List ParseTree
  | .number _ | .constant _ | .name _ | .defined _ | .unknown => []
  | .group inner => [inner]
  | .unary _ argument => [argument]
  | .binary operator left right =>
      left :: if asksRight operator (value? left) then right.toList else []
  | .conditional condition consequence alternative =>
      condition :: match value? condition with
        | some condition => (if condition = 0 then alternative else consequence).toList
        | none => []

theorem value_congr (macros : Macros) {value? other? : ParseTree → Option Int64}
    {expression : Expression}
    (same : ∀ part ∈ expression.operands other?, value? part = other? part) :
    expression.value macros value? = expression.value macros other? := by
  have bind_congr (part : Option ParseTree) (members : ∀ tree ∈ part, value? tree = other? tree) :
      part.bind value? = part.bind other? := Option.bind_congr members
  cases expression with
  | number text => rfl
  | constant value => rfl
  | name text => rfl
  | defined text => rfl
  | group inner => exact same inner List.mem_cons_self
  | unary operator argument => rw [value, value, same argument List.mem_cons_self]
  | binary operator left right =>
    rw [value, value, same left List.mem_cons_self]
    by_cases asks : asksRight operator (other? left)
    · rw [bind_congr right]
      intro tree isRight
      apply same
      simp [operands, asks, Option.mem_def.1 isRight]
    · exact operation?_eq_of_not_asksRight asks _ _
  | conditional condition consequence alternative =>
    rw [value, value, same condition List.mem_cons_self]
    cases decided : other? condition with
    | none => rfl
    | some word =>
      rw [Option.bind_some, Option.bind_some, bind_congr]
      intro tree isBranch
      apply same
      simp only [operands, decided, List.mem_cons, Option.mem_toList]
      exact .inr isBranch
  | unknown => rfl

end Expression

theorem mem_children_of_mem_operands {source : List Char} {tree part : ParseTree}
    {value? : ParseTree → Option Int64} (member : part ∈ (expression source tree).operands value?) :
    part ∈ tree.children := by
  unfold expression at member
  split at member
  · cases member
  · cases member
  · cases member
  · cases member
  · split at member <;> cases member
  · split at member
    · rename_i inner others isFirst
      rw [List.mem_singleton.1 member]
      exact ParseTree.mem_of_mem_namedChildren (isFirst ▸ List.mem_cons_self)
    · cases member
  · split at member
    · rename_i operator argument isOperator isArgument
      rw [List.mem_singleton.1 member]
      exact ParseTree.mem_of_child? isArgument
    · cases member
  · split at member
    · rename_i operator left isOperator isLeft
      rcases List.mem_cons.1 member with rfl | isRight
      · exact ParseTree.mem_of_child? isLeft
      · split at isRight
        · exact ParseTree.mem_of_child? (Option.mem_toList.1 isRight)
        · cases isRight
    · cases member
  · split at member
    · rename_i condition isCondition
      rcases List.mem_cons.1 member with rfl | isBranch
      · exact ParseTree.mem_of_child? isCondition
      · split at isBranch
        · split at isBranch <;> exact ParseTree.mem_of_child? (Option.mem_toList.1 isBranch)
        · cases isBranch
    · cases member
  · cases member

/-! ## Evaluation without a bound -/

variable (source : List Char) (macros : Macros)

/-- The value of a condition of any number of levels. -/
def evaluateFully (tree : ParseTree) : Option Int64 :=
  (expression source tree).value macros fun part =>
    if part.size < tree.size then evaluateFully part else none
termination_by tree.size

/-- Each node has the value of its form, made from the values of its operands. -/
theorem evaluateFully_eq (tree : ParseTree) :
    evaluateFully source macros tree =
      (expression source tree).value macros (evaluateFully source macros) := by
  rw [evaluateFully]
  apply Expression.value_congr
  intro part member
  exact if_pos (ParseTree.size_lt_of_mem (mem_children_of_mem_operands member))

/-- When a condition is evaluated without a bound, a node is evaluated that many levels below it. -/
inductive Evaluated : ParseTree → ParseTree → Nat → Prop where
  | root (tree : ParseTree) : Evaluated tree tree 0
  | deeper {tree part node : ParseTree} {depth : Nat}
      (operand : part ∈ (expression source tree).operands (evaluateFully source macros))
      (below : Evaluated part node depth) : Evaluated tree node (depth + 1)

theorem decidedAs_evaluateFully (levels : Nat) (tree : ParseTree) :
    DecidedAs (evaluateWithin source macros levels tree) (evaluateFully source macros tree) := by
  induction levels generalizing tree with
  | zero => exact .of_none _
  | succ levels ih =>
    rw [evaluateWithin_succ, evaluateFully_eq]
    exact Expression.decidedAs_value (.refl macros) ih _

/-- If all nodes that are evaluated lie above the bound, it makes no difference. -/
theorem evaluateWithin_eq_evaluateFully {levels : Nat} {tree : ParseTree}
    (shallow : ∀ node depth, Evaluated source macros tree node depth → depth < levels) :
    evaluateWithin source macros levels tree = evaluateFully source macros tree := by
  induction levels generalizing tree with
  | zero => exact absurd (shallow tree 0 (.root tree)) (Nat.not_lt_zero 0)
  | succ levels ih =>
    rw [evaluateWithin_succ, evaluateFully_eq]
    apply Expression.value_congr
    intro part operand
    apply ih
    intro node depth below
    exact Nat.lt_of_succ_lt_succ (shallow node (depth + 1) (.deeper operand below))

theorem Evaluated.depth_lt_size {source : List Char} {macros : Macros} {tree node : ParseTree}
    {depth : Nat} (evaluated : Evaluated source macros tree node depth) : depth < tree.size := by
  induction evaluated with
  | root tree => exact tree.size_pos
  | deeper operand _ ih =>
    have smaller := ParseTree.size_lt_of_mem (mem_children_of_mem_operands operand)
    omega

theorem evaluateWithin_of_size_le {levels : Nat} {tree : ParseTree} (enough : tree.size ≤ levels) :
    evaluateWithin source macros levels tree = evaluateFully source macros tree := by
  apply evaluateWithin_eq_evaluateFully
  intro node depth evaluated
  exact Nat.lt_of_lt_of_le evaluated.depth_lt_size enough

/-- The bound on levels changes no value that is decided.  A condition for which no node more than
128 levels below it has to be evaluated is decided in the same way, or left undecided, with the
bound and without; and without it a condition has the value that it has within any bound that is as
large as the condition. -/
theorem bound_only_withholds_answers (source : List Char) (macros : Macros) (tree : ParseTree) :
    (∀ value, evaluate source macros tree = some value →
      evaluateFully source macros tree = some value) ∧
    ((∀ node depth, Evaluated source macros tree node depth → depth ≤ 128) →
      evaluate source macros tree = evaluateFully source macros tree) ∧
    ∀ levels, tree.size ≤ levels →
      evaluateWithin source macros levels tree = evaluateFully source macros tree := by
  refine ⟨decidedAs_evaluateFully source macros maxLevels tree, fun shallow => ?_,
    fun levels enough => evaluateWithin_of_size_le source macros enough⟩
  apply evaluateWithin_eq_evaluateFully
  intro node depth evaluated
  exact Nat.lt_succ_of_le (shallow node depth evaluated)

def nestedTree (field : String) : Nat → ParseTree
  | 0 => .ruleNode 0 "true" field 0 0 []
  | depth + 1 => .ruleNode 0 "parenthesized_expression" field 0 0 [nestedTree "" depth]

def operationTree (operator : String) (left right : ParseTree) : ParseTree :=
  .ruleNode 0 "binary_expression" "condition" 0 0
    [left, .node ⟨0, operator, "operator", false, false, false, 0, 0⟩ [], right]

def constantTree (kind field : String) : ParseTree :=
  .ruleNode 0 kind field 0 0 []

/-- An operand that is too deep is overruled by the other one, or is not looked at. -/
theorem deep_operands_are_passed_over :
    evaluate [] [] (operationTree "||" (nestedTree "left" 200) (constantTree "true" "right")) =
      some 1 ∧
    evaluateFully [] [] (operationTree "||" (nestedTree "left" 200) (constantTree "true" "right")) =
      some 1 ∧
    (∀ node depth, Evaluated [] []
      (operationTree "&&" (constantTree "false" "left") (nestedTree "right" 200)) node depth →
        depth ≤ 128) ∧
    evaluate [] [] (operationTree "&&" (constantTree "false" "left") (nestedTree "right" 200)) =
      evaluateFully [] []
        (operationTree "&&" (constantTree "false" "left") (nestedTree "right" 200)) := by
  have decided : evaluate [] []
      (operationTree "||" (nestedTree "left" 200) (constantTree "true" "right")) = some 1 := by
    decide +kernel
  have zero : evaluateFully [] [] (constantTree "false" "left") = some 0 := by
    rw [evaluateFully_eq]
    rfl
  have shallow : ∀ node depth, Evaluated [] []
      (operationTree "&&" (constantTree "false" "left") (nestedTree "right" 200)) node depth →
        depth ≤ 128 := by
    intro node depth evaluated
    cases evaluated with
    | root => exact Nat.zero_le _
    | deeper operand below =>
      have form : expression [] (operationTree "&&" (constantTree "false" "left")
          (nestedTree "right" 200)) =
            .binary "&&" (constantTree "false" "left") (some (nestedTree "right" 200)) := rfl
      rw [form, Expression.operands, zero, if_neg (by decide)] at operand
      rw [List.mem_singleton.1 operand] at below
      cases below with
      | root => exact Nat.le_of_ble_eq_true rfl
      | deeper none _ => cases none
  exact ⟨decided, (bound_only_withholds_answers [] [] _).1 1 decided, shallow,
    (bound_only_withholds_answers [] [] _).2.1 shallow⟩

end CrossReference.Condition
