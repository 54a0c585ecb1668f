import CrossReference.Condition.Evaluate

/-!
# Conditions as expressions

The kind of a node tells what its value is made of.  `Expression` lists the forms that there are,
with the nodes that may have to be evaluated first, and `Expression.value` makes the value of a node
from theirs.  `evaluateWithin_succ` says that this is what evaluation does at each level, so that
laws of evaluation follow from laws of `Expression.value`, which go form by form.
-/

set_option autoImplicit false

namespace CrossReference.Condition

inductive Expression where
  | number (text : String)
  | constant (value : Int64)
  | name (text : String)
  | defined (text : String)
  | group (inner : ParseTree)
  | unary (operator : String) (argument : ParseTree)
  | binary (operator : String) (left : ParseTree) (right : Option ParseTree)
  | conditional (condition : ParseTree) (consequence alternative : Option ParseTree)
  /-- A node of another kind, or one that lacks a part. -/
  | unknown

def expression (source : List Char) (tree : ParseTree) : Expression :=
  match tree.kind with
  | "number_literal" => .number (tree.text source)
  | "true" => .constant 1
  | "false" => .constant 0
  | "identifier" => .name (tree.text source)
  | "preproc_defined" =>
      match tree.namedChildren with
      | name :: _ => .defined (name.text source)
      | [] => .unknown
  | "parenthesized_expression" =>
      match tree.namedChildren with
      | inner :: _ => .group inner
      | [] => .unknown
  | "unary_expression" =>
      match tree.child? "operator", tree.child? "argument" with
      | some operator, some argument => .unary operator.kind argument
      | _, _ => .unknown
  | "binary_expression" =>
      match tree.child? "operator", tree.child? "left" with
      | some operator, some left => .binary operator.kind left (tree.child? "right")
      | _, _ => .unknown
  | "conditional_expression" =>
      match tree.child? "condition" with
      | some condition =>
          .conditional condition (tree.child? "consequence") (tree.child? "alternative")
      | none => .unknown
  | _ => .unknown

def operation? (operator : String) (left right : Option Int64) : Option Int64 :=
  if operator = "&&" then conjunction? left right
  else if operator = "||" then disjunction? left right
  else left.bind fun left => right.bind fun right => binary? operator left right

namespace Expression

variable (macros : Macros) (value? : ParseTree → Option Int64)

def value : Expression → Option Int64
  | .number text => integer? text.toList
  | .constant value => some value
  | .name text => (macros.value? text).getD (some 0)
  | .defined text => some (truth (macros.isDefined text))
  | .group inner => value? inner
  | .unary operator argument => (value? argument).bind (unary? operator)
  | .binary operator left right => operation? operator (value? left) (right.bind value?)
  | .conditional condition consequence alternative =>
      (value? condition).bind fun condition =>
        (if condition = 0 then alternative else consequence).bind value?
  | .unknown => none

end Expression

/-! ## One level of evaluation -/

variable (source : List Char) (macros : Macros)

/-- Conjunctions and disjunctions settle themselves what comes of an undecided operand; all other
operations need both of them. -/
theorem operation?_eq (operator : String) (left right : Option Int64) :
    operation? operator left right =
      match operator, left, right with
      | "&&", left, right => conjunction? left right
      | "||", left, right => disjunction? left right
      | other, some left, some right => binary? other left right
      | _, _, _ => none := by
  unfold operation?
  split
  · rename_i isAnd
    subst isAnd
    rfl
  · split
    · rename_i isOr
      subst isOr
      rfl
    · cases left <;> cases right <;> simp_all

/-- A node at a level has the value of its form, made from the values at the next level. -/
theorem evaluateWithin_succ (levels : Nat) (tree : ParseTree) :
    evaluateWithin source macros (levels + 1) tree =
      (expression source tree).value macros (evaluateWithin source macros levels) := by
  unfold evaluateWithin expression
  generalize tree.kind = kind
  split
  · rfl
  · rfl
  · rfl
  · simp only [Expression.value]
    cases macros.value? (tree.text source) <;> rfl
  · simp only
    cases tree.namedChildren <;> rfl
  · simp only
    cases tree.namedChildren <;> rfl
  · simp only
    cases tree.child? "operator" <;> cases tree.child? "argument" <;> try rfl
    rename_i operator argument
    simp only [Expression.value]
    cases evaluateWithin source macros levels argument <;> rfl
  · simp only
    cases tree.child? "operator" <;> cases tree.child? "left" <;> try rfl
    rename_i operator left
    simp only [Expression.value]
    cases tree.child? "right" <;> exact (operation?_eq _ _ _).symm
  · simp only
    cases tree.child? "condition" with
    | none => rfl
    | some condition =>
      simp only [Expression.value]
      cases evaluateWithin source macros levels condition with
      | none => rfl
      | some value =>
        simp only [Option.bind_some]
        split
        · cases tree.child? "alternative" <;> rfl
        · cases tree.child? "consequence" <;> rfl
  · simp only [Expression.value]

end CrossReference.Condition
