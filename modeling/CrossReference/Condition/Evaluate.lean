import CrossReference.Condition.Integer
import CrossReference.Condition.Macros
import CrossReference.ParseTree

/-!
# Deciding conditions

`evaluate` gives the value of a condition, or nothing if the condition cannot be decided.  A name
that is no macro is zero.  A macro whose body is no integer, a division by zero, an overflowing
quotient and a shift by too many bits have no value, but an operand that settles a conjunction or
disjunction settles it whatever the other one is.
-/

set_option autoImplicit false

namespace CrossReference.Condition

def truth (holds : Bool) : Int64 :=
  if holds then 1 else 0

/-- Whether a quotient by the word exists and is a word. -/
def divides (left right : Int64) : Bool :=
  right ≠ 0 && !(left = Int64.minValue && right = -1)

def isShift (amount : Int64) : Bool :=
  0 ≤ amount && amount < 64

def unary? (operator : String) (value : Int64) : Option Int64 :=
  match operator with
  | "!" => some (truth (value = 0))
  | "-" => some (-value)
  | "+" => some value
  | "~" => some (~~~value)
  | _ => none

def binary? (operator : String) (left right : Int64) : Option Int64 :=
  match operator with
  | "+" => some (left + right)
  | "-" => some (left - right)
  | "*" => some (left * right)
  | "/" => if divides left right then some (left / right) else none
  | "%" => if divides left right then some (left % right) else none
  | "<<" => if isShift right then some (left <<< right) else none
  | ">>" => if isShift right then some (left >>> right) else none
  | "&" => some (left &&& right)
  | "|" => some (left ||| right)
  | "^" => some (left ^^^ right)
  | "==" => some (truth (left = right))
  | "!=" => some (truth (left ≠ right))
  | "<" => some (truth (left < right))
  | "<=" => some (truth (left ≤ right))
  | ">" => some (truth (right < left))
  | ">=" => some (truth (right ≤ left))
  | _ => none

def conjunction? : Option Int64 → Option Int64 → Option Int64
  | some left, right =>
      if left = 0 then some 0 else right.map fun right => truth (right ≠ 0)
  | none, some right => if right = 0 then some 0 else none
  | none, none => none

def disjunction? : Option Int64 → Option Int64 → Option Int64
  | some left, right =>
      if left = 0 then right.map fun right => truth (right ≠ 0) else some 1
  | none, some right => if right = 0 then none else some 1
  | none, none => none

/-- The number of levels of a condition that are looked at. -/
def maxLevels : Nat := 129

variable (source : List Char) (macros : Macros)

/-- The value of a condition of at most the given number of levels. -/
def evaluateWithin : Nat → ParseTree → Option Int64
  | 0, _ => none
  | levels + 1, tree =>
      let part (name : String) : Option Int64 :=
        match tree.child? name with
        | some child => evaluateWithin levels child
        | none => none
      match tree.kind with
      | "number_literal" => integer? (tree.text source).toList
      | "true" => some 1
      | "false" => some 0
      | "identifier" =>
          match macros.value? (tree.text source) with
          | some value => value
          | none => some 0
      | "preproc_defined" =>
          match tree.namedChildren with
          | name :: _ => some (truth (macros.isDefined (name.text source)))
          | [] => none
      | "parenthesized_expression" =>
          match tree.namedChildren with
          | inner :: _ => evaluateWithin levels inner
          | [] => none
      | "unary_expression" =>
          match tree.child? "operator", part "argument" with
          | some operator, some value => unary? operator.kind value
          | _, _ => none
      | "binary_expression" =>
          match tree.child? "operator", tree.child? "left" with
          | some operator, some leftOperand =>
              match operator.kind, evaluateWithin levels leftOperand, part "right" with
              | "&&", left, right => conjunction? left right
              | "||", left, right => disjunction? left right
              | other, some left, some right => binary? other left right
              | _, _, _ => none
          | _, _ => none
      | "conditional_expression" =>
          match part "condition" with
          | none => none
          | some condition =>
              if condition = 0 then part "alternative" else part "consequence"
      | _ => none

def evaluate (tree : ParseTree) : Option Int64 :=
  evaluateWithin source macros maxLevels tree

end CrossReference.Condition
