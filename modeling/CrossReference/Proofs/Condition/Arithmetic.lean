import CrossReference.Proofs.Condition.Expression
import CrossReference.Proofs.ParseTree.Within
import Mathlib.Data.Int.Bitwise

/-!
# Arithmetic of conditions

Conditions are computed in words, and `exactOperation?` computes in all integers.  An operation on
two words has no value just where a machine `Traps`, and otherwise its value is the exact result,
reduced to a word.  Sums, products and the operations on bits can be reduced at any time, so that an
expression made of them has its exact value, reduced once at the end, whatever overflows in between.
-/

set_option autoImplicit false

namespace CrossReference.Condition

/-! ## Words as remainders of integers -/

section Words

theorem getLsbD_ofInt (width : Nat) (value : Int) (bit : Nat) :
    (BitVec.ofInt width value).getLsbD bit = (decide (bit < width) && value.testBit bit) := by
  cases value with
  | ofNat value => exact BitVec.getLsbD_ofNat width value bit
  | negSucc value =>
    rw [BitVec.ofInt_negSucc_eq_not_ofNat, BitVec.getLsbD_not, BitVec.getLsbD_ofNat]
    cases decide (bit < width) <;> rfl

theorem ofInt_eq_of_bits {value : Int} {word : Int64}
    (bits : ∀ bit < 64, value.testBit bit = word.toBitVec.getLsbD bit) :
    Int64.ofInt value = word := by
  apply Int64.toBitVec_inj.1
  rw [Int64.toBitVec_ofInt]
  apply BitVec.eq_of_getLsbD_eq
  intro bit inside
  rw [getLsbD_ofInt, decide_eq_true inside, Bool.true_and, bits bit inside]

theorem testBit_eq_getLsbD (value : Int) {bit : Nat} (inside : bit < 64) :
    (Int64.ofInt value).toBitVec.getLsbD bit = value.testBit bit := by
  rw [Int64.toBitVec_ofInt, getLsbD_ofInt, decide_eq_true inside, Bool.true_and]

theorem ofInt_land (left right : Int) :
    Int64.ofInt (left.land right) = Int64.ofInt left &&& Int64.ofInt right := by
  apply ofInt_eq_of_bits
  intro bit inside
  rw [Int.testBit_land, Int64.toBitVec_and, BitVec.getLsbD_and, testBit_eq_getLsbD left inside,
    testBit_eq_getLsbD right inside]

theorem ofInt_lor (left right : Int) :
    Int64.ofInt (left.lor right) = Int64.ofInt left ||| Int64.ofInt right := by
  apply ofInt_eq_of_bits
  intro bit inside
  rw [Int.testBit_lor, Int64.toBitVec_or, BitVec.getLsbD_or, testBit_eq_getLsbD left inside,
    testBit_eq_getLsbD right inside]

theorem ofInt_xor (left right : Int) :
    Int64.ofInt (Int.xor left right) = Int64.ofInt left ^^^ Int64.ofInt right := by
  apply ofInt_eq_of_bits
  intro bit inside
  rw [Int.testBit_lxor, Int64.toBitVec_xor, BitVec.getLsbD_xor, testBit_eq_getLsbD left inside,
    testBit_eq_getLsbD right inside]

theorem ofInt_lnot (value : Int) : Int64.ofInt (-value - 1) = ~~~Int64.ofInt value := by
  have turned : -value - 1 = value.lnot := by
    cases value <;> simp only [Int.lnot, Int.ofNat_eq_natCast] <;> omega
  rw [turned]
  apply ofInt_eq_of_bits
  intro bit inside
  rw [Int.testBit_lnot, Int64.toBitVec_not, BitVec.getLsbD_not, testBit_eq_getLsbD value inside,
    decide_eq_true inside, Bool.true_and]

theorem div_eq_ofInt (left right : Int64) :
    left / right = Int64.ofInt (left.toInt.tdiv right.toInt) := by
  apply Int64.toInt_inj.1
  rw [Int64.toInt_div, Int64.toInt_ofInt]

theorem mod_eq_ofInt (left right : Int64) :
    left % right = Int64.ofInt (left.toInt.tmod right.toInt) := by
  rw [← Int64.toInt_mod, Int64.ofInt_toInt]

theorem ofInt_two_pow (exponent : Nat) :
    BitVec.ofInt 64 (2 ^ exponent) = BitVec.twoPow 64 exponent := by
  have cast : (2 : Int) ^ exponent = ((2 ^ exponent : Nat) : Int) := by
    push_cast
    rfl
  apply BitVec.eq_of_toNat_eq
  rw [cast, BitVec.ofInt_natCast, BitVec.toNat_ofNat, BitVec.toNat_twoPow]

variable (value : Int64) {amount : Int64}

theorem toNat_smod_eq (inside : 0 ≤ amount.toInt ∧ amount.toInt < 64) :
    (amount.toBitVec.smod 64).toNat = amount.toInt.toNat := by
  have same : (amount.toBitVec.smod 64).toInt = amount.toInt := by
    rw [BitVec.toInt_smod]
    exact Int.fmod_eq_of_lt inside.1 inside.2
  have nonnegative : (0 : BitVec 64).sle (amount.toBitVec.smod 64) := by
    rw [BitVec.sle_iff_toInt_le, same]
    exact inside.1
  rw [← same]
  exact (BitVec.toNat_toInt_of_sle nonnegative).symm

theorem shiftLeft_eq_ofInt (inside : 0 ≤ amount.toInt ∧ amount.toInt < 64) :
    value <<< amount = Int64.ofInt (value.toInt * 2 ^ amount.toInt.toNat) := by
  apply Int64.toBitVec_inj.1
  rw [Int64.toBitVec_shiftLeft, BitVec.shiftLeft_eq', toNat_smod_eq inside,
    BitVec.shiftLeft_eq_mul_twoPow, Int64.toBitVec_ofInt, BitVec.ofInt_mul, ofInt_two_pow]
  exact congrArg (· * _) BitVec.ofInt_toInt.symm

theorem shiftRight_eq_ofInt (inside : 0 ≤ amount.toInt ∧ amount.toInt < 64) :
    value >>> amount = Int64.ofInt (value.toInt / 2 ^ amount.toInt.toNat) := by
  have shifted : (value.toBitVec.sshiftRight amount.toInt.toNat).toInt =
      value.toInt / 2 ^ amount.toInt.toNat := by
    rw [BitVec.toInt_sshiftRight, Int.shiftRight_eq_div_pow]
    push_cast
    rfl
  apply Int64.toBitVec_inj.1
  rw [Int64.toBitVec_shiftRight, BitVec.sshiftRight', toNat_smod_eq inside, Int64.toBitVec_ofInt,
    ← shifted, BitVec.ofInt_toInt]

end Words

/-! ## Operations -/

/-- Whether a machine has no answer for an operator and two words: there is no quotient and no
remainder by zero, nor of the smallest word by minus one, and a shift is by 0 to 63 bits. -/
def Traps (operator : String) (left right : Int64) : Prop :=
  operator ∈ ["/", "%"] ∧ (right = 0 ∨ left = Int64.minValue ∧ right = -1) ∨
    operator ∈ ["<<", ">>"] ∧ (right.toInt < 0 ∨ 63 < right.toInt)

/-- The exact result of an operation on integers; quotients are rounded towards zero. -/
def exactOperation? (operator : String) (left right : Int) : Option Int :=
  match operator with
  | "+" => some (left + right)
  | "-" => some (left - right)
  | "*" => some (left * right)
  | "&" => some (left.land right)
  | "|" => some (left.lor right)
  | "^" => some (Int.xor left right)
  | "/" => some (left.tdiv right)
  | "%" => some (left.tmod right)
  | "<<" => some (left * 2 ^ right.toNat)
  | ">>" => some (left / 2 ^ right.toNat)
  | _ => none

/-- The operators whose results do not depend on whether operands were reduced before. -/
def reducibleOperators : List String :=
  ["+", "-", "*", "&", "|", "^"]

def exactUnary? (operator : String) (value : Int) : Option Int :=
  match operator with
  | "+" => some value
  | "-" => some (-value)
  | "~" => some (-value - 1)
  | _ => none

theorem isShift_iff (amount : Int64) :
    isShift amount = true ↔ 0 ≤ amount.toInt ∧ amount.toInt < 64 := by
  unfold isShift
  rw [Bool.and_eq_true, decide_eq_true_eq, decide_eq_true_eq, Int64.le_iff_toInt_le,
    Int64.lt_iff_toInt_lt]
  rfl

theorem divides_iff (left right : Int64) :
    divides left right = true ↔ ¬(right = 0 ∨ left = Int64.minValue ∧ right = -1) := by
  simp only [divides, Bool.and_eq_true, decide_eq_true_eq, Bool.not_eq_true', Bool.and_eq_false_iff,
    decide_eq_false_iff_not, not_or, not_and_or]

theorem binary?_eq_none_of_traps {operator : String} {left right : Int64}
    (traps : Traps operator left right) : binary? operator left right = none := by
  rcases traps with ⟨isDivision, noQuotient⟩ | ⟨isShifting, outside⟩
  · have refused : ¬ divides left right = true := fun divides =>
      (divides_iff left right).1 divides noQuotient
    simp only [List.mem_cons, List.not_mem_nil, or_false] at isDivision
    rcases isDivision with rfl | rfl <;> exact if_neg refused
  · have refused : ¬ isShift right = true := by
      rw [isShift_iff]
      omega
    simp only [List.mem_cons, List.not_mem_nil, or_false] at isShifting
    rcases isShifting with rfl | rfl <;> exact if_neg refused

theorem binary?_ofInt {operator : String} {left right result : Int}
    (reducible : operator ∈ reducibleOperators)
    (exactly : exactOperation? operator left right = some result) :
    binary? operator (Int64.ofInt left) (Int64.ofInt right) = some (Int64.ofInt result) := by
  simp only [reducibleOperators, List.mem_cons, List.not_mem_nil, or_false] at reducible
  rcases reducible with rfl | rfl | rfl | rfl | rfl | rfl <;>
    rw [← Option.some.inj exactly]
  · rw [Int64.ofInt_add]; rfl
  · rw [Int64.ofInt_sub]; rfl
  · rw [Int64.ofInt_mul]; rfl
  · rw [ofInt_land]; rfl
  · rw [ofInt_lor]; rfl
  · rw [ofInt_xor]; rfl

theorem mem_operators_of_exact {operator : String} {left right result : Int}
    (exactly : exactOperation? operator left right = some result) :
    operator ∈ reducibleOperators ∨ operator ∈ ["/", "%"] ∨ operator ∈ ["<<", ">>"] := by
  unfold exactOperation? at exactly
  split at exactly
  case h_11 => cases exactly
  all_goals decide

theorem ne_logical_of_mem {operator : String}
    (member : operator ∈ reducibleOperators ∨ operator ∈ ["/", "%"] ∨ operator ∈ ["<<", ">>"]) :
    operator ≠ "&&" ∧ operator ≠ "||" := by
  have members : ∀ other ∈ reducibleOperators ++ (["/", "%"] ++ ["<<", ">>"]),
      other ≠ "&&" ∧ other ≠ "||" := by decide
  apply members
  rwa [List.mem_append, List.mem_append]

/-- Where a machine has an answer the operation has the exact result, reduced to a word. -/
theorem binary?_eq_exact {operator : String} {left right : Int64} {result : Int}
    (answers : ¬ Traps operator left right)
    (exactly : exactOperation? operator left.toInt right.toInt = some result) :
    binary? operator left right = some (Int64.ofInt result) := by
  rw [Traps, not_or] at answers
  rcases mem_operators_of_exact exactly with reducible | isDivision | isShifting
  · have reduced := binary?_ofInt reducible exactly
    rwa [Int64.ofInt_toInt, Int64.ofInt_toInt] at reduced
  · have accepted : divides left right = true :=
      (divides_iff left right).2 fun noQuotient => answers.1 ⟨isDivision, noQuotient⟩
    simp only [List.mem_cons, List.not_mem_nil, or_false] at isDivision
    rcases isDivision with rfl | rfl <;> rw [← Option.some.inj exactly]
    · rw [← div_eq_ofInt]
      exact if_pos accepted
    · rw [← mod_eq_ofInt]
      exact if_pos accepted
  · have inside : 0 ≤ right.toInt ∧ right.toInt < 64 := by
      by_contra outside
      exact answers.2 ⟨isShifting, by omega⟩
    have accepted : isShift right = true := (isShift_iff right).2 inside
    simp only [List.mem_cons, List.not_mem_nil, or_false] at isShifting
    rcases isShifting with rfl | rfl <;> rw [← Option.some.inj exactly]
    · rw [← shiftLeft_eq_ofInt left inside]
      exact if_pos accepted
    · rw [← shiftRight_eq_ofInt left inside]
      exact if_pos accepted

theorem unary?_ofInt {operator : String} {value result : Int}
    (exactly : exactUnary? operator value = some result) :
    unary? operator (Int64.ofInt value) = some (Int64.ofInt result) := by
  unfold exactUnary? at exactly
  split at exactly
  case h_1 => rw [← Option.some.inj exactly]; rfl
  case h_2 => rw [← Option.some.inj exactly, Int64.ofInt_neg]; rfl
  case h_3 => rw [← Option.some.inj exactly, ofInt_lnot]; rfl
  case h_4 => cases exactly

/-! ## Conditions -/

variable (source : List Char) (macros : Macros)

/-- A condition of at most the given number of levels is made of integers and of macros with a
value, in parentheses, under signs and between reducible operators, and this is what it comes to in
all integers. -/
inductive ExactValue : Nat → ParseTree → Int → Prop where
  | number {levels : Nat} {tree : ParseTree} {text : String} {word : Int64}
      (form : expression source tree = .number text) (read : integer? text.toList = some word) :
      ExactValue (levels + 1) tree word.toInt
  | name {levels : Nat} {tree : ParseTree} {text : String} {word : Int64}
      (form : expression source tree = .name text)
      (valued : macros.value? text = some (some word)) : ExactValue (levels + 1) tree word.toInt
  | group {levels : Nat} {tree inner : ParseTree} {value : Int}
      (form : expression source tree = .group inner) (inside : ExactValue levels inner value) :
      ExactValue (levels + 1) tree value
  | unary {levels : Nat} {tree argument : ParseTree} {operator : String} {value result : Int}
      (form : expression source tree = .unary operator argument)
      (inside : ExactValue levels argument value)
      (exactly : exactUnary? operator value = some result) : ExactValue (levels + 1) tree result
  | binary {levels : Nat} {tree left right : ParseTree} {operator : String}
      {leftValue rightValue result : Int}
      (form : expression source tree = .binary operator left (some right))
      (leftInside : ExactValue levels left leftValue)
      (rightInside : ExactValue levels right rightValue)
      (reducible : operator ∈ reducibleOperators)
      (exactly : exactOperation? operator leftValue rightValue = some result) :
      ExactValue (levels + 1) tree result

variable {source : List Char} {macros : Macros}

/-- A node whose two operands are decided has the value of the operation on them. -/
theorem evaluateWithin_binary {levels : Nat} {tree left right : ParseTree} {operator : String}
    {leftWord rightWord : Int64} (form : expression source tree = .binary operator left (some right))
    (arithmetic : operator ≠ "&&" ∧ operator ≠ "||")
    (leftDecided : evaluateWithin source macros levels left = some leftWord)
    (rightDecided : evaluateWithin source macros levels right = some rightWord) :
    evaluateWithin source macros (levels + 1) tree = binary? operator leftWord rightWord := by
  rw [evaluateWithin_succ, form, Expression.value, operation?, if_neg arithmetic.1,
    if_neg arithmetic.2, leftDecided, Option.bind_some, Option.bind_some, rightDecided,
    Option.bind_some]

theorem ExactValue.evaluateWithin_eq {levels : Nat} {tree : ParseTree} {value : Int}
    (exactly : ExactValue source macros levels tree value) :
    evaluateWithin source macros levels tree = some (Int64.ofInt value) := by
  induction exactly with
  | number form read =>
    rw [evaluateWithin_succ, form, Expression.value, read, Int64.ofInt_toInt]
  | name form valued =>
    rw [evaluateWithin_succ, form, Expression.value, valued, Int64.ofInt_toInt]
    rfl
  | group form _ ih =>
    rw [evaluateWithin_succ, form]
    exact ih
  | unary form _ exactly ih =>
    rw [evaluateWithin_succ, form, Expression.value, ih]
    exact unary?_ofInt exactly
  | binary form _ _ reducible exactly leftDecided rightDecided =>
    rw [evaluateWithin_binary form (ne_logical_of_mem (.inl reducible)) leftDecided rightDecided]
    exact binary?_ofInt reducible exactly

/-- No operation is computed where a machine has no answer: wherever a node is, and whatever the
macros are, an operation on two decided operands is undecided if a machine `Traps` on them, and
otherwise it gives the exact result, reduced to the words of 64 bits, as a sign on a decided operand
always does.  A condition that is made of integers, macros with a value, parentheses, signs and
reducible operators, and is no deeper than the bound, is decided and has its exact value, reduced
once. -/
theorem arithmetic_is_exact_modulo_words (source : List Char) (macros : Macros) :
    (∀ levels tree operator left right leftWord rightWord,
      expression source tree = .binary operator left (some right) →
      evaluateWithin source macros levels left = some leftWord →
      evaluateWithin source macros levels right = some rightWord →
      (Traps operator leftWord rightWord →
        evaluateWithin source macros (levels + 1) tree = none) ∧
      ∀ result, ¬ Traps operator leftWord rightWord →
        exactOperation? operator leftWord.toInt rightWord.toInt = some result →
        (evaluateWithin source macros (levels + 1) tree).map Int64.toInt =
          some (result.bmod (2 ^ 64))) ∧
    (∀ levels tree operator argument word result,
      expression source tree = .unary operator argument →
      evaluateWithin source macros levels argument = some word →
      exactUnary? operator word.toInt = some result →
      (evaluateWithin source macros (levels + 1) tree).map Int64.toInt =
        some (result.bmod (2 ^ 64))) ∧
    ∀ tree value, ExactValue source macros maxLevels tree value →
      (evaluate source macros tree).map Int64.toInt = some (value.bmod (2 ^ 64)) := by
  refine ⟨?_, ?_, ?_⟩
  · intro levels tree operator left right leftWord rightWord form leftDecided rightDecided
    constructor
    · intro traps
      have arithmetic := ne_logical_of_mem (.inr (traps.imp And.left And.left))
      rw [evaluateWithin_binary form arithmetic leftDecided rightDecided]
      exact binary?_eq_none_of_traps traps
    · intro result answers exactly
      have arithmetic := ne_logical_of_mem (mem_operators_of_exact exactly)
      rw [evaluateWithin_binary form arithmetic leftDecided rightDecided,
        binary?_eq_exact answers exactly, Option.map_some, Int64.toInt_ofInt]
      rfl
  · intro levels tree operator argument word result form decided exactly
    have signed := unary?_ofInt exactly
    rw [Int64.ofInt_toInt] at signed
    rw [evaluateWithin_succ, form, Expression.value, decided, Option.bind_some, signed,
      Option.map_some, Int64.toInt_ofInt]
    rfl
  · intro tree value exactly
    rw [evaluate, exactly.evaluateWithin_eq, Option.map_some, Int64.toInt_ofInt]
    rfl

def sumTree : ParseTree :=
  .ruleNode 3 "binary_expression" "" 1 4
    [.ruleNode 4 "identifier" "left" 1 2 [],
      .node ⟨5, "+", "operator", false, false, false, 2, 3⟩ [],
      .ruleNode 6 "number_literal" "right" 3 4 []]

def negatedTree : ParseTree :=
  .ruleNode 9 "unary_expression" "right" 6 8
    [.node ⟨10, "-", "operator", false, false, false, 6, 7⟩ [],
      .ruleNode 11 "number_literal" "argument" 7 8 []]

def productTree : ParseTree :=
  .ruleNode 0 "binary_expression" "condition" 0 8
    [.ruleNode 1 "parenthesized_expression" "left" 0 5
      [.node ⟨2, "(", "", false, false, false, 0, 1⟩ [], sumTree,
        .node ⟨7, ")", "", false, false, false, 4, 5⟩ []],
      .node ⟨8, "*", "operator", false, false, false, 5, 6⟩ [], negatedTree]

def remainderTree : ParseTree :=
  .ruleNode 0 "binary_expression" "condition" 0 3
    [.ruleNode 1 "identifier" "left" 0 1 [],
      .node ⟨2, "%", "operator", false, false, false, 1, 2⟩ [],
      .ruleNode 3 "number_literal" "right" 2 3 []]

/-- The sum of the largest word and one overflows, and its product with minus three is the exact
one, reduced.  There is no remainder by zero. -/
theorem overflow_cancels_in_product :
    ExactValue "(M+1)*-3".toList [("M", some Int64.maxValue)] maxLevels productTree
      ((Int64.maxValue.toInt + 1) * -3) ∧
    (evaluate "(M+1)*-3".toList [("M", some Int64.maxValue)] productTree).map Int64.toInt =
      some (-2 ^ 63) ∧
    evaluate "M%0".toList [("M", some Int64.maxValue)] remainderTree = none := by
  have one : integer? "1".toList = some 1 := by decide +kernel
  have three : integer? "3".toList = some 3 := by decide +kernel
  have sum : ExactValue "(M+1)*-3".toList [("M", some Int64.maxValue)] 127 sumTree
      (Int64.maxValue.toInt + 1) :=
    .binary rfl (.name rfl rfl) (.number rfl one) (by decide) rfl
  have negated : ExactValue "(M+1)*-3".toList [("M", some Int64.maxValue)] 128 negatedTree (-3) :=
    .unary rfl (.number rfl three) rfl
  have product : ExactValue "(M+1)*-3".toList [("M", some Int64.maxValue)] maxLevels productTree
      ((Int64.maxValue.toInt + 1) * -3) :=
    .binary rfl (.group rfl sum) negated (by decide) rfl
  refine ⟨product, (arithmetic_is_exact_modulo_words _ _).2.2 _ _ product, ?_⟩
  exact ((arithmetic_is_exact_modulo_words _ _).1 128 _ _ _ _ Int64.maxValue 0 rfl
    (by decide +kernel) (by decide +kernel)).1 (.inl ⟨by decide, .inl rfl⟩)

end CrossReference.Condition
