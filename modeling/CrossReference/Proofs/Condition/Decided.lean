import CrossReference.Proofs.Condition.Expression
import CrossReference.Proofs.ParseTree.Within

/-!
# Decided conditions stay decided

A condition that is decided does not depend on what is not known.  An operand without a value may
get any value, or a node below the last level may be looked at: the operations keep each result that
they had, so that what is decided at a level with some macros is decided in the same way with at
least as many levels and with macros that have at least the same values.
-/

set_option autoImplicit false

namespace CrossReference.Condition

def DecidedAs {Value : Type} (first later : Option Value) : Prop :=
  ∀ value, first = some value → later = some value

namespace DecidedAs

variable {Value Other : Type} {first later : Option Value}

theorem refl (first : Option Value) : DecidedAs first first :=
  fun _ decided => decided

theorem of_none (later : Option Value) : DecidedAs none later :=
  fun _ => nofun

theorem bind {next nextLater : Value → Option Other} (decided : DecidedAs first later)
    (nextDecided : ∀ value, DecidedAs (next value) (nextLater value)) :
    DecidedAs (first.bind next) (later.bind nextLater) := by
  cases first with
  | none => exact of_none _
  | some value =>
    rw [decided value rfl]
    exact nextDecided value

theorem map (decided : DecidedAs first later) (apply : Value → Other) :
    DecidedAs (first.map apply) (later.map apply) := by
  rw [Option.map_eq_bind, Option.map_eq_bind]
  exact decided.bind fun _ => refl _

end DecidedAs

/-! ## Operations -/

variable {left leftLater right rightLater : Option Int64}

theorem conjunction?_zero (left : Option Int64) : conjunction? left (some 0) = some 0 := by
  cases left with
  | none => rfl
  | some left => by_cases zero : left = 0 <;> simp [conjunction?, truth, zero]

theorem disjunction?_of_ne_zero (left : Option Int64) {right : Int64} (nonzero : right ≠ 0) :
    disjunction? left (some right) = some 1 := by
  cases left with
  | none => simp [disjunction?, nonzero]
  | some left => by_cases zero : left = 0 <;> simp [disjunction?, truth, zero, nonzero]

theorem DecidedAs.conjunction? (leftDecided : DecidedAs left leftLater)
    (rightDecided : DecidedAs right rightLater) :
    DecidedAs (conjunction? left right) (conjunction? leftLater rightLater) := by
  cases left with
  | some left =>
    rw [leftDecided left rfl, Condition.conjunction?, Condition.conjunction?]
    split
    · exact .refl _
    · exact rightDecided.map _
  | none =>
    cases right with
    | none => exact .of_none _
    | some right =>
      rw [rightDecided right rfl]
      by_cases zero : right = 0
      · rw [zero, conjunction?_zero, conjunction?_zero]
        exact .refl _
      · rw [Condition.conjunction?, if_neg zero]
        exact .of_none _

theorem DecidedAs.disjunction? (leftDecided : DecidedAs left leftLater)
    (rightDecided : DecidedAs right rightLater) :
    DecidedAs (disjunction? left right) (disjunction? leftLater rightLater) := by
  cases left with
  | some left =>
    rw [leftDecided left rfl, Condition.disjunction?, Condition.disjunction?]
    split
    · exact rightDecided.map _
    · exact .refl _
  | none =>
    cases right with
    | none => exact .of_none _
    | some right =>
      rw [rightDecided right rfl]
      by_cases zero : right = 0
      · rw [zero]
        exact .of_none _
      · rw [disjunction?_of_ne_zero none zero, disjunction?_of_ne_zero leftLater zero]
        exact .refl _

theorem DecidedAs.operation? (operator : String) (leftDecided : DecidedAs left leftLater)
    (rightDecided : DecidedAs right rightLater) :
    DecidedAs (operation? operator left right) (operation? operator leftLater rightLater) := by
  unfold Condition.operation?
  split
  · exact leftDecided.conjunction? rightDecided
  · split
    · exact leftDecided.disjunction? rightDecided
    · exact leftDecided.bind fun _ => rightDecided.bind fun _ => .refl _

/-! ## Macros -/

namespace Macros

/-- The same names are macros, and each value that one of them has is kept.  A macro without a value
may get one. -/
structure KeptIn (macros later : Macros) : Prop where
  defined : ∀ name, later.isDefined name = macros.isDefined name
  valued : ∀ name value, macros.value? name = some (some value) →
    later.value? name = some (some value)

variable {macros later : Macros}

theorem isSome_value? (macros : Macros) (name : String) :
    (macros.value? name).isSome = macros.isDefined name := by
  rw [value?, isDefined, Option.isSome_map, List.isSome_find?]

theorem KeptIn.refl (macros : Macros) : KeptIn macros macros where
  defined _ := rfl
  valued _ _ := id

theorem KeptIn.decidedAs_value (kept : KeptIn macros later) (name : String) :
    DecidedAs ((macros.value? name).getD (some 0)) ((later.value? name).getD (some 0)) := by
  cases found : macros.value? name with
  | none =>
    have absent : later.value? name = none := by
      rw [← Option.not_isSome_iff_eq_none, isSome_value?, kept.defined, ← isSome_value?, found]
      exact Bool.false_ne_true
    rw [absent]
    exact .refl _
  | some body =>
    cases body with
    | none => exact .of_none _
    | some value =>
      rw [kept.valued name value found]
      exact .refl _

end Macros

/-! ## Evaluation -/

theorem Expression.decidedAs_value {macros later : Macros}
    {value? valueLater? : ParseTree → Option Int64} (kept : macros.KeptIn later)
    (decided : ∀ part, DecidedAs (value? part) (valueLater? part)) (expression : Expression) :
    DecidedAs (expression.value macros value?) (expression.value later valueLater?) := by
  cases expression with
  | number text => exact .refl _
  | constant value => exact .refl _
  | name text => exact kept.decidedAs_value text
  | defined text =>
    rw [value, value, kept.defined]
    exact .refl _
  | group inner => exact decided inner
  | unary operator argument => exact (decided argument).bind fun _ => .refl _
  | binary operator left right =>
    exact (decided left).operation? operator ((DecidedAs.refl right).bind decided)
  | conditional condition consequence alternative =>
    exact (decided condition).bind fun _ => (DecidedAs.refl _).bind decided
  | unknown => exact .refl _

variable (source : List Char)

/-- With more levels and more values of macros nothing that is decided is decided otherwise. -/
theorem decidedAs_evaluateWithin {macros later : Macros} (kept : macros.KeptIn later)
    {levels more : Nat} (ordered : levels ≤ more) (tree : ParseTree) :
    DecidedAs (evaluateWithin source macros levels tree)
      (evaluateWithin source later more tree) := by
  induction levels generalizing more tree with
  | zero => exact .of_none _
  | succ levels ih =>
    obtain ⟨more, rfl⟩ := Nat.exists_eq_add_of_lt ordered
    rw [evaluateWithin_succ, evaluateWithin_succ]
    exact Expression.decidedAs_value kept (fun part => ih (Nat.le_add_right levels more) part) _

/-- A decided condition has the same value with all macros of the same names that keep the values
that there were, whatever values those without one get. -/
theorem decided_with_any_values {source : List Char} {macros later : Macros} {tree : ParseTree}
    {value : Int64} (kept : macros.KeptIn later)
    (decided : evaluate source macros tree = some value) :
    evaluate source later tree = some value :=
  decidedAs_evaluateWithin source kept (Nat.le_refl maxLevels) tree value decided

def disjunctionTree : ParseTree :=
  .ruleNode 0 "binary_expression" "condition" 0 4
    [.ruleNode 1 "identifier" "left" 0 1 [],
      .node ⟨2, "||", "operator", false, false, false, 1, 3⟩ [],
      .ruleNode 3 "identifier" "right" 3 4 []]

/-- A macro whose body is no integer leaves it to the other operand to decide a disjunction. -/
theorem disjunction_is_decided_with_any_value :
    Macros.KeptIn [("A", none), ("N", some 3)] [("N", some 3), ("A", some 0)] ∧
    evaluate "A||N".toList [("A", none), ("N", some 3)] disjunctionTree = some 1 ∧
    evaluate "A||N".toList [("N", some 3), ("A", some 0)] disjunctionTree = some 1 := by
  have kept : Macros.KeptIn [("A", none), ("N", some 3)] [("N", some 3), ("A", some 0)] := by
    refine ⟨fun name => ?_, fun name value found => ?_⟩
    · simp [Macros.isDefined, Bool.or_comm]
    · by_cases isN : name = "N"
      · subst isN
        exact found
      · by_cases isA : name = "A" <;> simp [Macros.value?, isN, isA, eq_comm] at found
  have decided : evaluate "A||N".toList [("A", none), ("N", some 3)] disjunctionTree = some 1 := by
    decide +kernel
  exact ⟨kept, decided, decided_with_any_values kept decided⟩

end CrossReference.Condition
