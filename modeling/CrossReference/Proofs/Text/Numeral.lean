import CrossReference.Text.Numeral

/-!
# Reading decimal numerals

The digits that a number is written with are read as the number.  No number but zero is written with
a zero in front.
-/

set_option autoImplicit false

namespace CrossReference.Numeral

theorem digitValue?_digit : ∀ value < 10, digitValue? 10 (digit value) = some value := by
  decide

theorem eq_zero_of_digit : ∀ value < 10, digit value = '0' → value = 0 := by
  decide

theorem valueFrom_append (base : Nat) (first last : List Char) (read : Nat) :
    valueFrom base read (first ++ last) =
      (valueFrom base read first).bind fun value => valueFrom base value last := by
  induction first generalizing read with
  | nil => rfl
  | cons c rest ih =>
    simp only [List.cons_append, valueFrom]
    cases digitValue? base c with
    | none => rfl
    | some value => exact ih _

theorem decimalDigits_ne_nil (value : Nat) : decimalDigits value ≠ [] := by
  rw [decimalDigits]
  split
  · exact List.cons_ne_nil _ _
  · simp

theorem valueFrom_decimalDigits (value : Nat) :
    valueFrom 10 0 (decimalDigits value) = some value := by
  fun_induction decimalDigits value with
  | case1 value small => simp [valueFrom, digitValue?_digit value small]
  | case2 value large ih =>
    have last : digitValue? 10 (digit (value % 10)) = some (value % 10) :=
      digitValue?_digit (value % 10) (by omega)
    rw [valueFrom_append, ih]
    simp only [Option.bind_some, valueFrom, last, Option.some.injEq]
    omega

theorem value?_decimalDigits (value : Nat) : value? 10 (decimalDigits value) = some value := by
  have nonempty := decimalDigits_ne_nil value
  have read := valueFrom_decimalDigits value
  unfold value?
  cases digits : decimalDigits value with
  | nil => exact absurd digits nonempty
  | cons first rest => rwa [digits] at read

theorem forall_mem_decimalDigits {holds : Char → Prop} (each : ∀ value < 10, holds (digit value))
    (value : Nat) : ∀ c ∈ decimalDigits value, holds c := by
  fun_induction decimalDigits value with
  | case1 value small =>
    intro c member
    rw [List.mem_singleton.1 member]
    exact each value small
  | case2 value large ih =>
    intro c member
    rcases List.mem_append.1 member with first | last
    · exact ih c first
    · rw [List.mem_singleton.1 last]
      exact each (value % 10) (by omega)

theorem length_eq_one_of_head?_eq_zero {value : Nat}
    (zero : (decimalDigits value).head? = some '0') : (decimalDigits value).length = 1 := by
  have isZero : value = 0 := by
    fun_induction decimalDigits value with
    | case1 value small => exact eq_zero_of_digit value small (by simpa using zero)
    | case2 value large ih =>
      obtain ⟨c, rest, digits⟩ := List.exists_cons_of_ne_nil (decimalDigits_ne_nil (value / 10))
      rw [digits] at zero ih
      have quotient : value / 10 = 0 := ih (by simpa using zero)
      omega
  rw [isZero, decimalDigits]
  rfl

end CrossReference.Numeral
