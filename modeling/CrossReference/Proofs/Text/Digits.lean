import CrossReference.Text.Numeral
import Mathlib.Data.List.Forall2
import Mathlib.Data.Nat.Digits.Defs
import Mathlib.Tactic.Ring

/-!
# Digits of any base

`Numeral.value?` reads a text just if it is a row of digits of the base, and then it gives the number
in which each digit counts by the power of the base that its place stands for.
-/

set_option autoImplicit false

namespace CrossReference.Numeral

def IsDigit (base : Nat) (c : Char) (value : Nat) : Prop :=
  value < base ∧ (c = digit value ∨ c = (digit value).toUpper)

def Denotes (base : Nat) (text : List Char) (number : Nat) : Prop :=
  text ≠ [] ∧ ∃ values, List.Forall₂ (IsDigit base) text values ∧
    number = Nat.ofDigits base values.reverse

theorem digitValue?_of_isDigit : ∀ base ≤ 16, ∀ value < base,
    digitValue? base (digit value) = some value ∧
      digitValue? base (digit value).toUpper = some value := by
  decide +kernel

theorem digit_of_code : ∀ value < 16,
    (value < 10 → Char.ofNat (value + 48) = digit value) ∧
      (10 ≤ value → Char.ofNat (value + 87) = digit value ∧
        Char.ofNat (value + 55) = (digit value).toUpper) := by
  decide +kernel

theorem digitValue?_eq_some_iff {base : Nat} (small : base ≤ 16) (c : Char) (value : Nat) :
    digitValue? base c = some value ↔ IsDigit base c value := by
  constructor
  · intro read
    obtain ⟨read, below⟩ := Option.filter_eq_some_iff.1 read
    have inside : value < base := of_decide_eq_true below
    obtain ⟨decimal, letter⟩ := digit_of_code value (by omega)
    refine ⟨inside, ?_⟩
    have code {low high : Char} (between : low ≤ c ∧ c ≤ high) :
        low.toNat ≤ c.toNat ∧ c.toNat ≤ high.toNat := between
    rw [← Char.ofNat_toNat c]
    split at read
    case isTrue between =>
      have bounds : 48 ≤ c.toNat ∧ c.toNat ≤ 57 := code between
      have isValue : c.toNat - 48 = value := Option.some.inj read
      rw [show c.toNat = value + 48 by omega]
      exact .inl (decimal (by omega))
    split at read
    case isTrue between =>
      have bounds : 97 ≤ c.toNat ∧ c.toNat ≤ 122 := code between
      have isValue : c.toNat - 97 + 10 = value := Option.some.inj read
      rw [show c.toNat = value + 87 by omega]
      exact .inl (letter (by omega)).1
    split at read
    case isTrue between =>
      have bounds : 65 ≤ c.toNat ∧ c.toNat ≤ 90 := code between
      have isValue : c.toNat - 65 + 10 = value := Option.some.inj read
      rw [show c.toNat = value + 55 by omega]
      exact .inr (letter (by omega)).2
    · cases read
  · rintro ⟨inside, rfl | rfl⟩
    · exact (digitValue?_of_isDigit base small value inside).1
    · exact (digitValue?_of_isDigit base small value inside).2

theorem valueFrom_eq_some_iff {base : Nat} (small : base ≤ 16) (read : Nat) (text : List Char)
    (number : Nat) :
    valueFrom base read text = some number ↔
      ∃ values, List.Forall₂ (IsDigit base) text values ∧
        number = read * base ^ text.length + Nat.ofDigits base values.reverse := by
  induction text generalizing read with
  | nil =>
    simp only [valueFrom, List.forall₂_nil_left_iff, exists_eq_left, List.reverse_nil,
      Nat.ofDigits_nil, List.length_nil, Nat.pow_zero, Nat.mul_one, Nat.add_zero,
      Option.some.injEq, eq_comm]
  | cons c rest ih =>
    have step (value : Nat) (values : List Nat) (all : List.Forall₂ (IsDigit base) rest values) :
        (read * base + value) * base ^ rest.length + Nat.ofDigits base values.reverse =
          read * base ^ (c :: rest).length + Nat.ofDigits base (value :: values).reverse := by
      rw [List.reverse_cons, Nat.ofDigits_append, List.length_reverse, ← all.length_eq,
        Nat.ofDigits_singleton, List.length_cons, Nat.pow_succ]
      ring
    rw [valueFrom]
    constructor
    · intro whole
      cases first : digitValue? base c with
      | none => rw [first] at whole; cases whole
      | some value =>
        rw [first] at whole
        obtain ⟨values, all, total⟩ := (ih (read * base + value)).1 whole
        refine ⟨value :: values, .cons ((digitValue?_eq_some_iff small c value).1 first) all, ?_⟩
        rw [total, step value values all]
    · rintro ⟨values, all, total⟩
      cases all with
      | cons first others =>
        rename_i value values
        rw [(digitValue?_eq_some_iff small c value).2 first]
        refine (ih (read * base + value)).2 ⟨values, others, ?_⟩
        rw [total, step value values others]

/-- Exactly the rows of digits of the base are read, each as the number that they make up. -/
theorem value?_eq_some_iff {base : Nat} (small : base ≤ 16) (text : List Char) (number : Nat) :
    value? base text = some number ↔ Denotes base text number := by
  cases text with
  | nil => exact ⟨nofun, fun denotes => absurd rfl denotes.1⟩
  | cons c rest =>
    rw [value?, valueFrom_eq_some_iff small]
    simp only [Nat.zero_mul, Nat.zero_add]
    exact ⟨fun found => ⟨List.cons_ne_nil c rest, found⟩, fun denotes => denotes.2⟩

theorem sign_not_mem_digits : ∀ value < 16, '+' ∉ [digit value, (digit value).toUpper] ∧
    '-' ∉ [digit value, (digit value).toUpper] := by
  decide +kernel

theorem Denotes.ne_sign {base : Nat} (small : base ≤ 16) {text : List Char} {number : Nat}
    (denotes : Denotes base text number) : ∀ c ∈ text, c ≠ '+' ∧ c ≠ '-' := by
  obtain ⟨-, values, all, -⟩ := denotes
  induction all with
  | nil => exact nofun
  | @cons c value text values first _ ih =>
    intro other member
    rcases List.mem_cons.1 member with rfl | later
    · obtain ⟨inside, written⟩ := first
      obtain ⟨noPlus, noMinus⟩ := sign_not_mem_digits value (by omega)
      have isDigit : other ∈ [digit value, (digit value).toUpper] := by simpa using written
      exact ⟨ne_of_mem_of_not_mem isDigit noPlus, ne_of_mem_of_not_mem isDigit noMinus⟩
    · exact ih other later

end CrossReference.Numeral
