import CrossReference.Condition.Integer
import CrossReference.Proofs.Text.Digits
import Mathlib.Data.List.TakeWhile

/-!
# Integers that are read

`Literal` tells which texts are integers, and which words they stand for: a minus sign and blanks may
stand in front, separators and the letters of a suffix do not count, and the beginning of the rest
tells the base.  What may follow the mark of the base is a parameter.  The texts that are read are
those where it is a row of digits, with or without another sign.
-/

set_option autoImplicit false

namespace CrossReference

namespace Text

theorem dropWhile_eq_iff (test : Char → Bool) (text rest : List Char) :
    text.dropWhile test = rest ↔
      ∃ front, text = front ++ rest ∧ (∀ c ∈ front, test c = true) ∧
        ∀ c ∈ rest.head?, test c = false := by
  constructor
  · rintro rfl
    refine ⟨text.takeWhile test, List.takeWhile_append_dropWhile.symm,
      fun c member => List.mem_takeWhile_imp member, fun c isFirst => ?_⟩
    have nonempty : text.dropWhile test ≠ [] := by
      rintro empty
      rw [empty] at isFirst
      cases isFirst
    have first := List.head?_dropWhile_not test text
    rw [Option.mem_def.1 isFirst] at first
    exact first
  · rintro ⟨front, rfl, all, first⟩
    rw [List.dropWhile_append_of_pos all]
    cases rest with
    | nil => rfl
    | cons c rest => exact List.dropWhile_cons_of_neg (by simp [first c rfl])

theorem dropEndWhile_eq_iff (test : Char → Bool) (text rest : List Char) :
    dropEndWhile test text = rest ↔
      ∃ back, text = rest ++ back ∧ (∀ c ∈ back, test c = true) ∧
        ∀ c ∈ rest.getLast?, test c = false := by
  rw [dropEndWhile, List.reverse_eq_iff, dropWhile_eq_iff, List.head?_reverse]
  constructor
  · rintro ⟨front, split, all, last⟩
    refine ⟨front.reverse, ?_, fun c member => all c (List.mem_reverse.1 member), last⟩
    rw [← List.reverse_reverse text, split, List.reverse_append, List.reverse_reverse]
  · rintro ⟨back, rfl, all, last⟩
    exact ⟨back.reverse, List.reverse_append, fun c member => all c (List.mem_reverse.1 member), last⟩

theorem isBlank_of_trim_eq_nil {text : List Char} (trimmed : trim text = []) :
    ∀ c ∈ text, isBlank c = true := by
  obtain ⟨back, isBack, backBlank, -⟩ := (dropEndWhile_eq_iff isBlank (trimStart text) []).1 trimmed
  obtain ⟨front, split, frontBlank, -⟩ := (dropWhile_eq_iff isBlank text (trimStart text)).1 rfl
  rw [List.nil_append] at isBack
  rw [split, isBack]
  intro c member
  exact (List.mem_append.1 member).elim (frontBlank c) (backBlank c)

end Text

namespace Condition

def Unsigned (base : Nat) (text : List Char) (value : Int) : Prop :=
  ∃ number : Nat, Numeral.Denotes base text number ∧ value = number

inductive Signed (base : Nat) : List Char → Int → Prop where
  | plain {text : List Char} {number : Nat} (digits : Numeral.Denotes base text number) :
      Signed base text number
  | plus {text : List Char} {number : Nat} (digits : Numeral.Denotes base text number) :
      Signed base ('+' :: text) number
  | minus {text : List Char} {number : Nat} (digits : Numeral.Denotes base text number) :
      Signed base ('-' :: text) (-number)

/-- The beginning of a text tells the base, and numerals of the base follow. -/
inductive Based (numeral : Nat → List Char → Int → Prop) : List Char → Int → Prop where
  | hexadecimal {mark : Char} {text : List Char} {value : Int} (isMark : mark = 'x' ∨ mark = 'X')
      (written : numeral 16 text value) : Based numeral ('0' :: mark :: text) value
  | binary {mark : Char} {text : List Char} {value : Int} (isMark : mark = 'b' ∨ mark = 'B')
      (written : numeral 2 text value) : Based numeral ('0' :: mark :: text) value
  | octal {first : Char} {text : List Char} {value : Int}
      (noMark : first ∉ ['x', 'X', 'b', 'B']) (written : numeral 8 (first :: text) value) :
      Based numeral ('0' :: first :: text) value
  | decimal {text : List Char} {value : Int} (noZero : text.head? = some '0' → text = ['0'])
      (written : numeral 10 text value) : Based numeral text value

def InWord (value : Int) : Prop :=
  -2 ^ 63 ≤ value ∧ value < 2 ^ 63

/-- A text stands for a value of a word, once the letters at its end and the separators are left
out. -/
def Spells (numeral : Nat → List Char → Int → Prop) (text : List Char) (value : Int) : Prop :=
  ∃ front suffix, text = front ++ suffix ∧ (∀ c ∈ suffix, isSuffix c = true) ∧
    (∀ c ∈ front.getLast?, isSuffix c = false) ∧
      Based numeral (front.filter (· ≠ '\x27')) value ∧ InWord value

/-- The integers that texts stand for, with a minus sign and blanks in front or without. -/
inductive Literal (numeral : Nat → List Char → Int → Prop) : List Char → Int → Prop where
  | positive {text : List Char} {value : Int} (noMinus : text.head? ≠ some '-')
      (spelled : Spells numeral text value) : Literal numeral text value
  | negative {blanks text : List Char} {value : Int}
      (allBlank : ∀ c ∈ blanks, Text.isBlank c = true)
      (noBlank : ∀ c ∈ text.head?, Text.isBlank c = false) (spelled : Spells numeral text value) :
      Literal numeral ('-' :: (blanks ++ text)) (-value)

def NoOtherSign (text : List Char) : Prop :=
  text.head? ≠ some '+' ∧ ∀ c ∈ text.tail, c ≠ '+' ∧ c ≠ '-'

/-! ## What is read -/

theorem word?_eq_some_iff (value : Int) (word : Int64) :
    word? value = some word ↔ InWord value ∧ word = Int64.ofInt value := by
  have bounds : (Int64.minValue.toInt ≤ value ∧ value ≤ Int64.maxValue.toInt) ↔ InWord value := by
    rw [Int64.toInt_minValue, Int64.toInt_maxValue, InWord]
    omega
  rw [word?]
  by_cases inside : InWord value
  · rw [if_pos (bounds.2 inside), Option.some.injEq, and_iff_right inside, eq_comm]
  · rw [if_neg (mt bounds.1 inside)]
    exact ⟨nofun, fun both => absurd both.1 inside⟩

/-- What an inner sign makes of the number behind it is read just if that is a row of digits. -/
theorem value?_bind_word? {base : Nat} (small : base ≤ 16) (text : List Char) (sign : Nat → Int)
    (word : Int64) :
    ((Numeral.value? base text).bind fun number => word? (sign number)) = some word ↔
      ∃ number, Numeral.Denotes base text number ∧ InWord (sign number) ∧
        word = Int64.ofInt (sign number) := by
  simp only [Option.bind_eq_some_iff, Numeral.value?_eq_some_iff small, word?_eq_some_iff]

theorem signedDigits?_eq_some_iff {base : Nat} (small : base ≤ 16) (text : List Char)
    (word : Int64) :
    signedDigits? base text = some word ↔
      ∃ value, Signed base text value ∧ InWord value ∧ word = Int64.ofInt value := by
  unfold signedDigits?
  split
  · rename_i digits
    rw [value?_bind_word? small digits fun number => (number : Int)]
    constructor
    · rintro ⟨number, denotes, inside, rfl⟩
      exact ⟨number, .plus denotes, inside, rfl⟩
    · rintro ⟨value, signed, inside, rfl⟩
      cases signed with
      | plain denotes => exact absurd rfl (denotes.ne_sign small '+' List.mem_cons_self).1
      | plus denotes => exact ⟨_, denotes, inside, rfl⟩
  · rename_i digits
    rw [value?_bind_word? small digits fun number => -(number : Int)]
    constructor
    · rintro ⟨number, denotes, inside, rfl⟩
      exact ⟨-number, .minus denotes, inside, rfl⟩
    · rintro ⟨value, signed, inside, rfl⟩
      cases signed with
      | plain denotes => exact absurd rfl (denotes.ne_sign small '-' List.mem_cons_self).2
      | minus denotes => exact ⟨_, denotes, inside, rfl⟩
  · rename_i noPlus noMinus
    rw [value?_bind_word? small text fun number => (number : Int)]
    constructor
    · rintro ⟨number, denotes, inside, rfl⟩
      exact ⟨number, .plain denotes, inside, rfl⟩
    · rintro ⟨value, signed, inside, rfl⟩
      cases signed with
      | plain denotes => exact ⟨_, denotes, inside, rfl⟩
      | plus denotes => exact absurd rfl (noPlus _)
      | minus denotes => exact absurd rfl (noMinus _)

theorem prefixedDigits?_octal {first : Char} (noMark : first ∉ ['x', 'X', 'b', 'B'])
    (text : List Char) : prefixedDigits? ('0' :: first :: text) = signedDigits? 8 (first :: text) := by
  simp only [List.mem_cons, List.not_mem_nil, or_false, not_or] at noMark
  unfold prefixedDigits?
  split <;> simp_all

theorem prefixedDigits?_decimal {text : List Char} (noZero : text.head? = some '0' → text = ['0']) :
    prefixedDigits? text = signedDigits? 10 text := by
  unfold prefixedDigits?
  split <;> simp_all

theorem prefixedDigits?_eq_some_iff (text : List Char) (word : Int64) :
    prefixedDigits? text = some word ↔
      ∃ value, Based Signed text value ∧ InWord value ∧ word = Int64.ofInt value := by
  constructor
  · intro read
    unfold prefixedDigits? at read
    split at read
    · obtain ⟨value, signed, range⟩ := (signedDigits?_eq_some_iff (by decide) _ word).1 read
      exact ⟨value, .hexadecimal (.inl rfl) signed, range⟩
    · obtain ⟨value, signed, range⟩ := (signedDigits?_eq_some_iff (by decide) _ word).1 read
      exact ⟨value, .hexadecimal (.inr rfl) signed, range⟩
    · obtain ⟨value, signed, range⟩ := (signedDigits?_eq_some_iff (by decide) _ word).1 read
      exact ⟨value, .binary (.inl rfl) signed, range⟩
    · obtain ⟨value, signed, range⟩ := (signedDigits?_eq_some_iff (by decide) _ word).1 read
      exact ⟨value, .binary (.inr rfl) signed, range⟩
    · obtain ⟨value, signed, range⟩ := (signedDigits?_eq_some_iff (by decide) _ word).1 read
      refine ⟨value, .octal ?_ signed, range⟩
      simp_all
    · rename_i notOctal
      obtain ⟨value, signed, range⟩ := (signedDigits?_eq_some_iff (by decide) _ word).1 read
      refine ⟨value, .decimal ?_ signed, range⟩
      intro zero
      obtain ⟨rest, rfl⟩ := List.head?_eq_some_iff.1 zero
      cases rest with
      | nil => rfl
      | cons first rest => exact absurd rfl (notOctal first rest)
  · rintro ⟨value, based, range⟩
    cases based with
    | hexadecimal isMark signed =>
      rcases isMark with rfl | rfl <;>
        exact (signedDigits?_eq_some_iff (by decide) _ word).2 ⟨value, signed, range⟩
    | binary isMark signed =>
      rcases isMark with rfl | rfl <;>
        exact (signedDigits?_eq_some_iff (by decide) _ word).2 ⟨value, signed, range⟩
    | octal noMark signed =>
      rw [prefixedDigits?_octal noMark, signedDigits?_eq_some_iff (by decide)]
      exact ⟨value, signed, range⟩
    | decimal noZero signed =>
      rw [prefixedDigits?_decimal noZero, signedDigits?_eq_some_iff (by decide)]
      exact ⟨value, signed, range⟩

theorem spells_iff (numeral : Nat → List Char → Int → Prop) (text : List Char) (value : Int) :
    Spells numeral text value ↔ Based numeral (bareDigits text) value ∧ InWord value := by
  constructor
  · rintro ⟨front, suffix, split, all, last, based⟩
    rw [bareDigits, (Text.dropEndWhile_eq_iff isSuffix text front).2 ⟨suffix, split, all, last⟩]
    exact based
  · intro based
    obtain ⟨suffix, split, all, last⟩ := (Text.dropEndWhile_eq_iff isSuffix text _).1 rfl
    exact ⟨_, suffix, split, all, last, based⟩

theorem prefixedDigits?_bareDigits (text : List Char) (word : Int64) :
    prefixedDigits? (bareDigits text) = some word ↔
      ∃ value, Spells Signed text value ∧ word = Int64.ofInt value := by
  simp only [prefixedDigits?_eq_some_iff, spells_iff, and_assoc]

/-- Exactly the literals are read in which there may be a sign behind the mark of the base. -/
theorem integer?_eq_some_iff (text : List Char) (word : Int64) :
    integer? text = some word ↔ ∃ value, Literal Signed text value ∧ word = Int64.ofInt value := by
  constructor
  · intro read
    unfold integer? at read
    split at read
    · rename_i rest
      obtain ⟨magnitude, isRead, rfl⟩ := Option.map_eq_some_iff.1 read
      obtain ⟨value, spelled, rfl⟩ := (prefixedDigits?_bareDigits _ _).1 isRead
      obtain ⟨blanks, split, allBlank, noBlank⟩ :=
        (Text.dropWhile_eq_iff Text.isBlank rest (Text.trimStart rest)).1 rfl
      rw [split]
      exact ⟨-value, .negative allBlank noBlank spelled, (Int64.ofInt_neg value).symm⟩
    · rename_i noMinus
      obtain ⟨value, spelled, rfl⟩ := (prefixedDigits?_bareDigits _ _).1 read
      refine ⟨value, .positive ?_ spelled, rfl⟩
      intro minus
      obtain ⟨rest, isMinus⟩ := List.head?_eq_some_iff.1 minus
      exact noMinus rest isMinus
  · rintro ⟨value, literal, rfl⟩
    cases literal with
    | positive noMinus spelled =>
      unfold integer?
      split
      · exact absurd rfl noMinus
      · exact (prefixedDigits?_bareDigits _ _).2 ⟨_, spelled, rfl⟩
    | @negative blanks text value allBlank noBlank spelled =>
      have trimmed : Text.trimStart (blanks ++ text) = text :=
        (Text.dropWhile_eq_iff Text.isBlank _ text).2 ⟨blanks, rfl, allBlank, noBlank⟩
      rw [integer?, trimmed, (prefixedDigits?_bareDigits text _).2 ⟨value, spelled, rfl⟩,
        Int64.ofInt_neg]
      rfl

/-! ## Where there is no other sign -/

theorem Based.imp {numeral other : Nat → List Char → Int → Prop} {text : List Char} {value : Int}
    (based : Based numeral text value)
    (implies : ∀ base ≤ 16, ∀ digits, digits <:+ text → numeral base digits value →
      other base digits value) : Based other text value := by
  cases based with
  | @hexadecimal mark digits value isMark written =>
    exact .hexadecimal isMark
      (implies 16 (by decide) digits ⟨['0', mark], rfl⟩ written)
  | @binary mark digits value isMark written =>
    exact .binary isMark (implies 2 (by decide) digits ⟨['0', mark], rfl⟩ written)
  | @octal first digits value noMark written =>
    exact .octal noMark (implies 8 (by decide) (first :: digits) ⟨['0'], rfl⟩ written)
  | decimal noZero written =>
    exact .decimal noZero (implies 10 (by decide) text (List.suffix_refl text) written)

theorem Spells.imp {numeral other : Nat → List Char → Int → Prop} {text : List Char} {value : Int}
    (spelled : Spells numeral text value)
    (implies : ∀ base ≤ 16, ∀ digits, (∀ c ∈ digits, c ∈ text) → numeral base digits value →
      other base digits value) : Spells other text value := by
  obtain ⟨front, suffix, rfl, all, last, based, inside⟩ := spelled
  refine ⟨front, suffix, rfl, all, last, based.imp ?_, inside⟩
  intro base small digits isSuffix written
  refine implies base small digits (fun c member => ?_) written
  exact List.mem_append_left suffix (List.mem_filter.1 (isSuffix.subset member)).1

theorem Unsigned.nonneg {base : Nat} {text : List Char} {value : Int}
    (unsigned : Unsigned base text value) : 0 ≤ value := by
  obtain ⟨number, -, rfl⟩ := unsigned
  exact Int.natCast_nonneg number

theorem Signed.of_unsigned {base : Nat} {text : List Char} {value : Int}
    (unsigned : Unsigned base text value) : Signed base text value := by
  obtain ⟨number, denotes, rfl⟩ := unsigned
  exact .plain denotes

theorem Signed.unsigned {base : Nat} {text : List Char} {value : Int}
    (signed : Signed base text value) (noSign : ∀ c ∈ text, c ≠ '+' ∧ c ≠ '-') :
    Unsigned base text value := by
  cases signed with
  | plain denotes => exact ⟨_, denotes, rfl⟩
  | plus denotes => exact absurd rfl (noSign '+' List.mem_cons_self).1
  | minus denotes => exact absurd rfl (noSign '-' List.mem_cons_self).2

theorem Literal.signed {text : List Char} {value : Int} (literal : Literal Unsigned text value) :
    Literal Signed text value := by
  cases literal with
  | positive noMinus spelled =>
    exact .positive noMinus (spelled.imp fun _ _ _ _ => Signed.of_unsigned)
  | negative allBlank noBlank spelled =>
    exact .negative allBlank noBlank (spelled.imp fun _ _ _ _ => Signed.of_unsigned)

theorem Literal.unsigned {text : List Char} {value : Int} (literal : Literal Signed text value)
    (noOther : NoOtherSign text) : Literal Unsigned text value := by
  cases literal with
  | positive noMinus spelled =>
    refine .positive noMinus (spelled.imp fun _ _ digits inside signed => signed.unsigned ?_)
    intro c member
    cases text with
    | nil => cases inside c member
    | cons first rest =>
      rcases List.mem_cons.1 (inside c member) with rfl | later
      · exact ⟨fun plus => noOther.1 (congrArg some plus), fun minus => noMinus (congrArg some minus)⟩
      · exact noOther.2 c later
  | @negative blanks text value allBlank noBlank spelled =>
    refine .negative allBlank noBlank (spelled.imp fun _ _ digits inside signed =>
      signed.unsigned fun c member => ?_)
    exact noOther.2 c (List.mem_append_right blanks (inside c member))

theorem Unsigned.ne_sign {base : Nat} (small : base ≤ 16) {text : List Char} {value : Int}
    (unsigned : Unsigned base text value) : ∀ c ∈ text, c ≠ '+' ∧ c ≠ '-' := by
  obtain ⟨number, denotes, -⟩ := unsigned
  exact denotes.ne_sign small

theorem Based.ne_sign {text : List Char} {value : Int} (based : Based Unsigned text value) :
    ∀ c ∈ text, c ≠ '+' ∧ c ≠ '-' := by
  cases based with
  | hexadecimal isMark unsigned =>
    have digits := unsigned.ne_sign (by decide)
    rcases isMark with rfl | rfl <;>
      exact List.forall_mem_cons.2 ⟨by decide, List.forall_mem_cons.2 ⟨by decide, digits⟩⟩
  | binary isMark unsigned =>
    have digits := unsigned.ne_sign (by decide)
    rcases isMark with rfl | rfl <;>
      exact List.forall_mem_cons.2 ⟨by decide, List.forall_mem_cons.2 ⟨by decide, digits⟩⟩
  | octal noMark unsigned =>
    exact List.forall_mem_cons.2 ⟨by decide, unsigned.ne_sign (by decide)⟩
  | decimal noZero unsigned => exact unsigned.ne_sign (by decide)

theorem ne_sign_of_isSuffix {c : Char} (letter : isSuffix c = true) : c ≠ '+' ∧ c ≠ '-' := by
  constructor <;> rintro rfl <;> exact absurd letter (by decide)

theorem ne_sign_of_isBlank {c : Char} (blank : Text.isBlank c = true) : c ≠ '+' ∧ c ≠ '-' := by
  constructor <;> rintro rfl <;> exact absurd blank (by decide)

theorem Spells.ne_sign {text : List Char} {value : Int} (spelled : Spells Unsigned text value) :
    ∀ c ∈ text, c ≠ '+' ∧ c ≠ '-' := by
  obtain ⟨front, suffix, rfl, all, last, based, inside⟩ := spelled
  intro c member
  rcases List.mem_append.1 member with inFront | inSuffix
  · by_cases separator : c = '\x27'
    · rw [separator]
      decide
    · exact based.ne_sign c (List.mem_filter.2 ⟨inFront, decide_eq_true separator⟩)
  · exact ne_sign_of_isSuffix (all c inSuffix)

theorem Literal.noOtherSign {text : List Char} {value : Int}
    (literal : Literal Unsigned text value) : NoOtherSign text := by
  cases literal with
  | positive noMinus spelled =>
    exact ⟨fun plus => (spelled.ne_sign '+' (List.mem_of_head? plus)).1 rfl,
      fun c member => spelled.ne_sign c (List.mem_of_mem_tail member)⟩
  | @negative blanks text value allBlank noBlank spelled =>
    refine ⟨fun plus => absurd (Option.some.inj plus) (by decide), fun c member => ?_⟩
    rcases List.mem_append.1 member with inBlanks | inText
    · exact ne_sign_of_isBlank (allBlank c inBlanks)
    · exact spelled.ne_sign c inText

theorem Based.nonneg {text : List Char} {value : Int} (based : Based Unsigned text value) :
    0 ≤ value := by
  cases based with
  | hexadecimal isMark unsigned => exact unsigned.nonneg
  | binary isMark unsigned => exact unsigned.nonneg
  | octal noMark unsigned => exact unsigned.nonneg
  | decimal noZero unsigned => exact unsigned.nonneg

theorem Literal.inWord {text : List Char} {value : Int} (literal : Literal Unsigned text value) :
    InWord value := by
  cases literal with
  | positive noMinus spelled =>
    obtain ⟨front, suffix, -, -, -, -, inside⟩ := spelled
    exact inside
  | negative allBlank noBlank spelled =>
    obtain ⟨front, suffix, -, -, -, based, inside⟩ := spelled
    have nonnegative := based.nonneg
    unfold InWord at inside ⊢
    omega

theorem toInt_ofInt_of_inWord {value : Int} (inside : InWord value) :
    (Int64.ofInt value).toInt = value := by
  unfold InWord at inside
  apply Int64.toInt_ofInt_of_le <;> omega

/-- A text is read as a word just if it is a literal in which there may be a sign behind the mark of
the base.  The literals that have digits alone there, and so stand for what they say, are those that
are read and have no sign but a minus sign in front.  As the body of a macro, a text that is not blank
has a value just if it is read, without its parentheses. -/
theorem integers_are_read_with_second_sign (text : List Char) (word : Int64) :
    (integer? text = some word ↔
      ∃ value, Literal Signed text value ∧ word = Int64.ofInt value) ∧
    (Literal Unsigned text word.toInt ↔ integer? text = some word ∧ NoOtherSign text) ∧
    (¬ (∀ c ∈ text, Text.isBlank c = true) →
      (bodyValue? text = some word ↔
        ∃ value, Literal Signed (unwrapped (Text.trim text)) value ∧
          word = Int64.ofInt value)) := by
  refine ⟨integer?_eq_some_iff text word, ?_, ?_⟩
  · rw [integer?_eq_some_iff]
    constructor
    · intro literal
      exact ⟨⟨word.toInt, literal.signed, (Int64.ofInt_toInt word).symm⟩, literal.noOtherSign⟩
    · rintro ⟨⟨value, literal, rfl⟩, noOther⟩
      have unsigned := literal.unsigned noOther
      rwa [toInt_ofInt_of_inWord unsigned.inWord]
  · intro notBlank
    have nonempty : (Text.trim text).isEmpty = false := by
      cases trimmed : Text.trim text with
      | nil => exact absurd (Text.isBlank_of_trim_eq_nil trimmed) notBlank
      | cons first rest => rfl
    rw [← integer?_eq_some_iff, bodyValue?, nonempty]
    rfl

/-- Another sign is read behind the zero that marks octal digits, and behind a minus sign in the
body of a macro. -/
theorem second_sign_is_read :
    (integer? "0-10".toList = some (-8) ∧ ¬ Literal Unsigned "0-10".toList (-8)) ∧
    ¬ (∀ c ∈ "(--5)".toList, Text.isBlank c = true) ∧
    bodyValue? "(--5)".toList = some 5 ∧
    ∃ value, Literal Signed (unwrapped (Text.trim "(--5)".toList)) value ∧
      (5 : Int64) = Int64.ofInt value := by
  have notBlank : ¬ (∀ c ∈ "(--5)".toList, Text.isBlank c = true) := fun blank =>
    absurd (blank '(' (by decide)) (by decide)
  have five : bodyValue? "(--5)".toList = some 5 := by decide +kernel
  refine ⟨⟨by decide +kernel, fun literal => ?_⟩, notBlank, five,
    ((integers_are_read_with_second_sign _ 5).2.2 notBlank).1 five⟩
  have noOther := ((integers_are_read_with_second_sign _ (-8)).2.1.1 literal).2
  exact absurd rfl (noOther.2 '-' (by decide)).2

end Condition

end CrossReference
