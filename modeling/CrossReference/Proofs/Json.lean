import CrossReference.Json
import CrossReference.Json.Document
import CrossReference.Proofs.Text.Numeral

/-!
# Reading what is written

A value is read back as it was written, without blanks or with a line for each member.
`Document.Made` says which tokens a text is made of; a value is made of the same tokens either way,
and these are read as the value.
-/

set_option autoImplicit false

namespace CrossReference

namespace Document

/-! ## Numbers -/

/-- A number ends before a text: this begins with nothing that would belong to the number. -/
def EndsNumber (text : List Char) : Prop :=
  ∀ c ∈ text.head?, isDigit c = false ∧ c ≠ '.' ∧ c ≠ 'e' ∧ c ≠ 'E'

theorem takeWhile_append {test : Char → Bool} {first rest : List Char}
    (all : ∀ c ∈ first, test c = true) (stops : ∀ c ∈ rest.head?, test c = false) :
    (first ++ rest).takeWhile test = first ∧ (first ++ rest).dropWhile test = rest := by
  induction first with
  | nil =>
    cases rest with
    | nil => exact ⟨rfl, rfl⟩
    | cons c rest =>
      have stop : test c = false := stops c rfl
      simp [stop]
  | cons c first ih =>
    have here : test c = true := all c List.mem_cons_self
    obtain ⟨taken, dropped⟩ := ih fun other member => all other (List.mem_cons_of_mem _ member)
    simp [here, taken, dropped]

theorem fraction?_of_endsNumber {rest : List Char} (ends : EndsNumber rest) :
    fraction? rest = some (false, rest) := by
  cases rest with
  | nil => rfl
  | cons c rest =>
    obtain ⟨-, noPoint, -⟩ := ends c rfl
    unfold fraction?
    split <;> rename_i same
    · exact absurd (List.cons.inj same).1 noPoint
    · exact absurd (List.cons.inj same).1 noPoint
    · rfl

theorem exponent?_of_endsNumber {rest : List Char} (ends : EndsNumber rest) :
    exponent? rest = some (false, rest) := by
  cases rest with
  | nil => rfl
  | cons c rest =>
    obtain ⟨-, -, noSmall, noLarge⟩ := ends c rfl
    simp [exponent?, noSmall, noLarge]

theorem isDigit_digit : ∀ value < 10, isDigit (Numeral.digit value) = true := by
  decide

theorem unsignedNumber?_decimalDigits (value : Nat) {rest : List Char} (ends : EndsNumber rest) :
    unsignedNumber? (Numeral.decimalDigits value ++ rest) = some (some value, rest) := by
  obtain ⟨digits, after⟩ := takeWhile_append
    (Numeral.forall_mem_decimalDigits isDigit_digit value) fun c first => (ends c first).1
  have proper : ¬ ((Numeral.decimalDigits value).isEmpty ∨
      (Numeral.decimalDigits value).head? = some '0' ∧
        (Numeral.decimalDigits value).length ≠ 1) := by
    rintro (empty | ⟨zero, longer⟩)
    · exact Numeral.decimalDigits_ne_nil value (List.isEmpty_iff.1 empty)
    · exact longer (Numeral.length_eq_one_of_head?_eq_zero zero)
  unfold unsignedNumber?
  simp only [digits, after]
  rw [if_neg proper, fraction?_of_endsNumber ends]
  simp only [exponent?_of_endsNumber ends, Numeral.value?_decimalDigits]
  rfl

theorem token?_of_isDigit {c : Char} {rest : List Char} (digit : isDigit c = true) :
    token? (c :: rest) =
      (unsignedNumber? (c :: rest)).map fun (value, after) => (.number value, after) := by
  have other (d : Char) (noDigit : isDigit d = false) : c ≠ d := by
    rintro rfl
    rw [digit] at noDigit
    cases noDigit
  unfold token?
  split <;> rename_i same <;> try exact absurd (List.cons.inj same).1 (other _ (by decide))
  unfold number?
  split
  · rename_i same
    exact absurd (List.cons.inj same).1 (other _ (by decide))
  · rfl

/-! ## Quoted texts -/

theorem not_isHalf (c : Char) : isHighHalf c.toNat = false ∧ isLowHalf c.toNat = false := by
  have valid : c.toNat < 0xD800 ∨ 0xDFFF < c.toNat ∧ c.toNat < 0x110000 := c.valid
  simp only [isHighHalf, isLowHalf, Bool.and_eq_false_imp, decide_eq_true_eq,
    decide_eq_false_iff_not]
  omega

theorem charactersOf_toNat (text : List Char) :
    charactersOf (text.map Char.toNat) = some text := by
  induction text with
  | nil => rfl
  | cons c rest ih =>
    obtain ⟨notHigh, notLow⟩ := not_isHalf c
    cases rest with
    | nil => simp [charactersOf, notHigh, notLow]
    | cons d rest =>
      simp only [List.map_cons] at ih ⊢
      simp [charactersOf, notHigh, notLow, ih]

theorem fourDigits?_hexByte : ∀ value < 0x20,
    ∃ high low, Numeral.hexByte (UInt8.ofNat value) = [high, low] ∧
      fourDigits? '0' '0' high low = some value := by
  intro value small
  have read : ∀ value < 0x20, fourDigits? '0' '0' (Numeral.digit ((UInt8.ofNat value).toNat / 16))
    (Numeral.digit ((UInt8.ofNat value).toNat % 16)) = some value := by decide
  exact ⟨_, _, rfl, read value small⟩

theorem quotedValues_escape (c : Char) (rest : List Char) :
    quotedValues (Json.escape c ++ rest) =
      (quotedValues rest).map fun (values, after) => (c.toNat :: values, after) := by
  have named (letter : Char) (isEscaped : escaped? letter = some c) (other : letter ≠ 'u') :
      quotedValues ('\\' :: letter :: rest) =
        (quotedValues rest).map fun (values, after) => (c.toNat :: values, after) := by
    rw [quotedValues]
    · simp [isEscaped]
    · rintro _ _ _ _ _ same -
      exact other same
  unfold Json.escape
  split
  · rename_i same
    exact named '"' (by rw [same]; decide) (by decide)
  split
  · rename_i same
    exact named '\\' (by rw [same]; decide) (by decide)
  split
  · rename_i same
    exact named 'b' (by rw [same]; decide) (by decide)
  split
  · rename_i same
    exact named 'f' (by rw [same]; decide) (by decide)
  split
  · rename_i same
    exact named 'n' (by rw [same]; decide) (by decide)
  split
  · rename_i same
    exact named 'r' (by rw [same]; decide) (by decide)
  split
  · rename_i same
    exact named 't' (by rw [same]; decide) (by decide)
  split
  · rename_i control
    obtain ⟨high, low, digits, read⟩ := fourDigits?_hexByte c.toNat control
    simp [digits, quotedValues, read]
  · rename_i noQuote noSlash _ _ _ _ _ noControl
    rw [List.singleton_append, quotedValues]
    · simp [noControl]
    · exact noQuote
    · rintro _ _ _ _ _ same -
      exact noSlash same
    · rintro _ _ same -
      exact noSlash same

theorem quotedValues_quoted (text rest : List Char) :
    quotedValues (text.flatMap Json.escape ++ '"' :: rest) = some (text.map Char.toNat, rest) := by
  induction text with
  | nil => simp [quotedValues]
  | cons c text ih =>
    rw [List.flatMap_cons, List.append_assoc, quotedValues_escape, ih]
    rfl

theorem token?_quoted (text rest : List Char) :
    token? ('"' :: (text.flatMap Json.escape ++ '"' :: rest)) =
      some (.quoted (some text), rest) := by
  simp [token?, quotedValues_quoted, charactersOf_toNat]

/-! ## Texts made of tokens -/

/-- The text is a row of these tokens, with any spaces around them. -/
inductive Made : List Char → List Token → Prop
  | done : Made [] []
  | space {c : Char} {rest : List Char} {tokens : List Token}
      (blank : isSpace c = true) (made : Made rest tokens) : Made (c :: rest) tokens
  | token {c : Char} {rest after : List Char} {first : Token} {later : List Token}
      (solid : isSpace c = false) (taken : token? (c :: rest) = some (first, after))
      (shorter : after.length ≤ rest.length) (made : Made after later) :
      Made (c :: rest) (first :: later)

theorem tokensWithin_of_made {text : List Char} {tokens : List Token} (made : Made text tokens) :
    ∀ steps, text.length ≤ steps → tokensWithin steps text = some tokens := by
  induction made with
  | done =>
    intro steps _
    cases steps <;> rfl
  | @space c rest tokens blank made ih =>
    intro steps enough
    have start : (c :: rest).dropWhile isSpace = rest.dropWhile isSpace := by simp [blank]
    have following : tokensWithin steps rest = some tokens := by
      apply ih
      simp only [List.length_cons] at enough
      omega
    rw [← following]
    cases steps <;> simp only [tokensWithin, start]
  | @token c rest after first later solid taken shorter made ih =>
    intro steps enough
    cases steps with
    | zero => simp at enough
    | succ steps =>
      have start : (c :: rest).dropWhile isSpace = c :: rest := by simp [solid]
      have following : tokensWithin steps after = some later := by
        apply ih
        simp only [List.length_cons] at enough
        omega
      simp [tokensWithin, start, taken, following]

theorem Made.mark {c : Char} {first : Token} {text : List Char} {later : List Token}
    (made : Made text later) (solid : isSpace c = false)
    (taken : token? (c :: text) = some (first, text)) : Made (c :: text) (first :: later) :=
  .token solid taken (Nat.le_refl _) made

theorem Made.blanks {gap text : List Char} {tokens : List Token} (made : Made text tokens)
    (blank : ∀ c ∈ gap, isSpace c = true) : Made (gap ++ text) tokens := by
  induction gap with
  | nil => exact made
  | cons c gap ih =>
    apply Made.space (blank c List.mem_cons_self)
    exact ih fun other member => blank other (List.mem_cons_of_mem _ member)

theorem Made.quoted {text : List Char} {later : List Token} (made : Made text later)
    (name : String) :
    Made ((Json.quoted name).toList ++ text) (.quoted (some name.toList) :: later) := by
  have written : (Json.quoted name).toList ++ text =
      '"' :: (name.toList.flatMap Json.escape ++ '"' :: text) := by
    simp [Json.quoted]
  rw [written]
  apply Made.token (by decide) (token?_quoted _ _) _ made
  simp
  omega

theorem not_isSpace_of_isDigit {c : Char} (digit : isDigit c = true) : isSpace c = false := by
  have apart (d : Char) (noDigit : isDigit d = false) : c ≠ d := by
    rintro rfl
    rw [digit] at noDigit
    cases noDigit
  simp [isSpace, apart ' ' (by decide), apart '\t' (by decide), apart '\n' (by decide),
    apart '\r' (by decide)]

theorem Made.number {text : List Char} {later : List Token} (made : Made text later)
    (ends : EndsNumber text) (value : Nat) :
    Made (Numeral.decimalDigits value ++ text) (.number (some value) :: later) := by
  obtain ⟨c, rest, digits⟩ := List.exists_cons_of_ne_nil (Numeral.decimalDigits_ne_nil value)
  have all : ∀ d ∈ Numeral.decimalDigits value, isDigit d = true :=
    Numeral.forall_mem_decimalDigits isDigit_digit value
  have digit : isDigit c = true := all c (digits ▸ List.mem_cons_self)
  have read := unsignedNumber?_decimalDigits value ends
  rw [digits, List.cons_append] at read
  rw [digits, List.cons_append]
  apply Made.token (not_isSpace_of_isDigit digit) _ _ made
  · rw [token?_of_isDigit digit, read]
    rfl
  · simp

end Document

/-! ## The tokens of a value -/

namespace Json

open Document (Token Made EndsNumber isSpace)

/-- What holds of each value whose parts it holds of, holds of all values. -/
@[induction_eliminator]
theorem induction_on_parts {holds : Json → Prop}
    (number : ∀ value, holds (.number value)) (text : ∀ value, holds (.text value))
    (list : ∀ elements, (∀ element ∈ elements, holds element) → holds (.list elements))
    (record : ∀ members, (∀ member ∈ members, holds member.2) → holds (.record members)) :
    ∀ value, holds value
  | .number value => number value
  | .text value => text value
  | .list elements => list elements fun element _ =>
      induction_on_parts number text list record element
  | .record members => record members fun member _ =>
      induction_on_parts number text list record member.2
termination_by value => sizeOf value
decreasing_by
  · rename_i isPart
    have := List.sizeOf_lt_of_mem isPart
    simp only [Json.list.sizeOf_spec]
    omega
  · rename_i isPart
    have inner := List.sizeOf_lt_of_mem isPart
    obtain ⟨name, part⟩ := member
    simp only [Json.record.sizeOf_spec, Prod.mk.sizeOf_spec] at inner ⊢
    omega

mutual

def tokens : Json → List Token
  | .number value => [.number (some value)]
  | .text value => [.quoted (some value.toList)]
  | .list [] => [.openList, .closeList]
  | .list (first :: rest) => .openList :: tokens first ++ elementTokens rest
  | .record [] => [.openRecord, .closeRecord]
  | .record ((name, value) :: rest) =>
      .openRecord :: .quoted (some name.toList) :: .colon :: tokens value ++ memberTokens rest

def elementTokens : List Json → List Token
  | [] => [.closeList]
  | first :: rest => .comma :: tokens first ++ elementTokens rest

def memberTokens : List (String × Json) → List Token
  | [] => [.closeRecord]
  | (name, value) :: rest =>
      .comma :: .quoted (some name.toList) :: .colon :: tokens value ++ memberTokens rest

end

/-- What is written for the value in front of a text is made of its tokens and those of the text. -/
def IsMade (write : Json → String) (value : Json) : Prop :=
  ∀ text later, EndsNumber text → Made text later →
    Made ((write value).toList ++ text) (value.tokens ++ later)

theorem endsNumber_blanks (gap : List Char) {c : Char} (text : List Char)
    (blank : ∀ d ∈ gap, isSpace d = true) (mark : c = ',' ∨ c = ']' ∨ c = '\x7d') :
    EndsNumber (gap ++ c :: text) := by
  cases gap with
  | nil =>
    intro d same
    cases same
    rcases mark with rfl | rfl | rfl <;> decide
  | cons space gap =>
    intro d same
    cases same
    have isBlank := blank space List.mem_cons_self
    simp only [isSpace, Bool.or_eq_true, decide_eq_true_eq] at isBlank
    rcases isBlank with ((rfl | rfl) | rfl) | rfl <;> decide

section Parts

variable {write : Json → String} (inner outer : List Char) {text : List Char} {later : List Token}

/-- The elements behind the first one and the end of their list.  Whatever blanks a writer puts
before an element and before the end, the tokens are the same. -/
theorem made_elements (writeRest : List Json → String)
    (nil : writeRest [] = "")
    (cons : ∀ first rest, (writeRest (first :: rest)).toList =
      ',' :: (inner ++ ((write first).toList ++ (writeRest rest).toList)))
    (innerBlank : ∀ c ∈ inner, isSpace c = true) (outerBlank : ∀ c ∈ outer, isSpace c = true)
    (made : Made text later) {rest : List Json} (parts : ∀ element ∈ rest, IsMade write element) :
    Made ((writeRest rest).toList ++ (outer ++ ']' :: text)) (elementTokens rest ++ later) ∧
      EndsNumber ((writeRest rest).toList ++ (outer ++ ']' :: text)) := by
  induction rest with
  | nil =>
    rw [nil]
    constructor
    · exact (made.mark (by decide) rfl).blanks outerBlank
    · exact endsNumber_blanks outer text outerBlank (by decide)
  | cons first rest ih =>
    obtain ⟨following, ends⟩ := ih fun element member => parts element (List.mem_cons_of_mem _ member)
    have here := (parts first List.mem_cons_self _ _ ends following).blanks innerBlank
    rw [cons]
    constructor
    · simpa [elementTokens] using here.mark (c := ',') (by decide) rfl
    · exact endsNumber_blanks [] _ nofun (by decide)

theorem made_members (middle : List Char) (writeRest : List (String × Json) → String)
    (nil : writeRest [] = "")
    (cons : ∀ name value rest, (writeRest ((name, value) :: rest)).toList =
      ',' :: (inner ++ ((quoted name).toList ++
        ':' :: (middle ++ ((write value).toList ++ (writeRest rest).toList)))))
    (innerBlank : ∀ c ∈ inner, isSpace c = true) (middleBlank : ∀ c ∈ middle, isSpace c = true)
    (outerBlank : ∀ c ∈ outer, isSpace c = true)
    (made : Made text later) {rest : List (String × Json)}
    (parts : ∀ member ∈ rest, IsMade write member.2) :
    Made ((writeRest rest).toList ++ (outer ++ '\x7d' :: text)) (memberTokens rest ++ later) ∧
      EndsNumber ((writeRest rest).toList ++ (outer ++ '\x7d' :: text)) := by
  induction rest with
  | nil =>
    rw [nil]
    constructor
    · exact (made.mark (by decide) rfl).blanks outerBlank
    · exact endsNumber_blanks outer text outerBlank (by decide)
  | cons first rest ih =>
    obtain ⟨name, value⟩ := first
    obtain ⟨following, ends⟩ := ih fun member inside => parts member (List.mem_cons_of_mem _ inside)
    have here : Made _ _ := parts (name, value) List.mem_cons_self _ _ ends following
    have named := (((here.blanks middleBlank).mark (c := ':') (by decide) rfl).quoted name).blanks
      innerBlank
    rw [cons]
    constructor
    · simpa [memberTokens] using named.mark (c := ',') (by decide) rfl
    · exact endsNumber_blanks [] _ nofun (by decide)

end Parts

theorem isMade_compact (value : Json) : IsMade compact value := by
  induction value with
  | number value =>
    intro text later ends made
    simpa [compact, tokens, Numeral.decimal] using made.number ends value
  | text value =>
    intro text later _ made
    simpa [compact, tokens] using made.quoted value
  | list elements parts =>
    intro text later _ made
    cases elements with
    | nil => exact (made.mark (c := ']') (by decide) rfl).mark (c := '[') (by decide) rfl
    | cons first rest =>
      obtain ⟨following, ends⟩ := made_elements [] [] compactElements rfl
        (fun first rest => by simp [compactElements]) nofun nofun made
        fun element member => parts element (List.mem_cons_of_mem _ member)
      have here := parts first List.mem_cons_self _ _ ends following
      simpa [compact, tokens] using here.mark (c := '[') (by decide) rfl
  | record members parts =>
    intro text later _ made
    cases members with
    | nil => exact (made.mark (c := '\x7d') (by decide) rfl).mark (c := '\x7b') (by decide) rfl
    | cons first rest =>
      obtain ⟨name, value⟩ := first
      obtain ⟨following, ends⟩ := made_members [] [] [] compactMembers rfl
        (fun name value rest => by simp [compactMembers])
        nofun nofun nofun made fun member inside => parts member (List.mem_cons_of_mem _ inside)
      have here : Made _ _ := parts (name, value) List.mem_cons_self _ _ ends following
      have named := (here.mark (c := ':') (by decide) rfl).quoted name
      simpa [compact, tokens] using named.mark (c := '\x7b') (by decide) rfl

theorem isSpace_newLine (level : Nat) : ∀ c ∈ (newLine level).toList, isSpace c = true := by
  intro c member
  rw [newLine, String.toList_ofList, List.mem_cons, List.mem_replicate] at member
  rcases member with rfl | ⟨-, rfl⟩ <;> decide

theorem isSpace_ofSpace : ∀ c ∈ [' '], isSpace c = true := by
  intro c member
  rw [List.mem_singleton.1 member]
  decide

theorem isMade_prettyAt (value : Json) : ∀ level, IsMade (prettyAt level) value := by
  induction value with
  | number value =>
    intro level text later ends made
    simpa [prettyAt, tokens, Numeral.decimal] using made.number ends value
  | text value =>
    intro level text later _ made
    simpa [prettyAt, tokens] using made.quoted value
  | list elements parts =>
    intro level text later _ made
    cases elements with
    | nil =>
      have closed := made.mark (c := ']') (by decide) rfl
      simpa [prettyAt, tokens] using closed.mark (c := '[') (by decide) rfl
    | cons first rest =>
      obtain ⟨following, ends⟩ := made_elements (newLine (level + 1)).toList (newLine level).toList
        (prettyElements (level + 1)) rfl (fun first rest => by simp [prettyElements])
        (isSpace_newLine (level + 1)) (isSpace_newLine level) made
        fun element member => parts element (List.mem_cons_of_mem _ member) (level + 1)
      have here := (parts first List.mem_cons_self (level + 1) _ _ ends following).blanks
        (isSpace_newLine (level + 1))
      simpa [prettyAt, tokens] using here.mark (c := '[') (by decide) rfl
  | record members parts =>
    intro level text later _ made
    cases members with
    | nil =>
      have closed := made.mark (c := '\x7d') (by decide) rfl
      simpa [prettyAt, tokens] using closed.mark (c := '\x7b') (by decide) rfl
    | cons first rest =>
      obtain ⟨name, value⟩ := first
      obtain ⟨following, ends⟩ := made_members (newLine (level + 1)).toList
        (newLine level).toList [' '] (prettyMembers (level + 1)) rfl
        (fun name value rest => by simp [prettyMembers])
        (isSpace_newLine (level + 1)) isSpace_ofSpace (isSpace_newLine level) made
        fun member inside => parts member (List.mem_cons_of_mem _ inside) (level + 1)
      have here : Made _ _ :=
        parts (name, value) List.mem_cons_self (level + 1) _ _ ends following
      have named := (((here.space (c := ' ') (by decide)).mark (c := ':') (by decide) rfl).quoted
        name).blanks (isSpace_newLine (level + 1))
      simpa [prettyAt, tokens] using named.mark (c := '\x7b') (by decide) rfl

end Json

/-! ## Values read from tokens -/

namespace Document

open Json (tokens elementTokens memberTokens)

mutual

def ofJson : Json → Document
  | .number value => .number (some value)
  | .text value => .quoted (some value.toList)
  | .list elements => .list (ofElements elements)
  | .record members => .record (ofMembers members)

def ofElements : List Json → List Document
  | [] => []
  | first :: rest => ofJson first :: ofElements rest

def ofMembers : List (String × Json) → List (Option (List Char) × Document)
  | [] => []
  | (name, value) :: rest => (some name.toList, ofJson value) :: ofMembers rest

end

theorem exists_tokens_eq_cons (value : Json) :
    ∃ first rest, value.tokens = first :: rest ∧ first ≠ .closeList := by
  cases value with
  | number | text => exact ⟨_, _, rfl, nofun⟩
  | list elements => cases elements <;> exact ⟨_, _, rfl, by decide⟩
  | record members => cases members <;> exact ⟨_, _, rfl, by decide⟩

/-- As many steps as a value has tokens are enough to read it. -/
def IsRead (value : Json) : Prop :=
  ∀ steps later, value.tokens.length ≤ steps →
    value? steps (value.tokens ++ later) = some (ofJson value, later)

theorem elements?_tokens {rest : List Json} (parts : ∀ element ∈ rest, IsRead element) :
    ∀ first steps later, IsRead first →
      first.tokens.length + (elementTokens rest).length ≤ steps →
      elements? steps (first.tokens ++ (elementTokens rest ++ later)) =
        some (ofJson first :: ofElements rest, later) := by
  induction rest with
  | nil =>
    intro first steps later isRead enough
    cases steps with
    | zero => simp [elementTokens] at enough
    | succ steps =>
      have here := isRead steps (.closeList :: later) (by simp [elementTokens] at enough; omega)
      simp [elements?, elementTokens, here, ofElements]
  | cons second rest ih =>
    intro first steps later isRead enough
    cases steps with
    | zero => simp [elementTokens] at enough
    | succ steps =>
      simp only [elementTokens, List.cons_append, List.length_cons, List.length_append] at enough
      obtain ⟨head, others, nonempty, -⟩ := exists_tokens_eq_cons first
      have some_token : 0 < first.tokens.length := by simp [nonempty]
      have here := isRead steps
        (.comma :: (second.tokens ++ (elementTokens rest ++ later))) (by omega)
      have following := ih (fun element member => parts element (List.mem_cons_of_mem _ member))
        second steps later (parts second List.mem_cons_self) (by omega)
      simp [elements?, elementTokens, here, following, ofElements]

theorem members?_tokens {rest : List (String × Json)} (parts : ∀ member ∈ rest, IsRead member.2) :
    ∀ (name : String) first steps later, IsRead first →
      first.tokens.length + (memberTokens rest).length ≤ steps →
      members? steps (.quoted (some name.toList) :: .colon ::
          (first.tokens ++ (memberTokens rest ++ later))) =
        some ((some name.toList, ofJson first) :: ofMembers rest, later) := by
  induction rest with
  | nil =>
    intro name first steps later isRead enough
    cases steps with
    | zero => simp [memberTokens] at enough
    | succ steps =>
      have here := isRead steps (.closeRecord :: later) (by simp [memberTokens] at enough; omega)
      simp [members?, memberTokens, here, ofMembers]
  | cons second rest ih =>
    intro name first steps later isRead enough
    obtain ⟨secondName, second⟩ := second
    cases steps with
    | zero => simp [memberTokens] at enough
    | succ steps =>
      simp only [memberTokens, List.cons_append, List.length_cons, List.length_append] at enough
      have here := isRead steps (.comma :: .quoted (some secondName.toList) :: .colon ::
        (second.tokens ++ (memberTokens rest ++ later))) (by omega)
      have following := ih (fun member inside => parts member (List.mem_cons_of_mem _ inside))
        secondName second steps later (parts _ List.mem_cons_self) (by omega)
      simp [members?, memberTokens, here, following, ofMembers]

theorem isRead (value : Json) : IsRead value := by
  induction value with
  | number | text =>
    intro steps later enough
    cases steps with
    | zero => simp [tokens] at enough
    | succ steps => rfl
  | list elements parts =>
    intro steps later enough
    cases steps with
    | zero => cases elements <;> simp [tokens] at enough
    | succ steps =>
      cases elements with
      | nil => rfl
      | cons first rest =>
        simp only [tokens, List.cons_append, List.length_cons, List.length_append] at enough
        have inner := elements?_tokens
          (fun element member => parts element (List.mem_cons_of_mem _ member)) first steps later
          (parts first List.mem_cons_self) (by omega)
        obtain ⟨head, others, starts, noEnd⟩ := exists_tokens_eq_cons first
        simp only [tokens, List.cons_append, List.append_assoc]
        rw [value?]
        · rw [inner]
          rfl
        · intro after same
          rw [starts] at same
          exact noEnd (List.cons.inj same).1
  | record members parts =>
    intro steps later enough
    cases steps with
    | zero => rcases members with _ | ⟨⟨name, value⟩, rest⟩ <;> simp [tokens] at enough
    | succ steps =>
      cases members with
      | nil => rfl
      | cons first rest =>
        obtain ⟨name, first⟩ := first
        simp only [tokens, List.cons_append, List.length_cons, List.length_append] at enough
        have inner := members?_tokens
          (fun member inside => parts member (List.mem_cons_of_mem _ inside)) name first steps later
          (parts _ List.mem_cons_self) (by omega)
        simp [tokens, value?, inner, ofJson, ofMembers]

/-- What is made of the tokens of a value is read as the value. -/
theorem read?_of_isMade {write : Json → String} {value : Json} (isMade : value.IsMade write) :
    read? (write value).toList = some (ofJson value) := by
  have made : Made (write value).toList value.tokens := by
    have whole := isMade [] [] nofun .done
    simpa using whole
  have split : tokens? (write value).toList = some value.tokens :=
    tokensWithin_of_made made _ (Nat.le_refl _)
  have read := isRead value (2 * value.tokens.length) [] (by omega)
  rw [List.append_nil] at read
  simp [read?, split, read]

theorem read?_compact (value : Json) : read? value.compact.toList = some (ofJson value) :=
  read?_of_isMade value.isMade_compact

theorem read?_pretty (value : Json) : read? value.pretty.toList = some (ofJson value) :=
  read?_of_isMade (value.isMade_prettyAt 0)

end Document

end CrossReference
