import CrossReference.Path
import Mathlib.Data.List.Basic

/-!
# Laws of UTF-8

A text is read back from its bytes, and bytes that are a text are its only bytes.  Reading puts up
with other bytes and shows replacements for them, so that it may take different bytes for the same
text.
-/

set_option autoImplicit false

namespace CrossReference

namespace Utf8

/-! ## The bytes of a character -/

theorem toNat_ofNat_of_isValid {value : Nat} (valid : value.isValidChar) :
    (Char.ofNat value).toNat = value := by
  rw [Char.ofNat, dif_pos valid]
  rfl

theorem lead?_eq (byte : UInt8) :
    lead? byte =
      if byte.toNat < 0xC2 then none
      else if byte.toNat ≤ 0xDF then some ⟨0, 0x80, 0xBF⟩
      else if byte.toNat ≤ 0xEF then some ⟨1, if byte.toNat = 0xE0 then 0xA0 else 0x80,
        if byte.toNat = 0xED then 0x9F else 0xBF⟩
      else if byte.toNat ≤ 0xF4 then some ⟨2, if byte.toNat = 0xF0 then 0x90 else 0x80,
        if byte.toNat = 0xF4 then 0x8F else 0xBF⟩
      else none := by
  unfold lead?
  simp only [UInt8.lt_iff_toNat_lt, UInt8.le_iff_toNat_le, ← UInt8.toNat_inj, UInt8.toNat_ofNat]
  split_ifs <;> first | rfl | omega

theorem ofNat_eq {number : Nat} {byte : UInt8} (same : number = byte.toNat) :
    UInt8.ofNat number = byte := by
  rw [same, UInt8.ofNat_toNat]

theorem continuation_eq {value : Nat} {byte : UInt8} (same : 0x80 + value % 64 = byte.toNat) :
    continuation value = byte :=
  ofNat_eq same

section Characters

variable {first second third fourth : UInt8} {lead : Lead}

theorem bounds_of_lead? (leads : lead? first = some lead) (least : lead.least ≤ second)
    (greatest : second ≤ lead.greatest) :
    0x80 ≤ second.toNat ∧ second.toNat ≤ 0xBF ∧
      (lead.further = 0 → 0xC2 ≤ first.toNat ∧ first.toNat ≤ 0xDF) ∧
      (lead.further = 1 → 0xE0 ≤ first.toNat ∧ first.toNat ≤ 0xEF ∧
        (first.toNat = 0xE0 → 0xA0 ≤ second.toNat) ∧
        (first.toNat = 0xED → second.toNat ≤ 0x9F)) ∧
      (1 < lead.further → 0xF0 ≤ first.toNat ∧ first.toNat ≤ 0xF4 ∧
        (first.toNat = 0xF0 → 0x90 ≤ second.toNat) ∧
        (first.toNat = 0xF4 → second.toNat ≤ 0x8F)) := by
  rw [UInt8.le_iff_toNat_le] at least greatest
  rw [lead?_eq] at leads
  split_ifs at leads <;> cases leads <;> simp only [UInt8.toNat_ofNat] at least greatest ⊢ <;> omega

theorem isContinuation_iff (byte : UInt8) :
    isContinuation byte = true ↔ 0x80 ≤ byte.toNat ∧ byte.toNat ≤ 0xBF := by
  simp [isContinuation, UInt8.le_iff_toNat_le]

theorem bytesOf_one (ascii : first < 0x80) : bytesOf (characterOf [first]) = [first] := by
  have small : first.toNat < 0x80 := UInt8.lt_iff_toNat_lt.1 ascii
  have value : (characterOf [first]).toNat = first.toNat :=
    toNat_ofNat_of_isValid (by simp [Nat.isValidChar]; omega)
  simp [bytesOf, value, small]

theorem bytesOf_two (leads : lead? first = some lead) (length : lead.further = 0)
    (least : lead.least ≤ second) (greatest : second ≤ lead.greatest) :
    bytesOf (characterOf [first, second]) = [first, second] := by
  obtain ⟨below, above, firsts, -⟩ := bounds_of_lead? leads least greatest
  have bounds := firsts length
  have value : (characterOf [first, second]).toNat = first.toNat % 32 * 64 + second.toNat % 64 :=
    toNat_ofNat_of_isValid (by simp only [Nat.isValidChar, payload]; omega)
  have firstBits : 0xC0 + (first.toNat % 32 * 64 + second.toNat % 64) / 64 = first.toNat := by
    omega
  have secondBits : 0x80 + (first.toNat % 32 * 64 + second.toNat % 64) % 64 = second.toNat := by
    omega
  rw [bytesOf, value, if_neg (by omega), if_pos (by omega), ofNat_eq firstBits,
    continuation_eq secondBits]

theorem bytesOf_three (leads : lead? first = some lead) (length : lead.further = 1)
    (least : lead.least ≤ second) (greatest : second ≤ lead.greatest)
    (continues : isContinuation third = true) :
    bytesOf (characterOf [first, second, third]) = [first, second, third] := by
  obtain ⟨below, above, -, firsts, -⟩ := bounds_of_lead? leads least greatest
  have bounds := firsts length
  have thirds := (isContinuation_iff third).1 continues
  obtain ⟨value, isValue⟩ : ∃ value,
      value = first.toNat % 16 * 4096 + second.toNat % 64 * 64 + third.toNat % 64 := ⟨_, rfl⟩
  have character : (characterOf [first, second, third]).toNat = value := by
    rw [isValue]
    exact toNat_ofNat_of_isValid (by simp only [Nat.isValidChar, payload]; omega)
  have firstBits : 0xE0 + value / 4096 = first.toNat := by omega
  have secondBits : 0x80 + value / 64 % 64 = second.toNat := by omega
  have thirdBits : 0x80 + value % 64 = third.toNat := by omega
  rw [bytesOf, character, if_neg (by omega), if_neg (by omega), if_pos (by omega),
    ofNat_eq firstBits, continuation_eq secondBits, continuation_eq thirdBits]

theorem bytesOf_four (leads : lead? first = some lead) (length : 1 < lead.further)
    (least : lead.least ≤ second) (greatest : second ≤ lead.greatest)
    (continues : isContinuation third = true) (ends : isContinuation fourth = true) :
    bytesOf (characterOf [first, second, third, fourth]) = [first, second, third, fourth] := by
  obtain ⟨below, above, -, -, firsts⟩ := bounds_of_lead? leads least greatest
  have bounds := firsts length
  have thirds := (isContinuation_iff third).1 continues
  have fourths := (isContinuation_iff fourth).1 ends
  obtain ⟨value, isValue⟩ : ∃ value, value = first.toNat % 8 * 262144 +
      second.toNat % 64 * 4096 + third.toNat % 64 * 64 + fourth.toNat % 64 := ⟨_, rfl⟩
  have character : (characterOf [first, second, third, fourth]).toNat = value := by
    rw [isValue]
    exact toNat_ofNat_of_isValid (by simp only [Nat.isValidChar, payload]; omega)
  have firstBits : 0xF0 + value / 262144 = first.toNat := by omega
  have secondBits : 0x80 + value / 4096 % 64 = second.toNat := by omega
  have thirdBits : 0x80 + value / 64 % 64 = third.toNat := by omega
  have fourthBits : 0x80 + value % 64 = fourth.toNat := by omega
  rw [bytesOf, character, if_neg (by omega), if_neg (by omega), if_neg (by omega),
    ofNat_eq firstBits, continuation_eq secondBits, continuation_eq thirdBits,
    continuation_eq fourthBits]

end Characters

/-! ## Pieces -/

/-- The bytes of pieces.  Those of a character are its own; others may be any. -/
inductive Reads : List UInt8 → List Piece → Prop where
  | nil : Reads [] []
  | character (c : Char) {rest : List UInt8} {found : List Piece} (later : Reads rest found) :
      Reads (bytesOf c ++ rest) (.character c :: found)
  | refused (stray : List UInt8) {rest : List UInt8} {found : List Piece}
      (later : Reads rest found) : Reads (stray ++ rest) (.refused stray.length :: found)
  | cut (last : List UInt8) : Reads last [.cut]

theorem reads_pieces (bytes : List UInt8) : Reads bytes (pieces bytes) := by
  fun_induction pieces bytes with
  | case1 => exact .nil
  | case2 first rest ascii later =>
    have whole := Reads.character (characterOf [first]) later
    rwa [bytesOf_one ascii] at whole
  | case3 first _ rest _ later => exact .refused [first] later
  | case4 first => exact .cut _
  | case5 first _ lead second rest _ _ later => exact .refused [first] later
  | case6 first _ lead second leads inBounds rest length later =>
    simp only [Bool.or_eq_true, decide_eq_true_eq, not_or, UInt8.not_lt] at inBounds
    have whole := Reads.character (characterOf [first, second]) later
    rwa [bytesOf_two leads length inBounds.1 inBounds.2] at whole
  | case7 => exact .cut _
  | case8 first _ lead second _ _ _ third rest _ _ later => exact .refused [first, second] later
  | case9 first _ lead second leads inBounds third continues rest length later =>
    simp only [Bool.or_eq_true, decide_eq_true_eq, not_or, UInt8.not_lt] at inBounds
    have whole := Reads.character (characterOf [first, second, third]) later
    rwa [bytesOf_three leads length inBounds.1 inBounds.2 (by simpa using continues)] at whole
  | case10 => exact .cut _
  | case11 first _ lead second _ _ third _ _ fourth rest _ _ later =>
    exact .refused [first, second, third] later
  | case12 first _ lead second leads inBounds third continues further fourth rest ends length
      later =>
    simp only [Bool.or_eq_true, decide_eq_true_eq, not_or, UInt8.not_lt] at inBounds
    have whole := Reads.character (characterOf [first, second, third, fourth]) later
    rwa [bytesOf_four leads (by omega) inBounds.1 inBounds.2 (by simpa using continues)
      (by simpa using ends)] at whole

theorem Reads.encode_eq {bytes : List UInt8} {text : List Char}
    (reads : Reads bytes (text.map .character)) : encode text = bytes := by
  induction text generalizing bytes with
  | nil =>
    cases reads
    rfl
  | cons c text ih =>
    cases reads with
    | character _ later => rw [encode, List.flatMap_cons, ← encode, ih later]

theorem Reads.mem_of_lineBreak_mem {bytes : List UInt8} {found : List Piece}
    (reads : Reads bytes found) (member : '\n' ∈ found.map Piece.shown) : 0x0A ∈ bytes := by
  induction reads with
  | nil => cases member
  | character c _ ih =>
    rcases List.mem_cons.1 member with here | later
    · obtain rfl : '\n' = c := here
      exact List.mem_append_left _ (by decide)
    · exact List.mem_append_right _ (ih later)
  | refused stray _ ih =>
    rcases List.mem_cons.1 member with here | later
    · exact absurd here (show ('\n' : Char) ≠ Char.ofNat 0xFFFD by decide)
    · exact List.mem_append_right _ (ih later)
  | cut last => exact absurd (List.mem_singleton.1 member) (by decide)

/-! ## Texts -/

theorem charactersFrom_eq_ok_iff (index : Nat) {found : List Piece} {text : List Char} :
    charactersFrom index found = .ok text ↔ found = text.map .character := by
  induction found generalizing index text with
  | nil => cases text <;> simp [charactersFrom]
  | cons piece rest ih =>
    cases piece with
    | character c =>
      rw [charactersFrom]
      cases text with
      | nil => cases charactersFrom (index + c.utf8Size) rest <;> simp
      | cons first text =>
        rw [List.map_cons, List.cons.injEq, ← ih (index + c.utf8Size)]
        cases charactersFrom (index + c.utf8Size) rest <;> simp
    | refused length => cases text <;> simp [charactersFrom]
    | cut => cases text <;> simp [charactersFrom]

theorem text?_eq_some_iff {bytes : List UInt8} {text : List Char} :
    text? bytes = some text ↔ pieces bytes = text.map .character := by
  rw [← charactersFrom_eq_ok_iff 0, text?, decode]
  cases charactersFrom 0 (pieces bytes) <;> simp [Except.toOption]

theorem encode_of_text? {bytes : List UInt8} {text : List Char} (isText : text? bytes = some text) :
    encode text = bytes :=
  Reads.encode_eq (text?_eq_some_iff.1 isText ▸ reads_pieces bytes)

theorem decodeLossy_of_text? {bytes : List UInt8} {text : List Char}
    (isText : text? bytes = some text) : decodeLossy bytes = text := by
  rw [decodeLossy, text?_eq_some_iff.1 isText, List.map_map]
  exact List.map_id text

section Encoded

variable {first second third fourth : UInt8} {lead : Lead} (rest : List UInt8)

theorem not_ascii_of_lead? (leads : lead? first = some lead) : ¬ first < 0x80 := by
  intro ascii
  have below : first < 0xC2 := UInt8.lt_trans ascii (by decide)
  rw [lead?, if_pos below] at leads
  cases leads

theorem pieces_one (ascii : first < 0x80) :
    pieces (first :: rest) = .character (characterOf [first]) :: pieces rest := by
  rw [pieces.eq_def]
  simp only [if_pos ascii]

theorem pieces_two (leads : lead? first = some lead) (length : lead.further = 0)
    (least : lead.least ≤ second) (greatest : second ≤ lead.greatest) :
    pieces (first :: second :: rest) = .character (characterOf [first, second]) :: pieces rest := by
  rw [pieces.eq_def]
  simp [not_ascii_of_lead? leads, leads, length, UInt8.not_lt.2 least, UInt8.not_lt.2 greatest]

theorem pieces_three (leads : lead? first = some lead) (length : lead.further = 1)
    (least : lead.least ≤ second) (greatest : second ≤ lead.greatest)
    (continues : isContinuation third = true) :
    pieces (first :: second :: third :: rest) =
      .character (characterOf [first, second, third]) :: pieces rest := by
  rw [pieces.eq_def]
  simp [not_ascii_of_lead? leads, leads, length, UInt8.not_lt.2 least, UInt8.not_lt.2 greatest,
    continues]

theorem pieces_four (leads : lead? first = some lead) (length : lead.further = 2)
    (least : lead.least ≤ second) (greatest : second ≤ lead.greatest)
    (continues : isContinuation third = true) (ends : isContinuation fourth = true) :
    pieces (first :: second :: third :: fourth :: rest) =
      .character (characterOf [first, second, third, fourth]) :: pieces rest := by
  rw [pieces.eq_def]
  simp [not_ascii_of_lead? leads, leads, length, UInt8.not_lt.2 least, UInt8.not_lt.2 greatest,
    continues, ends]

theorem toNat_ofNat_of_lt (number : Nat) (small : number < 256) :
    (UInt8.ofNat number).toNat = number := by
  rw [UInt8.toNat_ofNat']
  exact Nat.mod_eq_of_lt small

theorem lead?_of_three (byte : UInt8) (least : 0xE0 ≤ byte.toNat) (greatest : byte.toNat ≤ 0xEF) :
    lead? byte = some ⟨1, if byte.toNat = 0xE0 then 0xA0 else 0x80,
      if byte.toNat = 0xED then 0x9F else 0xBF⟩ := by
  rw [lead?_eq, if_neg (by omega), if_neg (by omega), if_pos greatest]

theorem lead?_of_four (byte : UInt8) (least : 0xF0 ≤ byte.toNat) (greatest : byte.toNat ≤ 0xF4) :
    lead? byte = some ⟨2, if byte.toNat = 0xF0 then 0x90 else 0x80,
      if byte.toNat = 0xF4 then 0x8F else 0xBF⟩ := by
  rw [lead?_eq, if_neg (by omega), if_neg (by omega), if_neg (by omega), if_pos greatest]

theorem toNat_continuation (value : Nat) : (continuation value).toNat = 0x80 + value % 64 :=
  toNat_ofNat_of_lt _ (by omega)

theorem isContinuation_continuation (value : Nat) : isContinuation (continuation value) = true := by
  rw [isContinuation_iff, toNat_continuation]
  omega

theorem payload_continuation (value : Nat) : payload (continuation value) = value % 64 := by
  rw [payload, toNat_continuation]
  omega

theorem pieces_bytesOf (c : Char) (rest : List UInt8) :
    pieces (bytesOf c ++ rest) = .character c :: pieces rest := by
  have valid : c.toNat < 0xD800 ∨ 0xDFFF < c.toNat ∧ c.toNat < 0x110000 := c.valid
  have isCharacter {bytes : List UInt8} {value : Nat} (reads : characterOf bytes = Char.ofNat value)
      (same : value = c.toNat) : characterOf bytes = c := by
    rw [reads, same, Char.ofNat_toNat]
  unfold bytesOf
  simp only
  split_ifs with one two three
  · have first := toNat_ofNat_of_lt c.toNat (by omega)
    rw [List.singleton_append, pieces_one rest (UInt8.lt_iff_toNat_lt.2 (by rwa [first])),
      isCharacter rfl first]
  · have first := toNat_ofNat_of_lt (0xC0 + c.toNat / 64) (by omega)
    have leads : lead? (UInt8.ofNat (0xC0 + c.toNat / 64)) = some ⟨0, 0x80, 0xBF⟩ := by
      rw [lead?_eq, first, if_neg (by omega), if_pos (by omega)]
    obtain ⟨least, greatest⟩ : 0x80 ≤ continuation c.toNat ∧ continuation c.toNat ≤ 0xBF := by
      simpa [isContinuation] using isContinuation_continuation c.toNat
    refine (pieces_two rest leads rfl least greatest).trans ?_
    rw [isCharacter rfl]
    rw [first, payload_continuation]
    omega
  · have first := toNat_ofNat_of_lt (0xE0 + c.toNat / 4096) (by omega)
    have leads := lead?_of_three (UInt8.ofNat (0xE0 + c.toNat / 4096)) (by omega) (by omega)
    have continues := isContinuation_continuation c.toNat
    refine (pieces_three rest leads rfl ?_ ?_ continues).trans ?_
    · rw [UInt8.le_iff_toNat_le, toNat_continuation]
      split_ifs <;> simp only [UInt8.toNat_ofNat] <;> omega
    · rw [UInt8.le_iff_toNat_le, toNat_continuation]
      split_ifs <;> simp only [UInt8.toNat_ofNat] <;> omega
    · rw [isCharacter rfl]
      rw [first, payload_continuation, payload_continuation]
      omega
  · have first := toNat_ofNat_of_lt (0xF0 + c.toNat / 262144) (by omega)
    have leads := lead?_of_four (UInt8.ofNat (0xF0 + c.toNat / 262144)) (by omega) (by omega)
    have continues := isContinuation_continuation (c.toNat / 64)
    have ends := isContinuation_continuation c.toNat
    refine (pieces_four rest leads rfl ?_ ?_ continues ends).trans ?_
    · rw [UInt8.le_iff_toNat_le, toNat_continuation]
      split_ifs <;> simp only [UInt8.toNat_ofNat] <;> omega
    · rw [UInt8.le_iff_toNat_le, toNat_continuation]
      split_ifs <;> simp only [UInt8.toNat_ofNat] <;> omega
    · rw [isCharacter rfl]
      rw [first, payload_continuation, payload_continuation, payload_continuation]
      omega

end Encoded

/-- A text is read back from its bytes. -/
theorem text?_encode (text : List Char) : text? (encode text) = some text := by
  rw [text?_eq_some_iff]
  induction text with
  | nil => rfl
  | cons c text ih => rw [encode, List.flatMap_cons, ← encode, pieces_bytesOf, ih, List.map_cons]

end Utf8

namespace FilePath

theorem eq_ofText_of_text? {path : FilePath} {text : String} (isText : path.text? = some text) :
    path = ofText text := by
  obtain ⟨letters, found, rfl⟩ := Option.map_eq_some_iff.1 isText
  rw [ofText, String.toList_ofList, Utf8.encode_of_text? found]

theorem text?_ofText (text : String) : (ofText text).text? = some text := by
  rw [text?, ofText, Utf8.text?_encode, Option.map_some, String.ofList_toList]

theorem display_of_text? {path : FilePath} {text : String} (isText : path.text? = some text) :
    path.display = text := by
  obtain ⟨letters, found, rfl⟩ := Option.map_eq_some_iff.1 isText
  rw [display, Utf8.decodeLossy_of_text? found]

theorem display_ofText (text : String) : (ofText text).display = text :=
  display_of_text? (text?_ofText text)

theorem lineBreak_not_mem_display {path : FilePath} (onOneLine : 0x0A ∉ path.bytes) :
    '\n' ∉ path.display.toList := by
  rw [display, String.toList_ofList]
  exact fun member => onOneLine ((Utf8.reads_pieces path.bytes).mem_of_lineBreak_mem member)

end FilePath

end CrossReference
