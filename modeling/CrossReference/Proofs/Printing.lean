import CrossReference.Printing
import CrossReference.Proofs.RangeMap
import CrossReference.Proofs.Text.Numeral
import CrossReference.Proofs.Text.Utf8
import Mathlib.Data.List.Basic

/-!
# Reading printed reports back

A text that is printed about reports tells which reports they are, up to the bytes of paths that are
shown alike.  It is read from the outside in: a line break ends each line, only the lines that begin
a report hold a bracket, the blanks of a line on a declaration stand between the ranges, and the
signs of a range stand between its numbers.  A path may hold any of these characters, so that a line
that begins a report is read from its end, where the digest has a fixed length.
-/

set_option autoImplicit false

namespace CrossReference

/-! ## Runs of items -/

section Runs

variable {Item : Type}

theorem eq_of_append_of_run {inside : Item → Prop} {first second firstRest secondRest : List Item}
    (firstInside : ∀ item ∈ first, inside item) (secondInside : ∀ item ∈ second, inside item)
    (firstEnds : ∀ item ∈ firstRest.head?, ¬ inside item)
    (secondEnds : ∀ item ∈ secondRest.head?, ¬ inside item)
    (same : first ++ firstRest = second ++ secondRest) :
    first = second ∧ firstRest = secondRest := by
  induction first generalizing second with
  | nil =>
    cases second with
    | nil => exact ⟨rfl, same⟩
    | cons item second =>
      rw [List.nil_append] at same
      exact absurd (secondInside item List.mem_cons_self) (firstEnds item (by rw [same]; rfl))
  | cons item first ih =>
    cases second with
    | nil =>
      rw [List.nil_append] at same
      exact absurd (firstInside item List.mem_cons_self) (secondEnds item (by rw [← same]; rfl))
    | cons other second =>
      obtain ⟨rfl, rest⟩ := List.cons.inj same
      obtain ⟨rfl, rests⟩ := ih
        (fun item member => firstInside item (List.mem_cons_of_mem _ member))
        (fun item member => secondInside item (List.mem_cons_of_mem _ member)) rest
      exact ⟨rfl, rests⟩

/-- What stands in front of the first separator, and what stands behind it, is told from the
whole. -/
theorem eq_of_append_separator {separator : Item} {first second firstRest secondRest : List Item}
    (notInFirst : separator ∉ first) (notInSecond : separator ∉ second)
    (same : first ++ separator :: firstRest = second ++ separator :: secondRest) :
    first = second ∧ firstRest = secondRest := by
  have differs {items : List Item} (absent : separator ∉ items) :
      ∀ item ∈ items, item ≠ separator := fun item member => ne_of_mem_of_not_mem member absent
  have ends (rest : List Item) : ∀ item ∈ (separator :: rest).head?, ¬ item ≠ separator := by
    rintro item ⟨⟩ other
    exact other rfl
  obtain ⟨firsts, rests⟩ := eq_of_append_of_run (differs notInFirst) (differs notInSecond)
    (ends _) (ends _) same
  exact ⟨firsts, (List.cons.inj rests).2⟩

end Runs

namespace Text

/-- Lines are told from the text where each of them ends with a line break. -/
theorem eq_of_join_lines {first second : List String}
    (firstLines : ∀ line ∈ first, '\n' ∉ line.toList)
    (secondLines : ∀ line ∈ second, '\n' ∉ line.toList)
    (same : String.join (first.map (· ++ "\n")) = String.join (second.map (· ++ "\n"))) :
    first = second := by
  induction first generalizing second with
  | nil =>
    cases second with
    | nil => rfl
    | cons line second => simpa using congrArg String.toList same
  | cons line first ih =>
    cases second with
    | nil => simpa using congrArg String.toList same
    | cons other second =>
      have texts : line.toList ++ '\n' :: (String.join (first.map (· ++ "\n"))).toList =
          other.toList ++ '\n' :: (String.join (second.map (· ++ "\n"))).toList := by
        simpa using congrArg String.toList same
      obtain ⟨lines, rests⟩ := eq_of_append_separator (firstLines line List.mem_cons_self)
        (secondLines other List.mem_cons_self) texts
      rw [String.toList_injective lines,
        ih (fun line member => firstLines line (List.mem_cons_of_mem _ member))
          (fun line member => secondLines line (List.mem_cons_of_mem _ member))
          (String.toList_injective rests)]

end Text

/-! ## Ranges -/

namespace Numeral

theorem decimalDigits_injective {first second : Nat}
    (same : decimalDigits first = decimalDigits second) : first = second := by
  have values := value?_decimalDigits first
  rw [same, value?_decimalDigits] at values
  exact (Option.some.inj values).symm

def tenDigits : List Char :=
  (List.range 10).map digit

theorem mem_tenDigits {value : Nat} {c : Char} (member : c ∈ decimalDigits value) :
    c ∈ tenDigits :=
  forall_mem_decimalDigits (by decide) value c member

end Numeral

namespace Pointer

def alphabet : List Char :=
  ':' :: Numeral.tenDigits

theorem toList_render (pointer : Pointer) :
    pointer.render.toList =
      Numeral.decimalDigits pointer.line ++ ':' :: Numeral.decimalDigits pointer.column := by
  simp [render, Numeral.decimal]

theorem mem_alphabet {pointer : Pointer} {c : Char} (member : c ∈ pointer.render.toList) :
    c ∈ alphabet := by
  rw [toList_render, List.mem_append, List.mem_cons] at member
  rcases member with line | rfl | column
  · exact List.mem_cons_of_mem _ (Numeral.mem_tenDigits line)
  · exact List.mem_cons_self
  · exact List.mem_cons_of_mem _ (Numeral.mem_tenDigits column)

theorem render_injective {first second : Pointer} (same : first.render = second.render) :
    first = second := by
  have noColon (value : Nat) : ':' ∉ Numeral.decimalDigits value := fun colon =>
    absurd (Numeral.mem_tenDigits colon) (by decide)
  have texts := congrArg String.toList same
  rw [toList_render, toList_render] at texts
  obtain ⟨lines, columns⟩ := eq_of_append_separator (noColon _) (noColon _) texts
  exact ext_iff'.2
    ⟨Numeral.decimalDigits_injective lines, Numeral.decimalDigits_injective columns⟩

end Pointer

namespace Range

def alphabet : List Char :=
  '-' :: Pointer.alphabet

theorem toList_render (range : Range) :
    range.render.toList = range.start.render.toList ++ '-' :: range.stop.render.toList := by
  simp [render]

theorem mem_alphabet {range : Range} {c : Char} (member : c ∈ range.render.toList) :
    c ∈ alphabet := by
  rw [toList_render, List.mem_append, List.mem_cons] at member
  rcases member with start | rfl | stop
  · exact List.mem_cons_of_mem _ (Pointer.mem_alphabet start)
  · exact List.mem_cons_self
  · exact List.mem_cons_of_mem _ (Pointer.mem_alphabet stop)

theorem render_ne_empty (range : Range) : range.render ≠ "" := by
  intro empty
  simpa [toList_render] using congrArg String.toList empty

theorem render_injective {first second : Range} (same : first.render = second.render) :
    first = second := by
  have noHyphen (pointer : Pointer) : '-' ∉ pointer.render.toList := fun hyphen =>
    absurd (Pointer.mem_alphabet hyphen) (by decide)
  have texts := congrArg String.toList same
  rw [toList_render, toList_render] at texts
  obtain ⟨starts, stops⟩ := eq_of_append_separator (noHyphen _) (noHyphen _) texts
  have sameStart := Pointer.render_injective (String.toList_injective starts)
  have sameStop := Pointer.render_injective (String.toList_injective stops)
  cases first
  cases second
  simp_all

end Range

/-! ## Digests -/

namespace Digest

structure IsHash (text : String) : Prop where
  length : text.toList.length = 64
  digits : ∀ c ∈ text.toList, ∃ value < 16, c = Numeral.digit value

theorem length_bigEndian (count value : Nat) : (bigEndian count value).length = count := by
  induction count with
  | zero => rfl
  | succ count ih => exact congrArg Nat.succ ih

theorem isHash_hex (message : List UInt8) : IsHash (hex message) where
  length := by
    simp [hex, bytes, Numeral.hexByte, List.length_flatMap, length_bigEndian]
  digits := by
    intro c member
    rw [hex, String.toList_ofList] at member
    obtain ⟨byte, -, ofByte⟩ := List.mem_flatMap.1 member
    have bound := byte.toNat_lt
    simp only [Numeral.hexByte, List.mem_cons, List.not_mem_nil, or_false] at ofByte
    rcases ofByte with rfl | rfl
    · exact ⟨byte.toNat / 16, by omega, rfl⟩
    · exact ⟨byte.toNat % 16, by omega, rfl⟩

end Digest

namespace FileReport

/-! ## Lines on declarations -/

def alphabet : List Char :=
  [',', ' ', '>'] ++ Range.alphabet

theorem mem_alphabet_of_joined (ranges : List Range) :
    ∀ c ∈ (joined ranges).toList, c ∈ alphabet := by
  fun_induction joined ranges with
  | case1 => simp
  | case2 range => exact fun c member => List.mem_append_right _ (Range.mem_alphabet member)
  | case3 range rest _ ih =>
    intro c member
    simp only [String.toList_append, List.mem_append] at member
    rcases member with (first | separator) | later
    · exact List.mem_append_right _ (Range.mem_alphabet first)
    · obtain rfl | rfl : c = ',' ∨ c = ' ' := by simpa using separator
      all_goals decide
    · exact ih c later

def written : List Range → List Char
  | [] => []
  | range :: rest => ',' :: ' ' :: (joined (range :: rest)).toList

theorem toList_joined_cons (range : Range) (rest : List Range) :
    (joined (range :: rest)).toList = range.render.toList ++ written rest := by
  cases rest with
  | nil => simp [joined, written]
  | cons next rest => simp [joined, written]

theorem joined_eq_of_written_eq {first second : List Range}
    (same : written first = written second) : joined first = joined second := by
  cases first with
  | nil =>
    cases second with
    | nil => rfl
    | cons range second => exact absurd same (List.cons_ne_nil _ _).symm
  | cons range first =>
    cases second with
    | nil => exact absurd same (List.cons_ne_nil _ _)
    | cons other second =>
      exact String.toList_injective (List.cons.inj (List.cons.inj same).2).2

theorem ends_of_written (ranges : List Range) : ∀ c ∈ (written ranges).head?, ¬ c ≠ ',' := by
  cases ranges with
  | nil => simp [written]
  | cons range rest => simp [written]

/-- Ranges are told from what is written about them: nothing is written about no ranges, and a comma
ends each range but the last. -/
theorem joined_injective {first second : List Range} (same : joined first = joined second) :
    first = second := by
  have noComma (range : Range) : ∀ c ∈ range.render.toList, c ≠ ',' := by
    rintro c member rfl
    exact absurd (Range.mem_alphabet member) (by decide)
  have nonempty (range : Range) (rest : List Range) : joined (range :: rest) ≠ "" := by
    intro empty
    have texts := toList_joined_cons range rest
    rw [empty] at texts
    exact range.render_ne_empty (String.toList_injective (List.append_eq_nil_iff.1 texts.symm).1)
  induction first generalizing second with
  | nil =>
    cases second with
    | nil => rfl
    | cons range second => exact absurd same.symm (nonempty range second)
  | cons range first ih =>
    cases second with
    | nil => exact absurd same (nonempty range first)
    | cons other second =>
      have texts := congrArg String.toList same
      rw [toList_joined_cons, toList_joined_cons] at texts
      obtain ⟨ranges, rests⟩ := eq_of_append_of_run (noComma range) (noComma other)
        (ends_of_written first) (ends_of_written second) texts
      rw [Range.render_injective (String.toList_injective ranges),
        ih (joined_eq_of_written_eq rests)]

def entryText (entry : Range × RangeSet) : String :=
  "  " ++ entry.1.render ++ " -> " ++ joined entry.2.toList

theorem toList_entryText (entry : Range × RangeSet) :
    (entryText entry).toList =
      ' ' :: ' ' :: (entry.1.render.toList ++
        ' ' :: '-' :: '>' :: ' ' :: (joined entry.2.toList).toList) := by
  simp [entryText]

theorem mem_alphabet {entry : Range × RangeSet} {c : Char} (member : c ∈ (entryText entry).toList) :
    c ∈ alphabet := by
  have ofIndent : "  ".toList ⊆ alphabet := by decide
  have ofArrow : " -> ".toList ⊆ alphabet := by decide
  simp only [entryText, String.toList_append, List.mem_append] at member
  rcases member with ((indent | range) | arrow) | ranges
  · exact ofIndent indent
  · exact List.mem_append_right _ (Range.mem_alphabet range)
  · exact ofArrow arrow
  · exact mem_alphabet_of_joined _ c ranges

theorem entryText_injective {first second : Range × RangeSet}
    (same : entryText first = entryText second) : first = second := by
  have noBlank (range : Range) : ' ' ∉ range.render.toList := fun blank =>
    absurd (Range.mem_alphabet blank) (by decide)
  have texts := congrArg String.toList same
  rw [toList_entryText, toList_entryText] at texts
  obtain ⟨declarations, rests⟩ := eq_of_append_separator (noBlank _) (noBlank _)
    (List.cons.inj (List.cons.inj texts).2).2
  have references : first.2.toList = second.2.toList :=
    joined_injective (String.toList_injective
      (List.cons.inj (List.cons.inj (List.cons.inj rests).2).2).2)
  refine Prod.ext (Range.render_injective (String.toList_injective declarations)) ?_
  rw [← RangeSet.ofRanges_toList first.2, references, RangeSet.ofRanges_toList]

/-! ## Lines that begin a report -/

def headText (report : FileReport) : String :=
  report.path.display ++ " [" ++ report.language.name ++ "] sha256:" ++ report.sha256

theorem eq_of_append_language {firstPath secondPath : List Char} {first second : Language}
    (same : firstPath ++ " [".toList ++ first.name.toList =
      secondPath ++ " [".toList ++ second.name.toList) :
    firstPath = secondPath ∧ first = second := by
  have last := congrArg List.getLast? same
  cases first with
  | c =>
    cases second with
    | c => exact ⟨List.append_cancel_right (List.append_cancel_right same), rfl⟩
    | cpp => simp [Language.name, List.getLast?_append] at last
  | cpp =>
    cases second with
    | c => simp [Language.name, List.getLast?_append] at last
    | cpp => exact ⟨List.append_cancel_right (List.append_cancel_right same), rfl⟩

/-- What is shown of a path, a language and a digest are told from the line that begins a report. -/
theorem eq_of_headText {first second : FileReport} (firstHash : Digest.IsHash first.sha256)
    (secondHash : Digest.IsHash second.sha256) (same : headText first = headText second) :
    first.path.display = second.path.display ∧ first.language = second.language ∧
      first.sha256 = second.sha256 := by
  have texts := congrArg String.toList same
  simp only [headText, String.toList_append] at texts
  obtain ⟨fronts, hashes⟩ := List.append_inj' texts (by rw [firstHash.length, secondHash.length])
  obtain ⟨paths, languages⟩ := eq_of_append_language (List.append_cancel_right fronts)
  exact ⟨String.toList_injective paths, languages, String.toList_injective hashes⟩

/-! ## Whole reports -/

/-- A report whose path is on one line and whose digest has the form of digests. -/
structure Printable (report : FileReport) : Prop where
  path : 0x0A ∉ report.path.bytes
  hash : Digest.IsHash report.sha256

/-- A report as far as it is shown: its path is the text that is shown of it. -/
def shown (report : FileReport) : FileReport :=
  { report with path := .ofText report.path.display }

theorem map_shown_of_texts {reports : List FileReport}
    (texts : ∀ report ∈ reports, report.path.text?.isSome = true) :
    reports.map shown = reports := by
  refine List.map_congr_left (fun report member => ?_) |>.trans (List.map_id reports)
  obtain ⟨text, isText⟩ := Option.isSome_iff_exists.1 (texts report member)
  rw [shown, FilePath.display_of_text? isText, ← FilePath.eq_ofText_of_text? isText]
  rfl

theorem render_map_shown (reports : List FileReport) :
    render (reports.map shown) = render reports := by
  have text : toText ∘ shown = toText := by
    funext report
    simp only [Function.comp_apply, toText, headLine, shown, FilePath.display_ofText]
  rw [render, List.map_map, text, render]

def lineTexts (report : FileReport) : List String :=
  headText report :: report.symbols.entries.map entryText

/-- What is printed about reports is their lines, each with a line break at its end. -/
theorem render_eq_join (reports : List FileReport) :
    render reports = String.join ((reports.flatMap lineTexts).map (· ++ "\n")) := by
  induction reports with
  | nil => rfl
  | cons report reports ih =>
    have whole : render (report :: reports) = toText report ++ render reports := String.join_cons
    rw [whole, ih, List.flatMap_cons, List.map_append, String.join_append, lineTexts, List.map_cons,
      String.join_cons, List.map_map]
    rfl

theorem lineBreak_not_mem_headText {report : FileReport} (printable : Printable report) :
    '\n' ∉ (headText report).toList := by
  have inName : '\n' ∉ report.language.name.toList := by
    cases report.language <;> decide
  have inHash : '\n' ∉ report.sha256.toList := by
    intro member
    obtain ⟨value, small, isDigit⟩ := printable.hash.digits _ member
    exact absurd isDigit.symm (by revert value; decide)
  simp [headText, FilePath.lineBreak_not_mem_display printable.path, inName, inHash]

theorem lineBreak_not_mem_lineTexts {reports : List FileReport}
    (printable : ∀ report ∈ reports, Printable report) :
    ∀ line ∈ reports.flatMap lineTexts, '\n' ∉ line.toList := by
  intro line member
  obtain ⟨report, isReport, ofReport⟩ := List.mem_flatMap.1 member
  rcases List.mem_cons.1 ofReport with rfl | ofEntry
  · exact lineBreak_not_mem_headText (printable report isReport)
  · obtain ⟨entry, -, rfl⟩ := List.mem_map.1 ofEntry
    exact fun lineBreak => absurd (mem_alphabet lineBreak) (by decide)

theorem bracket_not_mem_entryText (entry : Range × RangeSet) :
    '[' ∉ (entryText entry).toList := fun bracket =>
  absurd (mem_alphabet bracket) (by decide)

theorem bracket_mem_headText (report : FileReport) : '[' ∈ (headText report).toList := by
  simp [headText]

/-- The lines of reports begin with a line that has a bracket. -/
theorem bracket_mem_head?_lineTexts (reports : List FileReport) :
    ∀ line ∈ (reports.flatMap lineTexts).head?, ¬ '[' ∉ line.toList := by
  cases reports with
  | nil => simp
  | cons report reports =>
    rintro line ⟨⟩ absent
    exact absent (bracket_mem_headText report)

/-- Reports are told from their lines, as far as they are shown. -/
theorem map_shown_of_lineTexts {first second : List FileReport}
    (firstPrintable : ∀ report ∈ first, Printable report)
    (secondPrintable : ∀ report ∈ second, Printable report)
    (same : first.flatMap lineTexts = second.flatMap lineTexts) :
    first.map shown = second.map shown := by
  induction first generalizing second with
  | nil =>
    cases second with
    | nil => rfl
    | cons report second => exact absurd same (List.cons_ne_nil _ _).symm
  | cons report first ih =>
    cases second with
    | nil => exact absurd same (List.cons_ne_nil _ _)
    | cons other second =>
      obtain ⟨heads, lines⟩ := List.cons.inj same
      obtain ⟨path, language, sha256⟩ := eq_of_headText
        (firstPrintable report List.mem_cons_self).hash
        (secondPrintable other List.mem_cons_self).hash heads
      have noBracket (report : FileReport) :
          ∀ line ∈ report.symbols.entries.map entryText, '[' ∉ line.toList := by
        intro line member
        obtain ⟨entry, -, rfl⟩ := List.mem_map.1 member
        exact bracket_not_mem_entryText entry
      obtain ⟨entries, rests⟩ := eq_of_append_of_run (noBracket report) (noBracket other)
        (bracket_mem_head?_lineTexts first) (bracket_mem_head?_lineTexts second) lines
      have symbols : report.symbols = other.symbols := by
        rw [← RangeMap.ofList_entries report.symbols,
          List.map_injective_iff.2 (fun _ _ => entryText_injective) entries,
          RangeMap.ofList_entries]
      have here : shown report = shown other := by
        simp only [shown, path, language, sha256, symbols]
      rw [List.map_cons, List.map_cons, here,
        ih (fun report member => firstPrintable report (List.mem_cons_of_mem _ member))
          (fun report member => secondPrintable report (List.mem_cons_of_mem _ member)) rests]

theorem render_eq_render_iff {first second : List FileReport}
    (firstPrintable : ∀ report ∈ first, Printable report)
    (secondPrintable : ∀ report ∈ second, Printable report) :
    render first = render second ↔ first.map shown = second.map shown := by
  constructor
  · intro same
    rw [render_eq_join, render_eq_join] at same
    exact map_shown_of_lineTexts firstPrintable secondPrintable
      (Text.eq_of_join_lines (lineBreak_not_mem_lineTexts firstPrintable)
        (lineBreak_not_mem_lineTexts secondPrintable) same)
  · intro same
    rw [← render_map_shown first, same, render_map_shown]

/-- Reports with paths on one line are printed alike just if they are the same in their order, as far
as they are shown; so reports whose paths are texts are told from what is printed about them.
Reports behind others are printed behind them. -/
theorem printed_reports_are_told_apart (first second : List FileReport) :
    ((∀ report ∈ first ++ second, Printable report) →
      (render first = render second ↔ first.map shown = second.map shown) ∧
      ((∀ report ∈ first ++ second, report.path.text?.isSome = true) →
        render first = render second → first = second)) ∧
    render (first ++ second) = render first ++ render second := by
  constructor
  · intro printable
    have printedAlike := render_eq_render_iff
      (fun report member => printable report (List.mem_append_left second member))
      (fun report member => printable report (List.mem_append_right first member))
    refine ⟨printedAlike, fun texts same => ?_⟩
    have firstTexts := map_shown_of_texts fun report member =>
      texts report (List.mem_append_left second member)
    have secondTexts := map_shown_of_texts fun report member =>
      texts report (List.mem_append_right first member)
    rw [← firstTexts, printedAlike.1 same, secondTexts]
  · rw [render, List.map_append, String.join_append]
    rfl

/-- A path that reads like a line on a declaration without references is not taken for one. -/
theorem path_like_entry_is_told_apart :
    let place : Range := ⟨⟨1, 4⟩, ⟨1, 5⟩⟩
    let empty : FileReport := ⟨"a.c", Digest.hex [], .c, ∅⟩
    let declaring : FileReport := { empty with symbols := RangeMap.ofList [(place, ∅)] }
    let misleading : FileReport := { empty with path := "  1:4-1:5 -> " }
    (∀ report ∈ [declaring] ++ [empty, misleading], Printable report) ∧
      render [declaring] ≠ render [empty, misleading] := by
  intro place empty declaring misleading
  have printable : ∀ report ∈ [declaring] ++ [empty, misleading], Printable report := by
    have pathC : 0x0A ∉ (FilePath.ofText "a.c").bytes := by decide
    exact List.forall_mem_cons.2 ⟨⟨pathC, Digest.isHash_hex []⟩,
      List.forall_mem_cons.2 ⟨⟨pathC, Digest.isHash_hex []⟩,
        List.forall_mem_singleton.2 ⟨by decide, Digest.isHash_hex []⟩⟩⟩
  have texts : ∀ report ∈ [declaring] ++ [empty, misleading],
      report.path.text?.isSome = true := by
    simp [declaring, empty, misleading, FilePath.text?_ofText]
  refine ⟨printable, fun same => ?_⟩
  have lists := ((printed_reports_are_told_apart _ _).1 printable).2 texts same
  exact absurd (congrArg List.length lists) (by decide)

def emptyTree : ParseTree :=
  .node ⟨0, "translation_unit", "", true, false, false, 0, 0⟩ []

def emptyReport (path : FilePath) : FileReport where
  path
  sha256 := Digest.hex []
  language := .c
  symbols := SymbolTable.assemble (SourceUnit.ofTree [] .c false emptyTree).toTranslationUnit
    (Lines.ofText []) {}

theorem ofBytes_emptyTree {path : FilePath} (isC : Language.ofPath? path = some .c) :
    ofBytes {} path [] emptyTree = .ok (emptyReport path) := by
  have language : languageOf {} path = some .c := isC
  rw [ofBytes, language]
  rfl

/-- Two files are printed alike, as their names differ only in bytes that are no text. -/
theorem stray_bytes_are_printed_alike :
    ∃ replaced stray : FileReport,
      ofBytes {} "a\uFFFD.c" [] emptyTree = .ok replaced ∧
      ofBytes {} ⟨[0x61, 0xFF, 0x2E, 0x63]⟩ [] emptyTree = .ok stray ∧
      (∀ report ∈ [replaced] ++ [stray], Printable report) ∧
      render [replaced] = render [stray] ∧ replaced.path ≠ stray.path := by
  refine ⟨_, _, ofBytes_emptyTree (by decide), ofBytes_emptyTree (by decide), ?_, ?_, ?_⟩
  · have replaced : 0x0A ∉ (FilePath.ofText "a\uFFFD.c").bytes := by decide
    exact List.forall_mem_cons.2 ⟨⟨replaced, Digest.isHash_hex []⟩,
      List.forall_mem_singleton.2 ⟨by decide, Digest.isHash_hex []⟩⟩
  · have display : (FilePath.ofText "a\uFFFD.c").display =
        FilePath.display ⟨[0x61, 0xFF, 0x2E, 0x63]⟩ := by decide
    rw [← render_map_shown, List.map_singleton, shown, emptyReport, display,
      ← render_map_shown [emptyReport _], List.map_singleton, shown, emptyReport]
  · show FilePath.ofText "a\uFFFD.c" ≠ ⟨[0x61, 0xFF, 0x2E, 0x63]⟩
    decide

end FileReport

end CrossReference
