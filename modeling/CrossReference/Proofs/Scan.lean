import CrossReference.Scan

/-!
# What a scan reports

Each entry that a pattern leads to has an outcome of its own: a report, a failure, or neither.  A
scan that puts up with failures gives the reports of all entries; one that ends at a failure gives
the same reports, or the first failure.
-/

set_option autoImplicit false

namespace CrossReference

namespace Scan

variable (workspace : Workspace) (options : AnalysisOptions)

/-- The path leads to a file, and the options or its extension give the language of it. -/
def IsSourceFile (path : FilePath) : Prop :=
  workspace.isDirectory path = false ∧
    (options.language ≠ none ∨ Language.ofPath? path ≠ none)

instance (path : FilePath) : Decidable (IsSourceFile workspace options path) :=
  inferInstanceAs (Decidable (_ ∧ (_ ∨ _)))

/-- The report that a file gives on its own, for an entry that is a source file. -/
def reportAlone? : Glob.Listed → Option FileReport
  | .path path =>
      if IsSourceFile workspace options path then
        (FileReport.read workspace options path).toOption
      else none
  | .unreadable _ _ => none

/-- The failure of an entry: that of a source file on its own, or that of a directory which cannot
be listed. -/
def failureAlone? : Glob.Listed → Option Failure
  | .path path =>
      if IsSourceFile workspace options path then
        match FileReport.read workspace options path with
        | .error failure => some failure
        | .ok _ => none
      else none
  | .unreadable path error => some (.unreadable path error)

def isForeign : Glob.Listed → Bool
  | .path path => decide (options.language = none ∧ Language.ofPath? path = none)
  | .unreadable _ _ => false

theorem covers_iff (path : FilePath) :
    covers workspace options path = true ↔ IsSourceFile workspace options path := by
  unfold covers IsSourceFile FileReport.languageOf
  cases options.language <;> simp [Option.isSome_iff_ne_none]

/-- An entry has one outcome at most, and the scan meets exactly that. -/
theorem reportOn_cases (entry : Glob.Listed) :
    (reportOn workspace options entry = none ∧
      reportAlone? workspace options entry = none ∧
      failureAlone? workspace options entry = none) ∨
    (∃ report, reportOn workspace options entry = some (.ok report) ∧
      reportAlone? workspace options entry = some report ∧
      failureAlone? workspace options entry = none) ∨
    (∃ failure, reportOn workspace options entry = some (.error failure) ∧
      reportAlone? workspace options entry = none ∧
      failureAlone? workspace options entry = some failure) := by
  cases entry with
  | unreadable path error => exact .inr (.inr ⟨_, rfl, rfl, rfl⟩)
  | path path =>
    by_cases isSource : IsSourceFile workspace options path
    · have covered := (covers_iff workspace options path).2 isSource
      cases outcome : FileReport.read workspace options path with
      | ok report =>
        refine .inr (.inl ⟨report, ?_, ?_, ?_⟩)
        · simp [reportOn, covered, outcome]
        · simp [reportAlone?, isSource, outcome, Except.toOption]
        · simp [failureAlone?, isSource, outcome]
      | error failure =>
        refine .inr (.inr ⟨failure, ?_, ?_, ?_⟩)
        · simp [reportOn, covered, outcome]
        · simp [reportAlone?, isSource, outcome, Except.toOption]
        · simp [failureAlone?, isSource, outcome]
    · have passed : covers workspace options path ≠ true := fun covered =>
        isSource ((covers_iff workspace options path).1 covered)
      exact .inl ⟨by simp [reportOn, passed], by simp [reportAlone?, isSource],
        by simp [failureAlone?, isSource]⟩

theorem reportOn_of_isForeign {entry : Glob.Listed} (foreign : isForeign options entry = true) :
    reportOn workspace options entry = none := by
  cases entry with
  | unreadable path error => cases foreign
  | path path =>
    obtain ⟨noOverride, noExtension⟩ := of_decide_eq_true foreign
    simp [reportOn, covers, FileReport.languageOf, noOverride, noExtension]

/-- A scan that puts up with failures leaves out what fails. -/
theorem reports_of_goesOn (goesOn : options.stopsAtFailure = false) (entries : List Glob.Listed) :
    reports workspace options entries =
      .ok (entries.filterMap (reportAlone? workspace options)) := by
  induction entries with
  | nil => rfl
  | cons entry rest ih =>
    obtain ⟨met, report, -⟩ | ⟨found, met, report, -⟩ | ⟨failure, met, report, -⟩ :=
      reportOn_cases workspace options entry
    · simp only [reports, met, List.filterMap_cons, report]
      exact ih
    · simp only [reports, met, List.filterMap_cons, report, ih]
      rfl
    · simp only [reports, met, goesOn, List.filterMap_cons, report]
      exact ih

/-- A scan that ends at a failure ends at the first one; without any it gives all reports. -/
theorem reports_of_stops (stops : options.stopsAtFailure = true) (entries : List Glob.Listed) :
    reports workspace options entries =
      match entries.findSome? (failureAlone? workspace options) with
      | some failure => .error failure
      | none => .ok (entries.filterMap (reportAlone? workspace options)) := by
  induction entries with
  | nil => rfl
  | cons entry rest ih =>
    obtain ⟨met, report, fails⟩ | ⟨found, met, report, fails⟩ | ⟨failure, met, -, fails⟩ :=
      reportOn_cases workspace options entry
    · simp only [reports, met, List.findSome?_cons, fails, List.filterMap_cons, report]
      exact ih
    · simp only [reports, met, List.findSome?_cons, fails, List.filterMap_cons, report, ih]
      cases rest.findSome? (failureAlone? workspace options) <;> rfl
    · simp only [reports, met, stops, List.findSome?_cons, fails]
      rfl

theorem reports_filter (keeps : Glob.Listed → Bool)
    (passed : ∀ entry, keeps entry = false → reportOn workspace options entry = none)
    (entries : List Glob.Listed) :
    reports workspace options (entries.filter keeps) = reports workspace options entries := by
  induction entries with
  | nil => rfl
  | cons entry rest ih =>
    cases kept : keeps entry with
    | true => simp only [List.filter_cons, kept, if_true, reports, ih]
    | false =>
      rw [List.filter_cons_of_neg (by simp [kept]), ih]
      simp only [reports, passed entry kept]

theorem reportAlone?_failFast (failFast : Bool) (entry : Glob.Listed) :
    reportAlone? workspace { options with failFast } entry =
      reportAlone? workspace options entry := by
  cases entry <;> rfl

theorem failureAlone?_failFast (failFast : Bool) (entry : Glob.Listed) :
    failureAlone? workspace { options with failFast } entry =
      failureAlone? workspace options entry := by
  cases entry <;> rfl

/-- With error recovery a scan gives, in the order of entries, the report of each source file that
has one on its own.  A scan that also has to fail fast gives the same list, or the failure of the
first entry that fails.  Files of other languages change nothing, whatever the options. -/
theorem reports_are_those_of_files (entries : List Glob.Listed) :
    let recovering := { options with errorRecovery := true, failFast := false }
    let failingFast := { options with errorRecovery := true, failFast := true }
    reports workspace recovering entries =
        .ok (entries.filterMap (reportAlone? workspace recovering)) ∧
      reports workspace failingFast entries =
        (match entries.findSome? (failureAlone? workspace recovering) with
        | some failure => .error failure
        | none => .ok (entries.filterMap (reportAlone? workspace recovering))) ∧
      reports workspace options (entries.filter fun entry => !isForeign options entry) =
        reports workspace options entries := by
  intro recovering failingFast
  refine ⟨reports_of_goesOn workspace recovering rfl entries, ?_, ?_⟩
  · have stopped := reports_of_stops workspace failingFast rfl entries
    have sameReports : reportAlone? workspace failingFast = reportAlone? workspace recovering :=
      funext (reportAlone?_failFast workspace recovering true)
    have sameFailures :
        failureAlone? workspace failingFast = failureAlone? workspace recovering :=
      funext (failureAlone?_failFast workspace recovering true)
    rw [stopped, sameReports, sameFailures]
  · refine reports_filter workspace options _ ?_ entries
    intro entry foreign
    exact reportOn_of_isForeign workspace options (by simpa using foreign)

end Scan

end CrossReference
