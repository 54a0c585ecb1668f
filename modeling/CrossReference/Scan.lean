import CrossReference.FileReport
import CrossReference.Glob.Expand

/-!
# Scans

A scan reports on every C or C++ file that matches a pattern.  Directories and files of other
languages are passed over.  A file that fails is left out, unless the options ask for the scan to
end with the failure.
-/

set_option autoImplicit false

namespace CrossReference

namespace AnalysisOptions

def stopsAtFailure (options : AnalysisOptions) : Bool :=
  !options.errorRecovery || options.failFast

end AnalysisOptions

variable (workspace : Workspace) (options : AnalysisOptions)

def FileReport.read (path : FilePath) : Except Failure FileReport :=
  match workspace.read path with
  | .error error => .error (.unreadable path error)
  | .ok file => FileReport.ofBytes options path file.bytes file.tree

namespace Scan

def covers (path : FilePath) : Bool :=
  !workspace.isDirectory path && (FileReport.languageOf options path).isSome

/-- The report on an entry, or nothing if the scan passes over the entry. -/
def reportOn : Glob.Listed → Option (Except Failure FileReport)
  | .unreadable path error => some (.error (.unreadable path error))
  | .path path =>
      if covers workspace options path then some (FileReport.read workspace options path) else none

def reports : List Glob.Listed → Except Failure (List FileReport)
  | [] => .ok []
  | entry :: rest =>
      match reportOn workspace options entry with
      | none => reports rest
      | some (.ok report) => (report :: ·) <$> reports rest
      | some (.error failure) =>
          if options.stopsAtFailure then .error failure else reports rest

def run (pattern : String) : Except Failure (List FileReport) :=
  match Glob.Pattern.read pattern.toList with
  | .error error => .error (.badPattern error)
  | .ok pattern => reports workspace options (Glob.expand workspace pattern)

end Scan

end CrossReference
