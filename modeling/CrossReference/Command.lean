import CrossReference.Arguments
import CrossReference.Printing
import CrossReference.Scan

/-!
# The command

`Command.run` is the whole program as a function of the workspace and the arguments.  It gives the
exit code and what is printed.
-/

set_option autoImplicit false

namespace CrossReference

structure Outcome where
  code : Nat
  output : String
  errors : String
  deriving DecidableEq

namespace Command

def version : String := "0.1.0"

def usage : String :=
  "table --file FILE [OPTIONS]\nscan --glob PATTERN [OPTIONS]\n\n" ++
    "--language LANG            c or cpp; by default the extension decides\n" ++
    "--format FORMAT            json or text\n" ++
    "--exclude-self-references  drop a declaration from its own references\n" ++
    "--skip-inactive            ignore declarations that are not compiled in\n" ++
    "--strict                   treat syntax errors as fatal\n" ++
    "--fail-fast                stop a scan at the first file that fails\n"

/-- The end of a run whose arguments make up no request.  A wish for help or the version is
granted; all else is an error. -/
def refuse : ArgumentError → Outcome
  | .displayHelp => ⟨0, usage, ""⟩
  | .displayVersion => ⟨0, version ++ "\n", ""⟩
  | .displayHelpOnMissing => ⟨2, "", usage⟩
  | error => ⟨2, "", error.name ++ "\n"⟩

def fileMessage (path : FilePath) (report : FileReport) : String :=
  "Indexed " ++ path.display ++ ": " ++ Numeral.decimal report.symbols.size ++ " declarations, " ++
    Numeral.decimal report.symbols.referenceCount ++ " references"

def scanMessage (pattern : String) (reports : List FileReport) : String :=
  "Indexed " ++ Numeral.decimal reports.length ++ " files matching '" ++ pattern ++ "'"

def answer (workspace : Workspace) (request : Request) :
    Except Failure (String × List FileReport) :=
  match request.target with
  | .file path =>
      match FileReport.read workspace request.options path with
      | .ok report => .ok (fileMessage path report, [report])
      | .error failure => .error failure
  | .glob pattern =>
      match Scan.run workspace request.options pattern with
      | .ok reports => .ok (scanMessage pattern reports, reports)
      | .error failure => .error failure

def output (workspace : Workspace) (request : Request) : Except Failure String := do
  let (message, reports) ← answer workspace request
  FileReport.print request.format message reports

def carryOut (workspace : Workspace) (request : Request) : Outcome :=
  match output workspace request with
  | .ok text => ⟨0, text, ""⟩
  | .error failure => ⟨1, "", failure.report.pretty ++ "\n"⟩

def run (workspace : Workspace) (arguments : List String) : Outcome :=
  match Arguments.read arguments with
  | .ok request => carryOut workspace request
  | .error error => refuse error

end Command

end CrossReference
