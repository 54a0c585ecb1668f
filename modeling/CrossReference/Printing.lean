import CrossReference.Arguments
import CrossReference.FileReport

/-!
# Printing reports

Reports are printed as text, with a line for each file and each declaration, or as a JSON value with
a message and the reports as data.  A text shows any path; data have a place only for paths that are
texts.  The members of records in the data are in the order of their names.
-/

set_option autoImplicit false

namespace CrossReference

namespace FileReport

def joined : List Range → String
  | [] => ""
  | [range] => range.render
  | range :: rest => range.render ++ ", " ++ joined rest

def entryLine (entry : Range × RangeSet) : String :=
  "  " ++ entry.1.render ++ " -> " ++ joined entry.2.toList ++ "\n"

def headLine (report : FileReport) : String :=
  report.path.display ++ " [" ++ report.language.name ++ "] sha256:" ++ report.sha256 ++ "\n"

def toText (report : FileReport) : String :=
  report.headLine ++ String.join (report.symbols.entries.map entryLine)

def render (reports : List FileReport) : String :=
  String.join (reports.map toText)

def pointerData (pointer : Pointer) : Json :=
  .record [("column", .number pointer.column), ("line", .number pointer.line)]

def rangeData (range : Range) : Json :=
  .record [("end", pointerData range.stop), ("start", pointerData range.start)]

def entryData (entry : Range × RangeSet) : Json :=
  .record [("declaration", rangeData entry.1),
    ("references", .list (entry.2.toList.map rangeData))]

def toData (report : FileReport) : Except Failure Json :=
  match report.path.text? with
  | none => .error .unwritable
  | some path => .ok (.record [
      ("language", .text report.language.name),
      ("path", .text path),
      ("sha256", .text report.sha256),
      ("symbols", .record [("symbols", .list (report.symbols.entries.map entryData))])])

def success (message : String) (reports : List FileReport) : Except Failure Json := do
  let data ← reports.mapM toData
  return .record [("status", .text "ok"), ("message", .text message), ("data", .list data)]

def print (format : Format) (message : String) (reports : List FileReport) :
    Except Failure String :=
  match format with
  | .text => .ok (render reports)
  | .json => (success message reports).map fun answer => answer.pretty ++ "\n"

end FileReport

end CrossReference
