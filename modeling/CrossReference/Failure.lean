import CrossReference.Glob.Pattern
import CrossReference.Json
import CrossReference.SystemError

/-!
# Failures

A `Failure` is a cause for which a file or a pattern cannot be analysed, or a report cannot be
written.  Its wording, the file it is about and the advice it gives are functions of the cause.
-/

set_option autoImplicit false

namespace CrossReference

inductive ParseRefusal where
  /-- The parse tree has errors, and the analysis does not put up with any. -/
  | syntaxErrors (count : Nat)
  /-- The parser gives a reason of its own. -/
  | described (reason : String)
  deriving DecidableEq

inductive Failure where
  | unreadable (file : FilePath) (error : SystemError)
  | unparsable (file : FilePath) (refusal : ParseRefusal)
  | undecodable (file : FilePath) (malformed : Utf8.Malformed)
  | unsupported (file : FilePath)
  | badPattern (error : Glob.PatternError)
  /-- A path that is no text has no place in data. -/
  | unwritable
  deriving DecidableEq

def ParseRefusal.message : ParseRefusal → String
  | .syntaxErrors count =>
      Numeral.decimal count ++ " syntax error(s) and error recovery is disabled"
  | .described reason => reason

def Utf8.Malformed.message : Utf8.Malformed → String
  | .invalid index length =>
      "invalid utf-8 sequence of " ++ Numeral.decimal length ++ " bytes from index " ++
        Numeral.decimal index
  | .incomplete index => "incomplete utf-8 byte sequence from index " ++ Numeral.decimal index

def Glob.Fault.message : Glob.Fault → String
  | .tooManyStars => "wildcards are either regular \x60*\x60 or recursive \x60**\x60"
  | .partialRecursion => "recursive wildcards must form a single path component"
  | .badSet => "invalid range pattern"

namespace Failure

def kind : Failure → String
  | .unreadable _ _ => "FileAccess"
  | .unparsable _ _ => "Parse"
  | .undecodable _ _ => "Encoding"
  | .unsupported _ => "UnsupportedLanguage"
  | .badPattern _ => "InvalidPattern"
  | .unwritable => "Json"

def message : Failure → String
  | .unreadable file error => "Unable to read file " ++ file ++ ": " ++ error.render
  | .unparsable file refusal => "Unable to parse file " ++ file ++ ": " ++ refusal.message
  | .undecodable file malformed => "Invalid UTF-8 in " ++ file ++ ": " ++ malformed.message
  | .unsupported file => "Unsupported language for file " ++ file
  | .badPattern error =>
      "Invalid glob pattern: Pattern syntax error near position " ++
        Numeral.decimal error.position ++ ": " ++ error.fault.message
  | .unwritable => "JSON error: path contains invalid UTF-8 characters"

def file? : Failure → Option String
  | .unreadable file _ => some file
  | .unparsable file _ => some file
  | .undecodable file _ => some file
  | .unsupported file => some file
  | .badPattern _ | .unwritable => none

def hint? : Failure → Option String
  | .unparsable _ _ => some "Drop --strict to index files that contain syntax errors"
  | .undecodable _ _ => some "Convert the file to UTF-8"
  | .unsupported _ => some "Pass --language c or --language cpp to force a grammar"
  | .unreadable _ _ | .badPattern _ | .unwritable => none

def member? (name : String) : Option String → List (String × Json)
  | some value => [(name, .text value)]
  | none => []

def report (failure : Failure) : Json :=
  .record [
    ("status", .text "error"),
    ("error", .record (
      [("kind", .text failure.kind), ("message", .text failure.message)] ++
        member? "file" failure.file? ++ member? "hint" failure.hint?))]

end Failure

end CrossReference
