import CrossReference.Digest
import CrossReference.SourceUnit
import CrossReference.SymbolTable.Assemble

/-!
# Reports on files

A `FileReport` holds the symbol table of one file and what identifies the file.  `FileReport.ofBytes`
makes it from the bytes of the file; it first settles the language, then decodes the text, and then
reads the parse tree.
-/

set_option autoImplicit false

namespace CrossReference

structure AnalysisOptions where
  /-- The language of all files; without one the extension decides. -/
  language : Option Language := none
  /-- Whether syntax errors are put up with, and files that fail are left out of a scan. -/
  errorRecovery : Bool := true
  /-- Whether a scan ends at the first file that fails, even with error recovery. -/
  failFast : Bool := false
  declarationsAsReferences : Bool := false
  table : TableOptions := {}
  deriving DecidableEq

structure FileReport where
  path : FilePath
  sha256 : String
  language : Language
  symbols : SymbolTable
  deriving DecidableEq

namespace FileReport

def languageOf (options : AnalysisOptions) (path : FilePath) : Option Language :=
  options.language <|> Language.ofPath? path

/-- The report on a file with the given bytes, whose text has the given parse tree. -/
def ofBytes (options : AnalysisOptions) (path : FilePath) (bytes : List UInt8)
    (tree : ParseTree) : Except Failure FileReport :=
  match languageOf options path with
  | none => .error (.unsupported path)
  | some language =>
      match Utf8.decode bytes with
      | .error malformed => .error (.undecodable path malformed)
      | .ok text =>
          match SourceUnit.read path text tree
              ⟨language, options.errorRecovery, options.declarationsAsReferences⟩ with
          | .error failure => .error failure
          | .ok unit =>
              .ok {
                path
                sha256 := Digest.hex bytes
                language
                symbols := SymbolTable.assemble unit.toTranslationUnit (Lines.ofText text)
                  options.table }

end FileReport

end CrossReference
