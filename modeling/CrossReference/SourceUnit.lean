import CrossReference.Failure
import CrossReference.Language
import CrossReference.TranslationUnit
import CrossReference.Walk.Resolve
import CrossReference.Walk.Run

/-!
# Source units

A `SourceUnit` is what is known of one C or C++ file after its parse tree has been walked and its
names have been bound.  `SourceUnit.toTranslationUnit` is the view of it from which a symbol table
is assembled.
-/

set_option autoImplicit false

namespace CrossReference

structure SourceOptions where
  language : Language := .cpp
  /-- Whether a tree with errors is used as far as it goes. -/
  errorRecovery : Bool := true
  declarationsAsReferences : Bool := false
  deriving DecidableEq

structure SourceUnit where
  language : Language
  topLevel : List Nat
  declarations : Array Walk.DeclarationNode
  names : Array Walk.NameNode
  symbols : Array Symbol
  /-- For each symbol, the occurrences that refer to it, in the order in which they were met. -/
  references : Array (List Nat)
  syntaxErrors : Nat

namespace SourceUnit

def walked (source : List Char) (language : Language) (tree : ParseTree) : Walk.State :=
  Walk.run source (Walk.State.initial (language = .cpp)) [Walk.Frame.root tree]

/-- The occurrences bound to a symbol; those that declare it count if they are asked for. -/
def referencesTo (names : Array Walk.NameNode) (withDeclarations : Bool) (binding : Nat) :
    List Nat :=
  (List.range names.size).filter fun name =>
    match names[name]? with
    | some found => found.binding = some binding && (!found.declares || withDeclarations)
    | none => false

def ofTree (source : List Char) (language : Language) (declarationsAsReferences : Bool)
    (tree : ParseTree) : SourceUnit :=
  let final := (walked source language tree).resolve
  { language
    topLevel := final.topLevel
    declarations := final.declarations
    names := final.names
    symbols := final.symbols
    references := (Array.range final.symbols.size).map
      (referencesTo final.names declarationsAsReferences)
    syntaxErrors := tree.syntaxErrors }

/-- The unit of a file, given its text and the parse tree of that.  Without error recovery a tree
with errors is refused. -/
def read (path : FilePath) (source : List Char) (tree : ParseTree) (options : SourceOptions) :
    Except Failure SourceUnit :=
  if !options.errorRecovery && decide (0 < tree.syntaxErrors) then
    .error (.unparsable path (.syntaxErrors tree.syntaxErrors))
  else .ok (ofTree source options.language options.declarationsAsReferences tree)

/-- The view of a unit from which tables are assembled.  Included files are not read, so that
everything comes from the file itself. -/
def toTranslationUnit (unit : SourceUnit) : TranslationUnit where
  topLevel := unit.topLevel
  declarations := unit.declarations.map fun declaration =>
    ⟨declaration.nested, declaration.names, declaration.active, true⟩
  occurrences := unit.names.map fun name => ⟨name.declares, true, name.location, name.binding⟩
  references := unit.references

def namesSpelled (unit : SourceUnit) (text : String) : List Nat :=
  (List.range unit.names.size).filter fun name =>
    match unit.names[name]? with
    | some found => found.text = text
    | none => false

end SourceUnit

end CrossReference
