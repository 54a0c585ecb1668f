import CrossReference.SymbolTable
import CrossReference.TranslationUnit.Collect

/-!
# Assembling a symbol table

`SymbolTable.assemble` turns a translation unit and the lines of its text into a table.  Every
collected declaration name that is bound gives an entry; of two with the same range the later one
counts.
-/

set_option autoImplicit false

namespace CrossReference

/-- What to do with a declaration among its own references. -/
inductive SelfReferences where
  | preserve
  | exclude
  deriving DecidableEq

structure TableOptions where
  includeInactive : Bool := true
  selfReferences : SelfReferences := .preserve
  deriving DecidableEq

namespace SymbolTable

def referenceRanges (unit : TranslationUnit) (lines : Lines) (binding : Nat) : RangeSet :=
  RangeSet.ofRanges (((unit.visibleReferences binding).filterMap unit.location?).map lines.range)

def entryOf? (unit : TranslationUnit) (lines : Lines) (selfReferences : SelfReferences)
    (name : Nat) : Option (Range × RangeSet) :=
  match unit.binding? name, unit.location? name with
  | some binding, some location =>
      let declaration := lines.range location
      let references := referenceRanges unit lines binding
      match selfReferences with
      | .preserve => some (declaration, references)
      | .exclude => some (declaration, references.erase declaration)
  | _, _ => none

def assemble (unit : TranslationUnit) (lines : Lines) (options : TableOptions) : SymbolTable :=
  RangeMap.ofList
    ((unit.declarationNames options.includeInactive).filterMap
      (entryOf? unit lines options.selfReferences))

end SymbolTable

end CrossReference
