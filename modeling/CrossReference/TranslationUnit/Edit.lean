import CrossReference.TranslationUnit

/-!
# Building translation units

An `Edit` adds to a unit or changes a mark of one of its declarations.  New declarations,
occurrences and bindings get the next free number of their kind.
-/

set_option autoImplicit false

namespace CrossReference.TranslationUnit

inductive Edit where
  | addBinding
  /-- A new declaration, active and in the file, inside another one or at the top level. -/
  | addDeclaration (parent : Option Nat)
  /-- A further way to reach a declaration. -/
  | link (parent : Option Nat) (child : Nat)
  | setActive (declaration : Nat) (active : Bool)
  | setInFile (declaration : Nat) (inFile : Bool)
  /-- A new occurrence, which belongs to a declaration or to none. -/
  | addOccurrence (owner : Option Nat) (occurrence : Occurrence)
  | report (binding : Nat) (occurrence : Nat)
  deriving DecidableEq

variable (unit : TranslationUnit)

/-- Whether a declaration has the number; every place that may be empty is one. -/
def hasDeclaration : Option Nat → Bool
  | some declaration => declaration < unit.declarations.size
  | none => true

def hasBinding : Option Nat → Bool
  | some binding => binding < unit.references.size
  | none => true

/-- Whether all numbers of an edit stand for something. -/
def admits : Edit → Bool
  | .addBinding => true
  | .addDeclaration parent => unit.hasDeclaration parent
  | .link parent child => unit.hasDeclaration parent && unit.hasDeclaration (some child)
  | .setActive declaration _ => unit.hasDeclaration (some declaration)
  | .setInFile declaration _ => unit.hasDeclaration (some declaration)
  | .addOccurrence owner occurrence =>
      unit.hasDeclaration owner && unit.hasBinding occurrence.binding
  | .report binding occurrence =>
      unit.hasBinding (some binding) && decide (occurrence < unit.occurrences.size)

def link (parent : Option Nat) (child : Nat) : TranslationUnit :=
  match parent with
  | none => { unit with topLevel := unit.topLevel ++ [child] }
  | some parent =>
      { unit with
        declarations := unit.declarations.modify parent fun declaration =>
          { declaration with nested := declaration.nested ++ [child] } }

def report (binding occurrence : Nat) : TranslationUnit :=
  { unit with references := unit.references.modify binding (· ++ [occurrence]) }

/-- Add an occurrence that no declaration owns.  One that is bound and declares nothing refers to
its binding. -/
def addDetached (occurrence : Occurrence) : TranslationUnit :=
  let added := { unit with occurrences := unit.occurrences.push occurrence }
  match occurrence.declares, occurrence.binding with
  | false, some binding => added.report binding unit.occurrences.size
  | _, _ => added

def apply : Edit → TranslationUnit
  | .addBinding => { unit with references := unit.references.push [] }
  | .addDeclaration parent =>
      let added := { unit with declarations := unit.declarations.push ⟨[], [], true, true⟩ }
      added.link parent unit.declarations.size
  | .link parent child => unit.link parent child
  | .setActive declaration active =>
      { unit with
        declarations := unit.declarations.modify declaration fun found =>
          { found with active := active } }
  | .setInFile declaration inFile =>
      { unit with
        declarations := unit.declarations.modify declaration fun found =>
          { found with inFile := inFile } }
  | .addOccurrence none occurrence => unit.addDetached occurrence
  | .addOccurrence (some owner) occurrence =>
      let added := unit.addDetached occurrence
      { added with
        declarations := added.declarations.modify owner fun found =>
          { found with names := found.names ++ [unit.occurrences.size] } }
  | .report binding occurrence => unit.report binding occurrence

def applyAll (edits : List Edit) : TranslationUnit :=
  edits.foldl apply unit

end CrossReference.TranslationUnit
