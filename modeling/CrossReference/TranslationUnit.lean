import CrossReference.Position

/-!
# Translation units

A `TranslationUnit` is what the analysis knows of one file: declarations that own occurrences of
names and other declarations, occurrences that may be bound, and for each binding the occurrences
that refer to it.  Declarations, occurrences and bindings are numbered from zero.  Nothing is
assumed of the numbers in the lists: a declaration may be linked from several places or from
within itself, and a number that stands for nothing owns nothing.
-/

set_option autoImplicit false

namespace CrossReference

structure Declaration where
  nested : List Nat
  names : List Nat
  active : Bool
  inFile : Bool
  deriving DecidableEq

structure Occurrence where
  declares : Bool
  inFile : Bool
  /-- Where it stands; a name that is not written in the text has no location. -/
  location : Option Location
  binding : Option Nat
  deriving DecidableEq

structure TranslationUnit where
  topLevel : List Nat
  declarations : Array Declaration
  occurrences : Array Occurrence
  references : Array (List Nat)
  deriving DecidableEq

namespace TranslationUnit

def empty : TranslationUnit := ⟨[], #[], #[], #[]⟩

instance : Inhabited TranslationUnit := ⟨empty⟩

variable (unit : TranslationUnit)

def nested (declaration : Nat) : List Nat :=
  match unit.declarations[declaration]? with
  | some found => found.nested
  | none => []

def names (declaration : Nat) : List Nat :=
  match unit.declarations[declaration]? with
  | some found => found.names
  | none => []

def isActive (declaration : Nat) : Bool :=
  match unit.declarations[declaration]? with
  | some found => found.active
  | none => false

def isInFile (declaration : Nat) : Bool :=
  match unit.declarations[declaration]? with
  | some found => found.inFile
  | none => false

def location? (occurrence : Nat) : Option Location :=
  match unit.occurrences[occurrence]? with
  | some found => found.location
  | none => none

def binding? (occurrence : Nat) : Option Nat :=
  match unit.occurrences[occurrence]? with
  | some found => found.binding
  | none => none

/-- Whether an occurrence is written in the file itself and has a location. -/
def isVisible (occurrence : Nat) : Bool :=
  match unit.occurrences[occurrence]? with
  | some found => found.inFile && found.location.isSome
  | none => false

/-- Whether an occurrence introduces a symbol at a place of the file itself. -/
def isDeclarationName (occurrence : Nat) : Bool :=
  match unit.occurrences[occurrence]? with
  | some found => found.declares && found.inFile && found.location.isSome
  | none => false

def referencesOf (binding : Nat) : List Nat :=
  match unit.references[binding]? with
  | some found => found
  | none => []

def visibleReferences (binding : Nat) : List Nat :=
  (unit.referencesOf binding).filter unit.isVisible

end TranslationUnit

end CrossReference
