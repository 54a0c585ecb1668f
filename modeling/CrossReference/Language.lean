import CrossReference.Path

/-!
# Languages

A file is C or C++.  The extension decides, and its case counts; a file with another extension has
no language of its own.
-/

set_option autoImplicit false

namespace CrossReference

inductive Language where
  | c
  | cpp
  deriving DecidableEq

namespace Language

def name : Language → String
  | .c => "c"
  | .cpp => "cpp"

def ofName? (name : String) : Option Language :=
  if name = "c" then some .c else if name = "cpp" then some .cpp else none

def ofExtension? (ending : String) : Option Language :=
  if ending ∈ ["c", "h"] then some .c
  else if ending ∈ ["cpp", "hpp", "cc", "cxx", "hh", "hxx"] then some .cpp
  else none

def ofPath? (path : FilePath) : Option Language :=
  match path.extension?.bind Utf8.text? with
  | some ending => ofExtension? (String.ofList ending)
  | none => none

end Language

end CrossReference
