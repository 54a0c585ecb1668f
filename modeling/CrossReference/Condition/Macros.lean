/-!
# Macros that are defined

Conditions depend on which macros are defined and on those values of theirs that are integers.
-/

set_option autoImplicit false

namespace CrossReference.Condition

abbrev Macros := List (String × Option Int64)

namespace Macros

def isDefined (macros : Macros) (name : String) : Bool :=
  macros.any (·.1 = name)

def value? (macros : Macros) (name : String) : Option (Option Int64) :=
  (macros.find? (·.1 = name)).map (·.2)

def undefine (macros : Macros) (name : String) : Macros :=
  macros.filter (·.1 ≠ name)

def define (macros : Macros) (name : String) (value : Option Int64) : Macros :=
  (name, value) :: macros.undefine name

end Macros

end CrossReference.Condition
