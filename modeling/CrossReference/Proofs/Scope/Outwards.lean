import CrossReference.Proofs.Scope.Search

/-!
# Going outwards

A search outwards goes from a scope to the one around it until something answers.  Where every scope
is made after the one around it, such a search ends after at most as many rounds as scopes have been
made up to the one where it starts, and it never comes to a scope that is missing.
-/

set_option autoImplicit false

namespace CrossReference.Scopes

variable {scopes : Scopes}

theorem exists_of_lt_next {scope : Nat} (made : scope < scopes.next) :
    ∃ found, scopes.all[scope]? = some found :=
  ⟨_, Array.getElem?_eq_getElem made⟩

theorem enclosingClass_of_class {scope : Nat} {found : Scope} (there : scopes.all[scope]? = some found)
    (isClass : found.kind = .classBody) : scopes.enclosingClass scope = some scope := by
  rw [enclosingClass]
  simp only [there, isClass, if_true]

theorem enclosingClass_of_other (nested : scopes.Nested) {scope : Nat} {found : Scope}
    (there : scopes.all[scope]? = some found) (isOther : found.kind ≠ .classBody) :
    scopes.enclosingClass scope = found.parent.bind scopes.enclosingClass := by
  rw [enclosingClass]
  simp only [there, isOther, if_false]
  cases around : found.parent with
  | none => rfl
  | some parent =>
    have earlier : parent < scope := nested scope found parent there around
    simp only [earlier, if_true, Option.bind_some]

end CrossReference.Scopes
