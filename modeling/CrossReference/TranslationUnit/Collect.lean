import CrossReference.TranslationUnit

/-!
# Collecting declaration names

`TranslationUnit.declarationNames` gathers the occurrences that introduce symbols.  It goes depth
first through the declarations that can be reached from the top level, visits each of them once,
and keeps the first appearance of each occurrence.
-/

set_option autoImplicit false

namespace CrossReference.TranslationUnit

structure Collection where
  /-- The declarations visited, the latest first. -/
  visited : List Nat
  found : List Nat
  deriving DecidableEq

variable (unit : TranslationUnit)

def addNames (found : List Nat) : List Nat → List Nat
  | [] => found
  | name :: rest =>
      if unit.isDeclarationName name && !found.contains name then addNames (found ++ [name]) rest
      else addNames found rest

def unvisited (visited : List Nat) : Nat :=
  ((List.range unit.declarations.size).filter fun declaration =>
    !visited.contains declaration).length

theorem filter_length_lt {members : List Nat} {before after : Nat → Bool} {lost : Nat}
    (member : lost ∈ members) (wasKept : before lost = true) (isLost : after lost = false)
    (fewer : ∀ other, after other = true → before other = true) :
    (members.filter after).length < (members.filter before).length := by
  induction members with
  | nil => cases member
  | cons first rest ih =>
    have mono : (rest.filter after).length ≤ (rest.filter before).length := by
      rw [← List.countP_eq_length_filter, ← List.countP_eq_length_filter]
      exact List.countP_mono_left fun other _ => fewer other
    rcases List.mem_cons.1 member with rfl | later
    · simp only [List.filter_cons, isLost, wasKept, if_true]
      simpa using Nat.lt_succ_of_le mono
    · have step := ih later
      cases kept : after first with
      | false =>
        cases was : before first <;> simp [kept, was] <;> omega
      | true =>
        simp [kept, fewer first kept, step]

theorem unvisited_cons_lt {visited : List Nat} {declaration : Nat}
    (known : declaration < unit.declarations.size) (new : declaration ∉ visited) :
    unit.unvisited (declaration :: visited) < unit.unvisited visited :=
  filter_length_lt (List.mem_range.2 known) (by simpa using new) (by simp)
    (by simp only [List.contains_cons]; grind)

/-- Visit the declarations of a worklist, each one before those inside it and those before the
rest.  With `activeOnly`, a declaration that is not compiled in is passed over with all that is
inside it. -/
def visitAll (activeOnly : Bool) (worklist : List Nat) (collection : Collection) : Collection :=
  match worklist with
  | [] => collection
  | declaration :: rest =>
      if _known : declaration < unit.declarations.size ∧ declaration ∉ collection.visited then
        let visited := declaration :: collection.visited
        if activeOnly && !unit.isActive declaration then
          visitAll activeOnly rest ⟨visited, collection.found⟩
        else
          visitAll activeOnly (unit.nested declaration ++ rest)
            ⟨visited, unit.addNames collection.found (unit.names declaration)⟩
      else visitAll activeOnly rest collection
termination_by (unit.unvisited collection.visited, worklist.length)
decreasing_by
  · exact Prod.Lex.left _ _ (unit.unvisited_cons_lt _known.1 _known.2)
  · exact Prod.Lex.left _ _ (unit.unvisited_cons_lt _known.1 _known.2)
  · exact Prod.Lex.right _ (by simp)

/-- The occurrences that introduce symbols, in depth-first order.  A top-level declaration that
does not come from the file itself is passed over with all that is inside it. -/
def declarationNames (includeInactive : Bool) : List Nat :=
  (unit.visitAll (!includeInactive) (unit.topLevel.filter unit.isInFile) ⟨[], []⟩).found

end CrossReference.TranslationUnit
