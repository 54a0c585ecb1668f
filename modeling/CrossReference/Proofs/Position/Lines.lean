import CrossReference.Position.Lines
import Mathlib.Data.List.TakeWhile

/-!
# Laws of lines

A pointer stands for the offset where its line starts and its column more.  The pointer of an
offset within a text stands for that offset, so that two offsets never have the same pointer.
-/

set_option autoImplicit false

namespace CrossReference

def Location.Disjoint (first second : Location) : Prop :=
  first.offset + first.length ≤ second.offset ∨ second.offset + second.length ≤ first.offset

namespace Lines

def offset? (lines : Lines) (pointer : Pointer) : Option Nat :=
  (lines.start? pointer.line).map (· + pointer.column)

theorem offset?_pointer (text : List Char) (offset : Nat) :
    (ofText text).offset? ((ofText text).pointer offset) = some (min offset text.length) := by
  let within := min offset text.length
  let starts := (ofText text).starts
  have begins : (ofText text).begun within ≠ [] := by
    simp [begun, ofText]
  obtain ⟨last, isLast⟩ : ∃ last, ((ofText text).begun within).getLast? = some last :=
    ⟨_, List.getLast?_eq_some_getLast begins⟩
  have notAfter : last ≤ within := by
    have member : last ∈ starts.takeWhile (· ≤ within) := List.mem_of_getLast? isLast
    simpa using List.mem_takeWhile_imp member
  have isStart : starts[((ofText text).begun within).length - 1]? = some last := by
    have isPrefix : (ofText text).begun within <+: starts := List.takeWhile_prefix _
    obtain ⟨later, joined⟩ := isPrefix
    rw [List.getLast?_eq_getElem?] at isLast
    obtain ⟨inside, -⟩ := List.getElem?_eq_some_iff.1 isLast
    rw [← joined, List.getElem?_append_left inside, isLast]
  obtain ⟨line, isLine⟩ : ∃ line, ((ofText text).begun within).length = line + 1 :=
    Nat.exists_eq_succ_of_ne_zero (mt List.eq_nil_of_length_eq_zero begins)
  have column : ((ofText text).begun within).getLastD 0 = last := by
    rw [List.getLastD_eq_getLast?, isLast]
    rfl
  rw [isLine, Nat.add_sub_cancel] at isStart
  have isPointer : (ofText text).pointer offset = ⟨line + 1, within - last⟩ := by
    rw [← isLine, ← column]
    rfl
  rw [isPointer, offset?, start?, isStart, Option.map_some, Nat.add_sub_cancel' notAfter]

theorem pointer_injective {text : List Char} {first second : Nat} (firstInside : first ≤ text.length)
    (secondInside : second ≤ text.length)
    (same : (ofText text).pointer first = (ofText text).pointer second) : first = second := by
  have back := offset?_pointer text first
  rw [same, offset?_pointer, Nat.min_eq_left firstInside, Nat.min_eq_left secondInside] at back
  exact (Option.some.inj back).symm

end Lines

end CrossReference
