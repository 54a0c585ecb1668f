import CrossReference.Walk.Run

/-!
# The moments of a walk

`Reaches` lists what a walk comes through: the frames visited so far, the state after them, and the
frames that wait.  What every visit preserves holds at each moment, and the last moment is that of
`run`.
-/

set_option autoImplicit false

namespace CrossReference.Walk

variable (source : List Char)

@[simp]
theorem run_nil (state : State) : run source state [] = state := by
  rw [run]

theorem run_cons (state : State) (frame : Frame) (rest : List Frame) :
    run source state (frame :: rest) =
      run source (visit source state frame).1 ((visit source state frame).2 ++ rest) := by
  rw [run]

/-- The frames of two lists are visited as if first those of the one were and then those of the
other, as all that comes out of a visit goes before what waits. -/
theorem run_append (state : State) (first second : List Frame) :
    run source state (first ++ second) = run source (run source state first) second := by
  fun_induction run source state first with
  | case1 state => rfl
  | case2 state frame rest visited ih =>
    rw [List.cons_append, run_cons, ← ih, List.append_assoc]

/-- A walk that starts with a state and frames comes to a moment: some frames are visited, there is
a state, and some frames wait. -/
inductive Reaches (start : State) (frames : List Frame) :
    List Frame → State → List Frame → Prop where
  | start : Reaches start frames [] start frames
  | visit {visited waiting : List Frame} {state : State} {frame : Frame}
      (before : Reaches start frames visited state (frame :: waiting)) :
      Reaches start frames (visited ++ [frame]) (visit source state frame).1
        ((visit source state frame).2 ++ waiting)

namespace Reaches

variable {source} {start state : State} {frames visited waiting : List Frame}

/-- From each of its moments a walk comes to the same end. -/
theorem run_eq (reached : Reaches source start frames visited state waiting) :
    run source state waiting = run source start frames := by
  induction reached with
  | start => rfl
  | visit before ih => rw [← ih, run_cons]

theorem visit_eq {frame : Frame} {after : State} {left : List Frame}
    (before : Reaches source start frames visited state (frame :: waiting))
    (outcome : Walk.visit source state frame = (after, left)) :
    Reaches source start frames (visited ++ [frame]) after (left ++ waiting) := by
  have next := before.visit
  rwa [outcome] at next

theorem invariant (holds : List Frame → State → List Frame → Prop)
    (initial : holds [] start frames)
    (preserved : ∀ visited state frame waiting,
      Reaches source start frames visited state (frame :: waiting) →
      holds visited state (frame :: waiting) →
      holds (visited ++ [frame]) (Walk.visit source state frame).1
        ((Walk.visit source state frame).2 ++ waiting))
    (reached : Reaches source start frames visited state waiting) :
    holds visited state waiting := by
  induction reached with
  | start => exact initial
  | visit before ih => exact preserved _ _ _ _ before ih

theorem exists_end (reached : Reaches source start frames visited state waiting) :
    ∃ all, Reaches source start frames all (run source start frames) [] := by
  rw [← reached.run_eq]
  fun_induction run source state waiting generalizing visited with
  | case1 state => exact ⟨visited, reached⟩
  | case2 state frame rest next =>
    rename_i later
    exact later (.visit reached)

/-- What holds at a moment and is preserved by each later visit holds at the end. -/
theorem holds_at_end (reached : Reaches source start frames visited state waiting)
    (holds : State → Prop) (now : holds state)
    (preserved : ∀ visited state frame waiting,
      Reaches source start frames visited state (frame :: waiting) → holds state →
        holds (Walk.visit source state frame).1) : holds (run source start frames) := by
  rw [← reached.run_eq]
  fun_induction run source state waiting generalizing visited with
  | case1 state => exact now
  | case2 state frame rest next =>
    rename_i later
    exact later (.visit reached) (preserved _ state frame rest reached now)

end Reaches

theorem exists_reaches_run (start : State) (frames : List Frame) :
    ∃ visited, Reaches source start frames visited (run source start frames) [] :=
  Reaches.start.exists_end

end CrossReference.Walk
