import CrossReference.Proofs.ParseTree.Within
import CrossReference.Proofs.Walk.Growth

/-!
# Where macros are defined

The walk follows the definitions of a macro twice: as spans of the text, for the names that use it,
and in the table of macros that conditions are decided with.  Both are told apart by the directives
visited so far.  The table forgets a macro when its definition is taken back.  Of the spans only the
last one is ended then, so that the macro stays visible if it was defined twice in a row.
-/

set_option autoImplicit false

namespace CrossReference.Walk

open ParseTree

/-! ## Directives -/

/-- A visit that defines a macro or takes back its definition. -/
structure MacroDirective where
  name : String
  /-- The byte from which on it counts: the end of a definition, the start of its revocation. -/
  position : Nat
  defines : Bool
  active : Bool
  deriving DecidableEq

def definedName? (source : List Char) (tree : ParseTree) : Option String :=
  (tree.child? "name").bind fun name =>
    if (name.text source).isEmpty then none else some (name.text source)

def trimmedPart? (source : List Char) (tree : ParseTree) (part : String) : Option String :=
  (tree.child? part).bind fun child =>
    (child.text? source).map fun text => String.ofList (Text.trim text.toList)

def undefinedName? (source : List Char) (tree : ParseTree) : Option String :=
  if trimmedPart? source tree "directive" = some "#undef" then trimmedPart? source tree "argument"
  else none

def Frame.macroDirective? (source : List Char) (frame : Frame) : Option MacroDirective :=
  if frame.isDirective then
    match frame.tree.form with
    | .macroDefinition =>
        (definedName? source frame.tree).map fun name =>
          ⟨name, frame.tree.stop, true, frame.context.active⟩
    | _ =>
        (undefinedName? source frame.tree).map fun name =>
          ⟨name, frame.tree.start, false, frame.context.active⟩
  else none

def macroDirectives (source : List Char) (visited : List Frame) : List MacroDirective :=
  visited.filterMap (Frame.macroDirective? source)

/-- The last of the directives is a definition. -/
def DefinesLast (directives : List MacroDirective) : Prop :=
  ∃ last, directives.getLast? = some last ∧ last.defines = true

/-- Two definitions follow each other directly. -/
def Redefines (directives : List MacroDirective) : Prop :=
  ∃ first second, [first, second] <:+: directives ∧ first.defines = true ∧ second.defines = true

theorem not_definesLast_nil : ¬ DefinesLast [] := by
  rintro ⟨last, found, -⟩
  cases found

theorem definesLast_cons (first : MacroDirective) (rest : List MacroDirective) :
    DefinesLast (first :: rest) ↔ (rest = [] ∧ first.defines = true) ∨ DefinesLast rest := by
  unfold DefinesLast
  cases rest with
  | nil => simp
  | cons second rest => simp [List.getLast?_cons_cons]

theorem foldl_defines_iff (directives : List MacroDirective) :
    directives.foldl (fun _ directive => directive.defines) false = true ↔
      DefinesLast directives := by
  obtain rfl | ⟨front, last, rfl⟩ := List.eq_nil_or_concat directives
  · simp [not_definesLast_nil]
  · simp [DefinesLast]

theorem not_redefines_nil : ¬ Redefines [] := by
  rintro ⟨first, second, adjacent, -⟩
  simp at adjacent

theorem redefines_cons (first : MacroDirective) (rest : List MacroDirective) :
    Redefines (first :: rest) ↔
      (first.defines = true ∧ ∃ second, rest.head? = some second ∧ second.defines = true) ∨
        Redefines rest := by
  constructor
  · rintro ⟨front, back, adjacent, defined, redefined⟩
    rcases List.infix_cons_iff.1 adjacent with atOnce | later
    · obtain ⟨rfl, starts⟩ := List.cons_prefix_cons.1 atOnce
      obtain ⟨after, rfl⟩ := starts
      exact .inl ⟨defined, back, rfl, redefined⟩
    · exact .inr ⟨front, back, later, defined, redefined⟩
  · rintro (⟨defined, second, isNext, redefined⟩ | ⟨front, back, later, both⟩)
    · obtain ⟨after, rfl⟩ := List.head?_eq_some_iff.1 isNext
      exact ⟨first, second, ⟨[], after, rfl⟩, defined, redefined⟩
    · exact ⟨front, back, List.infix_cons later, both⟩

/-! ## Spans -/

def State.spansOf (state : State) (name : String) : List MacroSpan :=
  match state.macros.find? (·.1 = name) with
  | some (_, entry) => entry.spans
  | none => []

theorem State.macroAt?_isSome (state : State) (name : String) (position : Nat) :
    (state.macroAt? name position).isSome = (state.spansOf name).any (·.covers position) := by
  unfold macroAt? spansOf
  cases state.macros.find? (·.1 = name) with
  | none => rfl
  | some found =>
    simp only
    split <;> simp_all

def respan (spans : List MacroSpan) (directive : MacroDirective) : List MacroSpan :=
  if directive.defines then spans ++ [⟨directive.position, none⟩]
  else endLast directive.position spans

/-- Where a directive that comes next ends the span before it; a definition does not end it. -/
def nextEnd? : List MacroDirective → Option Nat
  | [] => none
  | next :: _ => if next.defines then none else some next.position

/-- The spans of a macro, one for each of its definitions. -/
def spansOfDirectives : List MacroDirective → List MacroSpan
  | [] => []
  | first :: rest =>
      if first.defines then ⟨first.position, nextEnd? rest⟩ :: spansOfDirectives rest
      else spansOfDirectives rest

theorem nextEnd?_cons (next : MacroDirective) (rest : List MacroDirective) :
    nextEnd? (next :: rest) = if next.defines then none else some next.position := rfl

theorem endLast_concat (position : Nat) (spans : List MacroSpan) (last : MacroSpan) :
    endLast position (spans ++ [last]) =
      spans ++ [{ last with stop := last.stop <|> some position }] := by
  induction spans with
  | nil => rfl
  | cons first rest ih =>
    rw [List.cons_append, List.cons_append, ← ih]
    cases rest <;> rfl

theorem endLast_endLast (first second : Nat) (spans : List MacroSpan) :
    endLast second (endLast first spans) = endLast first spans := by
  obtain rfl | ⟨front, last, rfl⟩ := List.eq_nil_or_concat spans
  · rfl
  · rw [List.concat_eq_append, endLast_concat, endLast_concat]
    cases last.stop <;> rfl

/-- The directives on a macro, carried out one after the other, give its spans; one that comes first
may still end a span from before. -/
theorem foldl_respan (directives : List MacroDirective) (spans : List MacroSpan) :
    directives.foldl respan spans =
      (match nextEnd? directives with
        | some stop => endLast stop spans
        | none => spans) ++ spansOfDirectives directives := by
  induction directives generalizing spans with
  | nil => simp [nextEnd?, spansOfDirectives]
  | cons first rest ih =>
    rw [List.foldl_cons, ih, nextEnd?_cons, respan, spansOfDirectives]
    cases first.defines with
    | true => cases nextEnd? rest <;> simp [endLast_concat]
    | false => cases nextEnd? rest <;> simp [endLast_endLast]

theorem filter_eq_nil_of_lt {first : MacroDirective} {rest : List MacroDirective} {position : Nat}
    (ordered : (first :: rest).Pairwise (·.position ≤ ·.position))
    (after : position < first.position) :
    (first :: rest).filter (·.position ≤ position) = [] := by
  refine List.filter_eq_nil_iff.2 fun other member => ?_
  have later : first.position ≤ other.position := by
    rcases List.mem_cons.1 member with rfl | inRest
    · exact Nat.le_refl _
    · exact (List.pairwise_cons.1 ordered).1 other inRest
  simp only [decide_eq_true_eq]
  omega

/-- The span of a definition covers a position behind it unless the next directive is a revocation
before the position. -/
theorem covers_span_iff {first : MacroDirective} {rest : List MacroDirective}
    (ordered : rest.Pairwise (·.position ≤ ·.position)) {position : Nat}
    (before : first.position ≤ position) :
    MacroSpan.covers ⟨first.position, nextEnd? rest⟩ position = true ↔
      rest.filter (·.position ≤ position) = [] ∨
        ∃ second, (rest.filter (·.position ≤ position)).head? = some second ∧
          second.defines = true := by
  cases rest with
  | nil => simp [MacroSpan.covers, nextEnd?, before]
  | cons second rest =>
    by_cases secondBefore : second.position ≤ position
    · rw [List.filter_cons_of_pos (by simpa using secondBefore)]
      cases defined : second.defines <;>
        simp [MacroSpan.covers, nextEnd?, before, secondBefore, defined]
    · rw [filter_eq_nil_of_lt ordered (Nat.lt_of_not_le secondBefore)]
      cases defined : second.defines <;>
        simp [MacroSpan.covers, nextEnd?, before, Nat.lt_of_not_le secondBefore, defined]

/-- The directives that count at a position. -/
def upTo (position : Nat) (directives : List MacroDirective) : List MacroDirective :=
  directives.filter (·.position ≤ position)

/-- The spans of directives in source order cover a position if and only if the last directive
before it is a definition, or two definitions before it follow each other. -/
theorem covers_iff {directives : List MacroDirective}
    (ordered : directives.Pairwise (·.position ≤ ·.position)) (position : Nat) :
    (spansOfDirectives directives).any (·.covers position) = true ↔
      DefinesLast (upTo position directives) ∨
        Redefines (upTo position directives) := by
  unfold upTo
  induction directives with
  | nil => simp [spansOfDirectives, not_definesLast_nil, not_redefines_nil]
  | cons first rest ih =>
    obtain ⟨-, restOrdered⟩ := List.pairwise_cons.1 ordered
    have later := ih restOrdered
    by_cases before : first.position ≤ position
    · have here := covers_span_iff restOrdered before
      rw [List.filter_cons_of_pos (by simpa using before), definesLast_cons, redefines_cons,
        spansOfDirectives]
      cases first.defines with
      | true =>
        simp only [if_true, List.any_cons, Bool.or_eq_true, here, later, and_true, true_and]
        exact or_or_or_comm
      | false => simp [later]
    · have none := filter_eq_nil_of_lt ordered (Nat.lt_of_not_le before)
      have noneLater : rest.filter (·.position ≤ position) = [] := by
        rwa [List.filter_cons_of_neg (by simpa using before)] at none
      rw [noneLater] at later
      rw [none, ← later, spansOfDirectives]
      split
      · simp [MacroSpan.covers, before]
      · rfl

/-! ## Visits -/

def onMacro (name : String) (directives : List MacroDirective) : List MacroDirective :=
  directives.filter (·.name = name)

theorem find?_map_spans (change : List MacroSpan → List MacroSpan) (changed name : String)
    (macros : List (String × MacroEntry)) :
    (macros.map fun (other, entry) =>
        if other = changed then (other, { entry with spans := change entry.spans })
        else (other, entry)).find? (·.1 = name) =
      (macros.find? (·.1 = name)).map fun (other, entry) =>
        if other = changed then (other, { entry with spans := change entry.spans })
        else (other, entry) := by
  rw [List.find?_map]
  congr 2
  funext ⟨other, entry⟩
  simp only [Function.comp_apply]
  split <;> rfl

theorem spansOf_map (state : State) (change : List MacroSpan → List MacroSpan)
    (changed name : String)
    (unknown : state.macros.find? (·.1 = changed) = none → change [] = []) :
    State.spansOf { state with
        macros := state.macros.map fun (other, entry) =>
          if other = changed then (other, { entry with spans := change entry.spans })
          else (other, entry) } name =
      if changed = name then change (state.spansOf name) else state.spansOf name := by
  unfold State.spansOf
  rw [find?_map_spans]
  cases found : state.macros.find? (·.1 = name) with
  | none =>
    by_cases isChanged : changed = name
    · simp [isChanged, unknown (isChanged ▸ found)]
    · simp [isChanged]
  | some pair =>
    obtain ⟨other, entry⟩ := pair
    have same : other = name := by simpa using List.find?_some found
    subst same
    by_cases isChanged : other = changed
    · simp [isChanged]
    · simp [isChanged, Ne.symm isChanged]

theorem defineMacro_spansOf (state : State) (defined name : String) (start : Nat) :
    (state.defineMacro defined start).1.spansOf name =
      if defined = name then state.spansOf name ++ [⟨start, none⟩] else state.spansOf name := by
  unfold State.defineMacro
  split
  · rename_i found
    exact spansOf_map state (· ++ [⟨start, none⟩]) defined name fun unknown => by
      rw [found] at unknown
      cases unknown
  · rename_i unknown
    unfold State.spansOf State.addSymbol
    simp only [List.find?_append]
    cases found : state.macros.find? (·.1 = name) with
    | none => by_cases same : defined = name <;> simp [same]
    | some pair =>
      have different : defined ≠ name := by
        rintro rfl
        rw [unknown] at found
        cases found
      simp [different]

theorem defineMacro_macroValues (state : State) (name : String) (start : Nat) :
    (state.defineMacro name start).1.macroValues = state.macroValues := by
  obtain ⟨macros, same⟩ | ⟨macros, same⟩ := defineMacro_eq state name start
  · rw [same]
  · rw [same]
    rfl

theorem visitMacroDefinition_macros (source : List Char) (state : State) (tree : ParseTree)
    (context : Context) :
    (definedName? source tree = none ∧
        (visitMacroDefinition source state tree context).macros = state.macros ∧
        (visitMacroDefinition source state tree context).macroValues = state.macroValues) ∨
      ∃ name named, definedName? source tree = some name ∧ State.macros named = state.macros ∧
        (visitMacroDefinition source state tree context).macros =
          (named.defineMacro name tree.stop).1.macros ∧
        (visitMacroDefinition source state tree context).macroValues =
          if context.active then state.macroValues.define name (definedValue? source tree)
          else state.macroValues := by
  unfold visitMacroDefinition definedName?
  simp only
  cases tree.child? "name" with
  | none => exact .inl (by simp)
  | some nameTree =>
    have macros : (State.addName (state.openDeclaration tree.kind context).1 source nameTree
      (state.openDeclaration tree.kind context).2 true).1.macros = state.macros := by simp
    have values : (State.addName (state.openDeclaration tree.kind context).1 source nameTree
      (state.openDeclaration tree.kind context).2 true).1.macroValues = state.macroValues := by
      simp
    simp only [Option.bind_some]
    generalize (State.addName (state.openDeclaration tree.kind context).1 source nameTree
      (state.openDeclaration tree.kind context).2 true) = named at macros values ⊢
    split
    · exact .inl ⟨rfl, macros, values⟩
    · refine .inr ⟨_, named.1, rfl, macros, ?_⟩
      have sameValues := defineMacro_macroValues named.1 (nameTree.text source) tree.stop
      rw [values] at sameValues
      rw [← sameValues]
      split <;> exact ⟨rfl, rfl⟩

theorem visitMacroDefinition_spansOf (source : List Char) (state : State) (tree : ParseTree)
    (context : Context) (name : String) :
    (visitMacroDefinition source state tree context).spansOf name =
      if definedName? source tree = some name then state.spansOf name ++ [⟨tree.stop, none⟩]
      else state.spansOf name := by
  obtain ⟨unnamed, macros, -⟩ | ⟨defined, named, isNamed, same, macros, -⟩ :=
    visitMacroDefinition_macros source state tree context
  · rw [unnamed, State.spansOf, macros]
    rfl
  · have spans := defineMacro_spansOf named defined name tree.stop
    rw [State.spansOf, macros, isNamed, ← State.spansOf, spans]
    simp only [State.spansOf, same, Option.some.injEq]

theorem visitDirective_spansOf (source : List Char) (state : State) (tree : ParseTree)
    (context : Context) (name : String) :
    (visitDirective source state tree context).spansOf name =
      if undefinedName? source tree = some name then endLast tree.start (state.spansOf name)
      else state.spansOf name := by
  unfold visitDirective undefinedName? trimmedPart?
  simp only [ne_eq, ite_not]
  split
  · split
    · rename_i missing
      simp [missing]
    · rename_i undefined found
      simp only [found, Option.some.injEq]
      rw [← spansOf_map state (endLast tree.start) undefined name fun _ => rfl]
      split <;> rfl
  · simp

def carryOut (source : List Char) (macros : Condition.Macros) (tree : ParseTree) :
    Condition.Macros :=
  match tree.form with
  | .macroDefinition =>
      match definedName? source tree with
      | some name => macros.define name (definedValue? source tree)
      | none => macros
  | _ =>
      match undefinedName? source tree with
      | some name => macros.undefine name
      | none => macros

theorem visitDirective_macroValues (source : List Char) (state : State) (tree : ParseTree)
    (context : Context) :
    (visitDirective source state tree context).macroValues =
      if context.active then
        match undefinedName? source tree with
        | some name => state.macroValues.undefine name
        | none => state.macroValues
      else state.macroValues := by
  unfold visitDirective undefinedName? trimmedPart?
  simp only [ne_eq, ite_not]
  split
  · split <;> (rename_i found; simp only [found]; split <;> rfl)
  · simp

theorem visit_macroValues (source : List Char) (state : State) (frame : Frame) :
    (visit source state frame).1.macroValues =
      if frame.isDirective && frame.context.active then
        carryOut source state.macroValues frame.tree
      else state.macroValues := by
  cases isDirective : frame.isDirective with
  | false => exact (visit_macros_eq source state isDirective).2
  | true =>
    simp only [Bool.true_and, carryOut]
    obtain ⟨form, same⟩ | ⟨form, same⟩ := visit_of_isDirective source state isDirective
    · rw [same]
      obtain ⟨unnamed, -, values⟩ | ⟨defined, named, isNamed, -, -, values⟩ :=
        visitMacroDefinition_macros source state frame.tree frame.context
      · simp [values, form, unnamed]
      · simp [values, form, isNamed]
    · rw [same]
      simp [visitDirective_macroValues, form]

/-- A visit does to the spans of a macro what its directive says. -/
theorem visit_spansOf (source : List Char) (state : State) (frame : Frame) (name : String) :
    (visit source state frame).1.spansOf name =
      (onMacro name (frame.macroDirective? source).toList).foldl respan (state.spansOf name) := by
  unfold Frame.macroDirective?
  cases isDirective : frame.isDirective with
  | false =>
    simp [State.spansOf, (visit_macros_eq source state isDirective).1, onMacro]
  | true =>
    obtain ⟨form, same⟩ | ⟨form, same⟩ := visit_of_isDirective source state isDirective
    · rw [same]
      simp only [visitMacroDefinition_spansOf, form]
      cases found : definedName? source frame.tree with
      | none => simp [onMacro]
      | some defined => by_cases same : defined = name <;> simp [onMacro, same, respan]
    · rw [same]
      simp only [visitDirective_spansOf, form]
      cases found : undefinedName? source frame.tree with
      | none => simp [onMacro]
      | some undefined => by_cases same : undefined = name <;> simp [onMacro, same, respan]

theorem isDefined_undefine (macros : Condition.Macros) (undefined name : String) :
    (macros.undefine undefined).isDefined name =
      (macros.isDefined name && decide (undefined ≠ name)) := by
  by_cases same : undefined = name
  · simp [Condition.Macros.isDefined, Condition.Macros.undefine, same]
  · have other (entry : String × Option Int64) (found : entry.1 = name) : entry.1 ≠ undefined :=
      fun isUndefined => same (isUndefined.symm.trans found)
    rw [Bool.eq_iff_iff]
    simp only [Condition.Macros.isDefined, Condition.Macros.undefine, List.any_filter]
    grind

theorem isDefined_define (macros : Condition.Macros) (defined name : String)
    (value : Option Int64) :
    (macros.define defined value).isDefined name =
      (decide (defined = name) || macros.isDefined name) := by
  have later := isDefined_undefine macros defined name
  unfold Condition.Macros.define
  rw [Condition.Macros.isDefined, List.any_cons, ← Condition.Macros.isDefined, later]
  by_cases same : defined = name <;> simp [same]

theorem isDefined_visit (source : List Char) (state : State) (frame : Frame) (name : String) :
    (visit source state frame).1.macroValues.isDefined name =
      ((onMacro name (frame.macroDirective? source).toList).filter (·.active)).foldl
        (fun _ directive => directive.defines) (state.macroValues.isDefined name) := by
  rw [visit_macroValues]
  unfold Frame.macroDirective? carryOut
  cases frame.isDirective with
  | false => simp [onMacro]
  | true =>
    by_cases form : frame.tree.form = .macroDefinition
    · cases definedName? source frame.tree with
      | none => simp [form, onMacro]
      | some defined =>
        by_cases same : defined = name <;> cases frame.context.active <;>
          simp [form, onMacro, isDefined_define, same]
    · cases undefinedName? source frame.tree with
      | none => simp [onMacro]
      | some undefined =>
        by_cases same : undefined = name <;> cases frame.context.active <;>
          simp [onMacro, isDefined_undefine, same]

/-! ## Walks -/

section Walks

variable {source : List Char} {types : Bool} {frames visited waiting : List Frame} {state : State}

theorem macroDirectives_concat (source : List Char) (visited : List Frame) (frame : Frame) :
    macroDirectives source (visited ++ [frame]) =
      macroDirectives source visited ++ (frame.macroDirective? source).toList := by
  unfold macroDirectives
  rw [List.filterMap_append, List.filterMap_cons, List.filterMap_nil]
  cases frame.macroDirective? source <;> rfl

/-- The spans of a macro come from the directives on it that have been visited. -/
theorem Reaches.spansOf_eq
    (reached : Reaches source (State.initial types) frames visited state waiting) (name : String) :
    state.spansOf name = spansOfDirectives (onMacro name (macroDirectives source visited)) := by
  have folded : state.spansOf name =
      (onMacro name (macroDirectives source visited)).foldl respan [] :=
    reached.invariant
      (fun visited state _ =>
        state.spansOf name = (onMacro name (macroDirectives source visited)).foldl respan [])
      rfl fun visited state frame waiting _ before => by
        rw [visit_spansOf, before, macroDirectives_concat, onMacro, onMacro, onMacro,
          List.filter_append, List.foldl_append]
  rw [folded, foldl_respan]
  cases nextEnd? (onMacro name (macroDirectives source visited)) <;> rfl

/-- A macro is in the table if the last directive on it that is compiled in is a definition. -/
theorem Reaches.isDefined_iff
    (reached : Reaches source (State.initial types) frames visited state waiting) (name : String) :
    state.macroValues.isDefined name = true ↔
      DefinesLast ((onMacro name (macroDirectives source visited)).filter (·.active)) := by
  have folded : state.macroValues.isDefined name =
      ((onMacro name (macroDirectives source visited)).filter (·.active)).foldl
        (fun _ directive => directive.defines) false :=
    reached.invariant
      (fun visited state _ => state.macroValues.isDefined name =
        ((onMacro name (macroDirectives source visited)).filter (·.active)).foldl
          (fun _ directive => directive.defines) false)
      rfl fun visited state frame waiting _ before => by
        rw [isDefined_visit, before, macroDirectives_concat]
        simp only [onMacro, List.filter_append, List.foldl_append]
  rw [folded]
  exact foldl_defines_iff _

/-- Where macros are defined, at any moment of a walk that comes upon directives in source order.
A macro is visible where the last directive on it is a definition, and also everywhere behind two
definitions that follow each other; this is all that the spans and the table can disagree about
as long as all directives are compiled in. -/
theorem macroAt?_isSome_iff
    (reached : Reaches source (State.initial types) frames visited state waiting)
    (ordered : (macroDirectives source visited).Pairwise (·.position ≤ ·.position))
    (name : String) :
    (∀ position,
      ((state.macroAt? name position).isSome = true ↔
        DefinesLast (upTo position (onMacro name (macroDirectives source visited))) ∨
          Redefines (upTo position (onMacro name (macroDirectives source visited)))) ∧
      (((state.macroAt? name position).isSome = true ↔
          DefinesLast (upTo position (onMacro name (macroDirectives source visited)))) ↔
        (Redefines (upTo position (onMacro name (macroDirectives source visited))) →
          DefinesLast (upTo position (onMacro name (macroDirectives source visited)))))) ∧
    (state.macroValues.isDefined name = true ↔
      DefinesLast ((onMacro name (macroDirectives source visited)).filter (·.active))) ∧
    ∀ position,
      (∀ directive ∈ onMacro name (macroDirectives source visited),
        directive.active = true ∧ directive.position ≤ position) →
      ((state.macroAt? name position).isSome = state.macroValues.isDefined name ↔
        (Redefines (onMacro name (macroDirectives source visited)) →
          state.macroValues.isDefined name = true)) := by
  have visible (position : Nat) :
      (state.macroAt? name position).isSome = true ↔
        DefinesLast (upTo position (onMacro name (macroDirectives source visited))) ∨
          Redefines (upTo position (onMacro name (macroDirectives source visited))) := by
    rw [State.macroAt?_isSome, reached.spansOf_eq]
    exact covers_iff (ordered.filter _) position
  have inTable := reached.isDefined_iff name
  refine ⟨fun position => ⟨visible position, ?_⟩, inTable, fun position all => ?_⟩
  · rw [visible]
    exact or_iff_left_iff_imp
  · have active : (onMacro name (macroDirectives source visited)).filter (·.active) =
        onMacro name (macroDirectives source visited) :=
      List.filter_eq_self.2 fun directive member => (all directive member).1
    have before : upTo position (onMacro name (macroDirectives source visited)) =
        onMacro name (macroDirectives source visited) :=
      List.filter_eq_self.2 fun directive member => by simpa using (all directive member).2
    rw [active] at inTable
    rw [Bool.eq_iff_iff, visible, before, inTable]
    exact or_iff_left_iff_imp

end Walks

theorem Reaches.directive {source : List Char} {start state : State}
    {frames visited waiting : List Frame} {frame : Frame}
    (before : Reaches source start frames visited state (frame :: waiting))
    (isDirective : frame.isDirective = true) :
    Reaches source start frames (visited ++ [frame]) (Walk.visit source state frame).1 waiting := by
  have next := before.visit
  have leavesNone : (Walk.visit source state frame).2 = [] := by
    obtain ⟨-, same⟩ | ⟨-, same⟩ := visit_of_isDirective source state isDirective <;>
      rw [same]
  rwa [leavesNone, List.nil_append] at next

def redefinition : List Char := "#define V 1\n#define V 2\n#undef V\n".toList

def firstDefinition : Frame :=
  Frame.root (ruleNode 0 "preproc_def" "" 0 12
    [ruleNode 1 "identifier" "name" 8 9 []])

def secondDefinition : Frame :=
  Frame.root (ruleNode 2 "preproc_def" "" 12 24
    [ruleNode 3 "identifier" "name" 20 21 []])

def revocation : Frame :=
  Frame.root (ruleNode 4 "preproc_call" "" 24 33
    [ruleNode 5 "preproc_directive" "directive" 24 30 [],
      ruleNode 6 "preproc_arg" "argument" 30 32 []])

/-- After the text the macro is still visible, but it is no longer in the table. -/
theorem redefined_macro_stays_visible :
    ∃ state,
      Reaches redefinition (State.initial true) [firstDefinition, secondDefinition, revocation]
        [firstDefinition, secondDefinition, revocation] state [] ∧
      (macroDirectives redefinition [firstDefinition, secondDefinition, revocation]).Pairwise
        (·.position ≤ ·.position) ∧
      (state.macroAt? "V" 33).isSome = true ∧ state.macroValues.isDefined "V" = false := by
  have directives :
      macroDirectives redefinition [firstDefinition, secondDefinition, revocation] =
        [⟨"V", 12, true, true⟩, ⟨"V", 24, true, true⟩, ⟨"V", 24, false, true⟩] := by decide +kernel
  have first : firstDefinition.isDirective = true := by decide +kernel
  have second : secondDefinition.isDirective = true := by decide +kernel
  have third : revocation.isDirective = true := by decide +kernel
  have reached : Reaches redefinition (State.initial true)
      [firstDefinition, secondDefinition, revocation]
      [firstDefinition, secondDefinition, revocation] _ [] :=
    ((Reaches.start.directive first).directive second).directive third
  have ordered : (macroDirectives redefinition
      [firstDefinition, secondDefinition, revocation]).Pairwise (·.position ≤ ·.position) := by
    rw [directives]
    decide
  obtain ⟨visible, inTable, -⟩ := macroAt?_isSome_iff reached ordered "V"
  refine ⟨_, reached, ordered, (visible 33).1.2 (.inr ?_), ?_⟩
  · rw [directives]
    exact ⟨⟨"V", 12, true, true⟩, ⟨"V", 24, true, true⟩, ⟨[], [⟨"V", 24, false, true⟩], rfl⟩,
      rfl, rfl⟩
  · rw [Bool.eq_false_iff, ne_eq, inTable, directives]
    rintro ⟨last, found, defines⟩
    cases found
    cases defines

end CrossReference.Walk
