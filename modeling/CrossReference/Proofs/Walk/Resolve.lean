import CrossReference.Proofs.Walk.Growth
import CrossReference.SourceUnit

/-!
# What binding the uses leaves as it is

After the walk only uses are bound.  Declarations, the occurrences that declare and the names and
kinds of symbols stay what they were.
-/

set_option autoImplicit false

namespace CrossReference.Walk

namespace State

def IsUse (state : State) (name : Nat) : Prop :=
  ∃ found, state.names[name]? = some found ∧ found.declares = false

/-- Only occurrences that declare nothing are bound anew. -/
structure Rebinds (before after : State) : Prop where
  topLevel : after.topLevel = before.topLevel
  declarations : after.declarations = before.declarations
  names : after.names.size = before.names.size
  occurrences : ∀ (name : Nat) (found : NameNode), before.names[name]? = some found →
    ∃ binding, after.names[name]? = some { found with binding := binding } ∧
      (found.declares = true → binding = found.binding)
  symbols : after.symbols.size = before.symbols.size
  heads : ∀ binding, after.head? binding = before.head? binding

namespace Rebinds

theorem refl (state : State) : Rebinds state state :=
  ⟨rfl, rfl, rfl, fun _ found there => ⟨found.binding, there, fun _ => rfl⟩, rfl, fun _ => rfl⟩

theorem trans {before middle after : State} (first : Rebinds before middle)
    (last : Rebinds middle after) : Rebinds before after where
  topLevel := last.topLevel.trans first.topLevel
  declarations := last.declarations.trans first.declarations
  names := last.names.trans first.names
  occurrences name found there := by
    obtain ⟨binding, between, kept⟩ := first.occurrences name found there
    obtain ⟨final, finally', keptThen⟩ := last.occurrences name _ between
    exact ⟨final, finally', fun declares => (keptThen declares).trans (kept declares)⟩
  symbols := last.symbols.trans first.symbols
  heads binding := (last.heads binding).trans (first.heads binding)

theorem spelling_eq {before after : State} (rebinds : Rebinds before after) {name : Nat}
    (known : name < before.names.size) : after.spelling name = before.spelling name := by
  obtain ⟨binding, there, -⟩ := rebinds.occurrences name _ (Array.getElem?_eq_getElem known)
  simp [spelling, there, Array.getElem?_eq_getElem known]

theorem isUse {before after : State} (rebinds : Rebinds before after) {name : Nat}
    (use : IsUse before name) : IsUse after name := by
  obtain ⟨found, there, declaresNone⟩ := use
  obtain ⟨binding, after, -⟩ := rebinds.occurrences name found there
  exact ⟨_, after, declaresNone⟩

theorem scopes (state : State) (changed : Scopes) :
    Rebinds state { state with scopes := changed } :=
  ⟨rfl, rfl, rfl, fun _ found there => ⟨found.binding, there, fun _ => rfl⟩, rfl, fun _ => rfl⟩

theorem setBinding {state : State} {name : Nat} (use : IsUse state name) (binding : Option Nat) :
    Rebinds state (state.setBinding name binding) where
  topLevel := rfl
  declarations := rfl
  names := by simp [State.setBinding]
  occurrences other found there := by
    simp only [State.setBinding, Array.getElem?_modify, there]
    split
    · rename_i same
      obtain ⟨used, isThere, declaresNone⟩ := use
      rw [same, there] at isThere
      cases isThere
      exact ⟨binding, rfl, fun declares => by rw [declares] at declaresNone; cases declaresNone⟩
    · exact ⟨found.binding, rfl, fun _ => rfl⟩
  symbols := rfl
  heads _ := rfl

end Rebinds

theorem bindSegments_rebinds (use : PendingUse) (names : List Nat) (scope : Option Nat)
    (isFirst : Bool) (state : State) (uses : ∀ name ∈ names, IsUse state name) :
    Rebinds state (bindSegments use names scope isFirst state).1 := by
  fun_induction bindSegments use names scope isFirst state with
  | case1 => exact .refl _
  | case2 => exact .setBinding (uses _ (by simp)) _
  | case3 name rest scope isFirst state notLast binding bound ih =>
    have here : Rebinds state bound := .setBinding (uses name (by simp)) _
    exact here.trans (ih fun other member => here.isUse (uses other (by simp [member])))

theorem applyEffect_rebinds (state : State) (binding : Nat) (effect : Effect) :
    Rebinds state (state.applyEffect binding effect) := by
  cases effect with
  | none => exact .refl state
  | usingNamespace into =>
    unfold applyEffect
    simp only
    split
    · exact .scopes state _
    · exact .refl state
  | base derived =>
    unfold applyEffect
    simp only
    split
    · exact .scopes state _
    · exact .refl state
  | usingDeclaration into position =>
    unfold applyEffect
    simp only
    split
    · split
      · exact .refl state
      · exact .scopes state _
    · exact .refl state

theorem resolveUse_rebinds (state : State) (use : PendingUse)
    (uses : ∀ name ∈ use.names, IsUse state name) : Rebinds state (state.resolveUse use) := by
  have bound := bindSegments_rebinds use use.names
    (if use.isGlobal then some Scopes.file else none) true state uses
  unfold resolveUse
  simp only
  split
  · exact bound.trans (applyEffect_rebinds _ _ _)
  · exact bound

theorem learnTypeScope_rebinds (state : State) (binding : Nat) :
    Rebinds state (state.learnTypeScope binding) := by
  unfold learnTypeScope
  split
  · exact .refl state
  · split
    · exact .refl state
    · split
      · exact .refl state
      · refine ⟨rfl, rfl, rfl, fun _ found there => ⟨found.binding, there, fun _ => rfl⟩, ?_,
          fun other => ?_⟩
        · simp
        · simp only [head?, Array.getElem?_modify]
          split <;> simp [Option.map_map, Function.comp_def]

theorem learnTypeScopes_rebinds (state : State) : Rebinds state state.learnTypeScopes := by
  refine List.foldlRecOn _ _ (.refl state) fun between known _ _ => known.trans ?_
  exact List.foldlRecOn _ _ (.refl between) fun current known binding _ =>
    known.trans (learnTypeScope_rebinds current binding)

theorem resolveMember_rebinds (state : State) (member : PendingMember)
    (use : IsUse state member.name) : Rebinds state (state.resolveMember member) := by
  unfold resolveMember
  simp only
  split
  · exact .setBinding use _
  · exact .refl state

/-- All occurrences that wait to be bound declare nothing. -/
structure OnlyUsesWait (state : State) : Prop where
  uses : ∀ use ∈ state.uses, ∀ name ∈ use.names, IsUse state name
  members : ∀ member ∈ state.members, IsUse state member.name

/-- Binding the uses that wait leaves all else as it is. -/
theorem resolve_rebinds {state : State} (waiting : OnlyUsesWait state) :
    Rebinds state state.resolve := by
  have ordered : ∀ use ∈ state.usesInOrder, use ∈ state.uses := by
    intro use member
    rcases List.mem_append.1 member with first | last
    · exact Array.mem_def.2 (List.mem_filter.1 first).1
    · exact Array.mem_def.2 (List.mem_filter.1 last).1
  have used : Rebinds state (state.usesInOrder.foldl resolveUse state) :=
    List.foldlRecOn _ _ (.refl state) fun current known use member =>
      known.trans (resolveUse_rebinds current use fun name isName =>
        known.isUse (waiting.uses use (ordered use member) name isName))
  have learned := used.trans (learnTypeScopes_rebinds _)
  exact List.foldlRecOn _ _ learned fun current known member isMember =>
    known.trans (resolveMember_rebinds current member
      (known.isUse (waiting.members member (Array.mem_def.2 isMember))))

theorem IsUse.of_grows {before after : State} (grows : Grows before after) {name : Nat}
    (use : IsUse before name) : IsUse after name := by
  obtain ⟨found, there, declaresNone⟩ := use
  exact ⟨found, grows.occurrence_eq there, declaresNone⟩

theorem OnlyUsesWait.of_grows {before after : State} (waiting : OnlyUsesWait before)
    (grows : Grows before after) (uses : after.uses = before.uses)
    (members : after.members = before.members) : OnlyUsesWait after where
  uses use member name isName := by
    rw [uses] at member
    exact .of_grows grows (waiting.uses use member name isName)
  members member isMember := by
    rw [members] at isMember
    exact .of_grows grows (waiting.members member isMember)

end State

open State

theorem Edit.onlyUsesWait {source : List Char} {frame : Frame} {before after : State}
    (edit : Edit source frame before after) (waiting : OnlyUsesWait before) :
    OnlyUsesWait after := by
  have grows := edit.grows
  cases edit with
  | opened => exact waiting.of_grows grows (by simp) (by simp)
  | noted notes => exact waiting.of_grows grows notes.uses notes.members
  | declared isKind declares => exact waiting.of_grows grows declares.uses declares.members
  | shared scope isEnumerator declares =>
    exact waiting.of_grows grows declares.uses declares.members
  | pushed => exact waiting.of_grows grows rfl rfl
  | entered => exact waiting.of_grows grows (by simp) (by simp)
  | specified => exact waiting.of_grows grows rfl rfl
  | awaited use plain =>
    refine ⟨fun other member name isName => ?_, waiting.members⟩
    rcases Array.mem_push.1 member with old | rfl
    · exact waiting.uses other old name isName
    · exact plain name isName
  | accessed member plain =>
    refine ⟨waiting.uses, fun other isMember => ?_⟩
    rcases Array.mem_push.1 isMember with old | rfl
    · exact waiting.members other old
    · exact plain
  | defined isDirective isKind defines => exact waiting.of_grows grows defines.uses defines.members
  | revoked => exact waiting.of_grows grows rfl rfl

/-- In a walk only occurrences that declare nothing come to wait. -/
theorem run_onlyUsesWait (source : List Char) (state : State) (frames : List Frame)
    (waiting : OnlyUsesWait state) : OnlyUsesWait (run source state frames) :=
  run_invariant (fun _ _ _ edit holds => edit.onlyUsesWait holds) state frames waiting

theorem walked_rebinds (source : List Char) (language : Language) (tree : ParseTree) :
    Rebinds (SourceUnit.walked source language tree)
      (SourceUnit.walked source language tree).resolve :=
  resolve_rebinds (run_onlyUsesWait source _ _ ⟨by simp [State.initial], by simp [State.initial]⟩)

end CrossReference.Walk
