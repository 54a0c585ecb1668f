import CrossReference.Proofs.ParseTree.Within
import CrossReference.Proofs.Walk.Resolve

/-!
# Names are spelled like what they are bound to

Each table of a scope, and the list of macros, has under a spelling only symbols of that name.  Every
edit of a walk keeps that, and so does each step that binds a use afterwards; hence an occurrence is
bound only to a symbol whose name it spells.
-/

set_option autoImplicit false

namespace CrossReference.Walk

open ParseTree

namespace State

def Called (state : State) (text : String) (binding : Nat) : Prop :=
  ∃ kind, state.head? binding = some (text, kind)

/-- Whatever has a binding under a spelling has that of a symbol of this name. -/
structure Spelled (state : State) : Prop where
  scopes : ∀ text binding, state.scopes.Holds text binding → state.Called text binding
  macros : ∀ text binding, HoldsMacro state.macros text binding → state.Called text binding
  names : ∀ (name : Nat) (found : NameNode) (binding : Nat), state.names[name]? = some found →
    found.binding = some binding → state.Called found.text binding

theorem Called.of_grows {before after : State} {text : String} {binding : Nat}
    (called : before.Called text binding) (grows : Grows before after) :
    after.Called text binding := by
  obtain ⟨kind, head⟩ := called
  exact ⟨kind, grows.head?_eq head⟩

theorem spelled_initial (tagsAreTypes : Bool) : Spelled (initial tagsAreTypes) where
  scopes text binding held := absurd held Scopes.not_holds_initial
  macros text binding held := by
    obtain ⟨entry, member, -⟩ := held
    cases member
  names name found binding there := by simp [initial] at there

namespace Spelled

variable {before after state : State}

theorem extend (spelled : Spelled before) (grows : Grows before after)
    (scopes : ∀ text binding, after.scopes.Holds text binding →
      before.scopes.Holds text binding ∨ after.Called text binding)
    (macros : ∀ text binding, HoldsMacro after.macros text binding →
      HoldsMacro before.macros text binding ∨ after.Called text binding)
    (names : ∀ (name : Nat) (found : NameNode) (binding : Nat), before.names.size ≤ name →
      after.names[name]? = some found → found.binding = some binding →
        after.Called found.text binding) : Spelled after where
  scopes text binding held := by
    rcases scopes text binding held with old | new
    · exact (spelled.scopes text binding old).of_grows grows
    · exact new
  macros text binding held := by
    rcases macros text binding held with old | new
    · exact (spelled.macros text binding old).of_grows grows
    · exact new
  names name found binding there bound := by
    by_cases known : name < before.names.size
    · rw [grows.occurrences name known] at there
      exact (spelled.names name found binding there bound).of_grows grows
    · exact names name found binding (Nat.le_of_not_lt known) there bound

theorem quiet (spelled : Spelled before) (grows : Grows before after)
    (names : after.names = before.names)
    (scopes : ∀ text binding, after.scopes.Holds text binding → before.scopes.Holds text binding)
    (macros : ∀ text binding, HoldsMacro after.macros text binding →
      HoldsMacro before.macros text binding) : Spelled after := by
  apply spelled.extend grows
  · intro text binding held
    exact .inl (scopes text binding held)
  · intro text binding held
    exact .inl (macros text binding held)
  · intro name found binding new there
    rw [names, Array.getElem?_eq_none new] at there
    cases there

end Spelled

/-! ## Edits -/

section Edits

variable {source : List Char} {tree : ParseTree} {before after : State} {result : Option Nat}

theorem NotesNames.spelled (notes : NotesNames before after) (spelled : Spelled before) :
    Spelled after := by
  apply spelled.extend notes.grows
  · intro text binding held
    exact .inl (notes.scopes ▸ held)
  · intro text binding held
    exact .inl (notes.macros ▸ held)
  · intro name found binding new there bound
    have held := notes.held name found binding new there bound
    exact (spelled.scopes found.text binding held).of_grows notes.grows

theorem Declares.called {kind : SymbolKind} {binding : Nat}
    (declares : Declares source tree kind (some binding) before after)
    (spelled : Spelled before) : after.Called (tree.text source) binding := by
  obtain ⟨none, -⟩ | ⟨scope, existing, same, settles⟩ := declares.symbol
  · cases none
  · cases existing with
    | none =>
      obtain rfl : binding = before.symbols.size := Option.some.inj same
      exact ⟨kind, settles.head?_new⟩
    | some found =>
      obtain rfl : binding = found := Option.some.inj same
      have held : before.scopes.Holds (tree.text source) binding := by
        rcases settles.searched with here | member
        · exact Scopes.holds_of_local? here.symm
        · exact Scopes.holds_of_lookupMember member.symm
      exact (spelled.scopes _ _ held).of_grows declares.grows

theorem Declares.spelled {kind : SymbolKind}
    (declares : Declares source tree kind result before after) (spelled : Spelled before) :
    Spelled after := by
  apply spelled.extend declares.grows
  · intro text binding held
    obtain ⟨-, scopes, -⟩ | ⟨scope, existing, -, settles⟩ := declares.symbol
    · exact .inl (scopes ▸ held)
    · rw [settles.scopes] at held
      cases existing with
      | some found => exact .inl held
      | none =>
        rcases Scopes.holds_of_declare held with old | ⟨rfl, rfl⟩
        · exact .inl old
        · exact .inr ⟨kind, settles.head?_new⟩
  · intro text binding held
    exact .inl (declares.macros ▸ held)
  · intro name found binding new there bound
    rw [declares.names] at there
    have isAdded := eq_of_getElem?_push new there
    subst isAdded
    obtain rfl : result = some binding := bound
    exact declares.called spelled

theorem Defines.spelled (defines : Defines source tree result before after)
    (spelled : Spelled before) : Spelled after := by
  have macros (text : String) (binding : Nat) (held : HoldsMacro after.macros text binding) :
      HoldsMacro before.macros text binding ∨ after.Called text binding := by
    rcases defines.macros text binding held with old | ⟨-, head⟩
    · exact .inl old
    · exact .inr ⟨.macroName, head⟩
  apply spelled.extend defines.grows
  · intro text binding held
    exact .inl (defines.scopes ▸ held)
  · exact macros
  · intro name found binding new there bound
    rw [defines.names] at there
    have isAdded := eq_of_getElem?_push new there
    subst isAdded
    rcases macros _ binding (defines.bound binding bound) with old | called
    · exact (spelled.macros _ binding old).of_grows defines.grows
    · exact called

end Edits

end State

open State

theorem Edit.spelled {source : List Char} {frame : Frame} {before after : State}
    (edit : Edit source frame before after) (spelled : Spelled before) : Spelled after := by
  have grows := edit.grows
  cases edit with
  | opened => exact spelled.quiet grows (by simp) (by simp) (by simp)
  | noted notes => exact notes.spelled spelled
  | declared isKind declares => exact declares.spelled spelled
  | @shared middle tree binding scope isEnumerator declares =>
    have declared := declares.spelled spelled
    have called := declares.called spelled
    have later : Grows middle { middle with
        scopes := middle.scopes.declare scope .ordinary (tree.text source) binding tree.start } :=
      .of_same rfl rfl rfl fun _ => rfl
    apply declared.extend later
    · intro text other held
      rcases Scopes.holds_of_declare held with old | ⟨rfl, rfl⟩
      · exact .inl old
      · exact .inr (called.of_grows later)
    · intro text other held
      exact .inl held
    · intro name found other new there
      rw [Array.getElem?_eq_none new] at there
      cases there
  | pushed =>
    exact spelled.quiet grows rfl (fun _ _ => Scopes.holds_of_push) fun _ _ => id
  | entered =>
    refine spelled.quiet grows (by simp) ?_ (by simp)
    intro text binding held
    rcases openMembers_scopes _ _ _ _ with same | pushed
    · exact same ▸ held
    · rw [pushed] at held
      exact Scopes.holds_of_push held
  | specified => exact spelled.quiet grows rfl (fun _ _ => id) fun _ _ => id
  | awaited => exact spelled.quiet grows rfl (fun _ _ => id) fun _ _ => id
  | accessed => exact spelled.quiet grows rfl (fun _ _ => id) fun _ _ => id
  | defined isDirective isKind defines => exact defines.spelled spelled
  | revoked _ _ _ held => exact spelled.quiet grows rfl (fun _ _ => id) held

theorem run_spelled (source : List Char) (state : State) (frames : List Frame)
    (spelled : Spelled state) : Spelled (run source state frames) :=
  run_invariant (fun _ _ _ edit holds => edit.spelled holds) state frames spelled

/-! ## Binding the uses -/

namespace State

variable {state : State}

theorem holdsMacro_of_macroAt? {text : String} {position binding : Nat}
    (found : state.macroAt? text position = some binding) :
    HoldsMacro state.macros text binding := by
  unfold macroAt? at found
  split at found
  · rename_i other entry isEntry
    split at found
    · have same : other = text := by simpa using List.find?_some isEntry
      subst same
      exact ⟨entry, List.mem_of_find?_eq_some isEntry, Option.some.inj found⟩
    · cases found
  · cases found

theorem Spelled.called_of_segmentBinding? (spelled : Spelled state) {use : PendingUse}
    {scope : Option Nat} {isFirst : Bool} {space : NameSpace} {text : String} {binding : Nat}
    (found : state.segmentBinding? use scope isFirst space text = some binding) :
    state.Called text binding := by
  unfold segmentBinding? at found
  split at found
  · exact spelled.scopes text binding (Scopes.holds_of_lookupMember found)
  · split at found
    · split at found
      · rename_i known isMacro
        cases found
        exact spelled.macros text binding (holdsMacro_of_macroAt? isMacro)
      · exact spelled.scopes text binding (Scopes.holds_of_lookup found)
    · cases found

theorem Spelled.setBinding (spelled : Spelled state) {name : Nat} {binding : Option Nat}
    (called : ∀ bound, binding = some bound → state.Called (state.spelling name) bound) :
    Spelled (state.setBinding name binding) where
  scopes := spelled.scopes
  macros := spelled.macros
  names other found bound there isBound := by
    simp only [State.setBinding, Array.getElem?_modify] at there
    split at there
    · rename_i same
      subst same
      obtain ⟨was, isThere, rfl⟩ := Option.map_eq_some_iff.1 there
      have text : state.spelling name = was.text := by simp [spelling, isThere]
      exact text ▸ called bound isBound
    · exact spelled.names other found bound there isBound

theorem bindSegments_spelled (use : PendingUse) (names : List Nat) (scope : Option Nat)
    (isFirst : Bool) (state : State) (spelled : Spelled state) :
    Spelled (bindSegments use names scope isFirst state).1 := by
  fun_induction bindSegments use names scope isFirst state with
  | case1 => exact spelled
  | case2 => exact spelled.setBinding fun _ found => spelled.called_of_segmentBinding? found
  | case3 name rest scope isFirst state notLast binding bound ih =>
    apply ih
    exact spelled.setBinding fun _ found => spelled.called_of_segmentBinding? found

/-- A change of the scopes that adds only symbols under their names. -/
theorem Spelled.changeScopes (spelled : Spelled state) {scopes : Scopes}
    (held : ∀ text binding, scopes.Holds text binding →
      state.scopes.Holds text binding ∨ state.Called text binding) :
    Spelled { state with scopes := scopes } where
  scopes text binding isHeld := by
    rcases held text binding isHeld with old | called
    · exact spelled.scopes text binding old
    · exact called
  macros := spelled.macros
  names := spelled.names

theorem applyEffect_spelled (binding : Nat) (effect : Effect) (spelled : Spelled state) :
    Spelled (state.applyEffect binding effect) := by
  cases effect with
  | none => exact spelled
  | usingNamespace into =>
    unfold applyEffect
    simp only
    split
    · exact spelled.changeScopes fun _ _ held => .inl (Scopes.holds_of_addUsing held)
    · exact spelled
  | base derived =>
    unfold applyEffect
    simp only
    split
    · exact spelled.changeScopes fun _ _ held => .inl (Scopes.holds_of_addBase held)
    · exact spelled
  | usingDeclaration into position =>
    unfold applyEffect
    simp only
    split
    · rename_i symbol found
      split
      · exact spelled
      · apply spelled.changeScopes
        intro text other held
        rcases Scopes.holds_of_declare held with old | ⟨rfl, rfl⟩
        · exact .inl old
        · exact .inr ⟨symbol.kind, by simp [head?, found]⟩
    · exact spelled

theorem resolveUse_spelled (use : PendingUse) (spelled : Spelled state) :
    Spelled (state.resolveUse use) := by
  have bound := bindSegments_spelled use use.names
    (if use.isGlobal then some Scopes.file else none) true state spelled
  unfold resolveUse
  simp only
  split
  · exact applyEffect_spelled _ _ bound
  · exact bound

theorem learnTypeScope_spelled (binding : Nat) (spelled : Spelled state) :
    Spelled (state.learnTypeScope binding) := by
  have same := learnTypeScope_rebinds state binding
  have called (text : String) (other : Nat) (was : state.Called text other) :
      (state.learnTypeScope binding).Called text other := by
    obtain ⟨kind, head⟩ := was
    exact ⟨kind, (same.heads other).trans head⟩
  have kept : (state.learnTypeScope binding).scopes = state.scopes ∧
      (state.learnTypeScope binding).macros = state.macros ∧
      (state.learnTypeScope binding).names = state.names := by
    unfold learnTypeScope
    split
    · exact ⟨rfl, rfl, rfl⟩
    · split
      · exact ⟨rfl, rfl, rfl⟩
      · split <;> exact ⟨rfl, rfl, rfl⟩
  obtain ⟨scopes, macros, names⟩ := kept
  refine ⟨?_, ?_, ?_⟩
  · intro text other held
    exact called text other (spelled.scopes text other (scopes ▸ held))
  · intro text other held
    exact called text other (spelled.macros text other (macros ▸ held))
  · intro name found other there bound
    exact called found.text other (spelled.names name found other (names ▸ there) bound)

theorem learnTypeScopes_spelled (spelled : Spelled state) : Spelled state.learnTypeScopes := by
  refine List.foldlRecOn _ _ spelled fun between known _ _ => ?_
  exact List.foldlRecOn _ _ known fun current holds binding _ =>
    learnTypeScope_spelled binding holds

theorem resolveMember_spelled (member : PendingMember) (spelled : Spelled state) :
    Spelled (state.resolveMember member) := by
  unfold resolveMember
  simp only
  split
  · apply spelled.setBinding
    intro bound found
    exact spelled.scopes _ _ (Scopes.holds_of_lookupMember found)
  · exact spelled

theorem resolve_spelled (spelled : Spelled state) : Spelled state.resolve := by
  have used : Spelled (state.usesInOrder.foldl resolveUse state) :=
    List.foldlRecOn _ _ spelled fun current holds use _ => resolveUse_spelled use holds
  exact List.foldlRecOn _ _ (learnTypeScopes_spelled used) fun current holds member _ =>
    resolveMember_spelled member holds

end State

/-! ## Names of a unit -/

theorem resolved_spelled (source : List Char) (language : Language) (tree : ParseTree) :
    Spelled (SourceUnit.walked source language tree).resolve :=
  resolve_spelled (run_spelled source _ _ (spelled_initial _))

/-- A name that is bound is spelled like the symbol that it is bound to, so that names with different
spellings never share a symbol. -/
theorem bound_name_spells_symbol (source : List Char) (language : Language)
    (withDeclarations : Bool) (tree : ParseTree) (name : Nat) (found : NameNode) (binding : Nat)
    (there : (SourceUnit.ofTree source language withDeclarations tree).names[name]? = some found)
    (bound : found.binding = some binding) :
    (∃ symbol,
      (SourceUnit.ofTree source language withDeclarations tree).symbols[binding]? = some symbol ∧
        symbol.name = found.text) ∧
    ∀ (other : Nat) (otherFound : NameNode),
      (SourceUnit.ofTree source language withDeclarations tree).names[other]? = some otherFound →
        otherFound.binding = some binding → otherFound.text = found.text := by
  have spelled := resolved_spelled source language tree
  obtain ⟨kind, head⟩ := spelled.names name found binding there bound
  refine ⟨?_, ?_⟩
  · obtain ⟨symbol, isSymbol, same⟩ := Option.map_eq_some_iff.1 head
    exact ⟨symbol, isSymbol, congrArg Prod.fst same⟩
  · intro other otherFound otherThere otherBound
    obtain ⟨otherKind, otherHead⟩ := spelled.names other otherFound binding otherThere otherBound
    rw [head] at otherHead
    exact (congrArg Prod.fst (Option.some.inj otherHead)).symm

def usedMember : List Char := "namespace n { int v; }\nusing n::v;\nint w = v;\n".toList

def usedMemberTree : ParseTree :=
  ruleNode 0 "translation_unit" "" 0 46
    [ruleNode 1 "namespace_definition" "" 0 22
      [ruleNode 2 "namespace_identifier" "name" 10 11 [],
        ruleNode 3 "declaration_list" "body" 12 22
          [ruleNode 4 "declaration" "" 14 20
            [ruleNode 5 "primitive_type" "type" 14 17 [],
              ruleNode 6 "identifier" "declarator" 18 19 []]]],
      ruleNode 7 "using_declaration" "" 23 34
        [ruleNode 8 "qualified_identifier" "" 29 33
          [ruleNode 9 "namespace_identifier" "scope" 29 30 [],
            ruleNode 10 "identifier" "name" 32 33 []]],
      ruleNode 11 "declaration" "" 35 45
        [ruleNode 12 "primitive_type" "type" 35 38 [],
          ruleNode 13 "init_declarator" "declarator" 39 44
            [ruleNode 14 "identifier" "declarator" 39 40 [],
              ruleNode 15 "identifier" "value" 43 44 []]]]

/-- The last name is bound to the member. -/
theorem use_of_member_spells_symbol :
    (SourceUnit.ofTree usedMember .cpp true usedMemberTree).names[5]? =
        some ⟨"v", some ⟨43, 1⟩, false, some 1⟩ ∧
      ∃ symbol, (SourceUnit.ofTree usedMember .cpp true usedMemberTree).symbols[1]? = some symbol ∧
        symbol.name = "v" := by
  have there : (SourceUnit.ofTree usedMember .cpp true usedMemberTree).names[5]? =
      some ⟨"v", some ⟨43, 1⟩, false, some 1⟩ := by decide +kernel
  obtain ⟨spells, -⟩ :=
    bound_name_spells_symbol usedMember .cpp true usedMemberTree 5 _ 1 there rfl
  exact ⟨there, spells⟩

end CrossReference.Walk
