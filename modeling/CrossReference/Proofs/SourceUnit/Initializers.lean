import CrossReference.Proofs.SourceUnit.FunctionParameters

/-!
# Initializers of members

The initializers in front of the body of a constructor are walked as what they are made of: a name
in them is a use in the scope of the function, whether it names the member that is initialized or
stands in the value.  So a parameter hides the member of its spelling on both sides of the
parentheses.  A name that the function itself does not have is found in the class, for a constructor
that stands in its class as for one that is defined outside of it.
-/

set_option autoImplicit false

namespace CrossReference

open ParseTree Walk

namespace Walk

open State

/-! ## Uses of plain names -/

section Names

variable {source : List Char} {language : Language} {tree : ParseTree}
  {visited waiting : List Frame} {state : State} {frame : Frame}

theorem Reaches.exists_use_of_isPlainName
    (moment : Reaches source (State.initial (language = .cpp)) [Frame.root tree] visited state
      (frame :: waiting)) (plain : frame.mode = .plain)
    (isName : isPlainName frame.tree.kind = true) :
    ∃ use first, UsedAt source language tree frame.tree .ordinary use ∧ use.names = [first] ∧
      use.isGlobal = false ∧ use.scope = frame.context.scope ∧
      (SourceUnit.walked source language tree).spelling first = frame.tree.text source := by
  have form := form_of_isPlainName isName
  have whole := QualifiedName.ofTree_of_isPlainName isName
  have noted : (Walk.visit source state frame).1 =
      state.noteUse source frame.tree frame.context .ordinary .none := by
    simp only [Walk.visit, plain, visitPlain, form, visitUse]
  have used : (frame.tree, NameSpace.ordinary) ∈ frame.usedNames := by
    simp only [Frame.usedNames, plain, Frame.formUses, form]
    exact List.mem_cons_self
  have intact : IsIntact frame.tree := by
    rw [IsIntact, whole]
    exact ⟨rfl, List.cons_ne_nil _ _⟩
  have isUse := noteUse_isUseOf source state frame.context .ordinary .none intact
  obtain ⟨_, later⟩ := exists_awaits_run source (Walk.visit source state frame).1
    ((Walk.visit source state frame).2 ++ waiting)
  rw [moment.visit.run_eq] at later
  rw [← noted] at isUse
  have kept := isUse.of_grows moment.visit.grows_walked (later.uses_kept isUse.waits)
  refine ⟨_, state.names.size, ⟨⟨_, _, _, _, moment, used⟩, kept⟩, ?_, ?_, rfl, ?_⟩
  · simp [useOf, whole]
  · simp [useOf, whole]
  · have places := kept.places
    simp only [useOf, whole, List.length_cons, List.length_nil, Nat.zero_add, List.range'_one,
      List.map_cons, List.map_nil, List.cons.injEq, and_true] at places
    obtain ⟨found, there, place⟩ := Option.map_eq_some_iff.1 places
    rw [spelling, there]
    exact congrArg Prod.fst place

end Names

/-! ## Names in initializers -/

section Initializers

variable {source : List Char} {language : Language} {tree : ParseTree}
  {visited waiting : List Frame} {state : State} {frame : Frame}
  (moment : Reaches source (State.initial (language = .cpp)) [Frame.root tree] visited state
    (frame :: waiting))
  (manner : frame.mode = .plain ∨ ∃ object, frame.mode = .member object)
  (form : frame.tree.form = .function)

include moment manner form

/-- The initializers of a function are walked in its scope. -/
theorem exists_use_in_initializers {list node : ParseTree} (isPart : list ∈ frame.tree.namedChildren)
    (isList : list.kind = "field_initializer_list") (noDeclarator : list.field ≠ "declarator")
    (noBody : list.field ≠ "body") (through : Through list node)
    (isName : isPlainName node.kind = true) :
    ∃ use first, UsedAt source language tree node .ordinary use ∧ use.names = [first] ∧
      use.isGlobal = false ∧ use.scope = state.scopes.next ∧
      (SourceUnit.walked source language tree).spelling first = node.text source := by
  have left : Frame.child frame.tree
      ((state.openDeclaration frame.tree.kind frame.context).2.within state.scopes.next) .plain
        list ∈ (visit source state frame).2 := by
    rw [visit_of_function source state manner form]
    refine List.mem_map.2 ⟨list, isPart, ?_⟩
    rw [functionPart, if_neg noDeclarator, if_neg noBody, if_pos isList]
  obtain ⟨_, _, _, reachedList⟩ := moment.exists_next left
  obtain ⟨_, _, name, _, reached, rfl, plain, same⟩ := reachedList.exists_through rfl through
  obtain ⟨use, first, usedAt, names, notGlobal, inScope, spelled⟩ :=
    reached.exists_use_of_isPlainName plain isName
  refine ⟨use, first, usedAt, names, notGlobal, ?_, spelled⟩
  rw [inScope, same]
  rfl

theorem exists_scope_of_function :
    ∃ here, (SourceUnit.walked source language tree).resolve.scopes.all[state.scopes.next]? =
        some here ∧
      here.parent = some ((frame.owner? source state).getD frame.context.scope) := by
  have isNew : (visit source state frame).1.scopes.all[state.scopes.next]? =
      some (Scope.fresh .function
        (some ((frame.owner? source state).getD frame.context.scope))) := by
    rw [scopes_of_function manner form]
    exact Array.getElem?_push_size
  obtain ⟨here, isHere, grown⟩ := moment.visit.scopes_extend_resolved.scopes _ _ isNew
  exact ⟨here, isHere, grown.parent⟩

end Initializers

/-- A plain name in the initializers of a function is a use in the scope of the function, unlike the
name of an accessed member.  A parameter of the function with its spelling hides all that lies
further out.  If the function has nothing of the spelling, the name is bound to what the owner of the
function has for it, or the class in which the function stands. -/
theorem initializers_are_uses_in_function {source : List Char} {language : Language}
    {tree : ParseTree} (wellFormed : WellFormed source tree) {visited waiting : List Frame}
    {state : State} {frame : Frame}
    (moment : Reaches source (State.initial (language = .cpp)) [Frame.root tree] visited state
      (frame :: waiting))
    (manner : frame.mode = .plain ∨ ∃ object, frame.mode = .member object)
    (form : frame.tree.form = .function) {before after : List ParseTree}
    {declarator list node : ParseTree}
    (parts : frame.tree.namedChildren = before ++ declarator :: after)
    (isDeclarator : declarator.field = "declarator") (isAfter : list ∈ after)
    (isList : list.kind = "field_initializer_list") (noDeclarator : list.field ≠ "declarator")
    (noBody : list.field ≠ "body") (through : Through list node)
    (isName : isPlainName node.kind = true) :
    let walked := SourceUnit.walked source language tree
    let scope := state.scopes.next
    let home := (frame.owner? source state).getD frame.context.scope
    let text := node.text source
    ∃ use first, UsedAt source language tree node .ordinary use ∧ use.names = [first] ∧
      use.isGlobal = false ∧ use.scope = scope ∧ walked.spelling first = text ∧
      (walked.macroAt? text node.start = none → text ≠ "" →
        ∀ function parameter, InnerAt declarator 0 function →
          function.kind ∈ functionDeclaratorKinds → IsParameterName function parameter →
          parameter.text source = text →
          (∀ here, walked.resolve.scopes.all[scope]? = some here → here.tags.find? text = none) →
            ∃ name binding, ParameterAt source language tree parameter scope name ∧
              walked.resolve.binding? name = some binding ∧
              walked.resolve.binding? first = some binding) ∧
      (walked.macroAt? text node.start = none →
        (∀ here, walked.resolve.scopes.all[scope]? = some here →
          walked.resolve.scopes.seenFrom? .ordinary text node.start here = none) →
        ∀ entry, walked.scopes.entry? .ordinary text home = some entry →
          (∀ here, walked.scopes.all[home]? = some here → here.kind.isOrdered = true →
            entry.declaredAt ≤ node.start) →
            walked.resolve.binding? first = some entry.binding) := by
  intro walked scope home text
  have isPart : list ∈ frame.tree.namedChildren := by
    rw [parts]
    exact List.mem_append_right _ (List.mem_cons_of_mem _ isAfter)
  obtain ⟨use, first, usedAt, names, notGlobal, inScope, spelled⟩ :=
    exists_use_in_initializers moment manner form isPart isList noDeclarator noBody through isName
  have isFirst : use.names.head? = some first := by rw [names]; rfl
  have space : use.firstSpace = .ordinary := by
    rw [PendingUse.firstSpace, names]
    exact usedAt.isUse.space
  have position : use.position = node.start := usedAt.isUse.position
  refine ⟨use, first, usedAt, names, notGlobal, inScope, spelled, ?_, ?_⟩
  · intro noMacro isSpelled function parameter outermost isFunction isParameter same untagged
    have parameterSpelled : parameter.text source ≠ "" := same ▸ isSpelled
    obtain ⟨name, entry, declared, lists, part, isEarlier, begins⟩ :=
      exists_outermost_parameter manner form parts isDeclarator moment outermost isFunction
        isParameter parameterSpelled
    have clear : ClearWay walked use text scope := by
      have toOwn : ClearWay walked use text use.scope :=
        clearWay_of_scope rfl (position ▸ noMacro) (inScope ▸ untagged)
      rwa [inScope] at toOwn
    have starts : StartsWith walked use first (parameter.text source) :=
      ⟨isFirst, notGlobal, space ▸ nofun, spelled.trans same.symm⟩
    have visible : ∀ here found, walked.scopes.all[scope]? = some here →
        here.symbols.find? (parameter.text source) = some found → here.kind.isOrdered = true →
          found.declaredAt ≤ use.position := by
      intro here found isHere isFound _
      obtain rfl : entry = found :=
        Option.some.inj (((same ▸ clear).symbols_of_lists isHere lists).symm.trans isFound)
      obtain ⟨named, lies, spells, declaredAt⟩ := begins
      obtain ⟨top, isTop, within⟩ := moment.exists_within frame List.mem_cons_self
      rw [List.mem_singleton.1 isTop] at within
      have ordered := (wellFormed.of_within within).stop_le_start_of_parts parts isEarlier isAfter
        lies through.within
      have extent := start_le_stop_of_text spells
      omega
    obtain ⟨binding, bound, boundToo⟩ := declared.binds parameterSpelled rfl usedAt.isUse.waits
      starts (inScope ▸ .self) visible (same ▸ clear)
    exact ⟨name, binding, declared, bound, boundToo⟩
  · intro noMacro unseen entry isEntry visible
    obtain ⟨here, isHere, isParent⟩ :=
      @exists_scope_of_function source language tree _ _ _ _ moment manner form
    have isOpen : OpenWay walked use text home := by
      refine openWay_of_parent rfl (position ▸ noMacro) (inScope ▸ isHere) isParent ?_
      rw [space, position]
      exact unseen here isHere
    have around : walked.scopes.Encloses home use.scope := by
      have pushed := Scopes.encloses_push state.scopes .function home
      rw [← scopes_of_function manner form] at pushed
      exact inScope ▸ moment.visit.scopes_extend.encloses pushed
    exact binding?_of_openWay rfl usedAt.isUse.waits isFirst notGlobal around
      (by rw [space, spelled]; exact isEntry) (position ▸ visible) (spelled ▸ isOpen)

/-! ## A parameter with the name of a member -/

def pairText : List Char := "struct P{int x;int y;P(int x);};P::P(int x):x(x),y(x){}".toList

def pairField (id start : Nat) : ParseTree :=
  ruleNode id "field_declaration" "" start (start + 6)
    [ruleNode (id + 1) "primitive_type" "type" start (start + 3) [],
      ruleNode (id + 2) "field_identifier" "declarator" (start + 4) (start + 5) []]

def pairClass : ParseTree :=
  ruleNode 1 "struct_specifier" "" 0 31
    [ruleNode 2 "type_identifier" "name" 7 8 [],
      ruleNode 3 "field_declaration_list" "body" 8 31
        [pairField 4 9, pairField 7 15,
          ruleNode 10 "declaration" "" 21 30
            [ruleNode 11 "function_declarator" "declarator" 21 29
              [ruleNode 12 "identifier" "declarator" 21 22 [], intParameters 13 22]]]]

def pairName : ParseTree :=
  ruleNode 19 "qualified_identifier" "declarator" 32 36
    [ruleNode 20 "namespace_identifier" "scope" 32 33 [], ruleNode 21 "identifier" "name" 35 36 []]

def pairDeclarator : ParseTree :=
  ruleNode 18 "function_declarator" "declarator" 32 43 [pairName, intParameters 22 36]

def pairTarget (id start : Nat) : ParseTree :=
  ruleNode (id + 1) "field_identifier" "" start (start + 1) []

def pairInitializer (id start : Nat) : ParseTree :=
  ruleNode id "field_initializer" "" start (start + 4)
    [pairTarget id start,
      ruleNode (id + 2) "argument_list" "" (start + 1) (start + 4)
        [ruleNode (id + 3) "identifier" "" (start + 2) (start + 3) []]]

def pairInitializers : ParseTree :=
  ruleNode 26 "field_initializer_list" "" 43 53 [pairInitializer 27 44, pairInitializer 31 49]

def pairBody : ParseTree := ruleNode 35 "compound_statement" "body" 53 55 []

def pairConstructor : ParseTree :=
  ruleNode 17 "function_definition" "" 32 55 [pairDeclarator, pairInitializers, pairBody]

def pairTree : ParseTree := ruleNode 0 "translation_unit" "" 0 55 [pairClass, pairConstructor]

def pairFrame : Frame := ⟨pairConstructor, true, .file, .plain⟩

def stateAtConstructor : State :=
  run pairText (State.initial (Language.cpp = .cpp)) [⟨pairClass, true, .file, .plain⟩]

theorem exists_moment_of_constructor :
    ∃ visited, Reaches pairText (State.initial (Language.cpp = .cpp)) [Frame.root pairTree] visited
      stateAtConstructor [pairFrame] := by
  have begun : Reaches pairText (State.initial (Language.cpp = .cpp)) [Frame.root pairTree] [] _ _ :=
    .start
  have file (state : State) : visit pairText state (Frame.root pairTree) =
      (state, [⟨pairClass, true, .file, .plain⟩] ++ [pairFrame]) := by
    have form : pairTree.form = .transparent := by decide
    simp only [visit, Frame.root, visitPlain, form]
    rfl
  have opened : Reaches pairText (State.initial (Language.cpp = .cpp)) [Frame.root pairTree] _ _
      ([⟨pairClass, true, .file, .plain⟩] ++ [pairFrame]) :=
    begun.visit_eq (file _)
  exact opened.exists_past

theorem through_pairTarget {id start : Nat}
    (isPart : pairInitializer id start ∈ pairInitializers.namedChildren) :
    Through pairInitializers (pairTarget id start) := by
  have initializer : Form.ofKind "field_initializer" = .transparent := by decide
  exact .child (.child .self (by decide) isPart) initializer List.mem_cons_self

/-- In the initializer of the first member its name is bound to the parameter, and in that of the
second to the member. -/
theorem parameter_hides_member_in_initializer :
    let walked := SourceUnit.walked pairText .cpp pairTree
    WellFormed pairText pairTree ∧
    ∃ (visited : List Frame) (state : State) (frame : Frame) (name binding : Nat)
      (entry : ScopeEntry),
      Reaches pairText (State.initial (Language.cpp = .cpp)) [Frame.root pairTree] visited state
        [frame] ∧
      frame.mode = .plain ∧ frame.tree.form = .function ∧
      ParameterAt pairText .cpp pairTree (intName 22 36) state.scopes.next name ∧
      walked.resolve.binding? name = some binding ∧
      walked.scopes.entry? .ordinary "y" 1 = some entry ∧
      (∃ use first, UsedAt pairText .cpp pairTree (pairTarget 27 44) .ordinary use ∧
        use.names = [first] ∧ walked.resolve.binding? first = some binding) ∧
      ∃ use first, UsedAt pairText .cpp pairTree (pairTarget 31 49) .ordinary use ∧
        use.names = [first] ∧ walked.resolve.binding? first = some entry.binding := by
  intro walked
  have wellFormed : WellFormed pairText pairTree := by decide +kernel
  obtain ⟨visited, moment⟩ := exists_moment_of_constructor
  have made : stateAtConstructor.scopes.next = 3 := by decide +kernel
  have owned : (pairFrame.owner? pairText stateAtConstructor).getD pairFrame.context.scope = 1 := by
    decide +kernel
  have parts : pairFrame.tree.namedChildren =
    [] ++ pairDeclarator :: [pairInitializers, pairBody] := rfl
  have first : Through pairInitializers (pairTarget 27 44) := through_pairTarget List.mem_cons_self
  have second : Through pairInitializers (pairTarget 31 49) :=
    through_pairTarget (List.mem_cons_of_mem _ List.mem_cons_self)
  obtain ⟨use, name, usedAt, names, -, -, -, hidden, -⟩ :=
    initializers_are_uses_in_function wellFormed moment (.inl rfl) (by decide) parts rfl
      List.mem_cons_self rfl (by decide) (by decide) first (by decide)
  obtain ⟨useToo, nameToo, usedToo, namesToo, -, -, -, -, found⟩ :=
    initializers_are_uses_in_function wellFormed moment (.inl rfl) (by decide) parts rfl
      List.mem_cons_self rfl (by decide) (by decide) second (by decide)
  have spelled : (pairTarget 27 44).text pairText = "x" := by decide +kernel
  have spelledToo : (pairTarget 31 49).text pairText = "y" := by decide +kernel
  have parameterSpelled : (intName 22 36).text pairText = "x" := by decide +kernel
  rw [made, spelled] at hidden
  rw [made, spelledToo, owned] at found
  have noMacro : walked.macroAt? "x" 44 = none := by decide +kernel
  have noMacroToo : walked.macroAt? "y" 49 = none := by decide +kernel
  have untagged : ∀ here, walked.resolve.scopes.all[3]? = some here →
      here.tags.find? "x" = none := by
    have tags : (walked.resolve.scopes.all[3]?.bind (·.tags.find? "x")) = none := by decide +kernel
    exact fun here isHere => by simpa [isHere] using tags
  have unseen : ∀ here, walked.resolve.scopes.all[3]? = some here →
      walked.resolve.scopes.seenFrom? .ordinary "y" 49 here = none := by
    have none : (walked.resolve.scopes.all[3]?.bind
        (walked.resolve.scopes.seenFrom? .ordinary "y" 49)) = none := by decide +kernel
    exact fun here isHere => by simpa [isHere] using none
  have isEntry : walked.scopes.entry? .ordinary "y" 1 = some ⟨2, 19⟩ := by decide +kernel
  have unordered : ∀ here, walked.scopes.all[1]? = some here → here.kind.isOrdered = true →
      19 ≤ 49 := fun _ _ _ => by decide
  obtain ⟨parameter, binding, declared, bound, boundToo⟩ :=
    hidden noMacro (by decide) pairDeclarator (intName 22 36) .self (by decide)
      (isParameterName_intName (List.mem_cons_of_mem _ List.mem_cons_self)) parameterSpelled untagged
  exact ⟨wellFormed, visited, stateAtConstructor, _, parameter, binding, ⟨2, 19⟩, moment, rfl,
    by decide, made.symm ▸ declared, bound, isEntry, ⟨use, name, usedAt, names, boundToo⟩,
    useToo, nameToo, usedToo, namesToo, found noMacroToo unseen _ isEntry unordered⟩

end Walk

end CrossReference
