import CrossReference.Proofs.ParseTree.Places
import CrossReference.Proofs.Walk.Declarators
import CrossReference.Proofs.Walk.Sees

/-!
# Parameters of functions

The definition of a function has a scope for its parameters and its body.  The parameters that are
declared there are those of the outermost declarator of a function, which are those of the function
itself unless it returns a pointer to a function or a reference to one.
-/

set_option autoImplicit false

namespace CrossReference

open ParseTree Walk

namespace Walk

open State

/-! ## The parts of a definition -/

variable {source : List Char} {state : State} {frame : Frame}

/-- A function gets a scope, which its declarator is given for parameters and its body is walked
in. -/
theorem visit_of_function (source : List Char) (state : State)
    (manner : frame.mode = .plain ∨ ∃ object, frame.mode = .member object)
    (form : frame.tree.form = .function) :
    visit source state frame =
      (let (opened, inner) := state.openDeclaration frame.tree.kind frame.context
       ((opened.pushScope .function ((frame.owner? source state).getD frame.context.scope)).1,
        frame.tree.namedChildren.map (functionPart frame.tree inner state.scopes.next))) := by
  rw [visit_of_form frame manner (by rw [form]; exact nofun)]
  simp only [visitPlain, form]
  exact visitFunction_eq source state frame

section Function

variable (manner : frame.mode = .plain ∨ ∃ object, frame.mode = .member object)
  (form : frame.tree.form = .function)

include manner form

theorem scopes_of_function :
    (visit source state frame).1.scopes =
      state.scopes.push .function
        (some ((frame.owner? source state).getD frame.context.scope)) := by
  rw [visit_of_function source state manner form]
  simp only [pushScope, openDeclaration_scopes]

theorem memberScope?_of_function (binding : Nat) :
    (visit source state frame).1.memberScope? binding = state.memberScope? binding := by
  rw [visit_of_function source state manner form]
  simp [pushScope, memberScope?]

/-- The body of a function is left to be walked in the scope of the function. -/
theorem body_mem_visit_of_function {body : ParseTree} (isPart : body ∈ frame.tree.namedChildren)
    (isBody : body.field = "body") :
    Frame.child frame.tree
      ((state.openDeclaration frame.tree.kind frame.context).2.within state.scopes.next) .body body ∈
        (visit source state frame).2 := by
  rw [visit_of_function source state manner form]
  refine List.mem_map.2 ⟨body, isPart, ?_⟩
  rw [functionPart, isBody, if_neg (by decide), if_pos rfl]

variable {before after : List ParseTree} {declarator : ParseTree}
  (parts : frame.tree.namedChildren = before ++ declarator :: after)
  (isDeclarator : declarator.field = "declarator")

include parts isDeclarator

/-- The declarators inside of the one of a definition are visited before the parts after it.  The
outermost declarator of a function is given the scope of the function for its parameters. -/
theorem exists_innerAt_of_function {depth : Nat} {function : ParseTree}
    (inner : InnerAt declarator depth function) :
    ∃ first rest done later next waiting kind,
      (visit source state frame).2 = first ++ rest ∧
      first.map Frame.tree = before ++ [declarator] ∧
      Reaches source (visit source state frame).1 first done later (next :: waiting) ∧
      next.tree = function ∧ next.context.scope = frame.context.scope ∧
      next.mode = .declarator kind none (if depth = 0 then some state.scopes.next else none) := by
  let context := (state.openDeclaration frame.tree.kind frame.context).2
  let part := functionPart frame.tree context state.scopes.next
  have left : (visit source state frame).2 =
      (before ++ [declarator]).map part ++ after.map part := by
    rw [visit_of_function source state manner form, ← List.map_append, List.append_assoc,
      List.singleton_append, ← parts]
  have isPart : part declarator =
      Frame.child frame.tree context (.declarator .function none (some state.scopes.next))
        declarator := if_pos isDeclarator
  have waits : part declarator ∈ (before ++ [declarator]).map part :=
    List.mem_map_of_mem (List.mem_append_right _ List.mem_cons_self)
  have begun : Reaches source (visit source state frame).1 ((before ++ [declarator]).map part) []
    _ _ := .start
  obtain ⟨_, _, _, reached⟩ := begun.exists_visit waits
  rw [isPart] at reached
  obtain ⟨done, later, next, rest, kind, reachedInner, isFunction, same, mode, -⟩ :=
    reached.exists_declarator rfl inner
  refine ⟨_, _, done, later, next, rest, kind, left, ?_, reachedInner, isFunction, ?_, mode⟩
  · rw [List.map_map]
    exact (List.map_congr_left fun child _ => functionPart_tree _ _ _ child).trans (List.map_id _)
  · rw [same]
    rfl

variable {language : Language} {tree : ParseTree} {visited waiting : List Frame}
  (moment : Reaches source (State.initial (language = .cpp)) [Frame.root tree] visited state
    (frame :: waiting))

include moment

/-- The parameters of the outermost declarator of a function are declared in the scope of the
function, with an entry that begins in a part up to that declarator. -/
theorem exists_outermost_parameter {function node : ParseTree}
    (outermost : InnerAt declarator 0 function)
    (isFunction : function.kind ∈ functionDeclaratorKinds)
    (isName : IsParameterName function node) (spelled : node.text source ≠ "") :
    ∃ name entry, ParameterAt source language tree node state.scopes.next name ∧
      (SourceUnit.walked source language tree).scopes.Lists state.scopes.next (node.text source)
        entry ∧
      ∃ part ∈ before ++ [declarator], NamedAt source part entry.declaredAt := by
  obtain ⟨first, rest, done, later, next, _, kind, left, trees, reached, rfl, -, mode⟩ :=
    exists_innerAt_of_function manner form parts isDeclarator outermost
  obtain ⟨_, there, parameter, _, reachedParameter, isNode, declareIn⟩ :=
    reached.exists_parameter mode isFunction isName
  have outer := moment.visit
  rw [left, List.append_assoc] at outer
  have within : parameter.context.declareIn = state.scopes.next := declareIn
  have unlisted (entry : ScopeEntry) : ¬ (visit source state frame).1.scopes.Lists
      parameter.context.declareIn (node.text source) entry := by
    rw [within, scopes_of_function manner form]
    intro lists
    obtain ⟨here, isHere, -⟩ := Scopes.lists_of_push lists
    simp [Scopes.next] at isHere
  obtain ⟨name, entry, declared, lists, top, isFirst, named⟩ :=
    outer.exists_entry reachedParameter isNode spelled unlisted
  rw [within] at declared lists
  exact ⟨name, entry, declared, lists, top.tree, trees ▸ List.mem_map_of_mem isFirst, named⟩

/-- The parameters of a declarator of a function that stands further in are declared in a scope that
is not seen from inside of the scope of the function. -/
theorem exists_inner_parameters {depth : Nat} {function : ParseTree} (isInner : depth ≠ 0)
    (inner : InnerAt declarator depth function)
    (isFunction : function.kind ∈ functionDeclaratorKinds) :
    ∃ home,
      (∀ node, IsParameterName function node →
        ∃ name, ParameterAt source language tree node home name) ∧
      ∀ scope,
        (SourceUnit.walked source language tree).scopes.Encloses state.scopes.next scope →
          ¬ (SourceUnit.walked source language tree).resolve.scopes.Sees scope home := by
  obtain ⟨first, rest, done, later, next, _, kind, left, -, reached, rfl, context, mode⟩ :=
    exists_innerAt_of_function manner form parts isDeclarator inner
  rw [if_neg isInner] at mode
  have outer := moment.visit
  rw [left, List.append_assoc] at outer
  have whole := outer.stretch reached
  obtain ⟨members, -⟩ := whole.under
  refine ⟨later.scopes.next, fun node isName => ?_, fun scope inside => ?_⟩
  · obtain ⟨_, there, parameter, _, reachedParameter, isNode, declareIn⟩ :=
      reached.exists_parameter mode isFunction isName
    exact ⟨_, _, there, parameter, _, 0, outer.stretch reachedParameter, isNode, declareIn, rfl⟩
  · have pushed : (visit source later next).1 =
        (later.pushScope .function next.context.scope).1 := by
      simp only [visit, mode, visitDeclarator_of_function isFunction, visitFunctionDeclarator]
    have noMembers : NoMembers later.scopes.next (visit source later next).1 :=
      noMembers_of_push members (by rw [pushed]; rfl) fun binding => by rw [pushed]; rfl
    refine Scopes.not_sees ?_ (whole.visit.untaken noMembers)
    have made : state.scopes.next < later.scopes.next := by
      refine Nat.lt_of_lt_of_le ?_ reached.extends_start.next_le
      rw [scopes_of_function manner form]
      simp [Scopes.next, Scopes.push]
    have isHome : (visit source later next).1.scopes.all[later.scopes.next]? =
        some (Scope.fresh .function (some next.context.scope)) := by
      rw [pushed]
      exact Array.getElem?_push_size
    obtain ⟨here, isHere, grown⟩ := whole.visit.scopes_extend_resolved.scopes _ _ isHome
    have under := (moment.under.2 frame List.mem_cons_self).context.scope
    rw [← context] at under
    exact Scopes.not_encloses_of_parent_lt (resolved_nested source language tree)
      ((resolve_widens _).encloses inside) isHere grown.parent under made

end Function

/-- The body of a function is walked in a scope in which the parameters of the outermost declarator
of a function are declared, and those of no declarator further in.  A use in the body, of a name of
the same spelling, is bound to the symbol of the parameter, unless the spelling is that of a macro or
some scope on the way has the name.  The parameters of declarators further in are declared in scopes
that are not seen from the body, and what a visit sends from the body to a scope outside of the
function does not see its parameters. -/
theorem outermost_parameters_are_visible {source : List Char} {language : Language}
    {tree : ParseTree} (wellFormed : WellFormed source tree) {visited waiting : List Frame}
    {state : State} {frame : Frame}
    (moment : Reaches source (State.initial (language = .cpp)) [Frame.root tree] visited state
      (frame :: waiting))
    (manner : frame.mode = .plain ∨ ∃ object, frame.mode = .member object)
    (form : frame.tree.form = .function) {before after : List ParseTree}
    {declarator body : ParseTree}
    (parts : frame.tree.namedChildren = before ++ declarator :: after)
    (isDeclarator : declarator.field = "declarator") (isAfter : body ∈ after)
    (isBody : body.field = "body") :
    let walked := SourceUnit.walked source language tree
    let scope := state.scopes.next
    ∃ entrance ∈ (visit source state frame).2,
      entrance.tree = body ∧ entrance.mode = .body ∧ entrance.context.scope = scope ∧
      (∀ function node, InnerAt declarator 0 function → function.kind ∈ functionDeclaratorKinds →
        IsParameterName function node → node.text source ≠ "" →
          ∃ name, ParameterAt source language tree node scope name ∧
            EnteredIn source walked node scope name ∧
            ∀ use first, UsedInside source language tree scope [entrance] use →
              StartsWith walked use first (node.text source) →
              ClearWay walked use (node.text source) scope →
                ∃ binding, walked.resolve.binding? name = some binding ∧
                  walked.resolve.binding? first = some binding) ∧
      (∀ depth function, depth ≠ 0 → InnerAt declarator depth function →
        function.kind ∈ functionDeclaratorKinds →
          ∃ home,
            (∀ node, IsParameterName function node →
              ∃ name, ParameterAt source language tree node home name) ∧
            ∀ use, UsedInside source language tree scope [entrance] use →
              ¬ walked.resolve.scopes.Sees use.scope home) ∧
      ∀ earlier later outer rest next, Inside source language tree scope [entrance] outer →
        Reaches source (State.initial (language = .cpp)) [Frame.root tree] earlier later
          (outer :: rest) → next ∈ (visit source later outer).2 →
          Departs source later scope outer next →
            ¬ walked.resolve.scopes.Sees next.context.scope scope := by
  intro walked scope
  let entrance : Frame := Frame.child frame.tree
    ((state.openDeclaration frame.tree.kind frame.context).2.within scope) .body body
  have isPart : body ∈ frame.tree.namedChildren := by
    rw [parts]
    exact List.mem_append_right _ (List.mem_cons_of_mem _ isAfter)
  have left : entrance ∈ (visit source state frame).2 :=
    body_mem_visit_of_function manner form isPart isBody
  have inside : ∀ first ∈ [entrance], walked.scopes.Encloses scope first.context.scope := by
    intro first isFirst
    rw [List.mem_singleton.1 isFirst]
    exact .self
  have scope_noMembers : NoMembers scope (visit source state frame).1 :=
    noMembers_of_push moment.under.1 (scopes_of_function manner form)
      (memberScope?_of_function manner form)
  refine ⟨entrance, left, rfl, rfl, rfl, ?_, ?_, ?_⟩
  · intro function node outermost isFunction isName spelled
    obtain ⟨name, entry, parameter, lists, part, isEarlier, begins⟩ :=
      exists_outermost_parameter manner form parts isDeclarator moment outermost isFunction isName
        spelled
    refine ⟨name, parameter, parameter.enteredIn, fun use first used starts clear => ?_⟩
    refine parameter.binds spelled rfl used.waits starts (used.encloses inside) ?_ clear
    intro here found isHere isFound _
    obtain rfl : entry = found :=
      Option.some.inj ((clear.symbols_of_lists isHere lists).symm.trans isFound)
    obtain ⟨named, lies, spells, declaredAt⟩ := begins
    obtain ⟨_, isFirst, position, liesToo, usedAt⟩ := used.exists_node
    rw [List.mem_singleton.1 isFirst] at liesToo
    obtain ⟨top, isTop, within⟩ := moment.exists_within frame List.mem_cons_self
    rw [List.mem_singleton.1 isTop] at within
    have ordered := (wellFormed.of_within within).stop_le_start_of_parts parts isEarlier isAfter
      lies liesToo
    have extent := start_le_stop_of_text spells
    omega
  · intro depth function isInner inner isFunction
    obtain ⟨home, declared, unseen⟩ :=
      exists_inner_parameters manner form parts isDeclarator moment isInner inner isFunction
    exact ⟨home, declared, fun use used => unseen use.scope (used.encloses inside)⟩
  · intro earlier later outer rest next _ reached isNext departs
    exact departs.not_sees reached isNext (moment.visit.untaken scope_noMembers)

/-! ## A function that returns a pointer to a function -/

def pointerText : List Char := "int(*f(int a))(int b){return b;}".toList

def intName (id start : Nat) : ParseTree :=
  ruleNode (id + 3) "identifier" "declarator" (start + 5) (start + 6) []

def intParameters (id start : Nat) : ParseTree :=
  ruleNode id "parameter_list" "parameters" start (start + 7)
    [ruleNode (id + 1) "parameter_declaration" "" (start + 1) (start + 6)
      [ruleNode (id + 2) "primitive_type" "type" (start + 1) (start + 4) [], intName id start]]

theorem isParameterName_intName {id start : Nat} {function : ParseTree}
    (isList : intParameters id start ∈ function.namedChildren) :
    IsParameterName function (intName id start) := by
  have list : Form.ofKind "parameter_list" = .transparent := by decide
  have parameter : Form.ofKind "parameter_declaration" = .declaration .parameter := by decide
  have name : isPlainName "identifier" = true := by decide
  exact ⟨intParameters id start, _, intName id start, 0, isList, rfl,
    .child .self list List.mem_cons_self, parameter, List.mem_cons_of_mem _ List.mem_cons_self, rfl,
    .self, name⟩

def ownDeclarator : ParseTree :=
  ruleNode 6 "function_declarator" "declarator" 5 13
    [ruleNode 7 "identifier" "declarator" 5 6 [], intParameters 8 6]

def returnedPointer : ParseTree := ruleNode 5 "pointer_declarator" "" 4 13 [ownDeclarator]

def returnedParentheses : ParseTree :=
  ruleNode 4 "parenthesized_declarator" "declarator" 3 14 [returnedPointer]

def returnedDeclarator : ParseTree :=
  ruleNode 3 "function_declarator" "declarator" 3 21 [returnedParentheses, intParameters 12 14]

def usedName : ParseTree := ruleNode 18 "identifier" "" 29 30 []

def pointerReturn : ParseTree := ruleNode 17 "return_statement" "" 22 31 [usedName]

def pointerBody : ParseTree := ruleNode 16 "compound_statement" "body" 21 32 [pointerReturn]

def pointerType : ParseTree := ruleNode 2 "primitive_type" "type" 0 3 []

def pointerFunction : ParseTree :=
  ruleNode 1 "function_definition" "" 0 32 [pointerType, returnedDeclarator, pointerBody]

def pointerTree : ParseTree := ruleNode 0 "translation_unit" "" 0 32 [pointerFunction]

def pointerUse : PendingUse := ⟨[3], .ordinary, false, 1, 29, .none⟩

theorem visit_pointerTree (state : State) :
    visit pointerText state (Frame.root pointerTree) =
      (state, [⟨pointerFunction, true, .file, .plain⟩]) := by
  have form : pointerTree.form = .transparent := by decide
  simp only [visit, Frame.root, visitPlain, form]
  rfl

theorem visit_pointerReturn (state : State) (context : Context) (declaresTag : Bool) :
    visit pointerText state ⟨pointerReturn, declaresTag, context, .plain⟩ =
      (state, [⟨usedName, false, context, .plain⟩]) := by
  have form : pointerReturn.form = .transparent := by decide
  simp only [visit, visitPlain, form]
  rfl

def pointerPart (part : ParseTree) : Frame :=
  functionPart pointerFunction ⟨Scopes.file, Scopes.file, some 0, true⟩ 1 part

theorem visit_pointerFunction :
    (visit pointerText (State.initial (Language.cpp = .cpp))
      ⟨pointerFunction, true, .file, .plain⟩).2 =
        [pointerPart pointerType, pointerPart returnedDeclarator] ++ [pointerPart pointerBody] := by
  rw [visit_of_function pointerText _ (.inl rfl) (by decide)]
  rfl

theorem visit_pointerBody (state : State) :
    visit pointerText state (pointerPart pointerBody) =
      (state, [⟨pointerReturn, true, ⟨1, 1, some 0, true⟩, .plain⟩]) := rfl

theorem usedInside_pointerUse :
    UsedInside pointerText .cpp pointerTree 1 [pointerPart pointerBody] pointerUse := by
  have begun : Reaches pointerText (State.initial (Language.cpp = .cpp))
      [Frame.root pointerTree] [] _ _ := .start
  have defined := (begun.visit_eq (visit_pointerTree _)).visit
  rw [visit_pointerFunction] at defined
  have visited : Reaches pointerText (State.initial (Language.cpp = .cpp)) [Frame.root pointerTree]
    _ _ ([pointerPart pointerType, pointerPart returnedDeclarator] ++ [pointerPart pointerBody]) :=
      defined
  obtain ⟨_, entered⟩ := visited.exists_past
  have returned := entered.visit_eq (visit_pointerBody _)
  have inside : Inside pointerText .cpp pointerTree 1 [pointerPart pointerBody]
      ⟨pointerReturn, true, ⟨1, 1, some 0, true⟩, .plain⟩ := by
    refine .visit (.left List.mem_cons_self) entered List.mem_cons_self fun departs => ?_
    exact departs.outside .self
  have isNext (state : State) : ⟨usedName, false, ⟨1, 1, some 0, true⟩, .plain⟩ ∈
      (visit pointerText state ⟨pointerReturn, true, ⟨1, 1, some 0, true⟩, .plain⟩).2 := by
    rw [visit_pointerReturn]
    exact List.mem_cons_self
  refine ⟨_, _, _, _, returned.visit_eq (visit_pointerReturn _ _ _),
    .visit inside returned (isNext _) fun departs => departs.outside .self, ?_, ?_⟩
  · decide +kernel
  · decide +kernel

/-- The parameter of the returned function is visible in the body, and that of the function itself
is not. -/
theorem returned_parameter_is_visible :
    let walked := SourceUnit.walked pointerText .cpp pointerTree
    WellFormed pointerText pointerTree ∧
    ∃ (state : State) (frame entrance : Frame) (own home returned : Nat),
      Reaches pointerText (State.initial (Language.cpp = .cpp)) [Frame.root pointerTree]
        [Frame.root pointerTree] state [frame] ∧
      frame.mode = .plain ∧ frame.tree.form = .function ∧ entrance.tree = pointerBody ∧
      UsedInside pointerText .cpp pointerTree state.scopes.next [entrance] pointerUse ∧
      ParameterAt pointerText .cpp pointerTree (intName 12 14) state.scopes.next returned ∧
      StartsWith walked pointerUse 3 "b" ∧ ClearWay walked pointerUse "b" state.scopes.next ∧
      (∃ binding, walked.resolve.binding? returned = some binding ∧
        walked.resolve.binding? 3 = some binding) ∧
      ParameterAt pointerText .cpp pointerTree (intName 8 6) home own ∧
      ¬ walked.resolve.scopes.Sees pointerUse.scope home := by
  intro walked
  have wellFormed : WellFormed pointerText pointerTree := by decide +kernel
  have begun : Reaches pointerText (State.initial (Language.cpp = .cpp))
      [Frame.root pointerTree] [] _ _ := .start
  have moment := begun.visit_eq (visit_pointerTree _)
  have spelled : (intName 12 14).text pointerText = "b" := by decide +kernel
  have split : pointerFunction.namedChildren =
    [pointerType] ++ returnedDeclarator :: [pointerBody] := rfl
  obtain ⟨entrance, left, isBody, -, -, bound, unseen, -⟩ :=
    outermost_parameters_are_visible wellFormed moment (.inl rfl) (by decide) split rfl
      List.mem_cons_self rfl
  have isLast : entrance = pointerPart pointerBody := by
    rw [visit_pointerFunction] at left
    have other {child : ParseTree} (different : child.kind ≠ pointerBody.kind) :
        entrance ≠ pointerPart child := by
      rintro rfl
      rw [pointerPart, functionPart_tree] at isBody
      exact different (congrArg ParseTree.kind isBody)
    simpa [other (by decide : pointerType.kind ≠ pointerBody.kind),
      other (by decide : returnedDeclarator.kind ≠ pointerBody.kind)] using left
  subst isLast
  have used := usedInside_pointerUse
  have starts : StartsWith walked pointerUse 3 "b" := ⟨rfl, rfl, by decide, by decide +kernel⟩
  have clear : ClearWay walked pointerUse "b" 1 := by
    have tags : (walked.resolve.scopes.all[pointerUse.scope]?.bind (·.tags.find? "b")) = none := by
      decide +kernel
    have noMacro : walked.macroAt? "b" pointerUse.position = none := by decide +kernel
    exact clearWay_of_scope rfl noMacro fun here isHere => by simpa [isHere] using tags
  obtain ⟨returned, parameter, -, binds⟩ := bound returnedDeclarator (intName 12 14) .self
    (by decide) (isParameterName_intName (List.mem_cons_of_mem _ List.mem_cons_self))
    (by decide +kernel)
  have own : InnerAt returnedDeclarator 1 ownDeclarator :=
    .wrapped (.wrapped (.function .self (by decide) List.mem_cons_self rfl) (by decide)
      List.mem_cons_self rfl) (by decide) List.mem_cons_self rfl
  obtain ⟨home, declared, hidden⟩ := unseen 1 ownDeclarator (by decide) own (by decide)
  obtain ⟨name, ownParameter⟩ := declared (intName 8 6)
    (isParameterName_intName (List.mem_cons_of_mem _ List.mem_cons_self))
  exact ⟨wellFormed, _, _, _, name, home, returned, moment, rfl, by decide, isBody, used, parameter,
    starts, clear, binds pointerUse 3 used (spelled ▸ starts) (spelled ▸ clear), ownParameter,
    hidden pointerUse used⟩

end Walk

end CrossReference
