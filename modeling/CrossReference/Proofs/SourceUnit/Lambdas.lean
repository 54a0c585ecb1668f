import CrossReference.Proofs.SourceUnit.FunctionParameters
import CrossReference.Proofs.Walk.Blocks
import Mathlib.Data.List.Induction

/-!
# Lambdas

A lambda makes a scope, in which its parameters are declared and its body is walked.  The scopes that
were made before stay as they are meanwhile.  All other parts of a lambda are walked where it stands,
so that what these declare, as the type parameters of a generic lambda, is declared around it.
-/

set_option autoImplicit false

namespace CrossReference

open ParseTree Walk

namespace Walk

open State

/-! ## The parts of a lambda -/

def isInnerPart (part : ParseTree) : Bool :=
  part.field = "declarator" || part.field = "body"

def lambdaPart (tree : ParseTree) (context : Context) (scope : Nat) (part : ParseTree) : Frame :=
  if part.field = "declarator" then Frame.child tree (context.within scope) .plain part
  else if part.field = "body" then Frame.child tree (context.within scope) .body part
  else Frame.child tree context .plain part

theorem lambdaPart_tree (tree : ParseTree) (context : Context) (scope : Nat) (part : ParseTree) :
    (lambdaPart tree context scope part).tree = part := by
  unfold lambdaPart
  split
  · rfl
  · split <;> rfl

theorem context_of_isInnerPart {part : ParseTree} (isInner : isInnerPart part = true)
    (tree : ParseTree) (context : Context) (scope : Nat) :
    (lambdaPart tree context scope part).context = context.within scope := by
  simp only [isInnerPart, Bool.or_eq_true, decide_eq_true_eq] at isInner
  unfold lambdaPart
  split
  · rfl
  · rename_i noDeclarator
    rw [if_pos (isInner.resolve_left noDeclarator)]
    rfl

theorem lambdaPart_of_not_isInnerPart {part : ParseTree} (isOuter : isInnerPart part = false)
    (tree : ParseTree) (context : Context) (scope : Nat) :
    lambdaPart tree context scope part = Frame.child tree context .plain part := by
  simp only [isInnerPart, Bool.or_eq_false_iff, decide_eq_false_iff_not] at isOuter
  rw [lambdaPart, if_neg isOuter.1, if_neg isOuter.2]

theorem lambdaPart_in {region : Region} {part : ParseTree} {context : Context} {scope : Nat}
    (tree : ParseTree) (inside : (lambdaPart tree context scope part).context.In region) :
    (lambdaPart tree context scope part).In region := by
  refine ⟨inside, ?_⟩
  unfold lambdaPart
  split
  · trivial
  · split <;> trivial

theorem visit_of_lambda (source : List Char) (state : State) {frame : Frame}
    (manner : frame.mode = .plain ∨ ∃ object, frame.mode = .member object)
    (form : frame.tree.form = .lambda) :
    visit source state frame =
      ((state.pushScope .function frame.context.scope).1,
        frame.tree.namedChildren.map
          (lambdaPart frame.tree frame.context state.scopes.next)) := by
  rw [visit_of_form frame manner (by rw [form]; exact nofun)]
  simp only [visitPlain, form]
  rfl

/-! ## What the parts of a lambda change -/

section Parts

variable {source : List Char} {language : Language} {tree : ParseTree}
  {visited waiting : List Frame} {state there : State} {frame : Frame}

theorem Reaches.allMade
    (reached : Reaches source (State.initial (language = .cpp)) [Frame.root tree] visited state
      waiting) : AllMade state where
  symbols scope binding held := by
    obtain ⟨inner, text, entry, isThere, listed, rfl⟩ := held
    rcases listed with tag | symbol
    · obtain ⟨-, head, isHead, -⟩ := reached.named.apart.tags scope inner isThere _ tag
      exact lt_size_of_head? isHead
    · obtain ⟨-, head, isHead, -⟩ := reached.named.apart.symbols scope inner isThere _ symbol
      exact lt_size_of_head? isHead
  members := reached.under.1

/-- While the parts of a lambda are walked, its scope is in a region that is apart from all scopes
that were made before. -/
structure Parted (scope : Nat) (region : Region) (there : State) : Prop where
  divides : region.Divides there
  own : region.scopes scope
  older : ∀ outer < scope, ¬ region.scopes outer
  made : scope < there.scopes.next

variable {scope : Nat} {region : Region} {part : ParseTree} {context : Context}

theorem Parted.staysIn_inner (parted : Parted scope region there)
    (isInner : isInnerPart part = true) (tree : ParseTree)
    (unqualified : DeclareUnqualified source there [lambdaPart tree context scope part]) :
    StaysIn (region.grown there) there
      (run source there [lambdaPart tree context scope part], []) := by
  refine staysIn_run parted.divides.inside.hosts (fun next member => ?_) unqualified
  rw [List.mem_singleton.1 member]
  apply lambdaPart_in
  rw [context_of_isInnerPart isInner]
  exact Context.in_within (.inl parted.own)

/-- A part that is walked where the lambda stands leaves the scopes of the other parts as they
are. -/
theorem Parted.staysIn_outer (parted : Parted scope region there)
    (isOuter : isInnerPart part = false) (tree : ParseTree) (under : context.Under scope)
    (unqualified : DeclareUnqualified source there [lambdaPart tree context scope part]) :
    StaysIn (region.other.grown there) there
      (run source there [lambdaPart tree context scope part], []) := by
  refine staysIn_run parted.divides.outside.hosts (fun next member => ?_) unqualified
  rw [List.mem_singleton.1 member]
  apply lambdaPart_in
  rw [lambdaPart_of_not_isInnerPart isOuter]
  exact ⟨.inl (parted.older _ under.scope), .inl (parted.older _ under.declareIn)⟩

theorem Parted.unchanged {after : State} {frames : List Frame} (parted : Parted scope region there)
    (stays : StaysIn (region.grown there) there (after, frames)) {outer : Nat}
    (isOlder : outer < scope) : after.scopes.all[outer]? = there.scopes.all[outer]? := by
  refine stays.spares.scopes outer ?_
  rintro (within | isNew)
  · exact parted.older outer isOlder within
  · exact absurd (Nat.lt_trans isOlder parted.made) (Nat.not_lt_of_le isNew)

/-- The scope of a lambda stays apart from the older ones while a part is walked. -/
theorem Parted.step (parted : Parted scope region there) (made : AllMade there) (tree : ParseTree)
    (under : context.Under scope)
    (unqualified : DeclareUnqualified source there [lambdaPart tree context scope part]) :
    ∃ later, Parted scope later (run source there [lambdaPart tree context scope part]) := by
  obtain ⟨done, reached⟩ := exists_reaches_run source there [lambdaPart tree context scope part]
  have larger := Nat.lt_of_lt_of_le parted.made reached.extends_start.next_le
  cases isInner : isInnerPart part with
  | true =>
    have stays := parted.staysIn_inner isInner tree unqualified
    refine ⟨region.grown there, parted.divides.grown made stays, .inl parted.own, ?_, larger⟩
    rintro outer isOlder (within | isNew)
    · exact parted.older outer isOlder within
    · exact absurd (Nat.lt_trans isOlder parted.made) (Nat.not_lt_of_le isNew)
  | false =>
    have stays := parted.staysIn_outer isInner tree under unqualified
    refine ⟨(region.other.grown there).other, (parted.divides.symm.grown made stays).symm, ?_,
      fun outer isOlder within => within (.inl (parted.older outer isOlder)), larger⟩
    rintro (without | isNew)
    · exact without parted.own
    · exact absurd parted.made (Nat.not_lt_of_le isNew)

variable (moment : Reaches source (State.initial (language = .cpp)) [Frame.root tree] visited state
    (frame :: waiting))
  (manner : frame.mode = .plain ∨ ∃ object, frame.mode = .member object)
  (form : frame.tree.form = .lambda)

include moment manner form

theorem parted_of_lambda :
    ∃ region, Parted state.scopes.next region (visit source state frame).1 := by
  rw [visit_of_lambda source state manner form]
  have stays : StaysIn (Region.none.grown state) state
      ((state.pushScope .function frame.context.scope).1, []) :=
    staysIn_pushScope (Region.closed_none state).hosts .function frame.context.scope
  have divides : Region.none.Divides state := by
    refine ⟨Region.closed_none state, ⟨fun _ _ _ _ => ?_, fun _ _ _ _ => ?_⟩⟩ <;> exact id
  refine ⟨Region.none.grown state, divides.grown moment.allMade stays, .inr (Nat.le_refl _), ?_,
    lt_next_pushScope state .function frame.context.scope⟩
  rintro outer isOlder (nothing | isNew)
  · exact nothing
  · exact absurd isOlder (Nat.not_lt_of_le isNew)

variable (unqualified : DeclareUnqualified source state [frame])

include unqualified

/-- After some parts of a lambda its scope is apart from the older ones, and these have new entries
only from parts that are walked where the lambda stands. -/
theorem parted_after {before after : List ParseTree}
    (split : frame.tree.namedChildren = before ++ after) :
    let part := lambdaPart frame.tree frame.context state.scopes.next
    let there := run source (visit source state frame).1 (before.map part)
    (∃ done, Reaches source (State.initial (language = .cpp)) [Frame.root tree] done there
      (after.map part ++ waiting)) ∧
    DeclareUnqualified source there (after.map part) ∧
    (∃ region, Parted state.scopes.next region there) ∧
    ∀ outer < state.scopes.next, ∀ text entry, there.scopes.Lists outer text entry →
      state.scopes.Lists outer text entry ∨
        ∃ other ∈ before, isInnerPart other = false ∧
          NamedAt source other entry.declaredAt := by
  intro part there
  have under := (moment.under.2 frame List.mem_cons_self).context
  induction before using List.reverseRecOn generalizing after with
  | nil =>
    have left : (visit source state frame).2 = after.map part := by
      rw [visit_of_lambda source state manner form, split, List.nil_append]
    have begun : there = (visit source state frame).1 := run_nil source _
    have started : Reaches source state [frame] [frame] (visit source state frame).1
        ((visit source state frame).2 ++ []) := Reaches.start.visit
    rw [begun, ← left]
    refine ⟨⟨_, moment.visit⟩, (unqualified.onward started).front,
      parted_of_lambda moment manner form, fun outer isOlder text entry lists => .inl ?_⟩
    rw [visit_of_lambda source state manner form] at lists
    exact Scopes.lists_of_push lists
  | append_singleton init last ih =>
    obtain ⟨⟨done, reached⟩, others, ⟨region, parted⟩, entries⟩ :=
      @ih (last :: after) (by simpa using split)
    have goesOn : there = run source (run source (visit source state frame).1 (init.map part))
        [part last] := by
      rw [← run_append, ← List.map_singleton, ← List.map_append]
    rw [goesOn]
    generalize run source (visit source state frame).1 (init.map part) = earlier at *
    have lastUnqualified : DeclareUnqualified source earlier [part last] :=
      DeclareUnqualified.front others
    have comesTo : Reaches source (State.initial (language = .cpp)) [Frame.root tree] done earlier
      ([part last] ++ (after.map part ++ waiting)) := reached
    have whole : Reaches source earlier ([part last] ++ after.map part) [] earlier
      ([part last] ++ after.map part) := .start
    obtain ⟨_, others_onward⟩ := whole.exists_past
    obtain ⟨_, inner⟩ := exists_reaches_run source earlier [part last]
    refine ⟨comesTo.exists_past, others.onward others_onward,
      parted.step reached.allMade frame.tree under lastUnqualified, ?_⟩
    intro outer isOlder text entry lists
    have widen (known : state.scopes.Lists outer text entry ∨
        ∃ other ∈ init, isInnerPart other = false ∧ NamedAt source other entry.declaredAt) :
        state.scopes.Lists outer text entry ∨
          ∃ other ∈ init ++ [last], isInnerPart other = false ∧
            NamedAt source other entry.declaredAt :=
      known.imp_right fun ⟨other, member, rest⟩ => ⟨other, List.mem_append_left _ member, rest⟩
    cases isInner : isInnerPart last with
    | true =>
      have same := parted.unchanged (parted.staysIn_inner isInner frame.tree lastUnqualified) isOlder
      obtain ⟨found, isFound, listed⟩ := lists
      exact widen (entries outer isOlder text entry ⟨found, same ▸ isFound, listed⟩)
    | false =>
      rcases comesTo.entries_of_stretch inner lists with known | ⟨top, isTop, named⟩
      · exact widen (entries outer isOlder text entry known)
      · rw [List.mem_singleton.1 isTop, lambdaPart_tree] at named
        exact .inr ⟨last, List.mem_append_right _ List.mem_cons_self, isInner, named⟩

omit unqualified in
/-- The parameters of a lambda are declared in its scope, with an entry that begins in a part up to
its declarator. -/
theorem exists_parameter_of_lambda {before after : List ParseTree} {declarator node : ParseTree}
    (split : frame.tree.namedChildren = before ++ declarator :: after)
    (isDeclarator : declarator.field = "declarator") (isName : ParameterIn declarator node)
    (spelled : node.text source ≠ "") :
    ∃ name entry, ParameterAt source language tree node state.scopes.next name ∧
      (SourceUnit.walked source language tree).scopes.Lists state.scopes.next (node.text source)
        entry ∧
      ∃ part ∈ before ++ [declarator], NamedAt source part entry.declaredAt := by
  let part := lambdaPart frame.tree frame.context state.scopes.next
  have visited_eq := visit_of_lambda source state manner form
  have left : (visit source state frame).2 =
      (before ++ [declarator]).map part ++ after.map part := by
    rw [visited_eq, ← List.map_append, List.append_assoc, List.singleton_append, ← split]
  have waits : part declarator ∈ (before ++ [declarator]).map part :=
    List.mem_map_of_mem (List.mem_append_right _ List.mem_cons_self)
  have begun : Reaches source (visit source state frame).1 ((before ++ [declarator]).map part) []
    _ _ := .start
  obtain ⟨_, _, _, reached⟩ := begun.exists_visit waits
  have isPart : part declarator = Frame.child frame.tree
      (frame.context.within state.scopes.next) .plain declarator := if_pos isDeclarator
  rw [isPart] at reached
  obtain ⟨_, _, parameter, _, reachedParameter, isNode, declareIn⟩ :=
    reached.exists_parameterIn rfl isName
  have inScope : parameter.context.declareIn = state.scopes.next := declareIn
  have outer := moment.visit
  rw [left, List.append_assoc] at outer
  have unlisted (entry : ScopeEntry) : ¬ (visit source state frame).1.scopes.Lists
      parameter.context.declareIn (node.text source) entry := by
    rw [inScope, visited_eq]
    intro lists
    obtain ⟨here, isHere, -⟩ := Scopes.lists_of_push lists
    simp [Scopes.next] at isHere
  obtain ⟨name, entry, declared, lists, top, isFirst, named⟩ :=
    outer.exists_entry reachedParameter isNode spelled unlisted
  rw [inScope] at declared lists
  obtain ⟨child, isChild, rfl⟩ := List.mem_map.1 isFirst
  exact ⟨name, entry, declared, lists, child, isChild, lambdaPart_tree _ _ _ child ▸ named⟩

end Parts

/-- What a lambda declares in its parameters and in its body stays in it: while these are walked, no
scope that was made before changes, as long as no qualified name is declared.  So these scopes have
new entries only from other parts of the lambda.  The parameters are declared in the scope of the
lambda, and uses of their names in the parameters and the body are bound to them, unless something
stands in the way.  Other parts are walked where the lambda stands: the type parameters of a generic
lambda are declared in the scope around it.  They are found from inside of it, and not only from
there. -/
theorem lambda_declares_in_its_scope {source : List Char} {language : Language} {tree : ParseTree}
    (wellFormed : WellFormed source tree) {visited waiting : List Frame} {state : State}
    {frame : Frame}
    (moment : Reaches source (State.initial (language = .cpp)) [Frame.root tree] visited state
      (frame :: waiting))
    (manner : frame.mode = .plain ∨ ∃ object, frame.mode = .member object)
    (form : frame.tree.form = .lambda) :
    let walked := SourceUnit.walked source language tree
    let scope := state.scopes.next
    let part := lambdaPart frame.tree frame.context scope
    let inner := (frame.tree.namedChildren.filter isInnerPart).map part
    (visit source state frame).2 = frame.tree.namedChildren.map part ∧
    (DeclareUnqualified source state [frame] →
      (∀ before child after, frame.tree.namedChildren = before ++ child :: after →
        isInnerPart child = true →
          let there := run source (visit source state frame).1 (before.map part)
          ∀ outer < scope,
            (run source there [part child]).scopes.all[outer]? = there.scopes.all[outer]?) ∧
      ∀ outer < scope, ∀ text entry,
        (run source state [frame]).scopes.Lists outer text entry →
          state.scopes.Lists outer text entry ∨
            ∃ other ∈ frame.tree.namedChildren, isInnerPart other = false ∧
              NamedAt source other entry.declaredAt) ∧
    (∀ before declarator after, frame.tree.namedChildren = before ++ declarator :: after →
      declarator.field = "declarator" →
        ∀ node, ParameterIn declarator node → node.text source ≠ "" →
          ∃ name entry, ParameterAt source language tree node scope name ∧
            walked.scopes.Lists scope (node.text source) entry ∧
            (∀ body ∈ after, body.field = "body" →
              ∀ use, UsedInside source language tree scope [part body] use →
                entry.declaredAt ≤ use.position) ∧
            ∀ use first, UsedInside source language tree scope inner use →
              entry.declaredAt ≤ use.position →
              StartsWith walked use first (node.text source) →
              ClearWay walked use (node.text source) scope →
                ∃ binding, walked.resolve.binding? name = some binding ∧
                  walked.resolve.binding? first = some binding) ∧
    ∀ list ∈ frame.tree.namedChildren, isInnerPart list = false →
      ∀ parameter, Through list parameter → parameter.form = .typeParameter →
        ∀ node ∈ typeParameterNames parameter, node.text source ≠ "" →
          ∃ name, ParameterAt source language tree node frame.context.declareIn name ∧
            EnteredIn source walked node frame.context.declareIn name ∧
            ∀ use first, UsedInside source language tree scope inner use →
              walked.scopes.Encloses frame.context.declareIn frame.context.scope →
              (∀ here entry, walked.scopes.all[frame.context.declareIn]? = some here →
                here.symbols.find? (node.text source) = some entry → here.kind.isOrdered = true →
                  entry.declaredAt ≤ use.position) →
              StartsWith walked use first (node.text source) →
              ClearWay walked use (node.text source) frame.context.declareIn →
                ∃ binding, walked.resolve.binding? name = some binding ∧
                  walked.resolve.binding? first = some binding := by
  intro walked scope part inner
  have visited_eq := visit_of_lambda source state manner form
  have around : ∀ first ∈ inner, walked.scopes.Encloses scope first.context.scope := by
    intro first isFirst
    obtain ⟨child, isChild, rfl⟩ := List.mem_map.1 isFirst
    rw [context_of_isInnerPart (List.mem_filter.1 isChild).2]
    exact .self
  refine ⟨by rw [visited_eq], fun unqualified => ⟨?_, ?_⟩, ?_, ?_⟩
  · intro before child after split isInner there outer isOlder
    obtain ⟨-, others, ⟨region, parted⟩, -⟩ :=
      parted_after moment manner form unqualified split
    have alone : DeclareUnqualified source there [part child] := DeclareUnqualified.front others
    exact parted.unchanged (parted.staysIn_inner isInner frame.tree alone) isOlder
  · intro outer isOlder text entry lists
    obtain ⟨-, -, -, entries⟩ :=
      parted_after moment manner form unqualified (List.append_nil _).symm
    rw [run_cons, List.append_nil, visited_eq] at lists
    rw [visited_eq] at entries
    exact entries outer isOlder text entry lists
  · intro before declarator after split isDeclarator node isName spelled
    obtain ⟨name, entry, parameter, lists, top, isEarlier, begins⟩ :=
      exists_parameter_of_lambda moment manner form split isDeclarator isName spelled
    refine ⟨name, entry, parameter, lists, fun body isAfter _ use used => ?_,
      fun use first used isLater starts clear => ?_⟩
    · obtain ⟨node, lies, spells, declaredAt⟩ := begins
      obtain ⟨_, isFirst, position, liesToo, usedAt⟩ := used.exists_node
      rw [List.mem_singleton.1 isFirst, lambdaPart_tree] at liesToo
      obtain ⟨whole, isWhole, within⟩ := moment.exists_within frame List.mem_cons_self
      rw [List.mem_singleton.1 isWhole] at within
      have ordered := (wellFormed.of_within within).stop_le_start_of_parts split isEarlier isAfter
        lies liesToo
      have extent := start_le_stop_of_text spells
      omega
    · refine parameter.binds spelled rfl used.waits starts (used.encloses around) ?_ clear
      intro here found isHere isFound _
      obtain rfl : entry = found :=
        Option.some.inj ((clear.symbols_of_lists isHere lists).symm.trans isFound)
      exact isLater
  · intro list isList isOuter parameter through isParameter node isName spelled
    have left : Frame.child frame.tree frame.context .plain list ∈
        (visit source state frame).2 := by
      rw [visited_eq, ← lambdaPart_of_not_isInnerPart isOuter frame.tree frame.context scope]
      exact List.mem_map_of_mem isList
    obtain ⟨_, _, _, reachedList⟩ := moment.exists_next left
    obtain ⟨name, declared⟩ := reachedList.exists_typeParameter rfl through isParameter isName
    refine ⟨name, declared, declared.enteredIn, fun use first used home visible starts clear => ?_⟩
    have isPushed : walked.scopes.Encloses frame.context.scope scope := by
      refine moment.visit.scopes_extend.encloses ?_
      rw [visited_eq]
      exact encloses_pushScope state .function frame.context.scope
    exact declared.binds spelled rfl used.waits starts
      ((home.trans isPushed).trans (used.encloses around)) visible clear

/-! ## A generic lambda -/

def genericLambdaText : List Char := "auto f=[]<class T>(T a){return a;};".toList

def lambdaTypeName : ParseTree := ruleNode 9 "type_identifier" "" 16 17 []

def lambdaTypeParameter : ParseTree :=
  ruleNode 8 "type_parameter_declaration" "" 10 17 [lambdaTypeName]

def lambdaTypeList : ParseTree :=
  ruleNode 7 "template_parameter_list" "template_parameters" 9 18 [lambdaTypeParameter]

def lambdaName : ParseTree := ruleNode 14 "identifier" "declarator" 21 22 []

def lambdaParameter : ParseTree :=
  ruleNode 12 "parameter_declaration" "" 19 22
    [ruleNode 13 "type_identifier" "type" 19 20 [], lambdaName]

def lambdaList : ParseTree :=
  ruleNode 11 "parameter_list" "parameters" 18 23 [lambdaParameter]

def lambdaDeclarator : ParseTree :=
  ruleNode 10 "abstract_function_declarator" "declarator" 18 23 [lambdaList]

def lambdaUsedName : ParseTree := ruleNode 17 "identifier" "" 31 32 []

def lambdaReturn : ParseTree := ruleNode 16 "return_statement" "" 24 33 [lambdaUsedName]

def lambdaBody : ParseTree := ruleNode 15 "compound_statement" "body" 23 34 [lambdaReturn]

def lambdaCaptures : ParseTree := ruleNode 6 "lambda_capture_specifier" "captures" 7 9 []

def genericLambda : ParseTree :=
  ruleNode 5 "lambda_expression" "value" 7 34
    [lambdaCaptures, lambdaTypeList, lambdaDeclarator, lambdaBody]

def lambdaVariable : ParseTree := ruleNode 4 "identifier" "declarator" 5 6 []

def initializedLambda : ParseTree :=
  ruleNode 3 "init_declarator" "declarator" 5 34 [lambdaVariable, genericLambda]

def lambdaType : ParseTree :=
  ruleNode 2 "placeholder_type_specifier" "type" 0 4 [ruleNode 18 "auto" "" 0 4 []]

def lambdaDeclaration : ParseTree :=
  ruleNode 1 "declaration" "" 0 35
    [lambdaType, initializedLambda]

def lambdaTree : ParseTree := ruleNode 0 "translation_unit" "" 0 35 [lambdaDeclaration]

def lambdaUse : PendingUse := ⟨[4], .ordinary, false, 1, 31, .none⟩

def lambdaContext : Context := ⟨Scopes.file, Scopes.file, some 0, true⟩

def lambdaFrame : Frame := ⟨genericLambda, false, lambdaContext, .plain⟩

def genericLambdaPart (part : ParseTree) : Frame :=
  lambdaPart genericLambda lambdaContext 1 part

theorem visit_lambdaTree (state : State) :
    visit genericLambdaText state (Frame.root lambdaTree) =
      (state, [⟨lambdaDeclaration, true, .file, .plain⟩]) := by
  have form : lambdaTree.form = .transparent := by decide
  simp only [visit, Frame.root, visitPlain, form]
  rfl

theorem visit_lambdaReturn (state : State) (context : Context) (declaresTag : Bool) :
    visit genericLambdaText state ⟨lambdaReturn, declaresTag, context, .plain⟩ =
      (state, [⟨lambdaUsedName, false, context, .plain⟩]) := by
  have form : lambdaReturn.form = .transparent := by decide
  simp only [visit, visitPlain, form]
  rfl

def stateAtLambda : State :=
  run genericLambdaText
    (run genericLambdaText
      ((State.initial (Language.cpp = .cpp)).openDeclaration "declaration" .file).1
      [⟨lambdaType, false, lambdaContext, .plain⟩])
    [⟨lambdaVariable, false, lambdaContext, .declarator .variable none none⟩]

theorem exists_reaches_lambda :
    ∃ done, Reaches genericLambdaText (State.initial (Language.cpp = .cpp))
      [Frame.root lambdaTree] done stateAtLambda [lambdaFrame] := by
  have begun : Reaches genericLambdaText (State.initial (Language.cpp = .cpp))
      [Frame.root lambdaTree] [] _ _ := .start
  have parts : visit genericLambdaText (State.initial (Language.cpp = .cpp))
      ⟨lambdaDeclaration, true, .file, .plain⟩ =
        (((State.initial (Language.cpp = .cpp)).openDeclaration "declaration" .file).1,
          [⟨lambdaType, false, lambdaContext, .plain⟩] ++
            [⟨initializedLambda, false, lambdaContext, .declarator .variable none none⟩]) := by
    have form : lambdaDeclaration.form = .declaration .variable := by decide
    have type : lambdaDeclaration.declaredType? = none := by decide +kernel
    simp only [visit, visitPlain, form, visitDeclaration, type]
    rfl
  have initialized (state : State) : visit genericLambdaText state
      ⟨initializedLambda, false, lambdaContext, .declarator .variable none none⟩ =
        (state, [⟨lambdaVariable, false, lambdaContext, .declarator .variable none none⟩] ++
          [lambdaFrame]) := by
    simp only [visit]
    rw [visitDeclarator_of_init (by decide)]
    rfl
  have declared : Reaches genericLambdaText (State.initial (Language.cpp = .cpp))
      [Frame.root lambdaTree] _ _ ([⟨lambdaType, false, lambdaContext, .plain⟩] ++
        [⟨initializedLambda, false, lambdaContext, .declarator .variable none none⟩]) :=
    (begun.visit_eq (visit_lambdaTree _)).visit_eq parts
  obtain ⟨_, typed⟩ := declared.exists_past
  have opened : Reaches genericLambdaText (State.initial (Language.cpp = .cpp))
      [Frame.root lambdaTree] _ _
      ([⟨lambdaVariable, false, lambdaContext, .declarator .variable none none⟩] ++
        [lambdaFrame]) :=
    typed.visit_eq (initialized _)
  exact opened.exists_past

theorem usedInside_lambdaUse {left : List Frame} (isLeft : genericLambdaPart lambdaBody ∈ left) :
    UsedInside genericLambdaText .cpp lambdaTree 1 left lambdaUse := by
  obtain ⟨_, moment⟩ := exists_reaches_lambda
  have made : stateAtLambda.scopes.next = 1 := by decide +kernel
  have entered := moment.visit
  have parts : (visit genericLambdaText stateAtLambda lambdaFrame).2 =
      [genericLambdaPart lambdaCaptures, genericLambdaPart lambdaTypeList,
        genericLambdaPart lambdaDeclarator] ++ [genericLambdaPart lambdaBody] := by
    rw [visit_of_lambda genericLambdaText _ (.inl rfl) (by decide), made]
    rfl
  rw [parts, List.append_assoc] at entered
  obtain ⟨_, atBody⟩ := entered.exists_past
  have body (state : State) : visit genericLambdaText state (genericLambdaPart lambdaBody) =
      (state, [⟨lambdaReturn, true, ⟨1, 1, some 0, true⟩, .plain⟩]) := rfl
  have returned := atBody.visit_eq (body _)
  have inside : Inside genericLambdaText .cpp lambdaTree 1 left
      ⟨lambdaReturn, true, ⟨1, 1, some 0, true⟩, .plain⟩ := by
    refine .visit (.left isLeft) atBody List.mem_cons_self fun departs => ?_
    exact departs.outside .self
  have isNext (state : State) : ⟨lambdaUsedName, false, ⟨1, 1, some 0, true⟩, .plain⟩ ∈
      (visit genericLambdaText state ⟨lambdaReturn, true, ⟨1, 1, some 0, true⟩, .plain⟩).2 := by
    rw [visit_lambdaReturn]
    exact List.mem_cons_self
  refine ⟨_, _, _, _, returned.visit_eq (visit_lambdaReturn _ _ _),
    .visit inside returned (isNext _) fun departs => departs.outside .self, ?_, ?_⟩
  · decide +kernel
  · decide +kernel

/-- The parameter is found in the body, and the type parameter is declared in the file. -/
theorem generic_lambda_declares_in_file :
    let walked := SourceUnit.walked genericLambdaText .cpp lambdaTree
    WellFormed genericLambdaText lambdaTree ∧
    ∃ (visited : List Frame) (state : State) (frame : Frame) (name type : Nat),
      Reaches genericLambdaText (State.initial (Language.cpp = .cpp)) [Frame.root lambdaTree]
        visited state [frame] ∧
      frame.mode = .plain ∧ frame.tree.form = .lambda ∧
      DeclareUnqualified genericLambdaText state [frame] ∧
      ParameterAt genericLambdaText .cpp lambdaTree lambdaName state.scopes.next name ∧
      StartsWith walked lambdaUse 4 "a" ∧ ClearWay walked lambdaUse "a" state.scopes.next ∧
      (∃ binding, walked.resolve.binding? name = some binding ∧
        walked.resolve.binding? 4 = some binding) ∧
      ParameterAt genericLambdaText .cpp lambdaTree lambdaTypeName Scopes.file type ∧
      EnteredIn genericLambdaText walked lambdaTypeName Scopes.file type := by
  intro walked
  have wellFormed : WellFormed genericLambdaText lambdaTree := by decide +kernel
  have made : stateAtLambda.scopes.next = 1 := by decide +kernel
  obtain ⟨visited, moment⟩ := exists_reaches_lambda
  have unqualified : DeclareUnqualified genericLambdaText stateAtLambda [lambdaFrame] := by
    apply declareUnqualified_of_within
    simp [lambdaFrame, genericLambda, lambdaCaptures, lambdaTypeList, lambdaTypeParameter,
      lambdaTypeName, lambdaDeclarator, lambdaList, lambdaParameter, lambdaName, lambdaBody,
      lambdaReturn, lambdaUsedName, ruleNode, forall_within_node, kind, label, isQualified]
  obtain ⟨-, -, parameters, types⟩ :=
    lambda_declares_in_its_scope wellFormed moment (.inl rfl) (by decide)
  obtain ⟨name, entry, parameter, -, earlier, uses⟩ :=
    parameters [lambdaCaptures, lambdaTypeList] lambdaDeclarator [lambdaBody] rfl rfl lambdaName
      ⟨lambdaParameter, lambdaName, 0,
        .child (.child .self (by decide) List.mem_cons_self) (by decide) List.mem_cons_self,
        by decide, List.mem_cons_of_mem _ List.mem_cons_self, rfl, .self, by decide⟩
      (by decide +kernel)
  obtain ⟨type, declared, entered, -⟩ :=
    types lambdaTypeList (List.mem_cons_of_mem _ List.mem_cons_self) (by decide)
      lambdaTypeParameter (.child .self (by decide) List.mem_cons_self) (by decide) lambdaTypeName
      List.mem_cons_self (by decide +kernel)
  have spelled : lambdaName.text genericLambdaText = "a" := by decide +kernel
  have starts : StartsWith walked lambdaUse 4 "a" := ⟨rfl, rfl, by decide, by decide +kernel⟩
  have clear : ClearWay walked lambdaUse "a" 1 := by
    have tags : (walked.resolve.scopes.all[lambdaUse.scope]?.bind (·.tags.find? "a")) = none := by
      decide +kernel
    have noMacro : walked.macroAt? "a" lambdaUse.position = none := by decide +kernel
    exact clearWay_of_scope rfl noMacro fun here isHere => by simpa [isHere] using tags
  have isLater := earlier lambdaBody List.mem_cons_self rfl lambdaUse
  have isBound := uses lambdaUse 4
  rw [made] at isLater isBound
  rw [spelled] at isBound
  have inBody := isLater (usedInside_lambdaUse List.mem_cons_self)
  have bound := isBound
    (usedInside_lambdaUse (List.mem_cons_of_mem _ List.mem_cons_self)) inBody starts clear
  exact ⟨wellFormed, visited, stateAtLambda, lambdaFrame, name, type, moment, rfl, by decide,
    unqualified, parameter, starts, made.symm ▸ clear, bound, declared, entered⟩

end Walk

end CrossReference
