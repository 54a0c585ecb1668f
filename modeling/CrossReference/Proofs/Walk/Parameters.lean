import CrossReference.Proofs.Walk.FirstSegment
import CrossReference.Proofs.Walk.Placements

/-!
# Parameters of templates and functions

A visit declares the names of parameters in the scope that receives the declarations of its frame.
That scope has an entry for each of them from then on, with the binding of the occurrence.  So a use
is bound to a parameter if the way from the use to the scope of the parameter is clear.
-/

set_option autoImplicit false

namespace CrossReference

namespace Walk

open ParseTree State

/-! ## Names that are entered in a scope -/

/-- An occurrence declares the name at a node.  Unless the name spells nothing, a scope has an entry
for it with the binding of the occurrence. -/
def EnteredIn (source : List Char) (state : State) (node : ParseTree) (scope name : Nat) : Prop :=
  ∃ found, state.names[name]? = some found ∧ found.declares = true ∧
    found.text = node.text source ∧
    (node.text source ≠ "" → ∃ entry, found.binding = some entry.binding ∧
      state.scopes.Lists scope (node.text source) entry)

theorem EnteredIn.of_grows {source : List Char} {before after : State} {node : ParseTree}
    {scope name : Nat} (entered : EnteredIn source before node scope name)
    (grows : Grows before after) (grown : before.scopes.Extends after.scopes) :
    EnteredIn source after node scope name := by
  obtain ⟨found, there, declares, spelled, held⟩ := entered
  refine ⟨found, grows.occurrence_eq there, declares, spelled, fun isSpelled => ?_⟩
  obtain ⟨entry, bound, lists⟩ := held isSpelled
  exact ⟨entry, bound, grown.lists lists⟩

/-- The nodes of a list are entered in a scope, by the occurrences that are added first. -/
def Enters (source : List Char) (nodes : List ParseTree) (scope : Nat) (before after : State) :
    Prop :=
  ∀ (index : Nat) (node : ParseTree), nodes[index]? = some node →
    EnteredIn source after node scope (before.names.size + index)

section Declarations

variable {source : List Char} {state : State} {scope : Nat} (made : scope < state.scopes.next)
  {kind : SymbolKind} (ordinary : kind.space = .ordinary)

include made ordinary

theorem enteredIn_declare (tree : ParseTree) (context : Context) (typeRef : Option TypeRef) :
    EnteredIn source (state.declare source tree context scope kind typeRef).1 tree scope
      state.names.size := by
  have declares := declare_declares source state tree context scope kind typeRef
  refine ⟨_, by rw [declares.names]; exact Array.getElem?_push_size, rfl, rfl, fun spelled => ?_⟩
  obtain ⟨result, -⟩ := settle_settles source state tree context scope kind typeRef
    (state.scopes.local? kind.space (tree.text source) scope) spelled (.inl rfl)
  rw [← declare_eq_settle] at result
  have looked := local?_of_declare made result
  rw [ordinary, Scopes.local?, Option.map_eq_some_iff] at looked
  obtain ⟨entry, isEntry, bound⟩ := looked
  exact ⟨entry, by rw [bound, ← ordinary]; exact result, Scopes.lists_of_entry? isEntry⟩

theorem enters_declare (tree : ParseTree) (context : Context) (typeRef : Option TypeRef) :
    Enters source [tree] scope state
      (state.declare source tree context scope kind typeRef).1 := by
  intro index node isNode
  cases index with
  | succ index => simp at isNode
  | zero =>
    cases isNode
    exact enteredIn_declare made ordinary tree context typeRef

theorem enters_declaredChildren (trees : List ParseTree) (test : ParseTree → Bool)
    (context : Context) (typeRef : Option TypeRef) (frameOf : ParseTree → Frame) :
    let after := (visitEach (fun state child =>
      if test child then
        ((state.declare source child context scope kind typeRef).1, [])
      else (state, [frameOf child])) trees state).1
    Enters source (trees.filter test) scope state after ∧ Grows state after ∧
      state.scopes.Extends after.scopes := by
  induction trees generalizing state with
  | nil =>
    refine ⟨fun index node isNode => ?_, .refl state, .refl _⟩
    simp at isNode
  | cons tree rest ih =>
    simp only [visitEach]
    cases isTested : test tree with
    | false =>
      rw [List.filter_cons_of_neg (by simp [isTested])]
      exact ih made
    | true =>
      have declares := declare_declares source state tree context scope kind typeRef
      obtain ⟨later, grows, grown⟩ := ih (declares.next_eq.symm ▸ made)
      refine ⟨?_, declares.grows.trans grows, declares.scopes_extend.trans grown⟩
      rw [List.filter_cons_of_pos isTested]
      intro index node isNode
      cases index with
      | zero =>
        obtain rfl : tree = node := by simpa using isNode
        exact (enteredIn_declare made ordinary tree context typeRef).of_grows grows grown
      | succ index =>
        have entered := later index node (by simpa using isNode)
        rw [declares.names, Array.size_push, Nat.add_right_comm] at entered
        exact entered

end Declarations

/-! ## Names of parameters -/

/-- The names that a parameter of a template declares; those of defaults are only used. -/
def typeParameterNames (tree : ParseTree) : List ParseTree :=
  tree.namedChildren.filter fun child =>
    child.field ≠ "default_type" && child.field ≠ "default_value" &&
      child.kind = "type_identifier"

def Frame.parameterNames (frame : Frame) : List ParseTree :=
  match frame.mode with
  | .plain | .member _ =>
      if frame.tree.form = .typeParameter then typeParameterNames frame.tree else []
  | .declarator .parameter _ _ => if isPlainName frame.tree.kind then [frame.tree] else []
  | .declarator _ _ _ | .body | .branch _ => []

theorem enters_parameterNames (source : List Char) (state : State) {frame : Frame}
    (under : frame.Under state.scopes.next) :
    Enters source frame.parameterNames frame.context.declareIn state
      (visit source state frame).1 := by
  have made := under.context.declareIn
  have nothing (after : State) : Enters source [] frame.context.declareIn state after := by
    intro index node isNode
    simp at isNode
  have ofTemplate (manner : frame.mode = .plain ∨ ∃ object, frame.mode = .member object)
      (form : frame.tree.form = .typeParameter) :
      Enters source (typeParameterNames frame.tree) frame.context.declareIn state
        (visit source state frame).1 := by
    rw [visit_of_form frame manner (by rw [form]; exact nofun)]
    have names := openDeclaration_names state frame.tree.kind frame.context
    have opened : frame.context.declareIn <
        (state.openDeclaration frame.tree.kind frame.context).1.scopes.next := by
      rwa [openDeclaration_scopes]
    have ordinary : SymbolKind.templateParameter.space = .ordinary := rfl
    have entered : Enters source _ _ _ _ := (enters_declaredChildren opened ordinary
      frame.tree.namedChildren
      (fun child => child.field ≠ "default_type" && child.field ≠ "default_value" &&
        child.kind = "type_identifier")
      (state.openDeclaration frame.tree.kind frame.context).2 none
      (Frame.child frame.tree (state.openDeclaration frame.tree.kind frame.context).2 .plain)).1
    intro index node isNode
    have there := entered index node isNode
    rw [names] at there
    simpa only [visitPlain, form, visitTypeParameter] using there
  unfold Frame.parameterNames
  split
  · rename_i plain
    split
    · rename_i form
      exact ofTemplate (.inl plain) form
    · exact nothing _
  · rename_i object member
    split
    · rename_i form
      exact ofTemplate (.inr ⟨object, member⟩) form
    · exact nothing _
  · rename_i typeRef parameters manner
    split
    · rename_i isName
      have ordinary : SymbolKind.parameter.space = .ordinary := rfl
      have declared : Enters source _ _ _ _ :=
        enters_declare made ordinary frame.tree frame.context typeRef
      simpa only [visit, manner, visitDeclarator, isName, if_true] using declared
    · exact nothing _
  all_goals exact nothing _

/-! ## Uses of parameters -/

variable (source : List Char) (language : Language) (tree : ParseTree)

/-- At a moment of the walk over a tree, an occurrence is added for the name of a parameter, which is
declared in a scope. -/
def ParameterAt (node : ParseTree) (scope name : Nat) : Prop :=
  ∃ visited state frame waiting index,
    Reaches source (State.initial (language = .cpp)) [Frame.root tree] visited state
      (frame :: waiting) ∧
    frame.parameterNames[index]? = some node ∧ frame.context.declareIn = scope ∧
      name = state.names.size + index

/-- The type parameters in a list are declared in the scope that receives the declarations of the
list. -/
theorem Reaches.exists_typeParameter {source : List Char} {language : Language} {tree : ParseTree}
    {visited waiting : List Frame} {state : State} {frame : Frame}
    (moment : Reaches source (State.initial (language = .cpp)) [Frame.root tree] visited state
      (frame :: waiting)) (plain : frame.mode = .plain) {parameter node : ParseTree}
    (through : Through frame.tree parameter) (isParameter : parameter.form = .typeParameter)
    (isName : node ∈ typeParameterNames parameter) :
    ∃ name, ParameterAt source language tree node frame.context.declareIn name := by
  obtain ⟨before, later, next, rest, reached, rfl, manner, context⟩ :=
    moment.exists_through plain through
  obtain ⟨index, isNode⟩ := List.getElem?_of_mem isName
  refine ⟨later.names.size + index, before, later, next, rest, index, reached, ?_, ?_, rfl⟩
  · simpa only [Frame.parameterNames, manner, isParameter, if_true] using isNode
  · rw [context]

/-- A use of a name without `::` in front begins with an occurrence of a spelling, which is searched
as any name but that of a tag. -/
structure StartsWith (walked : State) (use : PendingUse) (first : Nat) (text : String) : Prop where
  isFirst : use.names.head? = some first
  notGlobal : use.isGlobal = false
  notTag : use.firstSpace ≠ .tag
  spelled : walked.spelling first = text

variable {source language tree} {node : ParseTree} {home name : Nat}

/-- The scope of a parameter has an entry for it to the end of the walk. -/
theorem ParameterAt.enteredIn (parameter : ParameterAt source language tree node home name) :
    EnteredIn source (SourceUnit.walked source language tree) node home name := by
  obtain ⟨visited, state, frame, waiting, index, moment, isNode, rfl, rfl⟩ := parameter
  obtain ⟨-, under⟩ := moment.under
  have entered := enters_parameterNames source state (under frame List.mem_cons_self) index node
    isNode
  exact entered.of_grows moment.visit.grows_walked moment.visit.scopes_extend

/-- A use is bound to a parameter of its spelling if the way to the scope of the parameter is clear
and the parameter is visible there. -/
theorem ParameterAt.binds (parameter : ParameterAt source language tree node home name)
    (spelled : node.text source ≠ "") {walked : State}
    (isWalk : walked = SourceUnit.walked source language tree) {use : PendingUse} {first : Nat}
    (waits : use ∈ walked.uses) (starts : StartsWith walked use first (node.text source))
    (around : walked.scopes.Encloses home use.scope)
    (visible : ∀ here entry, walked.scopes.all[home]? = some here →
      here.symbols.find? (node.text source) = some entry → here.kind.isOrdered = true →
        entry.declaredAt ≤ use.position)
    (clear : ClearWay walked use (node.text source) home) :
    ∃ binding, walked.resolve.binding? name = some binding ∧
      walked.resolve.binding? first = some binding := by
  obtain ⟨found, there, declares, -, held⟩ := isWalk ▸ parameter.enteredIn
  obtain ⟨entry, bound, lists⟩ := held spelled
  have ⟨here, isHere, _⟩ := lists
  have symbol := clear.symbols_of_lists isHere lists
  refine ⟨entry.binding, ?_, ?_⟩
  · obtain ⟨binding, after, kept⟩ :=
      (isWalk ▸ walked_rebinds source language tree).occurrences name found there
    rw [binding?, after, ← bound]
    exact kept declares
  · exact binding?_of_clearWay isWalk waits starts.isFirst starts.notGlobal starts.notTag around
      isHere (starts.spelled ▸ symbol) (visible here entry isHere symbol) (starts.spelled ▸ clear)

end Walk

end CrossReference
