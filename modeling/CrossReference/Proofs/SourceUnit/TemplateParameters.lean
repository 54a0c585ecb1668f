import CrossReference.Proofs.Walk.Parameters
import CrossReference.Proofs.Walk.Sees

/-!
# Parameters of templates

The head of a template has a scope of its own, in which its parameters are declared and all that it
parameterizes looks names up.  What is sent to a scope outside of the head, such as the body of a
function that is defined outside of its class, does not see them.
-/

set_option autoImplicit false

namespace CrossReference

open ParseTree Walk

namespace Walk

open State

variable {source : List Char} {state : State} {frame : Frame}

theorem visit_of_template (source : List Char) (state : State)
    (manner : frame.mode = .plain ∨ ∃ object, frame.mode = .member object)
    (form : frame.tree.form = .template) :
    visit source state frame =
      (let (opened, inner) := state.openDeclaration frame.tree.kind frame.context
       ((opened.pushScope .templateHead frame.context.scope).1,
        frame.tree.namedChildren.map fun child =>
          Frame.child frame.tree
            (if child.field = "parameters" then inner.within state.scopes.next
             else { inner with scope := state.scopes.next }) .plain child)) := by
  rw [visit_of_form frame manner (by rw [form]; exact nofun)]
  have scopes := openDeclaration_scopes state frame.tree.kind frame.context
  simp only [visitPlain, form]
  rw [← scopes]
  rfl

section Template

variable (manner : frame.mode = .plain ∨ ∃ object, frame.mode = .member object)
  (form : frame.tree.form = .template)

include manner form

theorem scopes_of_template :
    (visit source state frame).1.scopes =
      state.scopes.push .templateHead (some frame.context.scope) := by
  rw [visit_of_template source state manner form]
  simp only [pushScope, openDeclaration_scopes]

theorem memberScope?_of_template (binding : Nat) :
    (visit source state frame).1.memberScope? binding = state.memberScope? binding := by
  rw [visit_of_template source state manner form]
  simp [pushScope, memberScope?]

/-- All that a template consists of looks names up in the scope of its head. -/
theorem left_of_template :
    (visit source state frame).2.map Frame.tree = frame.tree.namedChildren ∧
      ∀ next ∈ (visit source state frame).2, next.context.scope = state.scopes.next := by
  rw [visit_of_template source state manner form]
  simp only
  refine ⟨by rw [List.map_map]; exact List.map_id _, fun next member => ?_⟩
  obtain ⟨child, -, rfl⟩ := List.mem_map.1 member
  simp only [Frame.child]
  split <;> rfl

variable {language : Language} {tree : ParseTree} {visited waiting : List Frame}
  (moment : Reaches source (State.initial (language = .cpp)) [Frame.root tree] visited state
    (frame :: waiting))

include moment

theorem exists_parameterAt_of_template {list parameter node : ParseTree}
    (isList : list ∈ frame.tree.namedChildren) (isParameters : list.field = "parameters")
    (through : Through list parameter) (isParameter : parameter.form = .typeParameter)
    (isName : node ∈ typeParameterNames parameter) :
    ∃ name, ParameterAt source language tree node state.scopes.next name := by
  have left : Frame.child frame.tree
      ((state.openDeclaration frame.tree.kind frame.context).2.within state.scopes.next) .plain
        list ∈ (visit source state frame).2 := by
    rw [visit_of_template source state manner form]
    exact List.mem_map.2 ⟨list, isList, by simp [isParameters]⟩
  obtain ⟨_, _, _, reachedList⟩ := moment.exists_next left
  exact reachedList.exists_typeParameter rfl through isParameter isName

end Template

/-- Type parameters are visible in what they parameterize, but for what a visit sends to a scope
outside of the head of the template.  The parameters in the list of a template are declared in the
scope of its head, where all of the template looks names up.  A use below, of a name of the same
spelling, is bound to the symbol of the parameter, unless the spelling is that of a macro or some
scope on the way has the name.  What is sent outside does not see the parameters. -/
theorem type_parameters_are_visible (source : List Char) (language : Language) (tree : ParseTree)
    {visited waiting : List Frame} {state : State} {frame : Frame}
    (moment : Reaches source (State.initial (language = .cpp)) [Frame.root tree] visited state
      (frame :: waiting))
    (manner : frame.mode = .plain ∨ ∃ object, frame.mode = .member object)
    (form : frame.tree.form = .template) :
    let walked := SourceUnit.walked source language tree
    let head := state.scopes.next
    let left := (visit source state frame).2
    left.map Frame.tree = frame.tree.namedChildren ∧
    (∀ next ∈ left, next.context.scope = head) ∧
    (∀ list ∈ frame.tree.namedChildren, list.field = "parameters" →
      ∀ parameter, Through list parameter → parameter.form = .typeParameter →
        ∀ node ∈ typeParameterNames parameter, node.text source ≠ "" →
          ∃ name, ParameterAt source language tree node head name ∧
            ∀ use first, UsedInside source language tree head left use →
              StartsWith walked use first (node.text source) →
              ClearWay walked use (node.text source) head →
                ∃ binding, walked.resolve.binding? name = some binding ∧
                  walked.resolve.binding? first = some binding) ∧
    ∀ before later outer rest next, Inside source language tree head left outer →
      Reaches source (State.initial (language = .cpp)) [Frame.root tree] before later
        (outer :: rest) → next ∈ (visit source later outer).2 →
        Departs source later head outer next →
          ¬ walked.resolve.scopes.Sees next.context.scope head := by
  intro walked head left
  obtain ⟨trees, scopes⟩ : left.map Frame.tree = frame.tree.namedChildren ∧
    ∀ next ∈ left, next.context.scope = head := left_of_template manner form
  have pushed : (visit source state frame).1.scopes = _ := scopes_of_template manner form
  have head_noMembers : NoMembers head (visit source state frame).1 :=
    noMembers_of_push moment.under.1 pushed (memberScope?_of_template manner form)
  refine ⟨trees, scopes, fun list isList isParameters parameter through isParameter node isName
    spelled => ?_, fun before later outer rest next inside reached isNext departs =>
    departs.not_sees reached isNext (moment.visit.untaken head_noMembers)⟩
  obtain ⟨name, declared⟩ :=
    exists_parameterAt_of_template manner form moment isList isParameters through isParameter isName
  refine ⟨name, declared, fun use first used starts clear => ?_⟩
  have around : walked.scopes.Encloses head use.scope := used.encloses fun next member => by
    rw [scopes next member]
    exact .self
  refine declared.binds spelled rfl used.waits starts around ?_ clear
  intro here entry isHere _ ordered
  have isHead : (visit source state frame).1.scopes.all[head]? =
      some (Scope.fresh .templateHead (some frame.context.scope)) := by
    rw [pushed]
    exact Array.getElem?_push_size
  obtain ⟨later, isLater, grown⟩ := moment.visit.scopes_extend.scopes head _ isHead
  obtain rfl : later = here := Option.some.inj (isLater.symm.trans isHere)
  rw [grown.kind] at ordered
  cases ordered

/-! ## A template of a variable -/

def genericText : List Char := "template<class T>T x;".toList

def genericName : ParseTree := ruleNode 4 "type_identifier" "" 15 16 []

def genericParameter : ParseTree :=
  ruleNode 3 "type_parameter_declaration" "" 9 16 [genericName]

def genericList : ParseTree :=
  ruleNode 2 "template_parameter_list" "parameters" 8 17 [genericParameter]

def genericType : ParseTree := ruleNode 6 "type_identifier" "type" 17 18 []

def genericVariable : ParseTree := ruleNode 7 "identifier" "declarator" 19 20 []

def genericDeclaration : ParseTree :=
  ruleNode 5 "declaration" "" 17 21 [genericType, genericVariable]

def genericTemplate : ParseTree :=
  ruleNode 1 "template_declaration" "" 0 21 [genericList, genericDeclaration]

def genericTree : ParseTree := ruleNode 0 "translation_unit" "" 0 21 [genericTemplate]

def genericUse : PendingUse := ⟨[1], .ordinary, false, 1, 17, .none⟩

theorem visit_genericTree (state : State) :
    visit genericText state (Frame.root genericTree) =
      (state, [⟨genericTemplate, true, .file, .plain⟩]) := by
  have form : genericTree.form = .transparent := by decide
  simp only [visit, Frame.root, visitPlain, form]
  rfl

theorem visit_genericTemplate (state : State) :
    visit genericText state ⟨genericTemplate, true, .file, .plain⟩ =
      (let (opened, inner) := state.openDeclaration "template_declaration" .file
       ((opened.pushScope .templateHead Scopes.file).1,
        [⟨genericList, true, inner.within state.scopes.next, .plain⟩,
          ⟨genericDeclaration, true, { inner with scope := state.scopes.next }, .plain⟩])) := by
  rw [visit_of_template genericText state (.inl rfl) (by decide)]
  rfl

theorem visit_genericList (state : State) (context : Context) :
    visit genericText state ⟨genericList, true, context, .plain⟩ =
      (state, [⟨genericParameter, false, context, .plain⟩]) := by
  have form : genericList.form = .transparent := by decide
  simp only [visit, visitPlain, form]
  rfl

theorem visit_genericParameter (state : State) (context : Context) :
    (visit genericText state ⟨genericParameter, false, context, .plain⟩).2 = [] := by
  have form : genericParameter.form = .typeParameter := by decide
  simp only [visit, visitPlain, form]
  rfl

theorem visit_genericDeclaration (state : State) (context : Context) :
    visit genericText state ⟨genericDeclaration, true, context, .plain⟩ =
      (let (opened, inner) := state.openDeclaration "declaration" context
       (opened, [⟨genericType, false, inner, .plain⟩,
         ⟨genericVariable, false, inner, .declarator .variable (some (.name 6)) none⟩])) := by
  have form : genericDeclaration.form = .declaration .variable := by decide
  have type : genericDeclaration.declaredType? = some (.name 6) := by decide +kernel
  simp only [visit, visitPlain, form, visitDeclaration, type]
  rfl

/-- The type of the variable is bound to the parameter. -/
theorem type_of_variable_is_parameter :
    let walked := SourceUnit.walked genericText .cpp genericTree
    ∃ (state : State) (frame : Frame) (name : Nat),
      Reaches genericText (State.initial (Language.cpp = .cpp)) [Frame.root genericTree]
        [Frame.root genericTree] state [frame] ∧
      frame.mode = .plain ∧ frame.tree.form = .template ∧
      ParameterAt genericText .cpp genericTree genericName state.scopes.next name ∧
      UsedInside genericText .cpp genericTree state.scopes.next
        (visit genericText state frame).2 genericUse ∧
      StartsWith walked genericUse 1 "T" ∧ ClearWay walked genericUse "T" state.scopes.next ∧
      ∃ binding, walked.resolve.binding? name = some binding ∧
        walked.resolve.binding? 1 = some binding := by
  intro walked
  have begun : Reaches genericText (State.initial (Language.cpp = .cpp))
      [Frame.root genericTree] [] _ _ := .start
  have moment := begun.visit_eq (visit_genericTree _)
  have listed := (moment.visit_eq (visit_genericTemplate _)).visit_eq (visit_genericList _ _)
  have declared := listed.visit_eq (Prod.ext rfl (visit_genericParameter _ _))
  have typed := declared.visit_eq (visit_genericDeclaration _ _)
  have names : typeParameterNames genericParameter = [genericName] := rfl
  have spelled : genericName.text genericText = "T" := by decide +kernel
  obtain ⟨-, -, bound, -⟩ := type_parameters_are_visible genericText .cpp genericTree moment
    (.inl rfl) (by decide)
  obtain ⟨name, parameter, uses⟩ := bound genericList List.mem_cons_self rfl genericParameter
    (.child .self (by decide) List.mem_cons_self) (by decide) genericName
    (names ▸ List.mem_cons_self) (by decide +kernel)
  have used : UsedInside genericText .cpp genericTree 1
      (visit genericText (State.initial (Language.cpp = .cpp))
        ⟨genericTemplate, true, .file, .plain⟩).2 genericUse := by
    refine ⟨_, _, _, _, typed, .visit (.left ?_) declared ?_ fun departs => ?_, by decide +kernel,
      by decide +kernel⟩
    · rw [visit_genericTemplate]
      exact List.mem_cons_of_mem _ List.mem_cons_self
    · rw [visit_genericDeclaration]
      exact List.mem_cons_self
    · exact departs.outside .self
  have starts : StartsWith walked genericUse 1 "T" := ⟨rfl, rfl, by decide, by decide +kernel⟩
  have clear : ClearWay walked genericUse "T" 1 := by
    have tags : (walked.resolve.scopes.all[genericUse.scope]?.bind (·.tags.find? "T")) = none := by
      decide +kernel
    have noMacro : walked.macroAt? "T" genericUse.position = none := by decide +kernel
    exact clearWay_of_scope rfl noMacro fun here isHere => by simpa [isHere] using tags
  exact ⟨_, _, name, moment, rfl, by decide, parameter, used, starts, clear,
    uses genericUse 1 used (spelled ▸ starts) (spelled ▸ clear)⟩

end Walk

end CrossReference
