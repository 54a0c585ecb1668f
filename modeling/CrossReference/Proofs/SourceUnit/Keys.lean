import CrossReference.Proofs.SourceUnit.ActiveNames
import CrossReference.Proofs.SourceUnit.DeclarationReferences
import CrossReference.Proofs.Walk.Owned

/-!
# Declared names become keys

A name that is declared without a qualifier is bound, it belongs to a declaration, and a collection
reaches each declaration.  So the assembled table has a key for each such name that has a location.
-/

set_option autoImplicit false

namespace CrossReference

namespace Walk

open ParseTree

theorem Reaches.within {source : List Char} {start state : State} {tree : ParseTree}
    {visited waiting : List Frame}
    (reached : Reaches source start [Frame.root tree] visited state waiting) :
    ∀ frame ∈ waiting, Within frame.tree tree := by
  induction reached with
  | start =>
    intro frame member
    rw [List.mem_singleton.1 member]
    exact .root tree
  | visit before ih =>
    intro next member
    rcases List.mem_append.1 member with left | waits
    · obtain ⟨inner, -⟩ := active_of_mem_visit source left
      exact inner.trans (ih _ List.mem_cons_self)
    · exact ih next (List.mem_cons_of_mem _ waits)

theorem Frame.exists_qualified_node {frame : Frame} (qualified : frame.declaresQualified = true) :
    ∃ node, Within node frame.tree ∧ isQualified node.kind = true := by
  have ofTag (isTag : hasQualifiedTag frame.tree = true) :
      ∃ node, Within node frame.tree ∧ isQualified node.kind = true := by
    unfold hasQualifiedTag at isTag
    split at isTag
    · obtain ⟨name, found, isName⟩ := (Option.any_eq_true _ _).1 isTag
      exact ⟨name, .of_child? found, isName⟩
    · obtain ⟨name, found, isName⟩ := (Option.any_eq_true _ _).1 isTag
      exact ⟨name, .of_child? found, isName⟩
    · cases isTag
  unfold Frame.declaresQualified at qualified
  split at qualified
  · exact ofTag qualified
  · exact ofTag qualified
  · exact ⟨frame.tree, .root _, qualified⟩
  · cases qualified
  · cases qualified

end Walk

namespace SourceUnit

open ParseTree SymbolTable Walk

variable (source : List Char) (language : Language) (withDeclarations : Bool) (tree : ParseTree)

/-- At a moment of the walk over a tree, an occurrence is added for a qualified name that is
declared. -/
def DeclaredQualified (name : Nat) : Prop :=
  ∃ visited state frame waiting,
    Reaches source (State.initial (language = .cpp)) [Frame.root tree] visited state
      (frame :: waiting) ∧
    frame.declaresQualified = true ∧ state.names.size ≤ name ∧
    name < (visit source state frame).1.names.size

/-- A collection that leaves nothing out comes to each declaration. -/
theorem reached_ofTree {declaration : Nat}
    (known : declaration <
      (ofTree source language withDeclarations tree).toTranslationUnit.declarations.size) :
    TranslationUnit.Reached (ofTree source language withDeclarations tree).toTranslationUnit true
      declaration := by
  have forest := isForest_ofTree source language withDeclarations tree
  refine forest.inOrder.forall_of_roots
    (TranslationUnit.Reached (ofTree source language withDeclarations tree).toTranslationUnit true)
    ?_ ?_ declaration (List.mem_range.2 known)
  · intro outer reached inner member
    exact .nested reached member nofun
  · intro root isTop
    exact .top isTop (topLevel_isInFile source language withDeclarations tree root isTop) nofun

variable {source language withDeclarations tree} {name : Nat} {found : NameNode}
  {location : Location}

theorem not_declaredQualified
    (noQualified : ∀ node, Within node tree → isQualified node.kind = false) (name : Nat) :
    ¬DeclaredQualified source language tree name := by
  rintro ⟨visited, state, frame, waiting, moment, qualified, -, -⟩
  obtain ⟨node, within, isQualified⟩ := frame.exists_qualified_node qualified
  have inTree : Within frame.tree tree := moment.within frame List.mem_cons_self
  rw [noQualified node (within.trans inTree)] at isQualified
  cases isQualified

/-- A name with a location that is declared without a qualifier gets a symbol. -/
theorem exists_binding_of_declares (boundaries : OnBoundaries source tree)
    (there : (ofTree source language withDeclarations tree).names[name]? = some found)
    (declares : found.declares = true) (located : found.location = some location)
    (unqualified : ¬DeclaredQualified source language tree name) :
    ∃ binding, (ofTree source language withDeclarations tree).toTranslationUnit.binding? name =
      some binding := by
  obtain ⟨kind, state, frame, declared⟩ := exists_declaresAt there declares
  obtain ⟨visited, waiting, moment⟩ := declared.moment
  obtain ⟨added, isAdded, addedDeclares, text⟩ := declared.added
  obtain ⟨bound, -⟩ := Array.getElem?_eq_some_iff.1 isAdded
  have plain : frame.declaresQualified = false := by
    rw [← Bool.not_eq_true]
    intro qualified
    exact unqualified ⟨visited, state, frame, waiting, moment, qualified, declared.new, bound⟩
  have spelled : added.text ≠ "" := by
    obtain ⟨nonempty, inside, spells⟩ := spells_of_located boundaries there located
    intro empty
    rw [← text, empty] at spells
    have length := congrArg List.length spells
    simp at length
    omega
  have isBound := (visit_binds source state frame plain).bound name added declared.new isAdded
    addedDeclares spelled
  obtain ⟨binding, isBinding⟩ := Option.isSome_iff_exists.1 isBound
  refine ⟨binding, ?_⟩
  rw [binding?_of_declares (declared.grows_walked.occurrence_eq isAdded) addedDeclares]
  exact isBinding

theorem mem_declarationNames_ofTree (inside : RangeLoopsInside source language tree)
    (there : (ofTree source language withDeclarations tree).names[name]? = some found)
    (declares : found.declares = true) (located : found.location = some location) :
    name ∈ (ofTree source language withDeclarations tree).toTranslationUnit.declarationNames
      true := by
  obtain ⟨kind, state, frame, declared⟩ := exists_declaresAt there declares
  obtain ⟨declaration, listed⟩ := declared.exists_owner inside
  rw [← names_ofTree source language withDeclarations tree] at listed
  have known := TranslationUnit.lt_size_of_mem_names listed
  obtain ⟨-, -, -, isName⟩ := name_view there
  rw [TranslationUnit.mem_declarationNames_iff]
  refine ⟨?_, declaration, reached_ofTree source language withDeclarations tree known, listed⟩
  rw [isName, declares, located]
  rfl

/-- Where the spans of nodes lie between characters and each range loop is below a node that begins
a declaration, the range of each name that is declared without a qualifier and has a location is a
key of the table. -/
theorem declared_names_are_keys (source : List Char) (language : Language)
    (withDeclarations : Bool) (tree : ParseTree) (boundaries : OnBoundaries source tree)
    (inside : RangeLoopsInside source language tree) (name : Nat) (found : NameNode)
    (location : Location)
    (there : (ofTree source language withDeclarations tree).names[name]? = some found)
    (declares : found.declares = true) (located : found.location = some location)
    (unqualified : ¬DeclaredQualified source language tree name) :
    (assemble (ofTree source language withDeclarations tree).toTranslationUnit
      (Lines.ofText source) {}).contains ((Lines.ofText source).range location) = true := by
  obtain ⟨binding, bound⟩ :=
    exists_binding_of_declares boundaries there declares located unqualified
  obtain ⟨-, isAt, -, -⟩ := name_view there
  rw [contains_assemble_iff]
  exact ⟨name, mem_declarationNames_ofTree inside there declares located, binding, bound, location,
    isAt.trans located, rfl⟩

/-! ## A range loop in a function -/

def loopText : List Char := "void f() { for (int x : a) ; }".toList

def loopFunction : ParseTree :=
  ruleNode 1 "function_definition" "" 0 30
    [ruleNode 2 "primitive_type" "type" 0 4 [],
      ruleNode 3 "function_declarator" "declarator" 5 8
        [ruleNode 4 "identifier" "declarator" 5 6 [],
          ruleNode 5 "parameter_list" "parameters" 6 8 []],
      ruleNode 6 "compound_statement" "body" 9 30
        [ruleNode 7 "for_range_loop" "" 11 28
          [ruleNode 8 "primitive_type" "type" 16 19 [],
            ruleNode 9 "identifier" "declarator" 20 21 [],
            ruleNode 10 "identifier" "right" 24 25 [],
            ruleNode 11 "expression_statement" "body" 27 28 []]]]

def loopTree : ParseTree :=
  ruleNode 0 "translation_unit" "" 0 30 [loopFunction]

def loopFrame : Frame := ⟨loopFunction, true, .file, .plain⟩

theorem visit_loopTree (state : State) :
    visit loopText state (Frame.root loopTree) = (state, [loopFrame]) := by
  have form : loopTree.form = .transparent := by decide
  simp only [visit, Frame.root, visitPlain, form]
  rfl

theorem begins_loopFrame (state : State) :
    Begins loopFrame.tree loopFrame.context state (visit loopText state loopFrame) := by
  have form : loopFunction.form = .function := by decide
  simp only [visit, loopFrame, visitPlain, form]
  exact begins_visitFunction loopText state loopFunction .file

theorem rangeLoopsInside_loopTree : RangeLoopsInside loopText .cpp loopTree := by
  have outside {frame : Frame} (exposed : Exposed loopText .cpp loopTree frame) :
      frame = Frame.root loopTree ∨ frame = loopFrame := by
    induction exposed with
    | root => exact .inl rfl
    | @step visited waiting state frame next moment outer none left ih =>
      rcases ih with rfl | rfl
      · rw [visit_loopTree, List.mem_singleton] at left
        exact .inr left
      · have begun := (begins_loopFrame state).size
        omega
  intro frame exposed
  rcases outside exposed with rfl | rfl <;> decide

theorem noQualified_loopTree :
    ∀ node, Within node loopTree → isQualified node.kind = false := by
  simp [loopTree, loopFunction, ruleNode, forall_within_node, kind, label, isQualified]

/-- The variable of the loop is a key. -/
theorem loop_variable_is_key :
    OnBoundaries loopText loopTree ∧ RangeLoopsInside loopText .cpp loopTree ∧
      ¬DeclaredQualified loopText .cpp loopTree 1 ∧
      (assemble (ofTree loopText .cpp false loopTree).toTranslationUnit (Lines.ofText loopText)
        {}).contains ⟨⟨1, 20⟩, ⟨1, 21⟩⟩ = true := by
  have boundaries : OnBoundaries loopText loopTree := by
    have wellFormed : WellFormed loopText loopTree := by decide +kernel
    exact wellFormed.boundaries
  have unqualified : ¬DeclaredQualified loopText .cpp loopTree 1 :=
    not_declaredQualified noQualified_loopTree 1
  have isVariable : (ofTree loopText .cpp false loopTree).names[1]? =
      some ⟨"x", some ⟨20, 1⟩, true, some 1⟩ := by decide +kernel
  have range : (Lines.ofText loopText).range ⟨20, 1⟩ = ⟨⟨1, 20⟩, ⟨1, 21⟩⟩ := by decide +kernel
  refine ⟨boundaries, rangeLoopsInside_loopTree, unqualified, ?_⟩
  rw [← range]
  exact declared_names_are_keys loopText .cpp false loopTree boundaries rangeLoopsInside_loopTree
    1 _ _ isVariable rfl rfl unqualified

end SourceUnit

end CrossReference
