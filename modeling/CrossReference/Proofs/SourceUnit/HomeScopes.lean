import CrossReference.Proofs.Walk.Placements

/-!
# Home scopes

In a tree without enumerators each symbol has one home scope.  Names that are declared in a scope
with one spelling and in one name space share a symbol, so that a definition has that of an earlier
declaration and a namespace that is opened again keeps its own.  Names that are declared in different
scopes have different symbols.
-/

set_option autoImplicit false

namespace CrossReference

open ParseTree Walk

namespace Walk

/-! ## Up to the end of a walk -/

structure Ready (state : State) (waiting : List Frame) : Prop where
  homed : Homed state
  under : ∀ frame ∈ waiting, frame.Under state.scopes.next
  noEnumerator : ∀ frame ∈ waiting, ∀ node, Within node frame.tree → node.form ≠ .enumerator

namespace Ready

variable {source : List Char} {state : State} {frame : Frame} {waiting : List Frame}

theorem initial (tagsAreTypes : Bool) {tree : ParseTree}
    (noEnumerator : ∀ node, Within node tree → node.form ≠ .enumerator) :
    Ready (State.initial tagsAreTypes) [Frame.root tree] where
  homed := .initial tagsAreTypes
  under := under_single ⟨⟨Nat.zero_lt_one, Nat.zero_lt_one⟩, trivial⟩
  noEnumerator next member := by
    rw [List.mem_singleton.1 member]
    exact noEnumerator

theorem form_ne (ready : Ready state (frame :: waiting)) : frame.tree.form ≠ .enumerator :=
  ready.noEnumerator frame List.mem_cons_self frame.tree (.root frame.tree)

theorem frame_under (ready : Ready state (frame :: waiting)) : frame.Under state.scopes.next :=
  ready.under frame List.mem_cons_self

theorem visit (source : List Char) (ready : Ready state (frame :: waiting)) :
    Ready (visit source state frame).1 ((visit source state frame).2 ++ waiting) ∧
      Keeps state (visit source state frame).1 := by
  obtain ⟨homed, keeps⟩ :=
    (edits_visit source state frame).homed ready.form_ne ready.homed
  refine ⟨⟨homed, ?_, ?_⟩, keeps⟩
  · apply under_append (under_visit ready.homed.members ready.frame_under)
    intro next member
    exact (ready.under next (List.mem_cons_of_mem _ member)).mono keeps.scopes
  · intro next member node within
    rcases List.mem_append.1 member with isNew | isOld
    · have inner := (active_of_mem_visit source isNew).1
      exact ready.noEnumerator frame List.mem_cons_self node (within.trans inner)
    · exact ready.noEnumerator next (List.mem_cons_of_mem _ isOld) node within

theorem run (source : List Char) (ready : Ready state waiting) :
    Homed (run source state waiting) ∧ Keeps state (run source state waiting) := by
  fun_induction Walk.run source state waiting with
  | case1 state => exact ⟨ready.homed, .refl state⟩
  | case2 state frame rest visited ih =>
    obtain ⟨next, keeps⟩ := ready.visit source
    obtain ⟨homed, keepsLater⟩ := ih next
    exact ⟨homed, keeps.trans keepsLater⟩

end Ready

theorem Reaches.ready {source : List Char} {start state : State}
    {frames visited waiting : List Frame}
    (reached : Reaches source start frames visited state waiting) (ready : Ready start frames) :
    Ready state waiting := by
  induction reached with
  | start => exact ready
  | visit before ih => exact (ih.visit source).1

end Walk

namespace SourceUnit

variable (source : List Char) (language : Language) (tree : ParseTree)

/-- At a moment of the walk over a tree, an occurrence is added for something that is placed. -/
def PlacedAt (name : Nat) (placement : Placement) : Prop :=
  ∃ visited state frame waiting index,
    Reaches source (State.initial (language = .cpp)) [Frame.root tree] visited state
      (frame :: waiting) ∧
    (frame.placements source state)[index]? = some placement ∧ name = state.names.size + index

/-- At a moment of the walk over a tree, an occurrence is added for a macro or a qualified name. -/
def DeclaredApart (name : Nat) : Prop :=
  ∃ visited state frame waiting,
    Reaches source (State.initial (language = .cpp)) [Frame.root tree] visited state
      (frame :: waiting) ∧
    frame.isApart = true ∧ state.names.size ≤ name ∧ name < (visit source state frame).1.names.size

variable {source language tree}

theorem form_ne_enumerator {node : ParseTree} (other : node.kind ≠ "enumerator") :
    node.form ≠ .enumerator := by
  have onlyEnumerators : ∀ entry ∈ Form.table, entry.2 = .enumerator → entry.1 = ["enumerator"] := by
    decide
  unfold form Form.ofKind
  split
  · rename_i kinds form found
    intro same
    have isKinds : kinds = ["enumerator"] :=
      onlyEnumerators (kinds, form) (List.mem_of_find?_eq_some found) same
    have isKind := List.find?_some found
    rw [isKinds] at isKind
    exact other (by simpa using isKind)
  · split <;> exact nofun

variable {name : Nat} {placement : Placement}

/-- What is placed keeps to the end of the walk what it was declared with. -/
theorem PlacedAt.isPlaced (placed : PlacedAt source language tree name placement)
    (noEnumerator : ∀ node, Within node tree → node.form ≠ .enumerator) :
    IsPlaced source (walked source language tree) name placement := by
  obtain ⟨visited, state, frame, waiting, index, moment, isPlacement, rfl⟩ := placed
  have ready := moment.ready (.initial _ noEnumerator)
  have unqualified : frame.isApart = false := by
    apply Bool.eq_false_iff.2
    intro apart
    rw [placements_eq_nil_of_isApart apart] at isPlacement
    cases isPlacement
  have placed : Places source (frame.placements source state) state _ :=
    visit_places ready.homed frame ready.frame_under ready.form_ne unqualified
  have later := ((ready.visit source).1.run source).2
  rw [moment.visit.run_eq] at later
  exact (placed.placed index placement isPlacement).keep later

theorem PlacedAt.local?_of_binding? (placed : PlacedAt source language tree name placement)
    (noEnumerator : ∀ node, Within node tree → node.form ≠ .enumerator)
    {withDeclarations : Bool} {binding : Nat}
    (bound : (ofTree source language withDeclarations tree).toTranslationUnit.binding? name =
      some binding) :
    (walked source language tree).scopes.local? placement.kind.space
      (placement.node.text source) placement.scope = some binding := by
  obtain ⟨found, there, declares, spelled, looks⟩ := placed.isPlaced noEnumerator
  rw [binding?_of_declares there declares] at bound
  rw [← spelled]
  exact looks binding bound

/-- Whatever declares was placed at a moment of the walk, or it was declared apart. -/
theorem exists_placement (noEnumerator : ∀ node, Within node tree → node.form ≠ .enumerator)
    {withDeclarations : Bool} {found : NameNode}
    (there : (ofTree source language withDeclarations tree).names[name]? = some found)
    (declares : found.declares = true) :
    (∃ placement, PlacedAt source language tree name placement) ∨
      DeclaredApart source language tree name := by
  obtain ⟨kind, state, frame, ⟨visited, waiting, moment⟩, -, new, added, isAdded, declaresToo, -⟩ :=
    exists_declaresAt there declares
  have ready := moment.ready (.initial _ noEnumerator)
  cases apart : frame.isApart with
  | true =>
    obtain ⟨inside, -⟩ := Array.getElem?_eq_some_iff.1 isAdded
    exact .inr ⟨visited, state, frame, waiting, moment, apart, new, inside⟩
  | false =>
    have places : Places source (frame.placements source state) state _ :=
      visit_places ready.homed frame ready.frame_under ready.form_ne apart
    have isPlaced : name - state.names.size < (frame.placements source state).length := by
      apply Nat.lt_of_not_le
      intro outside
      rw [places.plain name added (by omega) isAdded] at declaresToo
      cases declaresToo
    exact .inl ⟨_, visited, state, frame, waiting, name - state.names.size, moment,
      List.getElem?_eq_getElem isPlaced, by omega⟩

/-- In a tree without enumerators, what a unit declares without a qualifier, but for macros, has one
home scope.  Two such names that are bound share a symbol if they are declared in the same scope with
the same spelling and in the same name space, and never if they are declared in different scopes. -/
theorem symbol_has_home_scope (source : List Char) (language : Language) (withDeclarations : Bool)
    (tree : ParseTree) (noEnumerator : ∀ node, Within node tree → node.kind ≠ "enumerator") :
    (∀ (name : Nat) (found : NameNode),
      (ofTree source language withDeclarations tree).names[name]? = some found →
      found.declares = true →
        (∃ placement, PlacedAt source language tree name placement) ∨
          DeclaredApart source language tree name) ∧
    (∀ (name : Nat) (placement : Placement), PlacedAt source language tree name placement →
      ∃ found, (ofTree source language withDeclarations tree).names[name]? = some found ∧
        found.declares = true ∧ found.text = placement.node.text source) ∧
    ∀ (first second : Nat) (one two : Placement) (firstBinding secondBinding : Nat),
      PlacedAt source language tree first one → PlacedAt source language tree second two →
      (ofTree source language withDeclarations tree).toTranslationUnit.binding? first =
        some firstBinding →
      (ofTree source language withDeclarations tree).toTranslationUnit.binding? second =
        some secondBinding →
        (one.scope = two.scope → one.node.text source = two.node.text source →
          one.kind.space = two.kind.space → firstBinding = secondBinding) ∧
        (one.scope ≠ two.scope → firstBinding ≠ secondBinding) := by
  have noForm (node : ParseTree) (within : Within node tree) : node.form ≠ .enumerator :=
    form_ne_enumerator (noEnumerator node within)
  refine ⟨?_, ?_, ?_⟩
  · intro name found there declares
    exact exists_placement noForm there declares
  · intro name placement placed
    obtain ⟨found, there, declares, spelled, -⟩ := placed.isPlaced noForm
    obtain ⟨binding, after, -⟩ := (walked_rebinds source language tree).occurrences name found there
    exact ⟨_, after, declares, spelled⟩
  · intro first second one two firstBinding secondBinding placedOne placedTwo boundOne boundTwo
    have looksOne := placedOne.local?_of_binding? noForm boundOne
    have looksTwo := placedTwo.local?_of_binding? noForm boundTwo
    constructor
    · intro sameScope sameText sameSpace
      rw [sameScope, sameText, sameSpace, looksTwo] at looksOne
      exact (Option.some.inj looksOne).symm
    · intro apart same
      rw [same] at looksOne
      have ready : Ready (State.initial (language = .cpp)) [Frame.root tree] := .initial _ noForm
      exact apart ((ready.run source).1.home secondBinding _ _
        (Scopes.holdsIn_of_local? looksOne) (Scopes.holdsIn_of_local? looksTwo))

/-! ## A namespace that is opened again -/

def reopenedText : List Char := "namespace n::n{}namespace n{}".toList

def outerName : ParseTree := ruleNode 3 "namespace_identifier" "" 10 11 []

def innerName : ParseTree := ruleNode 4 "namespace_identifier" "" 13 14 []

def nestedName : ParseTree :=
  ruleNode 2 "nested_namespace_specifier" "name" 10 14 [outerName, innerName]

def openedBody : ParseTree := ruleNode 5 "declaration_list" "body" 14 16 []

def openedNamespace : ParseTree :=
  ruleNode 1 "namespace_definition" "" 0 16 [nestedName, openedBody]

def againName : ParseTree := ruleNode 7 "namespace_identifier" "name" 26 27 []

def againBody : ParseTree := ruleNode 8 "declaration_list" "body" 27 29 []

def againNamespace : ParseTree :=
  ruleNode 6 "namespace_definition" "" 16 29 [againName, againBody]

def reopenedTree : ParseTree :=
  ruleNode 0 "translation_unit" "" 0 29 [openedNamespace, againNamespace]

theorem visit_reopenedTree (state : State) :
    visit reopenedText state (Frame.root reopenedTree) =
      (state, [⟨openedNamespace, true, .file, .plain⟩, ⟨againNamespace, true, .file, .plain⟩]) := by
  have form : reopenedTree.form = .transparent := by decide
  simp only [visit, Frame.root, visitPlain, form]
  rfl

theorem visit_openedNamespace (state : State) :
    visit reopenedText state ⟨openedNamespace, true, .file, .plain⟩ =
      (let (opened, inner) := state.openDeclaration "namespace_definition" .file
       let (declared, scope) :=
         visitNamespaceSegments reopenedText inner [outerName, innerName] opened Scopes.file
       (declared, [⟨openedBody, false, inner.within scope, .plain⟩])) := by
  have form : openedNamespace.form = .namespaceDefinition := by decide
  simp only [visit, visitPlain, form]
  rfl

theorem visit_openedBody (state : State) (context : Context) :
    visit reopenedText state ⟨openedBody, false, context, .plain⟩ = (state, []) := by
  have form : openedBody.form = .transparent := by decide
  simp only [visit, visitPlain, form]
  rfl

theorem noEnumerator_reopenedTree :
    ∀ node, Within node reopenedTree → node.kind ≠ "enumerator" := by
  simp [reopenedTree, openedNamespace, nestedName, outerName, innerName, openedBody,
    againNamespace, againName, againBody, ruleNode, forall_within_node, kind, label]

/-- The namespace has its symbol again, and the one inside has another. -/
theorem reopened_namespace_has_home_scope :
    (∀ node, Within node reopenedTree → node.kind ≠ "enumerator") ∧
      PlacedAt reopenedText .cpp reopenedTree 0 ⟨outerName, Scopes.file, .namespaceName⟩ ∧
      PlacedAt reopenedText .cpp reopenedTree 1 ⟨innerName, 1, .namespaceName⟩ ∧
      PlacedAt reopenedText .cpp reopenedTree 2 ⟨againName, Scopes.file, .namespaceName⟩ ∧
      ∃ outer inner again,
        (ofTree reopenedText .cpp true reopenedTree).toTranslationUnit.binding? 0 = some outer ∧
        (ofTree reopenedText .cpp true reopenedTree).toTranslationUnit.binding? 1 = some inner ∧
        (ofTree reopenedText .cpp true reopenedTree).toTranslationUnit.binding? 2 = some again ∧
        outer = again ∧ outer ≠ inner := by
  have begun : Reaches reopenedText (State.initial (Language.cpp = .cpp))
      [Frame.root reopenedTree] [] _ _ := .start
  have opened := begun.visit_eq (visit_reopenedTree _)
  have again := (opened.visit_eq (visit_openedNamespace _)).visit_eq (visit_openedBody _ _)
  have outerPlaced : PlacedAt reopenedText .cpp reopenedTree 0
      ⟨outerName, Scopes.file, .namespaceName⟩ := ⟨_, _, _, _, 0, opened, rfl, rfl⟩
  have innerPlaced : PlacedAt reopenedText .cpp reopenedTree 1
      ⟨innerName, 1, .namespaceName⟩ := ⟨_, _, _, _, 1, opened, rfl, rfl⟩
  have againPlaced : PlacedAt reopenedText .cpp reopenedTree 2
      ⟨againName, Scopes.file, .namespaceName⟩ := ⟨_, _, _, _, 0, again, rfl, by decide +kernel⟩
  have outerBound : (ofTree reopenedText .cpp true reopenedTree).toTranslationUnit.binding? 0 =
      some 0 := by decide +kernel
  have innerBound : (ofTree reopenedText .cpp true reopenedTree).toTranslationUnit.binding? 1 =
      some 1 := by decide +kernel
  have againBound : (ofTree reopenedText .cpp true reopenedTree).toTranslationUnit.binding? 2 =
      some 0 := by decide +kernel
  obtain ⟨-, -, bindings⟩ :=
    symbol_has_home_scope reopenedText .cpp true reopenedTree noEnumerator_reopenedTree
  exact ⟨noEnumerator_reopenedTree, outerPlaced, innerPlaced, againPlaced, 0, 1, 0, outerBound,
    innerBound, againBound,
    (bindings 0 2 _ _ 0 0 outerPlaced againPlaced outerBound againBound).1 rfl (by decide +kernel)
      rfl,
    (bindings 0 1 _ _ 0 1 outerPlaced innerPlaced outerBound innerBound).2 (by decide)⟩

end SourceUnit

end CrossReference
