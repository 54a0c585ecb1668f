import CrossReference.Proofs.Walk.Regions

/-!
# Blocks

A block makes a scope, and all that is declared in the block is declared there or further inside.
The scopes that were made before are as they were when the walk over the block is done.
-/

set_option autoImplicit false

namespace CrossReference

open ParseTree

theorem ParseTree.kind_of_block {tree : ParseTree} (form : tree.form = .block) :
    tree.kind ∈ ["compound_statement", "for_statement", "for_range_loop", "if_statement",
      "while_statement", "switch_statement", "catch_clause"] := by
  have blocks : ∀ entry ∈ Form.table, entry.2 = .block → entry.1 =
      ["compound_statement", "for_statement", "for_range_loop", "if_statement", "while_statement",
        "switch_statement", "catch_clause"] := by decide
  unfold ParseTree.form Form.ofKind at form
  split at form
  · rename_i kinds _ found
    subst form
    rw [← blocks _ (List.mem_of_find?_eq_some found) rfl]
    simpa using List.find?_some found
  · split at form <;> cases form

namespace Walk

open State

/-! ## Walks without qualified declarations -/

section Unqualified

variable {source : List Char} {start state : State} {frames visited waiting first rest : List Frame}

theorem DeclareUnqualified.front (unqualified : DeclareUnqualified source start (first ++ rest)) :
    DeclareUnqualified source start first := by
  intro done later frame waiting inner
  have whole : Reaches source start (first ++ rest) [] start (first ++ rest) := .start
  exact unqualified _ later frame (waiting ++ rest) (whole.stretch inner)

theorem DeclareUnqualified.onward (unqualified : DeclareUnqualified source start frames)
    (reached : Reaches source start frames visited state waiting) :
    DeclareUnqualified source state waiting := by
  intro done later frame left inner
  have whole : Reaches source start frames visited state (waiting ++ []) := by
    rwa [List.append_nil]
  exact unqualified _ later frame (left ++ []) (whole.stretch inner)

theorem declareUnqualified_of_within
    (plain : ∀ frame ∈ frames, ∀ node, Within node frame.tree → isQualified node.kind = false) :
    DeclareUnqualified source start frames := by
  intro visited state frame waiting reached
  obtain ⟨first, isFirst, within⟩ := reached.exists_within frame List.mem_cons_self
  have noTag : hasQualifiedTag frame.tree = false := by
    unfold hasQualifiedTag
    split
    · refine (Option.any_eq_false _ _).2 fun name found => ?_
      exact plain first isFirst name ((Within.of_child? found).trans within)
    · refine (Option.any_eq_false _ _).2 fun name found => ?_
      exact plain first isFirst name ((Within.of_child? found).trans within)
    · rfl
  unfold Frame.declaresQualifiedName
  split
  · rw [noTag, Bool.false_and]
  · rw [noTag, Bool.false_and]
  · exact plain first isFirst frame.tree within
  · rfl
  · rfl

end Unqualified

/-! ## Blocks -/

/-- A node that is visited as a block.  The body of a function is not, as its scope is that of the
function. -/
structure Frame.IsBlock (frame : Frame) : Prop where
  form : frame.tree.form = .block
  noBody : frame.mode ≠ .body
  noBranch : ∀ taken, frame.mode ≠ .branch taken

section Blocks

variable {source : List Char} {state : State} {frame : Frame}

theorem Frame.IsBlock.visitDeclarator_eq (isBlock : frame.IsBlock) (kind : SymbolKind)
    (typeRef : Option TypeRef) (parameters : Option Nat) :
    visitDeclarator source state frame kind typeRef parameters =
      (state, [{ frame with mode := .plain }]) := by
  have noName : ∀ kind ∈ ["compound_statement", "for_statement", "for_range_loop", "if_statement",
      "while_statement", "switch_statement", "catch_clause"],
      isPlainName kind = false ∧ isQualified kind = false ∧ kind ∉ functionDeclaratorKinds ∧
        kind ≠ "init_declarator" ∧ kind ≠ "template_function" ∧
          kind ≠ "structured_binding_declarator" ∧ isDeclaratorKind kind = false := by decide
  obtain ⟨plain, qualified, function, init, template, binding, declarator⟩ :=
    noName frame.tree.kind (kind_of_block isBlock.form)
  simp [visitDeclarator, plain, qualified, function, init, template, binding, declarator]

/-- A walk over a block begins with its scope, in which all that the block holds is visited. -/
theorem Frame.IsBlock.staysIn (isBlock : frame.IsBlock) {region : Region}
    (hosts : region.Hosts state) :
    ∃ done later left, Reaches source state [frame] done later left ∧
      StaysIn region state (later, left) := by
  have block := staysIn_visitBlock hosts frame.tree frame.context
  have visited (manner : frame.mode = .plain ∨ ∃ object, frame.mode = .member object) :
      visit source state frame = visitBlock state frame.tree frame.context := by
    have noName : frame.tree.kind ≠ "field_identifier" := by
      intro isName
      have isKind := kind_of_block isBlock.form
      rw [isName] at isKind
      revert isKind
      decide
    rcases manner with plain | ⟨object, member⟩
    · simp only [visit, plain, visitPlain, isBlock.form]
    · simp only [visit, member, noName, if_false, visitPlain, isBlock.form]
  cases manner : frame.mode with
  | plain =>
    rw [← visited (.inl manner)] at block
    exact ⟨_, _, _, Reaches.start.visit, by simpa using block⟩
  | member object =>
    rw [← visited (.inr ⟨object, manner⟩)] at block
    exact ⟨_, _, _, Reaches.start.visit, by simpa using block⟩
  | declarator kind typeRef parameters =>
    have again : visit source state frame = (state, [{ frame with mode := .plain }]) := by
      simp only [visit, manner]
      exact isBlock.visitDeclarator_eq kind typeRef parameters
    have plain : visit source state { frame with mode := .plain } =
        visitBlock state frame.tree frame.context := by
      simp only [visit, visitPlain, isBlock.form]
    have reached : Reaches source state [frame] [frame] state [{ frame with mode := .plain }] := by
      simpa using Reaches.start.visit_eq again
    rw [← plain] at block
    exact ⟨_, _, _, reached.visit, by simpa using block⟩
  | body => exact absurd manner isBlock.noBody
  | branch taken => exact absurd manner (isBlock.noBranch taken)

/-- Nothing leaks out of a block: when the walk over it is done, all scopes that were made before are
as they were, as long as the block declares no qualified name. -/
theorem block_leaves_outer_scopes (source : List Char) (state : State) (frame : Frame)
    (isBlock : frame.IsBlock) (unqualified : DeclareUnqualified source state [frame])
    (scope : Nat) (isOuter : scope < state.scopes.next) :
    (run source state [frame]).scopes.all[scope]? = state.scopes.all[scope]? := by
  obtain ⟨done, later, left, reached, begun⟩ := isBlock.staysIn (Region.closed_none state).hosts
  have inside : StaysIn (Region.none.grown state) later (run source later left, []) :=
    staysIn_run begun.hosts begun.left (unqualified.onward reached)
  have isOld : ¬ (Region.none.grown state).scopes scope := by
    rintro (nothing | isNew)
    · exact nothing
    · exact Nat.not_le_of_lt isOuter isNew
  rw [← reached.run_eq]
  exact (begun.spares.trans inside.spares).scopes scope isOld

end Blocks

def localBlock : ParseTree :=
  ruleNode 0 "compound_statement" "" 0 10
    [ruleNode 1 "declaration" "" 2 8
      [ruleNode 2 "primitive_type" "type" 2 5 [], ruleNode 3 "identifier" "declarator" 6 7 []]]

/-- What the block declares is in its own scope, and the file scope is as it was. -/
theorem local_is_declared_in_block :
    (Frame.root localBlock).IsBlock ∧
      DeclareUnqualified "{ int x; }".toList (State.initial true) [Frame.root localBlock] ∧
      (run "{ int x; }".toList (State.initial true) [Frame.root localBlock]).scopes.local? .ordinary
        "x" 1 = some 0 ∧
      (run "{ int x; }".toList (State.initial true) [Frame.root localBlock]).scopes.all[0]? =
        (State.initial true).scopes.all[0]? := by
  have isBlock : (Frame.root localBlock).IsBlock := ⟨by decide, nofun, nofun⟩
  have unqualified : DeclareUnqualified "{ int x; }".toList (State.initial true)
      [Frame.root localBlock] := by
    apply declareUnqualified_of_within
    simp [Frame.root, localBlock, ruleNode, forall_within_node, kind, label, isQualified]
  exact ⟨isBlock, unqualified, by decide +kernel,
    block_leaves_outer_scopes _ _ _ isBlock unqualified 0 Nat.zero_lt_one⟩

end Walk

end CrossReference
