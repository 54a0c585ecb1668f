import CrossReference.Proofs.ParseTree.Within
import CrossReference.Proofs.Walk.Macros

/-!
# A preprocessor for parse trees

`Preprocessor.process` goes through the directives of a file in source order and tells which nodes
a preprocessor keeps.  Of the branches of a condition it keeps the first one that is not decided to
fail, and inside of a group that is dropped it keeps nothing and carries nothing out.
`Preprocessor.isGrouped` says which trees it is meant for.
-/

set_option autoImplicit false

namespace CrossReference

def ParseTree.Form.isDirective : Form → Bool
  | .conditional | .macroDefinition | .directive => true
  | .silent | .function | .declaration _ | .classSpecifier _ | .enumSpecifier | .enumerator
  | .namespaceDefinition | .template | .typeParameter | .alias | .usingDeclaration | .block
  | .lambda | .memberAccess | .name | .transparent => false

theorem ParseTree.Form.isDirective_iff (form : Form) :
    form.isDirective = true ↔
      form = .conditional ∨ form = .macroDefinition ∨ form = .directive := by
  cases form <;> simp [isDirective]

namespace Preprocessor

open ParseTree Condition

/-! ## Trees of groups -/

mutual

def hasDirective : ParseTree → Bool
  | .node label children => (Form.ofKind label.kind).isDirective || anyHasDirective children

def anyHasDirective : List ParseTree → Bool
  | [] => false
  | first :: rest => hasDirective first || anyHasDirective rest

end

theorem hasDirective_eq (tree : ParseTree) :
    hasDirective tree = (tree.form.isDirective || anyHasDirective tree.children) := by
  cases tree
  rfl

theorem anyHasDirective_eq_false_iff {trees : List ParseTree} :
    anyHasDirective trees = false ↔ ∀ tree ∈ trees, hasDirective tree = false := by
  induction trees with
  | nil => simp [anyHasDirective]
  | cons first rest ih => simp [anyHasDirective, ih]

theorem hasDirective_of_within {part tree : ParseTree} (within : Within part tree)
    (free : hasDirective tree = false) : hasDirective part = false := by
  induction within with
  | root => exact free
  | deeper member _ ih =>
    rw [hasDirective_eq, Bool.or_eq_false_iff] at free
    exact ih (anyHasDirective_eq_false_iff.1 free.2 _ member)

theorem form_of_not_hasDirective {tree : ParseTree} (free : hasDirective tree = false) :
    tree.form.isDirective = false := by
  rw [hasDirective_eq, Bool.or_eq_false_iff] at free
  exact free.1

theorem hasDirective_of_form {label : NodeLabel} {children : List ParseTree}
    (noCondition : Form.ofKind label.kind ≠ .conditional)
    (noDefinition : Form.ofKind label.kind ≠ .macroDefinition)
    (noDirective : Form.ofKind label.kind ≠ .directive)
    (free : anyHasDirective children = false) : hasDirective (.node label children) = false := by
  have plain : (Form.ofKind label.kind).isDirective = false := by
    rw [Bool.eq_false_iff, ne_eq, Form.isDirective_iff, not_or, not_or]
    exact ⟨noCondition, noDefinition, noDirective⟩
  rw [hasDirective, plain, free, Bool.or_false]

inductive Part where
  /-- A token, which is passed over. -/
  | token
  /-- What decides the branch: its condition, or the name of a macro. -/
  | operand
  /-- The branch that is tried next. -/
  | alternative
  /-- What the branch holds. -/
  | content

def Part.isAlternative : Part → Bool
  | .alternative => true
  | .token | .operand | .content => false

def partOf (child : ParseTree) : Part :=
  if !child.isNamed then .token
  else if child.field = "condition" || child.field = "name" then .operand
  else if child.field = "alternative" then .alternative
  else .content

theorem partOf_eq_token_iff (child : ParseTree) :
    partOf child = .token ↔ child.isNamed = false := by
  unfold partOf
  split
  · simp_all
  · split <;> (try split) <;> simp_all

theorem isNamed_of_partOf {child : ParseTree} {part : Part} (same : partOf child = part)
    (noToken : part ≠ .token) : child.isNamed = true := by
  rw [← same, ne_eq, partOf_eq_token_iff, Bool.not_eq_false] at noToken
  exact noToken

mutual

/-- Whether a tree is made of sections, conditions and directives, with nodes free of directives
inside.  A branch has at most one alternative. -/
def isGrouped : ParseTree → Bool
  | .node label children =>
      match Form.ofKind label.kind with
      | .macroDefinition | .directive => true
      | .transparent => allGrouped children
      | .conditional => isBranch children
      | _ => !anyHasDirective children

def allGrouped : List ParseTree → Bool
  | [] => true
  | first :: rest => (!first.isNamed || isGrouped first) && allGrouped rest

def isBranch : List ParseTree → Bool
  | [] => true
  | .node label children :: rest =>
      (match partOf (.node label children) with
        | .token => true
        | .operand => !hasDirective (.node label children)
        | .alternative => isBranch children && !rest.any fun other => (partOf other).isAlternative
        | .content => isGrouped (.node label children)) && isBranch rest

end

/-! ## Branches -/

def holds? (source : List Char) (macros : Macros) (tree : ParseTree) : Option Bool :=
  if tree.kind = "preproc_if" || tree.kind = "preproc_elif" then
    match tree.child? "condition" with
    | some condition => (evaluate source macros condition).map fun value => value ≠ 0
    | none => none
  else if tree.kind = "preproc_ifdef" || tree.kind = "preproc_elifdef" then
    let negated :=
      match tree.children with
      | token :: _ => "ndef".toList.isSuffixOf token.kind.toList
      | [] => false
    match (tree.child? "name").bind (·.text? source) with
    | some name => some (macros.isDefined name != negated)
    | none => none
  else some true

mutual

/-- A branch and its alternatives, in order. -/
def chain : ParseTree → List ParseTree
  | .node label children => .node label children :: alternatives children

def alternatives : List ParseTree → List ParseTree
  | [] => []
  | first :: rest => if (partOf first).isAlternative then chain first else alternatives rest

end

theorem alternatives_eq_nil {children : List ParseTree}
    (none : (children.any fun child => (partOf child).isAlternative) = false) :
    alternatives children = [] := by
  induction children with
  | nil => rfl
  | cons first rest ih =>
    rw [List.any_cons, Bool.or_eq_false_iff] at none
    rw [alternatives, none.1, ih none.2]
    rfl

/-- Whether a branch is not decided to fail. -/
def mayHold (source : List Char) (macros : Macros) (branch : ParseTree) : Bool :=
  holds? source macros branch != some false

/-- Which branch of a chain is kept: the first one that is not decided to fail. -/
def choice? (source : List Char) (macros : Macros) (branches : List ParseTree) : Option Nat :=
  branches.findIdx? (mayHold source macros)

def next? : Option Nat → Option Nat
  | some (number + 1) => some number
  | some 0 | none => none

/-- Along a chain it is enough to know whether a branch has been taken.  An undecided branch is. -/
theorem choice_step (source : List Char) (macros : Macros) (taken : Bool) (branch : ParseTree)
    (rest : List ParseTree) :
    let choice := if taken then none else choice? source macros (branch :: rest)
    decide (choice = some 0) = (!taken && mayHold source macros branch) ∧
      next? choice =
        if taken || (holds? source macros branch).getD true then none
        else choice? source macros rest := by
  have next_map (choice : Option Nat) : next? (choice.map (· + 1)) = choice := by
    cases choice <;> rfl
  have notFirst (choice : Option Nat) : choice.map (· + 1) ≠ some 0 := by
    cases choice <;> simp
  cases taken with
  | true => simp [next?]
  | false =>
    by_cases fails : holds? source macros branch = some false
    · simp [choice?, List.findIdx?_cons, mayHold, fails, next_map, notFirst]
    · have taken : (holds? source macros branch).getD true = true := by
        generalize holds? source macros branch = decided at fails
        rcases decided with _ | _ | _ <;> simp_all
      simp [choice?, List.findIdx?_cons, mayHold, fails, taken, next?]

/-! ## The preprocessor -/

structure Item where
  tree : ParseTree
  /-- Whether a class or enum specifier without a body declares its tag there. -/
  declaresTag : Bool
  kept : Bool

variable (source : List Char)

mutual

/-- The table of macros after a tree, and the nodes of the tree. -/
def process (declaresTag kept : Bool) (macros : Macros) : ParseTree → Macros × List Item
  | .node label children =>
      let tree := ParseTree.node label children
      match Form.ofKind label.kind with
      | .transparent => processAll tree.declaresTags kept macros children
      | .conditional =>
          processBranch tree.declaresTags kept (choice? source macros (chain tree)) macros children
      | .macroDefinition | .directive =>
          (if kept then Walk.carryOut source macros tree else macros, [⟨tree, declaresTag, kept⟩])
      | _ => (macros, [⟨tree, declaresTag, kept⟩])

def processAll (declaresTag kept : Bool) (macros : Macros) :
    List ParseTree → Macros × List Item
  | [] => (macros, [])
  | first :: rest =>
      if first.isNamed then
        let (between, items) := process declaresTag kept macros first
        let (final, later) := processAll declaresTag kept between rest
        (final, items ++ later)
      else processAll declaresTag kept macros rest

/-- The children of a branch.  The number says which branch of the chain is kept, counted from this
one on. -/
def processBranch (declaresTag kept : Bool) (choice : Option Nat) (macros : Macros) :
    List ParseTree → Macros × List Item
  | [] => (macros, [])
  | .node label children :: rest =>
      let first := ParseTree.node label children
      let (between, items) :=
        match partOf first with
        | .token => (macros, [])
        | .operand => (macros, [⟨first, declaresTag, kept⟩])
        | .alternative => processBranch first.declaresTags kept (next? choice) macros children
        | .content => process declaresTag (kept && choice = some 0) macros first
      let (final, later) := processBranch declaresTag kept choice between rest
      (final, items ++ later)

end

/-! ## What is kept -/

/-- A node that the preprocessor does not look into: a directive, or a node without any inside. -/
def Item.isLeaf (item : Item) : Bool :=
  decide (item.tree.form = .macroDefinition) || decide (item.tree.form = .directive) ||
    !hasDirective item.tree

/-- The result of going through nodes: only leaves are met, and if nothing is to be kept then
nothing is kept and nothing carried out. -/
structure Goes (kept : Bool) (macros : Macros) (result : Macros × List Item) : Prop where
  leaves : ∀ item ∈ result.2, item.isLeaf = true
  dropped : kept = false → result.1 = macros ∧ ∀ item ∈ result.2, item.kept = false

theorem Goes.none (kept : Bool) (macros : Macros) : Goes kept macros (macros, []) :=
  ⟨by simp, by simp⟩

theorem Goes.one {kept : Bool} {macros after : Macros} {tree : ParseTree} {declaresTag : Bool}
    (leaf : Item.isLeaf ⟨tree, declaresTag, kept⟩ = true) (same : kept = false → after = macros) :
    Goes kept macros (after, [⟨tree, declaresTag, kept⟩]) :=
  ⟨by simpa using leaf, fun drops => ⟨same drops, by simpa using drops⟩⟩

theorem Goes.of_imp {kept inner : Bool} {macros : Macros} {result : Macros × List Item}
    (goes : Goes inner macros result) (drops : kept = false → inner = false) :
    Goes kept macros result :=
  ⟨goes.leaves, fun dropped => goes.dropped (drops dropped)⟩

theorem Goes.append {kept : Bool} {macros : Macros} {first second : Macros × List Item}
    (front : Goes kept macros first) (back : Goes kept first.1 second) :
    Goes kept macros (second.1, first.2 ++ second.2) where
  leaves item member := (List.mem_append.1 member).elim (front.leaves item) (back.leaves item)
  dropped drops :=
    ⟨(back.dropped drops).1.trans (front.dropped drops).1, fun item member =>
      (List.mem_append.1 member).elim ((front.dropped drops).2 item) ((back.dropped drops).2 item)⟩

mutual

theorem goes_process (declaresTag kept : Bool) (macros : Macros) (tree : ParseTree)
    (grouped : isGrouped tree = true) :
    Goes kept macros (process source declaresTag kept macros tree) := by
  match tree with
  | .node label children =>
    unfold isGrouped at grouped
    unfold process
    simp only
    split <;> rename_i form <;> simp only [form] at grouped
    · exact goes_processAll _ kept macros children grouped
    · exact goes_processBranch _ kept _ macros children grouped
    · exact .one (by simp [Item.isLeaf, ParseTree.form, kind, ParseTree.label, form])
        fun drops => by simp [drops]
    · exact .one (by simp [Item.isLeaf, ParseTree.form, kind, ParseTree.label, form])
        fun drops => by simp [drops]
    · rename_i noCondition noDefinition
      have free := hasDirective_of_form noCondition noDefinition form (by simpa using grouped)
      exact .one (by simp [Item.isLeaf, free]) fun _ => rfl

theorem goes_processAll (declaresTag kept : Bool) (macros : Macros) (trees : List ParseTree)
    (grouped : allGrouped trees = true) :
    Goes kept macros (processAll source declaresTag kept macros trees) := by
  match trees with
  | [] => exact .none kept macros
  | first :: rest =>
    obtain ⟨firstGrouped, restGrouped⟩ := Bool.and_eq_true_iff.1 grouped
    unfold processAll
    cases named : first.isNamed with
    | false => exact goes_processAll declaresTag kept macros rest restGrouped
    | true =>
      rw [named] at firstGrouped
      exact (goes_process declaresTag kept macros first firstGrouped).append
        (goes_processAll declaresTag kept _ rest restGrouped)

theorem goes_processBranch (declaresTag kept : Bool) (choice : Option Nat) (macros : Macros)
    (trees : List ParseTree) (branch : isBranch trees = true) :
    Goes kept macros (processBranch source declaresTag kept choice macros trees) := by
  match trees with
  | [] => exact .none kept macros
  | .node label children :: rest =>
    obtain ⟨firstGrouped, restGrouped⟩ := Bool.and_eq_true_iff.1 branch
    unfold processBranch
    refine .append ?_ (goes_processBranch declaresTag kept choice _ rest restGrouped)
    cases part : partOf (.node label children) with
    | token => exact .none kept macros
    | operand =>
      simp only [part, Bool.not_eq_true'] at firstGrouped
      exact .one (by simp [Item.isLeaf, firstGrouped]) fun _ => rfl
    | alternative =>
      simp only [part, Bool.and_eq_true] at firstGrouped
      exact goes_processBranch _ kept _ macros children firstGrouped.1
    | content =>
      simp only [part] at firstGrouped
      exact (goes_process declaresTag _ macros _ firstGrouped).of_imp fun drops => by simp [drops]

end

end Preprocessor

end CrossReference
