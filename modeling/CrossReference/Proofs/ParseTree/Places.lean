import CrossReference.Proofs.ParseTree.Parts
import CrossReference.Proofs.Text.Extent
import Mathlib.Data.List.Perm.Basic

/-!
# Places of nodes

A node is told from all other nodes of a tree by the way that leads to it from the root, even where
another node looks the same.  Parts of a tree stand at places none of which lies below another, and
in a well-formed tree such nodes cover no common byte.
-/

set_option autoImplicit false

namespace CrossReference

namespace ParseTree

/-- The numbers of the children through which a way leads from the root of a tree. -/
abbrev Path := List Nat

/-- Neither of two paths leads on from the other, so that their nodes are different ones and none
is an ancestor of the other. -/
def Path.Apart (first second : Path) : Prop :=
  ¬ first <+: second ∧ ¬ second <+: first

theorem Path.Apart.symm {first second : Path} (apart : first.Apart second) :
    second.Apart first :=
  ⟨apart.2, apart.1⟩

theorem Path.Apart.extend {first second : Path} (apart : first.Apart second) (further : Path) :
    Path.Apart (first ++ further) second := by
  constructor
  · intro isPrefix
    exact apart.1 ((List.prefix_append first further).trans isPrefix)
  · intro isPrefix
    rcases List.prefix_or_prefix_of_prefix isPrefix (List.prefix_append first further) with
      after | before
    · exact apart.2 after
    · exact apart.1 before

theorem Path.apart_siblings (path : Path) {first second : Nat} (different : first ≠ second) :
    Path.Apart (path ++ [first]) (path ++ [second]) := by
  constructor <;> intro isPrefix <;>
    simp only [List.prefix_append_right_inj, List.cons_prefix_cons] at isPrefix
  · exact different isPrefix.1
  · exact different isPrefix.1.symm

def at? : ParseTree → Path → Option ParseTree
  | tree, [] => some tree
  | tree, number :: rest =>
      match tree.children[number]? with
      | some child => child.at? rest
      | none => none

theorem at?_cons_eq_some_iff {tree node : ParseTree} {number : Nat} {rest : Path} :
    tree.at? (number :: rest) = some node ↔
      ∃ child, tree.children[number]? = some child ∧ child.at? rest = some node := by
  rw [at?]
  cases tree.children[number]? <;> simp

theorem at?_append {tree node : ParseTree} {path : Path} (found : tree.at? path = some node)
    (further : Path) : tree.at? (path ++ further) = node.at? further := by
  induction path generalizing tree with
  | nil =>
    obtain rfl : tree = node := Option.some.inj found
    rfl
  | cons number rest ih =>
    obtain ⟨child, isChild, onward⟩ := at?_cons_eq_some_iff.1 found
    rw [List.cons_append, at?, isChild]
    exact ih onward

theorem at?_concat {tree node child : ParseTree} {path : Path} {number : Nat}
    (found : tree.at? path = some node) (isChild : node.children[number]? = some child) :
    tree.at? (path ++ [number]) = some child := by
  rw [at?_append found]
  exact at?_cons_eq_some_iff.2 ⟨child, isChild, rfl⟩

theorem within_of_at? {tree node : ParseTree} {path : Path} (found : tree.at? path = some node) :
    Within node tree := by
  induction path generalizing tree with
  | nil =>
    obtain rfl : tree = node := Option.some.inj found
    exact .root tree
  | cons first rest ih =>
    obtain ⟨inner, isInner, further⟩ := at?_cons_eq_some_iff.1 found
    exact .deeper (List.mem_of_getElem? isInner) (ih further)

/-! ## Parts stand apart -/

/-- Trees are nodes of a tree that stand apart from each other. -/
def StandApart (root : ParseTree) (trees : List ParseTree) : Prop :=
  ∃ paths : List Path, List.Forall₂ (fun path tree => root.at? path = some tree) paths trees ∧
    paths.Pairwise Path.Apart

theorem forall₂_children {root tree : ParseTree} {path : Path} (found : root.at? path = some tree) :
    List.Forall₂ (fun path child => root.at? path = some child)
      ((List.range tree.children.length).map fun number => path ++ [number]) tree.children := by
  rw [List.forall₂_iff_get]
  refine ⟨by simp, ?_⟩
  intro number inPaths inChildren
  simp only [List.get_eq_getElem, List.getElem_map, List.getElem_range]
  exact at?_concat found (List.getElem?_eq_getElem inChildren)

theorem pairwise_apart_siblings (path : Path) (count : Nat) :
    ((List.range count).map fun number => path ++ [number]).Pairwise Path.Apart := by
  rw [List.pairwise_map]
  exact List.nodup_range.imp fun different => path.apart_siblings different

theorem StandApart.splitsInto {root : ParseTree} {trees parts : List ParseTree}
    (splits : SplitsInto trees parts) (apart : StandApart root trees) :
    StandApart root parts := by
  induction splits with
  | perm reordered =>
    obtain ⟨paths, stand, pairwise⟩ := apart
    have stand' := List.Forall₂.flip stand
    obtain ⟨others, stand, reorderedPaths⟩ := List.perm_comp_forall₂ reordered.symm stand'
    refine ⟨others, List.Forall₂.flip stand, ?_⟩
    exact pairwise.perm reorderedPaths.symm Path.Apart.symm
  | leaveOut tree rest =>
    obtain ⟨paths, stand, pairwise⟩ := apart
    cases stand with
    | cons _ others => exact ⟨_, others, (List.pairwise_cons.1 pairwise).2⟩
  | descend tree rest =>
    obtain ⟨paths, stand, pairwise⟩ := apart
    cases stand with
    | @cons path _ paths _ found others =>
      obtain ⟨fromOthers, pairwise⟩ := List.pairwise_cons.1 pairwise
      refine ⟨_, List.rel_append (forall₂_children found) others, ?_⟩
      rw [List.pairwise_append]
      refine ⟨pairwise_apart_siblings path _, pairwise, ?_⟩
      intro below member other isOther
      obtain ⟨number, -, rfl⟩ := List.mem_map.1 member
      exact (fromOthers other isOther).extend [number]
  | trans _ _ firstStep lastStep => exact lastStep (firstStep apart)

theorem standApart_of_splitsInto {root : ParseTree} {parts : List ParseTree}
    (splits : SplitsInto [root] parts) : StandApart root parts :=
  StandApart.splitsInto splits ⟨[[]], by simp [at?], List.pairwise_singleton _ _⟩

/-! ## Well-formed trees -/

/-- All nodes of a tree start and stop between characters of a text. -/
def OnBoundaries (source : List Char) (tree : ParseTree) : Prop :=
  ∀ node, Within node tree →
    Text.IsBoundary source node.start ∧ Text.IsBoundary source node.stop

/-- What a parser says of the bytes of nodes: a child lies inside its parent, of two children the
earlier one ends before the later one begins, and all nodes start and stop between characters. -/
structure WellFormed (source : List Char) (tree : ParseTree) : Prop where
  inside : ∀ node, Within node tree → ∀ child ∈ node.children,
    node.start ≤ child.start ∧ child.stop ≤ node.stop
  ordered : ∀ node, Within node tree →
    node.children.Pairwise fun first second => first.stop ≤ second.start
  boundaries : OnBoundaries source tree

/-- A node that spells something does not stop before it starts. -/
theorem start_le_stop_of_text {source : List Char} {tree : ParseTree}
    (spelled : tree.text source ≠ "") : tree.start ≤ tree.stop := by
  by_contra reversed
  refine spelled ?_
  have nothing : Text.slice? source tree.start tree.stop = none := by
    unfold Text.slice?
    split
    · rfl
    · rw [if_pos (Nat.lt_of_not_le reversed)]
  rw [text, text?, nothing]
  rfl

namespace WellFormed

variable {source : List Char} {tree child node other : ParseTree}

theorem of_within (wellFormed : WellFormed source tree) (within : Within node tree) :
    WellFormed source node where
  inside inner lies := wellFormed.inside inner (lies.trans within)
  ordered inner lies := wellFormed.ordered inner (lies.trans within)
  boundaries inner lies := wellFormed.boundaries inner (lies.trans within)

theorem of_mem_children (wellFormed : WellFormed source tree) (member : child ∈ tree.children) :
    WellFormed source child :=
  wellFormed.of_within (.of_mem_children member)

theorem span_le (wellFormed : WellFormed source tree) (lies : Within node tree) :
    tree.start ≤ node.start ∧ node.stop ≤ tree.stop := by
  induction lies with
  | root => exact ⟨Nat.le_refl _, Nat.le_refl _⟩
  | @deeper child tree member inner ih =>
    obtain ⟨first, last⟩ := wellFormed.inside tree (.root tree) child member
    obtain ⟨innerFirst, innerLast⟩ := ih (wellFormed.of_mem_children member)
    exact ⟨Nat.le_trans first innerFirst, Nat.le_trans innerLast last⟩

theorem stop_le_start (wellFormed : WellFormed source tree) {first second : Nat}
    {earlier later : ParseTree} (before : first < second)
    (isEarlier : tree.children[first]? = some earlier)
    (isLater : tree.children[second]? = some later) (lies : Within node earlier)
    (otherLies : Within other later) : node.stop ≤ other.start := by
  obtain ⟨firstInside, rfl⟩ := List.getElem?_eq_some_iff.1 isEarlier
  obtain ⟨secondInside, rfl⟩ := List.getElem?_eq_some_iff.1 isLater
  have ordered := List.pairwise_iff_getElem.1 (wellFormed.ordered tree (.root tree)) first second
    firstInside secondInside before
  have spanFirst := (wellFormed.of_mem_children (List.getElem_mem firstInside)).span_le lies
  have spanSecond :=
    (wellFormed.of_mem_children (List.getElem_mem secondInside)).span_le otherLies
  omega

/-- What lies in an earlier part of a tree ends before what lies in a later one begins. -/
theorem stop_le_start_of_parts (wellFormed : WellFormed source tree) {before after : List ParseTree}
    {earlier later : ParseTree} (parts : tree.namedChildren = before ++ earlier :: after)
    {part : ParseTree} (isEarlier : part ∈ before ++ [earlier]) (isLater : later ∈ after)
    (lies : Within node part) (otherLies : Within other later) : node.stop ≤ other.start := by
  have ordered : (before ++ [earlier] ++ after).Pairwise fun first second =>
      first.stop ≤ second.start := by
    rw [List.append_assoc, List.singleton_append, ← parts]
    exact (wellFormed.ordered tree (.root tree)).sublist List.filter_sublist
  have apart := (List.pairwise_append.1 ordered).2.2 part isEarlier later isLater
  have isPart : part ∈ tree.namedChildren := by
    rw [parts, List.append_cons]
    exact List.mem_append_left _ isEarlier
  have isOther : later ∈ tree.namedChildren := by
    rw [parts]
    exact List.mem_append_right _ (List.mem_cons_of_mem _ isLater)
  have span := (wellFormed.of_mem_children (mem_of_mem_namedChildren isPart)).span_le lies
  have spanOther :=
    (wellFormed.of_mem_children (mem_of_mem_namedChildren isOther)).span_le otherLies
  omega

theorem disjoint_of_apart (wellFormed : WellFormed source tree) {first second : Path}
    (apart : first.Apart second) (found : tree.at? first = some node)
    (otherFound : tree.at? second = some other) :
    node.stop ≤ other.start ∨ other.stop ≤ node.start := by
  induction first generalizing tree second with
  | nil => exact absurd (List.nil_prefix) apart.1
  | cons number rest ih =>
    cases second with
    | nil => exact absurd (List.nil_prefix) apart.2
    | cons otherNumber otherRest =>
      obtain ⟨inner, isInner, further⟩ := at?_cons_eq_some_iff.1 found
      obtain ⟨otherInner, isOther, otherFurther⟩ := at?_cons_eq_some_iff.1 otherFound
      have lies := within_of_at? further
      have otherLies := within_of_at? otherFurther
      rcases Nat.lt_trichotomy number otherNumber with before | same | after
      · exact .inl (wellFormed.stop_le_start before isInner isOther lies otherLies)
      · subst same
        rw [isInner] at isOther
        cases isOther
        apply ih (wellFormed.of_mem_children (List.mem_of_getElem? isInner)) _ further otherFurther
        simpa [Path.Apart, List.cons_prefix_cons] using apart
      · exact .inr (wellFormed.stop_le_start after isOther isInner otherLies lies)

theorem of_children {label : NodeLabel} {children : List ParseTree}
    (boundaries : Text.IsBoundary source label.start ∧ Text.IsBoundary source label.stop)
    (inside : ∀ child ∈ children, label.start ≤ child.start ∧ child.stop ≤ label.stop)
    (ordered : children.Pairwise fun first second => first.stop ≤ second.start)
    (each : ∀ child ∈ children, WellFormed source child) :
    WellFormed source (.node label children) where
  inside node lies := by
    cases lies with
    | root => exact inside
    | deeper member inner => exact (each _ member).inside node inner
  ordered node lies := by
    cases lies with
    | root => exact ordered
    | deeper member inner => exact (each _ member).ordered node inner
  boundaries node lies := by
    cases lies with
    | root => exact boundaries
    | deeper member inner => exact (each _ member).boundaries node inner

end WellFormed

mutual

def isWellFormed (source : List Char) : ParseTree → Bool
  | node label children =>
      decide (Text.IsBoundary source label.start ∧ Text.IsBoundary source label.stop) &&
        decide (∀ child ∈ children, label.start ≤ child.start ∧ child.stop ≤ label.stop) &&
        decide (children.Pairwise fun first second => first.stop ≤ second.start) &&
        areWellFormed source children

def areWellFormed (source : List Char) : List ParseTree → Bool
  | [] => true
  | first :: rest => isWellFormed source first && areWellFormed source rest

end

theorem WellFormed.root {source : List Char} {label : NodeLabel} {children : List ParseTree}
    (wellFormed : WellFormed source (node label children)) :
    (Text.IsBoundary source label.start ∧ Text.IsBoundary source label.stop) ∧
      (∀ child ∈ children, label.start ≤ child.start ∧ child.stop ≤ label.stop) ∧
      children.Pairwise fun first second => first.stop ≤ second.start :=
  have lies := Within.root (node label children)
  ⟨wellFormed.boundaries _ lies, wellFormed.inside _ lies, wellFormed.ordered _ lies⟩

mutual

theorem isWellFormed_iff (source : List Char) :
    ∀ tree : ParseTree, isWellFormed source tree = true ↔ WellFormed source tree
  | node label children => by
    have each := areWellFormed_iff source children
    simp only [isWellFormed, Bool.and_eq_true, decide_eq_true_eq, each]
    constructor
    · rintro ⟨⟨⟨boundaries, inside⟩, ordered⟩, each⟩
      exact .of_children boundaries inside ordered each
    · intro wellFormed
      obtain ⟨boundaries, inside, ordered⟩ := wellFormed.root
      exact ⟨⟨⟨boundaries, inside⟩, ordered⟩, fun child member => wellFormed.of_mem_children member⟩

theorem areWellFormed_iff (source : List Char) :
    ∀ trees : List ParseTree,
      areWellFormed source trees = true ↔ ∀ tree ∈ trees, WellFormed source tree
  | [] => by simp [areWellFormed]
  | first :: rest => by
    simp only [areWellFormed, Bool.and_eq_true, List.forall_mem_cons,
      isWellFormed_iff source first, areWellFormed_iff source rest]

end

instance (source : List Char) (tree : ParseTree) : Decidable (WellFormed source tree) :=
  decidable_of_iff _ (isWellFormed_iff source tree)

namespace StandApart

variable {source : List Char} {root : ParseTree} {trees : List ParseTree}

theorem within (apart : StandApart root trees) : ∀ tree ∈ trees, Within tree root := by
  obtain ⟨paths, stand, -⟩ := apart
  intro tree member
  obtain ⟨lengths, each⟩ := List.forall₂_iff_get.1 stand
  obtain ⟨number, inside, rfl⟩ := List.getElem_of_mem member
  exact within_of_at? (each number (lengths ▸ inside) inside)

/-- Of nodes of a well-formed tree that stand apart one ends before the other begins. -/
theorem pairwise_disjoint (apart : StandApart root trees) (wellFormed : WellFormed source root) :
    trees.Pairwise fun first second =>
      first.stop ≤ second.start ∨ second.stop ≤ first.start := by
  obtain ⟨paths, stand, pairwise⟩ := apart
  obtain ⟨lengths, each⟩ := List.forall₂_iff_get.1 stand
  rw [List.pairwise_iff_getElem] at pairwise ⊢
  intro first second firstInside secondInside before
  have firstPath : first < paths.length := lengths ▸ firstInside
  have secondPath : second < paths.length := lengths ▸ secondInside
  exact wellFormed.disjoint_of_apart (pairwise first second firstPath secondPath before)
    (each first firstPath firstInside) (each second secondPath secondInside)

end StandApart

end ParseTree

end CrossReference
