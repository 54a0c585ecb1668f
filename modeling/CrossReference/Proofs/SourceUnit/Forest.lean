import CrossReference.Proofs.Walk.Owners
import CrossReference.Proofs.Walk.Spelling

/-!
# The forest of declarations

A walk numbers declarations in the order in which it begins them.  All frames that come out of a
visit are done before those that were waiting, so that all below a declaration is numbered before its
next sibling: the numbers are the depth-first preorder of the forest.
-/

set_option autoImplicit false

namespace CrossReference

/-! ## Preorder -/

/-- The trees with these roots, where each number has those nested in it below it, have these numbers
in depth-first preorder. -/
inductive InPreorder (nested : Nat → List Nat) : List Nat → List Nat → Prop
  | nil : InPreorder nested [] []
  | cons {root : Nat} {rest inside later : List Nat}
      (below : InPreorder nested (nested root) inside) (next : InPreorder nested rest later) :
      InPreorder nested (root :: rest) (root :: (inside ++ later))

namespace InPreorder

variable {nested : Nat → List Nat} {roots all : List Nat}

theorem congr {other : Nat → List Nat} (order : InPreorder nested roots all)
    (same : ∀ number ∈ all, other number = nested number) : InPreorder other roots all := by
  induction order with
  | nil => exact .nil
  | @cons root rest inside later below next ihBelow ihNext =>
    have atRoot : other root = nested root := same root List.mem_cons_self
    apply InPreorder.cons
    · rw [atRoot]
      apply ihBelow
      intro number member
      exact same number (List.mem_cons_of_mem _ (List.mem_append_left _ member))
    · apply ihNext
      intro number member
      exact same number (List.mem_cons_of_mem _ (List.mem_append_right _ member))

theorem perm (order : InPreorder nested roots all) :
    (roots ++ all.flatMap nested).Perm all := by
  induction order with
  | nil => exact .nil
  | @cons root rest inside later below next ihBelow ihNext =>
    rw [List.cons_append, List.flatMap_cons, List.flatMap_append]
    apply List.Perm.cons
    have parts := ihBelow.append ihNext
    refine List.Perm.trans ?_ parts
    have moved : (rest ++ (nested root ++ inside.flatMap nested)).Perm
        (nested root ++ inside.flatMap nested ++ rest) := List.perm_append_comm
    simpa using moved.append_right (later.flatMap nested)

theorem mem_of_mem_roots (order : InPreorder nested roots all) {root : Nat}
    (member : root ∈ roots) : root ∈ all :=
  order.perm.subset (List.mem_append_left _ member)

theorem lt_of_mem_nested (order : InPreorder nested roots all) (increasing : all.Pairwise (· < ·)) :
    ∀ parent ∈ all, ∀ child ∈ nested parent, parent < child := by
  induction order with
  | nil => nofun
  | @cons root rest inside later below next ihBelow ihNext =>
    obtain ⟨least, others⟩ := List.pairwise_cons.1 increasing
    obtain ⟨insideIncreasing, laterIncreasing, -⟩ := List.pairwise_append.1 others
    intro parent isParent child isChild
    rcases List.mem_cons.1 isParent with rfl | deeper
    · exact least child (List.mem_append_left _ (below.mem_of_mem_roots isChild))
    · rcases List.mem_append.1 deeper with isInside | isLater
      · exact ihBelow insideIncreasing parent isInside child isChild
      · exact ihNext laterIncreasing parent isLater child isChild

end InPreorder

namespace Walk

open State

/-! ## Declarations that a walk begins -/

/-- The declarations that are added form trees with these roots below an owner, and nothing else is
put below a declaration that was there or at the top. -/
structure Plants (owner : Option Nat) (before after : State) (roots : List Nat) : Prop where
  size : before.declarations.size ≤ after.declarations.size
  here : after.under owner = before.under owner ++ roots
  others : ∀ other, other ≠ owner →
    (∀ declaration, other = some declaration → declaration < before.declarations.size) →
      after.under other = before.under other
  order : InPreorder after.nestedIn roots
    (List.range' before.declarations.size (after.declarations.size - before.declarations.size))

/-- A declaration that is begun goes below its owner, and nothing is below it yet. -/
theorem openDeclaration_under (state : State) (kind : String) (context : Context)
    (known : ∀ declaration, context.owner = some declaration →
      declaration < state.declarations.size) (other : Option Nat) :
    (state.openDeclaration kind context).1.under other =
      state.under other ++ if other = context.owner then [state.declarations.size] else [] := by
  have pushed (declaration : Nat) :
      (((state.declarations.push ⟨kind, [], [], context.active⟩)[declaration]?).map
        (·.nested)).getD [] = state.nestedIn declaration := by
    rw [Array.getElem?_push]
    split
    · simp_all [nestedIn]
    · rfl
  unfold State.openDeclaration
  cases owner : context.owner with
  | none =>
    cases other with
    | none => rfl
    | some declaration => simpa [State.under, nestedIn] using pushed declaration
  | some parent =>
    cases other with
    | none => simp [State.under]
    | some declaration =>
      have isKnown := known parent owner
      by_cases same : parent = declaration
      · subst same
        simp [State.under, nestedIn, Array.getElem?_modify, Array.getElem?_push,
          Nat.ne_of_lt isKnown, Array.getElem?_eq_getElem isKnown]
      · have different : declaration ≠ parent := Ne.symm same
        simpa [State.under, nestedIn, Array.getElem?_modify, same, different] using
          pushed declaration

namespace Plants

variable {owner : Option Nat} {before middle after : State} {roots later : List Nat}

theorem nothing (owner : Option Nat) (state : State) : Plants owner state state [] where
  size := Nat.le_refl _
  here := (List.append_nil _).symm
  others _ _ _ := rfl
  order := by
    rw [Nat.sub_self]
    exact .nil

theorem after_fills {other : Option Nat} (fills : Fills other before middle)
    (plants : Plants owner middle after roots) : Plants owner before after roots where
  size := fills.size ▸ plants.size
  here := by rw [plants.here, fills.under]
  others other different known := by
    rw [plants.others other different (by rw [fills.size]; exact known), fills.under]
  order := by
    have order := plants.order
    rwa [fills.size] at order

/-- What is below a declaration that is begun comes first, and then its next siblings. -/
theorem begin_then {kind : String} {context : Context} {start : State}
    (known : ∀ declaration, context.owner = some declaration →
      declaration < start.declarations.size)
    (inside : Plants (some start.declarations.size) (start.openDeclaration kind context).1 middle
      roots)
    (next : Plants context.owner middle after later) :
    Plants context.owner start after (start.declarations.size :: later) := by
  have opened := openDeclaration_under start kind context known
  have started := openDeclaration_size start kind context
  have insideSize := inside.size
  have nextSize := next.size
  rw [started] at insideSize
  have notOwner : some start.declarations.size ≠ context.owner := by
    intro same
    exact Nat.lt_irrefl _ (known _ same.symm)
  have isNew : start.under (some start.declarations.size) = [] := by
    simp [State.under, nestedIn]
  refine ⟨by omega, ?_, ?_, ?_⟩
  · rw [next.here, inside.others context.owner (Ne.symm notOwner), opened, if_pos rfl,
      List.append_assoc, List.singleton_append]
    intro declaration isOwner
    have isKnown := known declaration isOwner
    omega
  · intro other different isKnown
    have notNew : other ≠ some start.declarations.size := by
      intro same
      exact Nat.lt_irrefl _ (isKnown _ same)
    rw [next.others other different, inside.others other notNew, opened, if_neg different,
      List.append_nil]
    · intro declaration same
      have bound := isKnown declaration same
      omega
    · intro declaration same
      have bound := isKnown declaration same
      omega
  · have below : after.nestedIn start.declarations.size = roots := by
      have kept := next.others (some start.declarations.size) notOwner (by
        intro declaration same
        cases same
        omega)
      rw [inside.here, opened, if_neg notOwner, isNew, List.nil_append, List.nil_append] at kept
      exact kept
    have split : List.range' start.declarations.size
        (after.declarations.size - start.declarations.size) =
        start.declarations.size ::
          (List.range' (start.declarations.size + 1)
            (middle.declarations.size - (start.declarations.size + 1)) ++
          List.range' middle.declarations.size
            (after.declarations.size - middle.declarations.size)) := by
      rw [range'_append_range' insideSize nextSize, ← List.range'_succ]
      congr 1
      omega
    rw [split]
    refine .cons ?_ next.order
    rw [below]
    have order := inside.order
    rw [started] at order
    apply order.congr
    intro declaration member
    rw [List.mem_range'_1] at member
    apply next.others (some declaration)
    · intro same
      have bound := known declaration same.symm
      omega
    · intro other same
      cases same
      omega

end Plants

/-- Frames of one owner put trees of declarations below it. -/
theorem exists_plants_run (source : List Char) (state : State) (frames : List Frame)
    (owner : Option Nat) (owners : ∀ frame ∈ frames, frame.context.owner = owner)
    (known : ∀ declaration, owner = some declaration → declaration < state.declarations.size) :
    ∃ roots, Plants owner state (run source state frames) roots := by
  induction heavy : weight frames using Nat.strongRecOn generalizing state frames owner with
  | ind bound ih =>
    cases frames with
    | nil =>
      rw [run_nil]
      exact ⟨[], .nothing owner state⟩
    | cons frame rest =>
      have lighter := weight_visit_lt source state frame
      have isOwner : frame.context.owner = owner := owners frame List.mem_cons_self
      have others : ∀ other ∈ rest, other.context.owner = owner :=
        fun other member => owners other (List.mem_cons_of_mem _ member)
      simp only [weight] at heavy
      rw [run_cons]
      obtain stays | begins := visit_stays_or_begins source state frame
      · rw [isOwner] at stays
        have all : ∀ other ∈ (visit source state frame).2 ++ rest,
            other.context.owner = owner := by
          intro other member
          rcases List.mem_append.1 member with left | waits
          · exact stays.owners other left
          · exact others other waits
        obtain ⟨roots, plants⟩ := ih _ (by rw [weight_append]; omega) _ _ owner all
          (by rw [stays.fills.size]; exact known) rfl
        exact ⟨roots, plants.after_fills stays.fills⟩
      · rw [run_append]
        have fills := begins.fills
        have size := fills.size
        rw [openDeclaration_size] at size
        obtain ⟨roots, inside⟩ := ih _ (by omega) (visit source state frame).1
          (visit source state frame).2 (some state.declarations.size) begins.owners
          (by intro declaration same; cases same; omega) rfl
        have grown := inside.size
        obtain ⟨later, next⟩ := ih _ (by omega)
          (run source (visit source state frame).1 (visit source state frame).2) rest owner others
          (by intro declaration same; have := known declaration same; omega) rfl
        subst isOwner
        exact ⟨_, (inside.after_fills fills).begin_then known next⟩

/-! ## Names that declarations list -/

/-- Each occurrence is listed by at most one declaration, and only once. -/
structure ListsApart (state : State) : Prop where
  known : ∀ declaration, ∀ name ∈ state.namesIn declaration, name < state.names.size
  once : ∀ declaration, (state.namesIn declaration).Nodup
  apart : ∀ first second name, name ∈ state.namesIn first → name ∈ state.namesIn second →
    first = second

theorem openDeclaration_namesIn (state : State) (kind : String) (context : Context)
    (declaration : Nat) :
    (state.openDeclaration kind context).1.namesIn declaration = state.namesIn declaration := by
  have pushed :
      (((state.declarations.push ⟨kind, [], [], context.active⟩)[declaration]?).map
        (·.names)).getD [] = state.namesIn declaration := by
    rw [Array.getElem?_push]
    split
    · simp_all [namesIn]
    · rfl
  rw [← pushed]
  unfold State.openDeclaration
  cases context.owner with
  | none => rfl
  | some parent =>
    simp only [namesIn, Array.getElem?_modify]
    by_cases same : parent = declaration
    · rw [if_pos same]
      cases (state.declarations.push ⟨kind, [], [], context.active⟩)[declaration]? <;> rfl
    · rw [if_neg same]

namespace ListsApart

variable {before after : State}

theorem initial (tagsAreTypes : Bool) : ListsApart (State.initial tagsAreTypes) where
  known declaration name member := by simp [namesIn, State.initial] at member
  once declaration := by simp [namesIn, State.initial]
  apart first second name member := by simp [namesIn, State.initial] at member

theorem openDeclaration (lists : ListsApart before) (kind : String) (context : Context) :
    ListsApart (before.openDeclaration kind context).1 where
  known declaration := by
    rw [openDeclaration_namesIn, openDeclaration_names]
    exact lists.known declaration
  once declaration := by
    rw [openDeclaration_namesIn]
    exact lists.once declaration
  apart first second name := by
    rw [openDeclaration_namesIn, openDeclaration_namesIn]
    exact lists.apart first second name

/-- What a declaration lists after a visit it listed before, or it is the owner and the name is
new. -/
theorem mem_namesIn_of_fills {owner : Option Nat} (fills : Fills owner before after)
    {declaration name : Nat} (member : name ∈ after.namesIn declaration) :
    name ∈ before.namesIn declaration ∨
      owner = some declaration ∧ before.names.size ≤ name ∧ name < after.names.size := by
  by_cases known : declaration < before.declarations.size
  · rw [fills.listed declaration known] at member
    rcases List.mem_append.1 member with old | new
    · exact .inl old
    · right
      split at new
      · rename_i isOwner
        rw [List.mem_range'_1] at new
        exact ⟨isOwner, by omega⟩
      · cases new
  · have missing : after.declarations[declaration]? = none := by
      rw [Array.getElem?_eq_none_iff, fills.size]
      omega
    rw [namesIn, missing] at member
    cases member

theorem fill {owner : Option Nat} (lists : ListsApart before) (fills : Fills owner before after) :
    ListsApart after where
  known declaration name member := by
    rcases mem_namesIn_of_fills fills member with old | ⟨-, -, bound⟩
    · exact Nat.lt_of_lt_of_le (lists.known declaration name old) fills.names
    · exact bound
  once declaration := by
    by_cases known : declaration < before.declarations.size
    · rw [fills.listed declaration known, List.nodup_append]
      refine ⟨lists.once declaration, ?_, ?_⟩
      · split
        · exact List.nodup_range'
        · exact List.nodup_nil
      · intro name old other new
        have bound := lists.known declaration name old
        split at new
        · rw [List.mem_range'_1] at new
          omega
        · cases new
    · have missing : after.declarations[declaration]? = none := by
        rw [Array.getElem?_eq_none_iff, fills.size]
        omega
      rw [namesIn, missing]
      exact List.nodup_nil
  apart first second name inFirst inSecond := by
    rcases mem_namesIn_of_fills fills inFirst with old | ⟨isOwner, new, -⟩ <;>
      rcases mem_namesIn_of_fills fills inSecond with oldToo | ⟨isOwnerToo, newToo, -⟩
    · exact lists.apart first second name old oldToo
    · have bound := lists.known first name old
      omega
    · have bound := lists.known second name oldToo
      omega
    · exact Option.some.inj (isOwner.symm.trans isOwnerToo)

end ListsApart

theorem run_listsApart (source : List Char) (state : State) (frames : List Frame)
    (lists : ListsApart state) : ListsApart (run source state frames) := by
  fun_induction run source state frames with
  | case1 state => exact lists
  | case2 state frame rest visited ih =>
    apply ih
    obtain stays | begins := visit_stays_or_begins source state frame
    · exact lists.fill stays.fills
    · exact (lists.openDeclaration frame.tree.kind frame.context).fill begins.fills

end Walk

/-! ## The unit of a tree -/

/-- The declarations form an ordered forest, and their numbers are its depth-first preorder. -/
structure TranslationUnit.IsForest (unit : TranslationUnit) : Prop where
  once : (unit.topLevel ++ (List.range unit.declarations.size).flatMap unit.nested).Perm
    (List.range unit.declarations.size)
  increasing : ∀ parent, ∀ child ∈ unit.nested parent, parent < child
  inOrder : InPreorder unit.nested unit.topLevel (List.range unit.declarations.size)

/-- The numbers of occurrences and of bindings stand for something, and no occurrence is listed
twice. -/
structure SourceUnit.IsIndexed (unit : SourceUnit) : Prop where
  listed : ∀ declaration, ∀ name ∈ unit.toTranslationUnit.names declaration,
    name < unit.names.size
  once : ∀ declaration, (unit.toTranslationUnit.names declaration).Nodup
  apart : ∀ first second name, name ∈ unit.toTranslationUnit.names first →
    name ∈ unit.toTranslationUnit.names second → first = second
  bindings : ∀ name binding, unit.toTranslationUnit.binding? name = some binding →
    binding < unit.symbols.size
  references : unit.references.size = unit.symbols.size
  referring : ∀ (binding : Nat) (names : List Nat), unit.references[binding]? = some names →
    ∀ name ∈ names, name < unit.names.size

namespace SourceUnit

open Walk

variable (source : List Char) (language : Language) (withDeclarations : Bool) (tree : ParseTree)

theorem nested_ofTree :
    (ofTree source language withDeclarations tree).toTranslationUnit.nested =
      (walked source language tree).nestedIn := by
  funext declaration
  simp only [TranslationUnit.nested, toTranslationUnit, ofTree, State.nestedIn,
    Array.getElem?_map, (walked_rebinds source language tree).declarations]
  cases (walked source language tree).declarations[declaration]? <;> rfl

theorem names_ofTree :
    (ofTree source language withDeclarations tree).toTranslationUnit.names =
      (walked source language tree).namesIn := by
  funext declaration
  simp only [TranslationUnit.names, toTranslationUnit, ofTree, State.namesIn,
    Array.getElem?_map, (walked_rebinds source language tree).declarations]
  cases (walked source language tree).declarations[declaration]? <;> rfl

theorem isForest_ofTree :
    (ofTree source language withDeclarations tree).toTranslationUnit.IsForest := by
  obtain ⟨roots, plants⟩ := exists_plants_run source (State.initial (language = .cpp))
    [Frame.root tree] none (by simp [Frame.root, Context.file]) nofun
  have topLevel : (ofTree source language withDeclarations tree).toTranslationUnit.topLevel =
      roots := by
    have here := plants.here
    exact (walked_rebinds source language tree).topLevel.trans here
  have size : (ofTree source language withDeclarations tree).toTranslationUnit.declarations.size =
      (walked source language tree).declarations.size := by
    simp [toTranslationUnit, ofTree, (walked_rebinds source language tree).declarations]
  have inOrder : InPreorder
      (ofTree source language withDeclarations tree).toTranslationUnit.nested
      (ofTree source language withDeclarations tree).toTranslationUnit.topLevel
      (List.range
        (ofTree source language withDeclarations tree).toTranslationUnit.declarations.size) := by
    rw [nested_ofTree, topLevel, size, List.range_eq_range']
    exact plants.order
  refine ⟨inOrder.perm, ?_, inOrder⟩
  intro parent child member
  by_cases known : parent <
      (ofTree source language withDeclarations tree).toTranslationUnit.declarations.size
  · exact inOrder.lt_of_mem_nested List.pairwise_lt_range parent (List.mem_range.2 known) child
      member
  · rw [TranslationUnit.nested, Array.getElem?_eq_none (Nat.le_of_not_lt known)] at member
    cases member

theorem isIndexed_ofTree : (ofTree source language withDeclarations tree).IsIndexed := by
  have lists : ListsApart (walked source language tree) :=
    run_listsApart source _ _ (.initial _)
  have size : (ofTree source language withDeclarations tree).names.size =
      (walked source language tree).names.size := (walked_rebinds source language tree).names
  constructor
  case listed =>
    rw [names_ofTree, size]
    exact lists.known
  case once =>
    rw [names_ofTree]
    exact lists.once
  case apart =>
    rw [names_ofTree]
    exact lists.apart
  case bindings =>
    intro name binding bound
    obtain ⟨occurrence, there, isBinding⟩ :
        ∃ occurrence, (walked source language tree).resolve.names[name]? = some occurrence ∧
          occurrence.binding = some binding := by
      simp only [TranslationUnit.binding?, toTranslationUnit, ofTree, Array.getElem?_map] at bound
      cases found : (walked source language tree).resolve.names[name]? with
      | none => simp [found] at bound
      | some occurrence => exact ⟨occurrence, rfl, by simpa [found] using bound⟩
    obtain ⟨kind, head⟩ := (resolved_spelled source language tree).names name occurrence binding
      there isBinding
    exact State.lt_size_of_head? head
  case references => simp [ofTree]
  case referring =>
    intro binding names there name member
    obtain ⟨-, rfl⟩ : _ ∧ referencesTo _ withDeclarations binding = names := by
      simpa [ofTree, Array.getElem?_range, Option.map_eq_some_iff] using there
    exact List.mem_range.1 (List.mem_filter.1 member).1

/-- The declarations of a unit form an ordered forest that is numbered in depth-first preorder.
Every occurrence is listed by at most one declaration, and all occurrences and bindings that are
referred to are there. -/
theorem declarations_form_forest :
    (ofTree source language withDeclarations tree).toTranslationUnit.IsForest ∧
      (ofTree source language withDeclarations tree).IsIndexed :=
  ⟨isForest_ofTree source language withDeclarations tree,
    isIndexed_ofTree source language withDeclarations tree⟩

end SourceUnit

end CrossReference
