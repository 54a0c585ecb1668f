import CrossReference.Proofs.SymbolTable.Rearrange
import CrossReference.Proofs.TranslationUnit.Forest
import Mathlib.Data.List.Nodup

/-!
# Building a unit again

A unit can be read off and built again from nothing: first its bindings, then its declarations and
its occurrences, each in the order of their numbers, and last the declarations that are to count as
references.  Where the declarations form a forest and names are listed in order, every edit is
admitted, and what has been built after a number of edits is the part of the unit with lower
numbers.
-/

set_option autoImplicit false

namespace CrossReference

/-! ## Lists of numbers -/

def below (bound : Nat) (members : List Nat) : List Nat :=
  members.filter (· < bound)

theorem below_zero (members : List Nat) : below 0 members = [] := by
  simp [below]

theorem below_eq_self {bound : Nat} {members : List Nat}
    (all : ∀ member ∈ members, member < bound) : below bound members = members := by
  rw [below, List.filter_eq_self]
  intro member isMember
  exact decide_eq_true (all member isMember)

theorem below_eq_nil {bound : Nat} {members : List Nat}
    (none : ∀ member ∈ members, bound ≤ member) : below bound members = [] := by
  rw [below, List.filter_eq_nil_iff]
  intro member isMember
  have high := none member isMember
  simpa using high

theorem below_succ {members : List Nat} (increasing : members.Pairwise (· < ·)) (bound : Nat) :
    below (bound + 1) members =
      below bound members ++ if bound ∈ members then [bound] else [] := by
  induction members with
  | nil => rfl
  | cons first rest ih =>
    obtain ⟨least, restIncreasing⟩ := List.pairwise_cons.1 increasing
    have ofRest := ih restIncreasing
    unfold below at ofRest ⊢
    rcases Nat.lt_trichotomy first bound with lower | rfl | higher
    · have other : bound ≠ first := by omega
      rw [List.filter_cons_of_pos (by simp; omega), List.filter_cons_of_pos (by simpa using lower),
        ofRest, List.cons_append]
      simp only [List.mem_cons, other, false_or]
    · have noneBelow : rest.filter (fun member => decide (member < first)) = [] :=
        below_eq_nil fun member isMember => Nat.le_of_lt (least member isMember)
      have notAgain : first ∉ rest := fun again => Nat.lt_irrefl _ (least first again)
      rw [noneBelow, if_neg notAgain, List.append_nil] at ofRest
      rw [List.filter_cons_of_pos (by simp), List.filter_cons_of_neg (by simp), ofRest, noneBelow,
        if_pos List.mem_cons_self, List.nil_append]
    · have noneBelow : rest.filter (fun member => decide (member < bound)) = [] :=
        below_eq_nil fun member isMember => by have := least member isMember; omega
      have notLater : bound ∉ rest := fun later => by have := least bound later; omega
      have other : bound ≠ first := by omega
      rw [List.filter_cons_of_neg (by simp; omega), List.filter_cons_of_neg (by simp; omega),
        ofRest]
      simp only [List.mem_cons, other, false_or]

namespace TranslationUnit

/-! ## The edits -/

/-- The unit after a list of edits, if each of them is admitted when its turn comes. -/
def applyAdmitted? (unit : TranslationUnit) : List Edit → Option TranslationUnit
  | [] => some unit
  | edit :: rest => if unit.admits edit then applyAdmitted? (unit.apply edit) rest else none

theorem applyAdmitted?_append (unit : TranslationUnit) (first second : List Edit) :
    unit.applyAdmitted? (first ++ second) =
      (unit.applyAdmitted? first).bind fun built => built.applyAdmitted? second := by
  induction first generalizing unit with
  | nil => rfl
  | cons edit rest ih =>
    rw [List.cons_append, applyAdmitted?, applyAdmitted?]
    split
    · exact ih (unit.apply edit)
    · rfl

theorem applyAll_of_admitted {unit built : TranslationUnit} {edits : List Edit}
    (admitted : unit.applyAdmitted? edits = some built) : unit.applyAll edits = built := by
  induction edits generalizing unit with
  | nil => exact Option.some.inj admitted
  | cons edit rest ih =>
    rw [applyAdmitted?] at admitted
    split at admitted
    · exact ih admitted
    · cases admitted

/-- Edits for the numbers below a count lead from stage to stage. -/
theorem applyAdmitted?_range (stage : Nat → TranslationUnit) (edits : Nat → List Edit) (count : Nat)
    (step : ∀ number < count,
      (stage number).applyAdmitted? (edits number) = some (stage (number + 1))) :
    (stage 0).applyAdmitted? ((List.range count).flatMap edits) = some (stage count) := by
  induction count with
  | zero => rfl
  | succ count ih =>
    have before := ih fun number less => step number (Nat.lt_succ_of_lt less)
    rw [List.range_succ, List.flatMap_append, applyAdmitted?_append, before, Option.bind_some,
      List.flatMap_singleton]
    exact step count (Nat.lt_succ_self count)

variable (unit : TranslationUnit)

def parent? (declaration : Nat) : Option Nat :=
  (List.range unit.declarations.size).find? fun outer =>
    (unit.nested outer).contains declaration

def declarationEdits (declaration : Nat) : List Edit :=
  [.addDeclaration (unit.parent? declaration), .setActive declaration (unit.isActive declaration)]

def occurrenceEdits (name : Nat) : List Edit :=
  match unit.occurrences[name]? with
  | some occurrence => [.addOccurrence (unit.owner? name) occurrence]
  | none => []

def reportEdits (name : Nat) : List Edit :=
  match unit.occurrences[name]? with
  | some ⟨true, _, _, some binding⟩ => [.report binding name]
  | _ => []

/-- The edits that build a unit again. -/
def replay (declarationsAsReferences : Bool) : List Edit :=
  List.replicate unit.references.size .addBinding ++
    (List.range unit.declarations.size).flatMap unit.declarationEdits ++
    (List.range unit.occurrences.size).flatMap unit.occurrenceEdits ++
    if declarationsAsReferences then (List.range unit.occurrences.size).flatMap unit.reportEdits
    else []

/-! ## Units that are built again -/

/-- A unit of one file in which everything is numbered in the order in which it is listed. -/
structure IsOrdered : Prop where
  forest : unit.IsForest
  lists : unit.NamesApart
  increasing : ∀ declaration, (unit.names declaration).Pairwise (· < ·)
  listed : ∀ declaration, ∀ name ∈ unit.names declaration, name < unit.occurrences.size
  inFile : ∀ declaration < unit.declarations.size, unit.isInFile declaration = true
  bindings : ∀ name binding, unit.binding? name = some binding → binding < unit.references.size

variable {unit}

namespace IsForest

variable (forest : unit.IsForest)

include forest

theorem increasing_topLevel : unit.topLevel.Pairwise (· < ·) :=
  List.pairwise_lt_range.sublist forest.inOrder.sublist_roots

theorem increasing_nested (declaration : Nat) : (unit.nested declaration).Pairwise (· < ·) := by
  by_cases known : declaration < unit.declarations.size
  · exact List.pairwise_lt_range.sublist
      (forest.inOrder.sublist_nested declaration (List.mem_range.2 known))
  · rw [nested, Array.getElem?_eq_none (Nat.le_of_not_lt known)]
    exact List.Pairwise.nil

theorem lt_size_of_mem_topLevel {declaration : Nat} (isTop : declaration ∈ unit.topLevel) :
    declaration < unit.declarations.size :=
  List.mem_range.1 (forest.inOrder.mem_of_mem_roots isTop)

theorem lt_size_of_mem_nested {outer inner : Nat} (member : inner ∈ unit.nested outer) :
    outer < unit.declarations.size ∧ inner < unit.declarations.size := by
  have known : outer < unit.declarations.size := by
    apply Nat.lt_of_not_le
    intro unknown
    simp [nested, Array.getElem?_eq_none unknown] at member
  have all := forest.inOrder.sublist_nested outer (List.mem_range.2 known)
  exact ⟨known, List.mem_range.1 (all.subset member)⟩

theorem parent?_eq_some_iff {outer inner : Nat} :
    unit.parent? inner = some outer ↔ inner ∈ unit.nested outer := by
  constructor
  · intro found
    simpa using List.find?_some found
  · intro member
    have nodup := (forest.once.nodup_iff.2 List.nodup_range)
    obtain ⟨-, nestedNodup, -⟩ := List.nodup_append.1 nodup
    obtain ⟨known, -⟩ := forest.lt_size_of_mem_nested member
    cases found : unit.parent? inner with
    | none =>
      have absent := List.find?_eq_none.1 found outer (List.mem_range.2 known)
      simp [member] at absent
    | some other =>
      have inOther : inner ∈ unit.nested other := by simpa using List.find?_some found
      obtain ⟨otherKnown, -⟩ := forest.lt_size_of_mem_nested inOther
      obtain ⟨-, apart⟩ := List.nodup_flatMap.1 nestedNodup
      rw [List.pairwise_iff_getElem] at apart
      have disjoint (lower higher : Nat) (isKnown : higher < unit.declarations.size)
          (order : lower < higher) : List.Disjoint (unit.nested lower) (unit.nested higher) := by
        have inRange : higher < (List.range unit.declarations.size).length := by
          rwa [List.length_range]
        have inRangeToo := Nat.lt_trans order inRange
        have pair : List.Disjoint (unit.nested (List.range unit.declarations.size)[lower])
            (unit.nested (List.range unit.declarations.size)[higher]) :=
          apart lower higher inRangeToo inRange order
        rwa [List.getElem_range, List.getElem_range] at pair
      rcases Nat.lt_trichotomy other outer with before | rfl | after
      · exact absurd member (disjoint other outer known before inOther)
      · rfl
      · exact absurd inOther (disjoint outer other otherKnown after member)

theorem parent?_eq_none_iff {declaration : Nat} (known : declaration < unit.declarations.size) :
    unit.parent? declaration = none ↔ declaration ∈ unit.topLevel := by
  have nodup := (forest.once.nodup_iff.2 List.nodup_range)
  obtain ⟨-, -, disjoint⟩ := List.nodup_append.1 nodup
  constructor
  · intro none
    have somewhere := forest.once.mem_iff.2 (List.mem_range.2 known)
    rcases List.mem_append.1 somewhere with isTop | isNested
    · exact isTop
    · obtain ⟨outer, -, member⟩ := List.mem_flatMap.1 isNested
      rw [(forest.parent?_eq_some_iff).2 member] at none
      cases none
  · intro isTop
    cases found : unit.parent? declaration with
    | none => rfl
    | some outer =>
      have member := forest.parent?_eq_some_iff.1 found
      obtain ⟨outerKnown, -⟩ := forest.lt_size_of_mem_nested member
      have isNested := List.mem_flatMap.2 ⟨outer, List.mem_range.2 outerKnown, member⟩
      exact absurd rfl (disjoint declaration isTop declaration isNested)

end IsForest

/-! ## What has been built -/

theorem ext_views {first second : TranslationUnit} (topLevel : first.topLevel = second.topLevel)
    (size : first.declarations.size = second.declarations.size)
    (nested : ∀ declaration, first.nested declaration = second.nested declaration)
    (names : ∀ declaration, first.names declaration = second.names declaration)
    (active : ∀ declaration, first.isActive declaration = second.isActive declaration)
    (inFile : ∀ declaration, first.isInFile declaration = second.isInFile declaration)
    (occurrences : first.occurrences = second.occurrences)
    (references : first.references = second.references) : first = second := by
  have declarations : first.declarations = second.declarations := by
    apply Array.ext size
    intro declaration isFirst isSecond
    have sameNested := nested declaration
    have sameNames := names declaration
    have sameActive := active declaration
    have sameInFile := inFile declaration
    simp only [TranslationUnit.nested, TranslationUnit.names, TranslationUnit.isActive,
      TranslationUnit.isInFile, Array.getElem?_eq_getElem isFirst,
      Array.getElem?_eq_getElem isSecond] at sameNested sameNames sameActive sameInFile
    cases found : first.declarations[declaration]
    cases other : second.declarations[declaration]
    simp_all
  cases first
  cases second
  simp_all

variable (unit) in
def binds (declares : Bool) (binding name : Nat) : Bool :=
  match unit.occurrences[name]? with
  | some occurrence => occurrence.declares == declares && occurrence.binding == some binding
  | none => false

variable (unit) in
/-- The part of a unit with the declarations and occurrences below two bounds, in which bindings are
referred to by what uses them. -/
def upTo (declarations occurrences : Nat) : TranslationUnit where
  topLevel := below declarations unit.topLevel
  declarations := (Array.range declarations).map fun declaration =>
    ⟨below declarations (unit.nested declaration), below occurrences (unit.names declaration),
      unit.isActive declaration, true⟩
  occurrences := unit.occurrences.take occurrences
  references := (Array.range unit.references.size).map fun binding =>
    (List.range occurrences).filter (unit.binds false binding)

section Views

variable (declarations occurrences declaration : Nat)

theorem upTo_size : (unit.upTo declarations occurrences).declarations.size = declarations := by
  simp [upTo]

theorem names_upTo :
    (unit.upTo declarations occurrences).names declaration =
      if declaration < declarations then below occurrences (unit.names declaration) else [] := by
  by_cases known : declaration < declarations <;> simp [upTo, names, known]

theorem isActive_upTo :
    (unit.upTo declarations occurrences).isActive declaration =
      if declaration < declarations then unit.isActive declaration else false := by
  by_cases known : declaration < declarations <;> simp [upTo, isActive, known]

theorem isInFile_upTo :
    (unit.upTo declarations occurrences).isInFile declaration =
      decide (declaration < declarations) := by
  by_cases known : declaration < declarations <;> simp [upTo, isInFile, known]

theorem nested_upTo (forest : unit.IsForest) :
    (unit.upTo declarations occurrences).nested declaration =
      below declarations (unit.nested declaration) := by
  by_cases known : declaration < declarations
  · simp [upTo, nested, known]
  · rw [below_eq_nil]
    · simp [upTo, nested, known]
    · intro inner member
      have after := forest.increasing declaration inner member
      omega

end Views

/-! ## Building the declarations -/

section Declarations

variable (unit) (parent : Option Nat) (active : Bool)

def extended : TranslationUnit :=
  (unit.apply (.addDeclaration parent)).apply (.setActive unit.declarations.size active)

theorem addDeclaration_size :
    (unit.apply (.addDeclaration parent)).declarations.size = unit.declarations.size + 1 := by
  cases parent <;> simp [apply, link]

theorem extended_size :
    (unit.extended parent active).declarations.size = unit.declarations.size + 1 := by
  rw [← addDeclaration_size unit parent]
  exact Array.size_modify

theorem topLevel_extended :
    (unit.extended parent active).topLevel =
      unit.topLevel ++ if parent = none then [unit.declarations.size] else [] := by
  cases parent <;> simp [extended, apply, link]

theorem nested_extended (declaration : Nat) :
    (unit.extended parent active).nested declaration =
      unit.nested declaration ++
        if parent = some declaration ∧ declaration < unit.declarations.size + 1 then
          [unit.declarations.size] else [] := by
  have pushed : (unit.declarations.push ⟨[], [], true, true⟩)[declaration]? =
      if declaration = unit.declarations.size then some ⟨[], [], true, true⟩
      else unit.declarations[declaration]? := Array.getElem?_push
  cases parent with
  | none =>
    simp only [extended, apply, link, nested, Array.getElem?_modify, pushed]
    by_cases new : declaration = unit.declarations.size
    · simp [new]
    · simp [new, Ne.symm new]
  | some outer =>
    simp only [extended, apply, link, nested, Array.getElem?_modify, pushed]
    by_cases new : declaration = unit.declarations.size
    · by_cases inner : outer = unit.declarations.size <;> simp [new, inner]
    · cases found : unit.declarations[declaration]? with
      | none =>
        have unknown := Array.getElem?_eq_none_iff.1 found
        have beyond : ¬ declaration < unit.declarations.size + 1 := by omega
        simp [new, Ne.symm new, beyond]
      | some found' =>
        obtain ⟨known, -⟩ := Array.getElem?_eq_some_iff.1 found
        have inside : declaration < unit.declarations.size + 1 := by omega
        by_cases inner : outer = declaration <;> simp [new, Ne.symm new, inner, inside]

theorem marks_extended (declaration : Nat) :
    (unit.extended parent active).names declaration = unit.names declaration ∧
      (unit.extended parent active).isActive declaration =
        (if declaration = unit.declarations.size then active else unit.isActive declaration) ∧
      (unit.extended parent active).isInFile declaration =
        (if declaration = unit.declarations.size then true else unit.isInFile declaration) := by
  have pushed : (unit.declarations.push ⟨[], [], true, true⟩)[declaration]? =
      if declaration = unit.declarations.size then some ⟨[], [], true, true⟩
      else unit.declarations[declaration]? := Array.getElem?_push
  cases parent with
  | none =>
    simp only [extended, apply, link, names, isActive, isInFile, Array.getElem?_modify, pushed]
    by_cases new : declaration = unit.declarations.size
    · simp [new]
    · simp [new, Ne.symm new]
  | some outer =>
    simp only [extended, apply, link, names, isActive, isInFile, Array.getElem?_modify, pushed]
    by_cases new : declaration = unit.declarations.size
    · by_cases inner : outer = unit.declarations.size <;> simp [new, inner]
    · cases unit.declarations[declaration]? with
      | none => simp [new, Ne.symm new]
      | some found => by_cases inner : outer = declaration <;> simp [new, Ne.symm new, inner]

theorem occurrences_extended :
    (unit.extended parent active).occurrences = unit.occurrences ∧
      (unit.extended parent active).references = unit.references := by
  cases parent <;> exact ⟨rfl, rfl⟩

variable {unit}

theorem extended_upTo (ordered : unit.IsOrdered) {declaration : Nat}
    (known : declaration < unit.declarations.size) :
    (unit.upTo declaration 0).extended (unit.parent? declaration) (unit.isActive declaration) =
      unit.upTo (declaration + 1) 0 := by
  have forest := ordered.forest
  have size : (unit.upTo declaration 0).declarations.size = declaration := upTo_size _ _
  have marks := marks_extended (unit.upTo declaration 0) (unit.parent? declaration)
    (unit.isActive declaration)
  have rest := occurrences_extended (unit.upTo declaration 0) (unit.parent? declaration)
    (unit.isActive declaration)
  apply ext_views
  case topLevel =>
    have isTop := forest.parent?_eq_none_iff known
    rw [topLevel_extended, size]
    by_cases top : declaration ∈ unit.topLevel
    · have more := below_succ forest.increasing_topLevel declaration
      rw [if_pos top] at more
      rw [if_pos (isTop.2 top)]
      exact more.symm
    · have more := below_succ forest.increasing_topLevel declaration
      rw [if_neg top] at more
      rw [if_neg fun none => top (isTop.1 none)]
      exact more.symm
  case size => rw [extended_size, upTo_size, upTo_size]
  case nested =>
    intro other
    have isParent : unit.parent? declaration = some other ↔ declaration ∈ unit.nested other :=
      forest.parent?_eq_some_iff
    rw [nested_extended, nested_upTo _ _ _ forest, nested_upTo _ _ _ forest, size,
      below_succ (forest.increasing_nested other) declaration]
    by_cases member : declaration ∈ unit.nested other
    · have before := forest.increasing other declaration member
      rw [if_pos ⟨isParent.2 member, by omega⟩, if_pos member]
    · rw [if_neg fun both => member (isParent.1 both.1), if_neg member]
  case names =>
    intro other
    rw [(marks other).1, names_upTo, names_upTo]
    simp only [below_zero, ite_self]
  case active =>
    intro other
    rw [(marks other).2.1, isActive_upTo, isActive_upTo, size]
    rcases Nat.lt_trichotomy other declaration with before | rfl | after
    · rw [if_neg (by omega), if_pos before, if_pos (by omega)]
    · rw [if_pos rfl, if_pos (by omega)]
    · rw [if_neg (by omega), if_neg (by omega), if_neg (by omega)]
  case inFile =>
    intro other
    rw [(marks other).2.2, isInFile_upTo, isInFile_upTo, size]
    rcases Nat.lt_trichotomy other declaration with before | rfl | after
    · rw [if_neg (by omega), decide_eq_true before, decide_eq_true (by omega)]
    · rw [if_pos rfl, decide_eq_true (by omega)]
    · rw [if_neg (by omega), decide_eq_false (by omega), decide_eq_false (by omega)]
  case occurrences => exact rest.1
  case references => exact rest.2

theorem applyAdmitted?_declarationEdits (ordered : unit.IsOrdered) {declaration : Nat}
    (known : declaration < unit.declarations.size) :
    (unit.upTo declaration 0).applyAdmitted? (unit.declarationEdits declaration) =
      some (unit.upTo (declaration + 1) 0) := by
  have forest := ordered.forest
  have size : (unit.upTo declaration 0).declarations.size = declaration := upTo_size _ _
  have admitsNew : (unit.upTo declaration 0).admits
      (.addDeclaration (unit.parent? declaration)) = true := by
    rw [admits]
    cases isParent : unit.parent? declaration with
    | none => rfl
    | some outer =>
      have before := forest.increasing outer declaration (forest.parent?_eq_some_iff.1 isParent)
      rw [hasDeclaration, size]
      exact decide_eq_true before
  have admitsMark : ((unit.upTo declaration 0).apply
      (.addDeclaration (unit.parent? declaration))).admits
        (.setActive declaration (unit.isActive declaration)) = true := by
    rw [admits, hasDeclaration, addDeclaration_size, size]
    exact decide_eq_true (Nat.lt_succ_self declaration)
  have built := extended_upTo ordered known
  rw [extended, size] at built
  rw [declarationEdits, applyAdmitted?, if_pos admitsNew, applyAdmitted?, if_pos admitsMark,
    applyAdmitted?, built]

end Declarations

/-! ## Building the occurrences -/

section Occurrences

variable (unit)

theorem addOccurrence_views (owner : Option Nat) (occurrence : Occurrence) (declaration : Nat) :
    (unit.apply (.addOccurrence owner occurrence)).nested declaration = unit.nested declaration ∧
      (unit.apply (.addOccurrence owner occurrence)).names declaration =
        unit.names declaration ++
          (if owner = some declaration ∧ declaration < unit.declarations.size then
            [unit.occurrences.size] else []) ∧
      (unit.apply (.addOccurrence owner occurrence)).isActive declaration =
        unit.isActive declaration ∧
      (unit.apply (.addOccurrence owner occurrence)).isInFile declaration =
        unit.isInFile declaration := by
  have kept : (unit.addDetached occurrence).declarations = unit.declarations := by
    unfold addDetached
    simp only
    split <;> rfl
  cases owner with
  | none => simp [apply, nested, names, isActive, isInFile, kept]
  | some owner =>
    simp only [apply, nested, names, isActive, isInFile, kept, Array.getElem?_modify]
    cases found : unit.declarations[declaration]? with
    | none =>
      have unknown := Array.getElem?_eq_none_iff.1 found
      have outside : ¬ declaration < unit.declarations.size := by omega
      simp [outside]
    | some found' =>
      obtain ⟨known, -⟩ := Array.getElem?_eq_some_iff.1 found
      by_cases same : owner = declaration <;> simp [same, known]

theorem rest_addOccurrence (owner : Option Nat) (occurrence : Occurrence) :
    (unit.apply (.addOccurrence owner occurrence)).topLevel = unit.topLevel ∧
      (unit.apply (.addOccurrence owner occurrence)).declarations.size =
        unit.declarations.size ∧
      (unit.apply (.addOccurrence owner occurrence)).occurrences =
        unit.occurrences.push occurrence ∧
      (unit.apply (.addOccurrence owner occurrence)).references =
        match occurrence.declares, occurrence.binding with
        | false, some binding => unit.references.modify binding (· ++ [unit.occurrences.size])
        | _, _ => unit.references := by
  obtain ⟨declares, inFile, location, binding⟩ := occurrence
  cases owner <;> cases declares <;> cases binding <;> simp [apply, addDetached, report]

theorem modify_map_range (count binding name : Nat) (list : Nat → List Nat) :
    ((Array.range count).map list).modify binding (· ++ [name]) =
      (Array.range count).map fun other =>
        list other ++ if binding = other then [name] else [] := by
  apply Array.ext_getElem?
  intro other
  rw [Array.getElem?_modify, Array.getElem?_map, Array.getElem?_map]
  by_cases known : other < count
  · by_cases same : binding = other
    · simp [known, same]
    · simp [known, same]
  · simp [known]

theorem filter_range_succ (test : Nat → Bool) (bound : Nat) :
    (List.range (bound + 1)).filter test =
      (List.range bound).filter test ++ if test bound = true then [bound] else [] := by
  rw [List.range_succ, List.filter_append]
  cases passes : test bound <;> simp [passes]

variable {unit}

theorem binds_eq {name : Nat} {occurrence : Occurrence}
    (there : unit.occurrences[name]? = some occurrence) (declares : Bool) (binding : Nat) :
    unit.binds declares binding name =
      (occurrence.declares == declares && occurrence.binding == some binding) := by
  rw [binds, there]

theorem names_upTo_all (occurrences declaration : Nat) :
    (unit.upTo unit.declarations.size occurrences).names declaration =
      below occurrences (unit.names declaration) := by
  rw [names_upTo]
  split
  · rfl
  · rename_i unknown
    rw [names, Array.getElem?_eq_none (Nat.le_of_not_lt unknown)]
    rfl

theorem occurrences_upTo_size {occurrences : Nat} (known : occurrences ≤ unit.occurrences.size)
    (declarations : Nat) :
    (unit.upTo declarations occurrences).occurrences.size = occurrences := by
  simp only [upTo, Array.take_eq_extract, Array.size_extract]
  omega

/-- With the next occurrence the part that is built has one more. -/
theorem addOccurrence_upTo (ordered : unit.IsOrdered) {name : Nat} {occurrence : Occurrence}
    (there : unit.occurrences[name]? = some occurrence) :
    (unit.upTo unit.declarations.size name).apply
        (.addOccurrence (unit.owner? name) occurrence) =
      unit.upTo unit.declarations.size (name + 1) := by
  obtain ⟨known, isThere⟩ := Array.getElem?_eq_some_iff.1 there
  have forest := ordered.forest
  have count := occurrences_upTo_size (Nat.le_of_lt known) unit.declarations.size
  have isOwner (declaration : Nat) : unit.owner? name = some declaration ↔
      name ∈ unit.names declaration := owner?_eq_some_iff ordered.lists
  have views := addOccurrence_views (unit.upTo unit.declarations.size name) (unit.owner? name)
    occurrence
  obtain ⟨topLevel, sizeThen, occurrences, references⟩ :=
    rest_addOccurrence (unit.upTo unit.declarations.size name) (unit.owner? name) occurrence
  apply ext_views
  case topLevel => exact topLevel
  case size => rw [sizeThen, upTo_size, upTo_size]
  case nested =>
    intro declaration
    rw [(views declaration).1, nested_upTo _ _ _ forest, nested_upTo _ _ _ forest]
  case names =>
    intro declaration
    rw [(views declaration).2.1, names_upTo_all, names_upTo_all, upTo_size, count,
      below_succ (ordered.increasing declaration)]
    by_cases member : name ∈ unit.names declaration
    · rw [if_pos ⟨(isOwner declaration).2 member, lt_size_of_mem_names member⟩, if_pos member]
    · rw [if_neg fun both => member ((isOwner declaration).1 both.1), if_neg member]
  case active =>
    intro declaration
    rw [(views declaration).2.2.1, isActive_upTo, isActive_upTo]
  case inFile =>
    intro declaration
    rw [(views declaration).2.2.2, isInFile_upTo, isInFile_upTo]
  case occurrences =>
    rw [occurrences, ← isThere]
    simp only [upTo, Array.take_eq_extract]
    rw [Array.push_extract_getElem known, Nat.zero_min]
  case references =>
    have test := binds_eq there false
    rw [references, count]
    simp only [upTo, filter_range_succ, test]
    cases declares : occurrence.declares with
    | true => simp
    | false =>
      cases binding : occurrence.binding with
      | none => simp
      | some binding =>
        simp only [modify_map_range, BEq.rfl, Bool.true_and, beq_iff_eq, Option.some.injEq]

theorem admits_addOccurrence (ordered : unit.IsOrdered) {name : Nat} {occurrence : Occurrence}
    (there : unit.occurrences[name]? = some occurrence) :
    (unit.upTo unit.declarations.size name).admits
      (.addOccurrence (unit.owner? name) occurrence) = true := by
  rw [admits, Bool.and_eq_true]
  constructor
  · cases owner : unit.owner? name with
    | none => rfl
    | some declaration =>
      have listed := (owner?_eq_some_iff ordered.lists).1 owner
      rw [hasDeclaration, upTo_size]
      exact decide_eq_true (lt_size_of_mem_names listed)
  · cases bound : occurrence.binding with
    | none => rfl
    | some binding =>
      have isBound : unit.binding? name = some binding := by simp only [binding?, there, bound]
      have inside := ordered.bindings name binding isBound
      simpa [hasBinding, upTo] using inside

theorem applyAdmitted?_occurrenceEdits (ordered : unit.IsOrdered) {name : Nat}
    (known : name < unit.occurrences.size) :
    (unit.upTo unit.declarations.size name).applyAdmitted? (unit.occurrenceEdits name) =
      some (unit.upTo unit.declarations.size (name + 1)) := by
  have there : unit.occurrences[name]? = some unit.occurrences[name] :=
    Array.getElem?_eq_getElem known
  rw [occurrenceEdits, there]
  simp only
  rw [applyAdmitted?, if_pos (admits_addOccurrence ordered there), applyAdmitted?,
    addOccurrence_upTo ordered there]

end Occurrences

/-! ## The whole unit -/

section Whole

variable (unit) in
/-- The whole unit, in which what uses a binding refers to it, and of the names that declare it those
below a bound. -/
def reportedUpTo (bound : Nat) : TranslationUnit :=
  { unit with
    references := (Array.range unit.references.size).map fun binding =>
      (List.range unit.occurrences.size).filter (unit.binds false binding) ++
        (List.range bound).filter (unit.binds true binding) }

theorem applyAdmitted?_addBinding (built : TranslationUnit) (count : Nat) :
    built.applyAdmitted? (List.replicate count .addBinding) =
      some { built with references := built.references ++ Array.replicate count [] } := by
  induction count generalizing built with
  | zero => simp [applyAdmitted?]
  | succ count ih =>
    have admitted : built.admits .addBinding = true := rfl
    have moved : built.references.push [] ++ Array.replicate count [] =
        built.references ++ Array.replicate (count + 1) [] := by
      apply Array.toList_inj.1
      simp [List.replicate_succ]
    rw [List.replicate_succ, applyAdmitted?, if_pos admitted, ih, ← moved]
    rfl

theorem applyAdmitted?_bindings (unit : TranslationUnit) :
    empty.applyAdmitted? (List.replicate unit.references.size .addBinding) =
      some (unit.upTo 0 0) := by
  rw [applyAdmitted?_addBinding]
  apply congrArg some
  have lists : (#[] : Array (List Nat)) ++ Array.replicate unit.references.size [] =
      (Array.range unit.references.size).map fun binding =>
        (List.range 0).filter (unit.binds false binding) := by
    apply Array.ext_getElem?
    intro binding
    by_cases known : binding < unit.references.size <;> simp [known]
  simp only [upTo, empty, below_zero, lists]
  simp

/-- All of a unit lies below the numbers of its declarations and occurrences. -/
theorem upTo_all (ordered : unit.IsOrdered) :
    unit.upTo unit.declarations.size unit.occurrences.size = unit.reportedUpTo 0 := by
  have forest := ordered.forest
  apply ext_views
  case topLevel => exact below_eq_self fun declaration isTop => forest.lt_size_of_mem_topLevel isTop
  case size => exact upTo_size _ _
  case nested =>
    intro declaration
    rw [nested_upTo _ _ _ forest, below_eq_self]
    · rfl
    · intro inner member
      exact (forest.lt_size_of_mem_nested member).2
  case names =>
    intro declaration
    rw [names_upTo_all, below_eq_self (ordered.listed declaration)]
    rfl
  case active =>
    intro declaration
    rw [isActive_upTo]
    split
    · rfl
    · rename_i unknown
      have missing := Array.getElem?_eq_none (Nat.le_of_not_lt unknown)
      simp [reportedUpTo, isActive, missing]
  case inFile =>
    intro declaration
    rw [isInFile_upTo]
    by_cases known : declaration < unit.declarations.size
    · exact (decide_eq_true known).trans (ordered.inFile declaration known).symm
    · simp [reportedUpTo, isInFile, known]
  case occurrences => simp [upTo, reportedUpTo]
  case references => simp [upTo, reportedUpTo]

theorem applyAdmitted?_reportEdits (ordered : unit.IsOrdered) {name : Nat}
    (known : name < unit.occurrences.size) :
    (unit.reportedUpTo name).applyAdmitted? (unit.reportEdits name) =
      some (unit.reportedUpTo (name + 1)) := by
  have there : unit.occurrences[name]? = some unit.occurrences[name] :=
    Array.getElem?_eq_getElem known
  generalize unit.occurrences[name] = occurrence at there
  have test := binds_eq there true
  obtain ⟨declares, inFile, location, binding⟩ := occurrence
  rw [reportEdits, there]
  cases declares with
  | false => simp [applyAdmitted?, reportedUpTo, filter_range_succ, test]
  | true =>
    cases binding with
    | none => simp [applyAdmitted?, reportedUpTo, filter_range_succ, test]
    | some binding =>
      have isBound : unit.binding? name = some binding := by simp only [binding?, there]
      have inside := ordered.bindings name binding isBound
      have admitted : (unit.reportedUpTo name).admits (.report binding name) = true := by
        simp [admits, hasBinding, reportedUpTo, inside, known]
      simp only
      rw [applyAdmitted?, if_pos admitted, applyAdmitted?]
      simp only [apply, report, reportedUpTo, modify_map_range, filter_range_succ, test, BEq.rfl,
        Bool.true_and, beq_iff_eq, Option.some.injEq, List.append_assoc]

/-- All edits that build a unit again are admitted, and they give the unit with the references in
the order in which they are met. -/
theorem applyAdmitted?_replay (ordered : unit.IsOrdered) (declarationsAsReferences : Bool) :
    empty.applyAdmitted? (unit.replay declarationsAsReferences) =
      some (unit.reportedUpTo
        (if declarationsAsReferences then unit.occurrences.size else 0)) := by
  have bindings := applyAdmitted?_bindings unit
  have declarations := applyAdmitted?_range (fun count => unit.upTo count 0) unit.declarationEdits
    unit.declarations.size fun _ known => applyAdmitted?_declarationEdits ordered known
  have occurrences := applyAdmitted?_range (unit.upTo unit.declarations.size) unit.occurrenceEdits
    unit.occurrences.size fun _ known => applyAdmitted?_occurrenceEdits ordered known
  have reports := applyAdmitted?_range unit.reportedUpTo unit.reportEdits unit.occurrences.size
    fun _ known => applyAdmitted?_reportEdits ordered known
  rw [upTo_all ordered] at occurrences
  rw [replay, applyAdmitted?_append, applyAdmitted?_append, applyAdmitted?_append, bindings,
    Option.bind_some, declarations, Option.bind_some, occurrences, Option.bind_some]
  cases declarationsAsReferences with
  | false => rfl
  | true => exact reports

theorem binds_iff {declares : Bool} {binding name : Nat} :
    unit.binds declares binding name = true ↔
      ∃ occurrence, unit.occurrences[name]? = some occurrence ∧
        occurrence.declares = declares ∧ occurrence.binding = some binding := by
  unfold binds
  cases unit.occurrences[name]? with
  | none => simp
  | some occurrence => simp

theorem mem_referencesOf_reportedUpTo (ordered : unit.IsOrdered) (bound binding name : Nat) :
    name ∈ (unit.reportedUpTo bound).referencesOf binding ↔
      unit.binds false binding name = true ∨
        name < bound ∧ unit.binds true binding name = true := by
  have known {declares : Bool} (isBound : unit.binds declares binding name = true) :
      name < unit.occurrences.size ∧ binding < unit.references.size := by
    obtain ⟨occurrence, there, -, bound⟩ := binds_iff.1 isBound
    obtain ⟨isThere, -⟩ := Array.getElem?_eq_some_iff.1 there
    exact ⟨isThere, ordered.bindings name binding (by simp only [binding?, there, bound])⟩
  by_cases inside : binding < unit.references.size
  · have list : (unit.reportedUpTo bound).referencesOf binding =
        (List.range unit.occurrences.size).filter (unit.binds false binding) ++
          (List.range bound).filter (unit.binds true binding) := by
      simp [reportedUpTo, referencesOf, inside]
    rw [list, List.mem_append, List.mem_filter, List.mem_filter, List.mem_range, List.mem_range]
    constructor
    · exact Or.imp_left And.right
    · exact Or.imp_left fun isBound => ⟨(known isBound).1, isBound⟩
  · have list : (unit.reportedUpTo bound).referencesOf binding = [] := by
      simp [reportedUpTo, referencesOf, inside]
    rw [list]
    constructor
    · exact fun member => absurd member List.not_mem_nil
    · rintro (isBound | ⟨-, isBound⟩)
      · exact absurd (known isBound).2 inside
      · exact absurd (known isBound).2 inside

end Whole

end TranslationUnit

end CrossReference
