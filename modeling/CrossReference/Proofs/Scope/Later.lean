import CrossReference.Proofs.Scope.Search

/-!
# Later declarations

The names of functions and blocks are visible from their declarations on, so a declaration should not
matter to a use before it.  A scope has two tables, though, and a search chooses the entry of one of
them before it asks whether the entry is visible: a later name in the table that is asked first covers
an earlier one in the other table.  This is the only way in which a later declaration is seen.
-/

set_option autoImplicit false

namespace CrossReference.Scopes

/-- No scope takes names from a function or a block. -/
def ImportsUnordered (scopes : Scopes) : Prop :=
  ∀ (scope target : Nat) (found : Scope), target ∈ scopes.imports scope →
    scopes.all[target]? = some found → found.kind.isOrdered = false

/-- A declaration in a scope gives it an entry that a search asks before the one that answers it so
far: a tag before an ordinary name where the name is a qualifier, and an ordinary name before a tag
where tags are types. -/
def Covers (scopes : Scopes) (space searched : NameSpace) (name : String) (scope : Nat)
    (hidden : ScopeEntry) : Prop :=
  ∃ found, scopes.all[scope]? = some found ∧
    match space, searched with
    | .tag, .qualifier =>
        found.tags.find? name = none ∧ found.symbols.find? name = some hidden
    | .ordinary, .ordinary | .qualifier, .ordinary =>
        scopes.tagsAreTypes = true ∧ found.symbols.find? name = none ∧
          found.tags.find? name = some hidden
    | _, _ => False

/-- What a search outwards from a scope finds if it passes over the scope's own names. -/
def beyond (scopes : Scopes) (space : NameSpace) (name : String) (position scope : Nat) :
    Option Nat :=
  ((scopes.imports scope).findSome? (scopes.memberWithin space name (maxSteps - 1))).or
    ((scopes.all[scope]?.bind (·.parent)).bind (scopes.lookup space name position))

section Declare

variable {scopes : Scopes} {space searched : NameSpace} {name text : String}
  {scope other binding later position : Nat}

theorem imports_declare :
    (scopes.declare scope space name binding later).imports other = scopes.imports other := by
  rw [imports_eq, imports_eq]
  congr 1
  · exact edgesOf_modify_kept _ (fun found => by cases space <;> rfl) other
  · exact edgesOf_modify_kept _ (fun found => by cases space <;> rfl) other

theorem entry?_declare_of_ne (elsewhere : scope ≠ other) :
    Scopes.entry? (scopes.declare scope space name binding later) searched text other =
      scopes.entry? searched text other := by
  unfold entry?
  rw [getElem?_declare, if_neg elsewhere]
  rfl

theorem findSome?_congr {search searchToo : Nat → Option Nat} {scopes : List Nat}
    (same : ∀ scope ∈ scopes, search scope = searchToo scope) :
    scopes.findSome? search = scopes.findSome? searchToo := by
  induction scopes with
  | nil => rfl
  | cons scope rest ih =>
    rw [List.findSome?_cons, List.findSome?_cons, same scope List.mem_cons_self,
      ih fun other member => same other (List.mem_cons_of_mem _ member)]

theorem memberWithin_declare (apart : ∀ taker, scope ∉ scopes.imports taker) (steps : Nat)
    (elsewhere : scope ≠ other) :
    (scopes.declare scope space name binding later).memberWithin searched text steps other =
      scopes.memberWithin searched text steps other := by
  induction steps generalizing other with
  | zero => simp only [memberWithin, entry?_declare_of_ne elsewhere]
  | succ steps ih =>
    have taken : (scopes.imports other).findSome?
          ((scopes.declare scope space name binding later).memberWithin searched text steps) =
        (scopes.imports other).findSome? (scopes.memberWithin searched text steps) :=
      findSome?_congr fun _ member => ih fun same => apart other (same ▸ member)
    simp only [memberWithin, entry?_declare_of_ne elsewhere, imports_declare, taken]

theorem findSome?_imports_declare (apart : ∀ taker, scope ∉ scopes.imports taker) (steps : Nat) :
    (scopes.imports other).findSome?
        ((scopes.declare scope space name binding later).memberWithin searched text steps) =
      (scopes.imports other).findSome? (scopes.memberWithin searched text steps) :=
  findSome?_congr fun _ member =>
    memberWithin_declare apart steps fun same => apart other (same ▸ member)

theorem Nested.declare (nested : scopes.Nested) :
    (scopes.declare scope space name binding later).Nested :=
  nested.modify fun found => by cases space <;> rfl

/-! ## The scope with the declaration -/

def declared (found : Scope) (space : NameSpace) (name : String) (binding later : Nat) : Scope :=
  match space with
  | .tag => { found with tags := found.tags.declare name ⟨binding, later⟩ }
  | .ordinary | .qualifier => { found with symbols := found.symbols.declare name ⟨binding, later⟩ }

theorem getElem?_declare_self {found : Scope} (there : scopes.all[scope]? = some found) :
    (scopes.declare scope space name binding later).all[scope]? =
      some (declared found space name binding later) := by
  rw [getElem?_declare, if_pos rfl, there]
  cases space <;> rfl

@[simp]
theorem declared_kind (found : Scope) :
    (declared found space name binding later).kind = found.kind := by
  cases space <;> rfl

/-- The entry of a search in the scope stays, or it becomes the new name where there was none or one
that the new name covers. -/
theorem entryIn?_declared {found : Scope} (there : scopes.all[scope]? = some found) :
    scopes.entryIn? searched text (declared found space name binding later) =
        scopes.entryIn? searched text found ∨
      scopes.entryIn? searched text (declared found space name binding later) =
          some ⟨binding, later⟩ ∧
        (scopes.entryIn? searched text found = none ∨
          ∃ hidden, scopes.entryIn? searched text found = some hidden ∧ text = name ∧
            scopes.Covers space searched name scope hidden) := by
  by_cases same : text = name
  · subst same
    unfold Covers
    cases symbol : found.symbols.find? text <;> cases tag : found.tags.find? text <;>
      cases space <;> cases searched <;>
      simp [entryIn?, declared, ScopeTable.find?_declare, symbol, tag, there]
  · left
    cases space <;> cases searched <;>
      simp [entryIn?, declared, ScopeTable.find?_declare, Ne.symm same]

theorem entryIn?_of_covers {found : Scope} {hidden : ScopeEntry}
    (there : scopes.all[scope]? = some found)
    (covers : scopes.Covers space searched name scope hidden) :
    scopes.entryIn? searched name found = some hidden := by
  obtain ⟨foundToo, thereToo, isCovered⟩ := covers
  rw [there] at thereToo
  cases thereToo
  cases space <;> cases searched <;> simp only at isCovered
  all_goals simp [entryIn?, isCovered]

theorem entryIn?_declared_of_covers {found : Scope} {hidden : ScopeEntry}
    (there : scopes.all[scope]? = some found)
    (covers : scopes.Covers space searched name scope hidden) :
    scopes.entryIn? searched name (declared found space name binding later) =
      some ⟨binding, later⟩ := by
  obtain ⟨foundToo, thereToo, isCovered⟩ := covers
  rw [there] at thereToo
  cases thereToo
  cases space <;> cases searched <;> simp only at isCovered
  all_goals simp [entryIn?, declared, ScopeTable.find?_declare, isCovered]

/-- In a function or block a later name is not visible, and it takes from view only what it
covers. -/
theorem visible?_declared {found : Scope} (there : scopes.all[scope]? = some found)
    (ordered : found.kind.isOrdered = true) (isLater : position < later)
    (uncovered : ∀ hidden, text = name → scopes.Covers space searched name scope hidden →
      position < hidden.declaredAt) :
    scopes.visible? searched text position (declared found space name binding later) =
      scopes.visible? searched text position found := by
  have invisible : ¬ later ≤ position := Nat.not_le_of_lt isLater
  unfold visible?
  rcases entryIn?_declared there with same | ⟨new, none | ⟨hidden, isEntry, isName, covers⟩⟩
  · rw [same, declared_kind]
  · rw [new, none]
    simp [ordered, invisible]
  · have hiddenLater : ¬ hidden.declaredAt ≤ position :=
      Nat.not_le_of_lt (uncovered hidden isName covers)
    rw [new, isEntry]
    simp [ordered, invisible, hiddenLater]

theorem visible?_declared_of_covers {found : Scope} {hidden : ScopeEntry}
    (there : scopes.all[scope]? = some found) (ordered : found.kind.isOrdered = true)
    (isLater : position < later) (covers : scopes.Covers space searched name scope hidden) :
    scopes.visible? searched name position (declared found space name binding later) = none := by
  have invisible : ¬ later ≤ position := Nat.not_le_of_lt isLater
  unfold visible?
  rw [entryIn?_declared_of_covers there covers]
  simp [ordered, invisible]

/-! ## A search outwards -/

section Outwards

variable {found : Scope} {hidden : ScopeEntry}

theorem has_of_covers (there : scopes.all[scope]? = some found)
    (covers : scopes.Covers space searched name scope hidden)
    (earlier : hidden.declaredAt ≤ position) :
    scopes.Has searched name position scope hidden.binding :=
  .inl ⟨found, hidden, there, entryIn?_of_covers there covers, fun _ => earlier, rfl⟩

theorem seenFrom?_declared (apart : ∀ taker, scope ∉ scopes.imports taker)
    (there : scopes.all[scope]? = some found) :
    (scopes.declare scope space name binding later).seenFrom? searched text position
        (declared found space name binding later) =
      (scopes.visible? searched text position (declared found space name binding later)).or
        ((scopes.imports scope).findSome? (scopes.memberWithin searched text (maxSteps - 1))) := by
  rw [seenFrom?_eq (getElem?_declare_self there), imports_declare, findSome?_imports_declare apart]
  rfl

theorem seenFrom?_declare_of_ne (apart : ∀ taker, scope ∉ scopes.imports taker) {inner : Scope}
    (elsewhere : scope ≠ other) (isThere : scopes.all[other]? = some inner) :
    (scopes.declare scope space name binding later).all[other]? = some inner ∧
      (scopes.declare scope space name binding later).seenFrom? searched text position inner =
        scopes.seenFrom? searched text position inner := by
  have isChanged : (scopes.declare scope space name binding later).all[other]? = some inner := by
    rw [getElem?_declare, if_neg elsewhere, isThere]
  refine ⟨isChanged, ?_⟩
  rw [seenFrom?_eq isChanged, seenFrom?_eq isThere, imports_declare,
    findSome?_imports_declare apart]
  rfl

/-- The scope with a later declaration gives a use what it gave it, if the declaration covers
nothing that was given. -/
theorem seenFrom?_declared_kept (apart : ∀ taker, scope ∉ scopes.imports taker)
    (there : scopes.all[scope]? = some found) (ordered : found.kind.isOrdered = true)
    (isLater : position < later)
    (uncovered : ∀ hidden, text = name → scopes.Covers space searched name scope hidden →
      position < hidden.declaredAt) :
    (scopes.declare scope space name binding later).seenFrom? searched text position
        (declared found space name binding later) =
      scopes.seenFrom? searched text position found := by
  rw [seenFrom?_declared apart there, visible?_declared there ordered isLater uncovered,
    seenFrom?_eq there]

/-- A later declaration is not seen by a use, unless it covers what the innermost scope with the name
has for it. -/
theorem lookup_declare_kept (nested : scopes.Nested)
    (apart : ∀ taker, scope ∉ scopes.imports taker) (there : scopes.all[scope]? = some found)
    (ordered : found.kind.isOrdered = true) (isLater : position < later)
    (kept : ∀ hidden, text = name → scopes.Covers space searched name scope hidden →
      hidden.declaredAt ≤ position →
        ¬ scopes.Nearest searched text position other scope hidden.binding) :
    (scopes.declare scope space name binding later).lookup searched text position other =
      scopes.lookup searched text position other := by
  have nestedLater : (scopes.declare scope space name binding later).Nested := nested.declare
  induction other using Nat.strong_induction_on with
  | _ other ih =>
    cases isThere : scopes.all[other]? with
    | none =>
      have missing : (scopes.declare scope space name binding later).all[other]? = none := by
        rw [getElem?_declare, isThere]
        split <;> rfl
      rw [lookup, lookup]
      simp only [missing, isThere]
    | some inner =>
      have sameScope : ∃ changed,
          (scopes.declare scope space name binding later).all[other]? = some changed ∧
          changed.parent = inner.parent ∧
          (scopes.declare scope space name binding later).seenFrom? searched text position changed =
            scopes.seenFrom? searched text position inner := by
        by_cases here : scope = other
        · subst here
          rw [there] at isThere
          cases isThere
          refine ⟨declared found space name binding later, getElem?_declare_self there,
            by cases space <;> rfl, seenFrom?_declared_kept apart there ordered isLater ?_⟩
          intro hidden isName covers
          by_contra visible
          have earlier := Nat.le_of_not_lt visible
          have has := has_of_covers there covers earlier
          exact kept hidden isName covers earlier (isName ▸ nearest_self nested has)
        · obtain ⟨isChanged, sameSeen⟩ := seenFrom?_declare_of_ne apart here isThere
          exact ⟨inner, isChanged, rfl, sameSeen⟩
      obtain ⟨changed, isChanged, sameParent, sameSeen⟩ := sameScope
      cases seen : scopes.seenFrom? searched text position inner with
      | some own =>
        rw [lookup_of_seen isThere seen, lookup_of_seen isChanged (sameSeen.trans seen)]
      | none =>
        have unseen := (seenFrom?_eq_none_iff isThere).1 seen
        rw [lookup_of_unseen nested isThere seen,
          lookup_of_unseen nestedLater isChanged (sameSeen.trans seen), sameParent]
        cases isParent : inner.parent with
        | none => rw [Option.bind_none, Option.bind_none]
        | some parent =>
          refine ih parent (nested _ _ _ isThere isParent) fun hidden isName covers earlier => ?_
          rw [← nearest_parent_iff isThere isParent unseen]
          exact kept hidden isName covers earlier

theorem lookup_declare_self (nested : scopes.Nested)
    (apart : ∀ taker, scope ∉ scopes.imports taker) (there : scopes.all[scope]? = some found)
    (ordered : found.kind.isOrdered = true) (isLater : position < later)
    (covers : scopes.Covers space searched name scope hidden) :
    (scopes.declare scope space name binding later).lookup searched name position scope =
      scopes.beyond searched name position scope := by
  have isChanged : (scopes.declare scope space name binding later).all[scope]? =
      some (declared found space name binding later) := getElem?_declare_self there
  have isParent : (declared found space name binding later).parent = found.parent := by
    cases space <;> rfl
  have seen : (scopes.declare scope space name binding later).seenFrom? searched name position
      (declared found space name binding later) =
        (scopes.imports scope).findSome? (scopes.memberWithin searched name (maxSteps - 1)) := by
    rw [seenFrom?_declared apart there, visible?_declared_of_covers there ordered isLater covers,
      Option.none_or]
  unfold beyond
  cases taken : (scopes.imports scope).findSome?
      (scopes.memberWithin searched name (maxSteps - 1)) with
  | some imported => rw [lookup_of_seen isChanged (seen.trans taken), Option.some_or]
  | none =>
    rw [lookup_of_unseen nested.declare isChanged (seen.trans taken), Option.none_or, isParent,
      there, Option.bind_some]
    cases outer : found.parent with
    | none => rw [Option.bind_none, Option.bind_none]
    | some parent =>
      refine lookup_declare_kept nested apart there ordered isLater fun _ _ _ _ nearest => ?_
      exact absurd (nested _ _ _ there outer) (Nat.not_lt_of_le (nearest.around.le nested))

/-- A use for which a later declaration covers what was found first gets what lies beyond. -/
theorem lookup_declare_of_nearest (nested : scopes.Nested)
    (apart : ∀ taker, scope ∉ scopes.imports taker) (there : scopes.all[scope]? = some found)
    (ordered : found.kind.isOrdered = true) (isLater : position < later)
    (covers : scopes.Covers space searched name scope hidden)
    (nearest : scopes.Nearest searched name position other scope hidden.binding) :
    (scopes.declare scope space name binding later).lookup searched name position other =
      scopes.beyond searched name position scope := by
  obtain ⟨around, has, none⟩ := nearest
  induction around with
  | self => exact lookup_declare_self nested apart there ordered isLater covers
  | @inside other parent inner isThere isParent around ih =>
    have elsewhere : other ≠ scope := by
      have before := nested _ _ _ isThere isParent
      have outer := around.le nested
      omega
    have unseen := (seenFrom?_eq_none_iff isThere).2
      (none other .self (.inside isThere isParent around) elsewhere)
    obtain ⟨isChanged, sameSeen⟩ := seenFrom?_declare_of_ne apart elsewhere.symm isThere
    rw [lookup_of_unseen nested.declare isChanged (sameSeen.trans unseen), isParent,
      Option.bind_some]
    exact ih fun nearer isAround => none nearer (.inside isThere isParent isAround)

end Outwards

end Declare

/-- A later declaration in a function or block changes nothing for an earlier use, with one exception:
it covers a name of its spelling in the other table of its scope that the use found so far, and what
lies beyond that scope is not the same. -/
theorem later_declaration_unseen_iff {tagsAreTypes : Bool} {steps : List Step} {scopes : Scopes}
    (built : Built tagsAreTypes steps scopes) (unordered : scopes.ImportsUnordered)
    {scope : Nat} {found : Scope} (there : scopes.all[scope]? = some found)
    (ordered : found.kind.isOrdered = true) (space searched : NameSpace) (name text : String)
    (binding use : Nat) {position later : Nat} (isLater : position < later) :
    (scopes.declare scope space name binding later).lookup searched text position use =
        scopes.lookup searched text position use ↔
      ¬ ∃ hidden, text = name ∧ scopes.Covers space searched name scope hidden ∧
        hidden.declaredAt ≤ position ∧
        scopes.Nearest searched name position use scope hidden.binding ∧
        scopes.beyond searched name position scope ≠ some hidden.binding := by
  have nested := built.nested
  have apart (taker : Nat) : scope ∉ scopes.imports taker := fun member => by
    rw [unordered taker scope found member there] at ordered
    cases ordered
  constructor
  · rintro same ⟨hidden, rfl, covers, earlier, nearest, differs⟩
    rw [lookup_declare_of_nearest nested apart there ordered isLater covers nearest,
      (lookup_eq_some_iff nested).2 ⟨scope, nearest⟩] at same
    exact differs same
  · intro unlost
    by_cases covered : ∃ hidden, text = name ∧ scopes.Covers space searched name scope hidden ∧
        hidden.declaredAt ≤ position ∧
        scopes.Nearest searched name position use scope hidden.binding
    · obtain ⟨hidden, rfl, covers, earlier, nearest⟩ := covered
      have restored : scopes.beyond searched text position scope = some hidden.binding := by
        by_contra differs
        exact unlost ⟨hidden, rfl, covers, earlier, nearest, differs⟩
      rw [lookup_declare_of_nearest nested apart there ordered isLater covers nearest, restored,
        (lookup_eq_some_iff nested).2 ⟨scope, nearest⟩]
    · refine lookup_declare_kept nested apart there ordered isLater
        fun hidden isName covers earlier nearest => ?_
      exact covered ⟨hidden, isName, covers, earlier, isName ▸ nearest⟩

def aliased : List Step :=
  [.push .function (some file), .declare 1 .ordinary "x" 5 10]

theorem built_aliased : Built true aliased (aliased.foldl Step.apply (initial true)) :=
  (Built.initial.step _ (by decide)).step _ (by decide)

theorem importsUnordered_aliased :
    (aliased.foldl Step.apply (initial true)).ImportsUnordered := by
  intro scope target found member
  rw [built_aliased.imports_eq scope] at member
  cases member

/-- A later class takes the alias from a use before `::`. -/
theorem later_class_covers_alias :
    (aliased.foldl Step.apply (initial true)).lookup .qualifier "x" 20 1 = some 5 ∧
      ((aliased.foldl Step.apply (initial true)).declare 1 .tag "x" 6 50).lookup
        .qualifier "x" 20 1 = none ∧
      ∃ hidden, (aliased.foldl Step.apply (initial true)).Covers .tag .qualifier "x" 1 hidden ∧
        (aliased.foldl Step.apply (initial true)).Nearest .qualifier "x" 20 1 1 hidden.binding := by
  have before : (aliased.foldl Step.apply (initial true)).lookup .qualifier "x" 20 1 = some 5 := by
    decide +kernel
  have after : ((aliased.foldl Step.apply (initial true)).declare 1 .tag "x" 6 50).lookup
      .qualifier "x" 20 1 = none := by decide +kernel
  have unseen_iff := later_declaration_unseen_iff built_aliased importsUnordered_aliased
    (rfl : (aliased.foldl Step.apply (initial true)).all[1]? = some _) rfl .tag .qualifier "x" "x" 6 1
    (by decide : 20 < 50)
  rw [before, after] at unseen_iff
  obtain ⟨hidden, -, covers, -, nearest, -⟩ := not_not.1 (mt unseen_iff.2 nofun)
  exact ⟨before, after, hidden, covers, nearest⟩

end CrossReference.Scopes
