import CrossReference.Proofs.Walk.Inside
import CrossReference.Proofs.Walk.UseSpaces

/-!
# The first segment of a use

While uses are resolved, scopes only get further bases and usings, and names that they did not have.
So what a scope has for the first segment of a use at the end decides what the use is bound to: a
name that no nearer scope has is found in the scope that declares it.
-/

set_option autoImplicit false

namespace CrossReference.Walk

open ParseTree

namespace State

/-! ## Scopes while uses are resolved -/

theorem applyEffect_widens (state : State) (binding : Nat) (effect : Effect) :
    state.scopes.Widens (state.applyEffect binding effect).scopes := by
  unfold applyEffect
  cases effect with
  | none => exact .refl _
  | usingNamespace into =>
    simp only
    split
    · exact .addUsing _ _ _
    · exact .refl _
  | base derived =>
    simp only
    split
    · exact .addBase _ _ _
    · exact .refl _
  | usingDeclaration into position =>
    simp only
    split
    · split
      · exact .refl _
      · rename_i unknown
        exact .declare (by simpa using unknown) _ _
    · exact .refl _

theorem resolveUse_widens (state : State) (use : PendingUse) :
    state.scopes.Widens (state.resolveUse use).scopes := by
  have bound : (bindSegments use use.names (if use.isGlobal then some Scopes.file else none) true
      state).1.scopes = state.scopes := by
    rw [bindSegments_eq]
    exact (bindAll_quiet state _).1
  unfold resolveUse
  simp only
  split
  · rw [← bound]
    exact applyEffect_widens _ _ _
  · rw [bound]
    exact .refl _

theorem foldl_resolveUse_widens (uses : List PendingUse) (state : State) :
    state.scopes.Widens (uses.foldl resolveUse state).scopes :=
  List.foldlRecOn (motive := fun later : State => state.scopes.Widens later.scopes) _ _
    (.refl _) fun later widens use _ => widens.trans (resolveUse_widens later use)

theorem learnTypeScope_scopes (state : State) (binding : Nat) :
    (state.learnTypeScope binding).scopes = state.scopes := by
  unfold learnTypeScope
  split
  · rfl
  · split
    · rfl
    · split <;> rfl

theorem learnTypeScopes_scopes (state : State) : state.learnTypeScopes.scopes = state.scopes := by
  have once (current : State) : current.learnTypeScopesOnce.scopes = current.scopes :=
    List.foldlRecOn (motive := fun between : State => between.scopes = current.scopes) _ _ rfl
      fun between same binding _ => (learnTypeScope_scopes between binding).trans same
  exact List.foldlRecOn (motive := fun between : State => between.scopes = state.scopes) _ _ rfl
    fun between same _ _ => (once between).trans same

theorem resolveMember_scopes (state : State) (member : PendingMember) :
    (state.resolveMember member).scopes = state.scopes := by
  unfold resolveMember
  simp only
  split <;> rfl

theorem resolve_scopes (state : State) :
    state.resolve.scopes = (state.usesInOrder.foldl resolveUse state).scopes := by
  have members (current : State) (members : List PendingMember) :
      (members.foldl resolveMember current).scopes = current.scopes :=
    List.foldlRecOn (motive := fun between : State => between.scopes = current.scopes) _ _ rfl
      fun between same member _ => (resolveMember_scopes between member).trans same
  rw [resolve, members, learnTypeScopes_scopes]

theorem resolve_widens (state : State) : state.scopes.Widens state.resolve.scopes := by
  rw [resolve_scopes]
  exact foldl_resolveUse_widens state.usesInOrder state

end State

open State

/-! ## What the first segment is bound to -/

def PendingUse.firstSpace (use : PendingUse) : NameSpace :=
  if use.names.length = 1 then use.space else .qualifier

namespace State

variable {use : PendingUse} {first : Nat}

theorem segmentBindings_head (state : State) (isFirst : use.names.head? = some first)
    (scope : Option Nat) :
    ∃ others, state.segmentBindings use use.names scope true =
        (first, state.segmentBinding? use scope true use.firstSpace (state.spelling first)) ::
          others ∧
      others.map Prod.fst = use.names.tail := by
  have same := state.segmentBindings_names use use.names scope true
  unfold PendingUse.firstSpace
  generalize use.names = names at isFirst same ⊢
  cases names with
  | nil => cases isFirst
  | cons name rest =>
    obtain rfl : name = first := by simpa using isFirst
    cases rest with
    | nil => exact ⟨[], by simp [segmentBindings], rfl⟩
    | cons second rest =>
      refine ⟨state.segmentBindings use (second :: rest)
        ((state.segmentBinding? use scope true .qualifier (state.spelling name)).bind state.scope?)
          false, by simp [segmentBindings], ?_⟩
      rw [segmentBindings] at same
      · exact (List.cons.inj same).2
      · exact List.cons_ne_nil second rest

/-- When a use is resolved its first segment gets what a search for it gives. -/
theorem resolveUse_binding?_first (current : State) (isFirst : use.names.head? = some first)
    (once : use.names.Nodup) (known : first < current.names.size)
    (notGlobal : use.isGlobal = false) :
    (current.resolveUse use).binding? first =
      current.segmentBinding? use none true use.firstSpace (current.spelling first) := by
  obtain ⟨others, isHead, same⟩ := current.segmentBindings_head isFirst none
  have apart : ∀ pair ∈ others, pair.1 ≠ first := by
    intro pair member equal
    have isTail : first ∈ use.names.tail := by
      rw [← same, ← equal]
      exact List.mem_map_of_mem member
    rw [List.eq_cons_of_mem_head? (Option.mem_def.2 isFirst)] at once
    exact (List.nodup_cons.1 once).1 isTail
  have bound : (bindSegments use use.names none true current).1.names[first]? =
      (current.names[first]?).map fun found =>
        { found with binding :=
            current.segmentBinding? use none true use.firstSpace (current.spelling first) } := by
    rw [bindSegments_eq, isHead, bindAll_cons, bindAll_getElem?_of_forall_ne _ apart,
      setBinding_getElem?, if_pos rfl]
  have settled : (current.resolveUse use).names[first]? =
      (bindSegments use use.names none true current).1.names[first]? := by
    unfold resolveUse
    simp only [notGlobal, Bool.false_eq_true, if_false]
    split
    · rw [applyEffect_names]
    · rfl
  rw [binding?, settled, bound, Array.getElem?_eq_getElem known]
  rfl

end State

theorem State.WaitsApart.nodup_names {state : State} (apart : state.WaitsApart) {use : PendingUse}
    (waits : use ∈ state.uses) : use.names.Nodup :=
  (List.nodup_flatMap.1 (List.nodup_append.1 apart.nodup).1).1 use (Array.mem_def.1 waits)

/-- Nothing stands between a use of a spelling and a scope around it: the spelling is that of no
macro there, the scope itself has no tag of it, and no scope in between has the name. -/
structure ClearWay (walked : State) (use : PendingUse) (text : String) (home : Nat) : Prop where
  noMacro : walked.macroAt? text use.position = none
  untagged : ∀ here, walked.resolve.scopes.all[home]? = some here → here.tags.find? text = none
  unseen : ∀ nearer, walked.resolve.scopes.Encloses home nearer →
    walked.resolve.scopes.Encloses nearer use.scope → nearer ≠ home →
      ∀ other, ¬ walked.resolve.scopes.Has use.firstSpace text use.position nearer other

theorem ClearWay.symbols_of_lists {walked : State} {use : PendingUse} {text : String} {home : Nat}
    {here : Scope} {entry : ScopeEntry} (clear : ClearWay walked use text home)
    (isHere : walked.scopes.all[home]? = some here) (lists : walked.scopes.Lists home text entry) :
    here.symbols.find? text = some entry := by
  obtain ⟨same, isSame, isEntry⟩ := lists
  rw [isHere] at isSame
  cases isSame
  refine isEntry.resolve_right fun tag => ?_
  obtain ⟨later, isLater, grown⟩ := (resolve_widens walked).scopes home here isHere
  have tagLater := grown.tags _ entry tag
  rw [clear.untagged later isLater] at tagLater
  cases tagLater

/-- An entry for an ordinary name is found by every search but one for a tag, unless there is a tag
of its spelling. -/
theorem entryIn?_of_symbols {scopes : Scopes} {space : NameSpace} {text : String} {here : Scope}
    {entry : ScopeEntry} (notTag : space ≠ .tag) (declared : here.symbols.find? text = some entry)
    (untagged : here.tags.find? text = none) :
    scopes.entryIn? space text here = some entry := by
  unfold Scopes.entryIn?
  cases space with
  | tag => exact absurd rfl notTag
  | ordinary => simp [declared]
  | qualifier => simp [declared, untagged]

/-- Nothing hides what a scope around a use has for a spelling: it is that of no macro there, and no
scope in between has the name. -/
structure OpenWay (walked : State) (use : PendingUse) (text : String) (home : Nat) : Prop where
  noMacro : walked.macroAt? text use.position = none
  unseen : ∀ nearer, walked.resolve.scopes.Encloses home nearer →
    walked.resolve.scopes.Encloses nearer use.scope → nearer ≠ home →
      ∀ other, ¬ walked.resolve.scopes.Has use.firstSpace text use.position nearer other

theorem ClearWay.openWay {walked : State} {use : PendingUse} {text : String} {home : Nat}
    (clear : ClearWay walked use text home) : OpenWay walked use text home :=
  ⟨clear.noMacro, clear.unseen⟩

variable {source : List Char} {language : Language} {tree : ParseTree}

/-- Where the way to a scope is open, a use is bound to what that scope has for its first segment. -/
theorem binding?_of_openWay {use : PendingUse} {first home : Nat} {entry : ScopeEntry}
    {walked : State} (isWalk : walked = SourceUnit.walked source language tree)
    (waits : use ∈ walked.uses) (isFirst : use.names.head? = some first)
    (notGlobal : use.isGlobal = false) (around : walked.scopes.Encloses home use.scope)
    (known : walked.scopes.entry? use.firstSpace (walked.spelling first) home = some entry)
    (visible : ∀ here, walked.scopes.all[home]? = some here → here.kind.isOrdered = true →
      entry.declaredAt ≤ use.position)
    (isOpen : OpenWay walked use (walked.spelling first) home) :
    walked.resolve.binding? first = some entry.binding := by
  subst isWalk
  have apart := walked_waitsApart source language tree
  have suit := walked_macrosSuit source language tree
  have nested := walked_nested source language tree
  obtain ⟨_, ended⟩ := exists_reaches_run source (State.initial (language = .cpp)) [Frame.root tree]
  have named : Named source language tree (SourceUnit.walked source language tree) := ended.named
  generalize SourceUnit.walked source language tree = walked at *
  have isName : first ∈ use.names := List.mem_of_mem_head? (Option.mem_def.2 isFirst)
  obtain ⟨before, after, split⟩ := exists_split waits
  have resolving := apart.resolving suit named.apart.tablesSuit split
  have isThere := apart.lt_size waits isName
  have widens := foldl_resolveUse_widens before walked
  have widensLater : (before.foldl resolveUse walked).scopes.Widens walked.resolve.scopes := by
    rw [resolve_scopes, split, List.foldl_append]
    exact foldl_resolveUse_widens (use :: after) _
  rw [apart.binding?_eq split isName, resolveUse_binding?_first _ isFirst (apart.nodup_names waits)
    (resolving.rebinds.names ▸ isThere) notGlobal, resolving.spelling_eq isThere]
  generalize before.foldl resolveUse walked = current at *
  have noMacro : current.macroAt? (walked.spelling first) use.position = none := by
    rw [macroAt?, resolving.macros]
    exact isOpen.noMacro
  simp only [segmentBinding?, noMacro, if_true]
  have has : current.scopes.Has use.firstSpace (walked.spelling first) use.position home
      entry.binding := by
    have kept := widens.entries use.firstSpace _ home entry known
    cases there : walked.scopes.all[home]? with
    | none =>
      rw [Scopes.entry?, there] at known
      cases known
    | some here =>
      obtain ⟨found, isFound, grown⟩ := widens.scopes home here there
      refine .inl ⟨found, entry, isFound, ?_, grown.kind ▸ visible here there, rfl⟩
      rwa [Scopes.entry?, isFound] at kept
  refine (Scopes.lookup_eq_some_iff (widens.nested widens.next nested)).2
    ⟨home, widens.encloses around, has, fun nearer aroundUse inside different other hasNearer => ?_⟩
  obtain ⟨still, hasStill⟩ := widensLater.exists_has hasNearer
  exact isOpen.unseen nearer (widensLater.encloses inside) (widensLater.encloses aroundUse)
    different still hasStill

/-- Where the way to a scope is clear, a use is bound to what that scope declares. -/
theorem binding?_of_clearWay {use : PendingUse} {first home : Nat} {here : Scope}
    {entry : ScopeEntry} {walked : State} (isWalk : walked = SourceUnit.walked source language tree)
    (waits : use ∈ walked.uses) (isFirst : use.names.head? = some first)
    (notGlobal : use.isGlobal = false) (notTag : use.firstSpace ≠ .tag)
    (around : walked.scopes.Encloses home use.scope)
    (there : walked.scopes.all[home]? = some here)
    (declared : here.symbols.find? (walked.spelling first) = some entry)
    (visible : here.kind.isOrdered = true → entry.declaredAt ≤ use.position)
    (clear : ClearWay walked use (walked.spelling first) home) :
    walked.resolve.binding? first = some entry.binding := by
  obtain ⟨later, isLater, grown⟩ := (resolve_widens walked).scopes home here there
  have untagged : here.tags.find? (walked.spelling first) = none := by
    cases tag : here.tags.find? (walked.spelling first) with
    | none => rfl
    | some other => exact (grown.tags _ other tag).symm.trans (clear.untagged later isLater)
  refine binding?_of_openWay isWalk waits isFirst notGlobal around ?_ (fun same isSame => ?_)
    clear.openWay
  · rw [Scopes.entry?, there]
    exact entryIn?_of_symbols notTag declared untagged
  · obtain rfl := Option.some.inj (there.symm.trans isSame)
    exact visible

end CrossReference.Walk
