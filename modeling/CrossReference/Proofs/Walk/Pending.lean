import CrossReference.Proofs.Walk.Waiting

/-!
# What waits for the end of a walk

What waits are new occurrences each time, so that no occurrence waits twice and none that has been
bound waits at all.  The use of a node is found again at the end of the walk.
-/

set_option autoImplicit false

namespace CrossReference.Walk

open ParseTree

/-! ## The occurrences that wait -/

namespace State

def waitingNames (state : State) : List Nat :=
  state.uses.toList.flatMap PendingUse.names ++ state.members.toList.map PendingMember.name

def IsUnbound (state : State) (name : Nat) : Prop :=
  ∃ found, state.names[name]? = some found ∧ found.declares = false ∧ found.binding = none

/-- What waits is unbound and waits once, and only ordinary names are declared by their use. -/
structure WaitsApart (state : State) : Prop where
  nodup : state.waitingNames.Nodup
  unbound : ∀ name ∈ state.waitingNames, state.IsUnbound name
  regular : ∀ use ∈ state.uses, ∀ into position,
    use.effect = .usingDeclaration into position → use.space = .ordinary

theorem waitsApart_initial (tagsAreTypes : Bool) : (initial tagsAreTypes).WaitsApart where
  nodup := List.nodup_nil
  unbound name member := by cases member
  regular use member := by simp [initial] at member

theorem IsUnbound.of_grows {before after : State} {name : Nat} (unbound : before.IsUnbound name)
    (grows : Grows before after) : after.IsUnbound name := by
  obtain ⟨found, there, isUse⟩ := unbound
  exact ⟨found, grows.occurrence_eq there, isUse⟩

theorem IsUnbound.lt_size {state : State} {name : Nat} (unbound : state.IsUnbound name) :
    name < state.names.size := by
  obtain ⟨found, there, -⟩ := unbound
  exact (Array.getElem?_eq_some_iff.1 there).1

theorem addUses_names (source : List Char) (context : Context) (segments : List ParseTree)
    (state : State) :
    (addUses source context segments state).2 = List.range' state.names.size segments.length ∧
      ∀ name ∈ List.range' state.names.size segments.length,
        (addUses source context segments state).1.IsUnbound name := by
  induction segments generalizing state with
  | nil => simp [addUses]
  | cons segment rest ih =>
    obtain ⟨names, unbound⟩ := ih (state.addName source segment context false).1
    rw [addName_names, Array.size_push] at names unbound
    obtain ⟨notes, -⟩ :=
      addUses_notesNames source context rest (state.addName source segment context false).1
    rw [List.length_cons, List.range'_succ]
    refine ⟨congrArg (state.names.size :: ·) names, fun name member => ?_⟩
    rcases List.mem_cons.1 member with rfl | isLater
    · have here : (state.addName source segment context false).1.IsUnbound state.names.size :=
        ⟨_, Array.getElem?_push_size, rfl, rfl⟩
      exact here.of_grows notes.grows
    · exact unbound name isLater

variable (source : List Char) (state : State) (tree : ParseTree) (context : Context)
  (space : NameSpace) (effect : Effect)

/-- The use of a name as it waits, if its first segment gets a number. -/
def useOf (first : Nat) : PendingUse :=
  let chain := QualifiedName.ofTree tree
  ⟨List.range' first chain.segments.length, space, chain.isGlobal, context.scope, tree.start,
    effect⟩

theorem noteUse_uses :
    (state.noteUse source tree context space effect).uses =
      if (QualifiedName.ofTree tree).isBroken || (QualifiedName.ofTree tree).segments.isEmpty then
        state.uses
      else state.uses.push (useOf tree context space effect state.names.size) := by
  obtain ⟨names, -⟩ := addUses_names source context (QualifiedName.ofTree tree).segments state
  obtain ⟨notes, -⟩ := addUses_notesNames source context (QualifiedName.ofTree tree).segments state
  have noNames :
      (List.range' state.names.size (QualifiedName.ofTree tree).segments.length).isEmpty =
        (QualifiedName.ofTree tree).segments.isEmpty := by
    cases (QualifiedName.ofTree tree).segments <;> simp [List.range'_succ]
  simp only [noteUse, names, noNames]
  split
  · exact notes.uses
  · simp only [notes.uses]
    rfl

theorem noteUse_members :
    (state.noteUse source tree context space effect).members = state.members := by
  obtain ⟨notes, -⟩ := addUses_notesNames source context (QualifiedName.ofTree tree).segments state
  unfold noteUse
  simp only
  split <;> exact notes.members

theorem noteUse_grows : Grows state (state.noteUse source tree context space effect) := by
  obtain ⟨notes, -⟩ := addUses_notesNames source context (QualifiedName.ofTree tree).segments state
  unfold noteUse
  simp only
  split
  · exact notes.grows
  · exact notes.grows.trans (.of_same rfl rfl rfl fun _ => rfl)

theorem noteUse_unbound (name : Nat)
    (member : name ∈ List.range' state.names.size (QualifiedName.ofTree tree).segments.length) :
    (state.noteUse source tree context space effect).IsUnbound name := by
  obtain ⟨-, unbound⟩ := addUses_names source context (QualifiedName.ofTree tree).segments state
  have found := unbound name member
  unfold noteUse
  simp only
  split <;> exact found

end State

open State

namespace Awaits

variable {source : List Char} {used : List (ParseTree × NameSpace)} {before after : State}

theorem grows (awaits : Awaits source used before after) : Grows before after := by
  induction awaits with
  | quiet grows => exact grows
  | use state tree context space effect regular =>
    exact noteUse_grows source state tree context space effect
  | member state tree context object =>
    exact (addName_notesNames source state tree context).grows.trans
      (.of_same rfl rfl rfl fun _ => rfl)
  | append _ _ first last => exact first.trans last

theorem exists_waitingNames (awaits : Awaits source used before after) :
    ∃ new, after.waitingNames.Perm (before.waitingNames ++ new) ∧ new.Nodup ∧
      ∀ name ∈ new, before.names.size ≤ name ∧ after.IsUnbound name := by
  induction awaits with
  | quiet grows uses members =>
    exact ⟨[], by simp [waitingNames, uses, members], List.nodup_nil, nofun⟩
  | use state tree context space effect regular =>
    have uses := noteUse_uses source state tree context space effect
    have members := noteUse_members source state tree context space effect
    split at uses
    · exact ⟨[], by simp [waitingNames, uses, members], List.nodup_nil, nofun⟩
    · refine ⟨_, ?_, List.nodup_range' 1, fun name member => ⟨?_, noteUse_unbound source state tree
        context space effect name member⟩⟩
      · simp only [waitingNames, uses, members, Array.toList_push, List.flatMap_append,
          List.flatMap_cons, List.flatMap_nil, List.append_nil, List.append_assoc]
        exact List.perm_append_comm.append_left _
      · obtain ⟨offset, -, rfl⟩ := List.mem_range'.1 member
        omega
  | member state tree context object =>
    refine ⟨[state.names.size], ?_, by simp, fun name member => ?_⟩
    · simp [waitingNames]
    · rw [List.mem_singleton.1 member]
      exact ⟨Nat.le_refl _, _, Array.getElem?_push_size, rfl, rfl⟩
  | @append first last before middle after begun ended ihFirst ihLast =>
    obtain ⟨new, isFirst, nodup, areNew⟩ := ihFirst
    obtain ⟨later, isLast, nodupLater, areLater⟩ := ihLast
    refine ⟨new ++ later, ?_, ?_, fun name member => ?_⟩
    · rw [← List.append_assoc]
      exact isLast.trans (isFirst.append_right later)
    · refine List.nodup_append.2 ⟨nodup, nodupLater, fun name isNew other isLater same => ?_⟩
      have below := (areNew name isNew).2.lt_size
      have above := (areLater other isLater).1
      omega
    · rcases List.mem_append.1 member with isNew | isLater
      · exact ⟨(areNew name isNew).1, (areNew name isNew).2.of_grows ended.grows⟩
      · exact ⟨Nat.le_trans begun.grows.names (areLater name isLater).1, (areLater name isLater).2⟩

theorem regular_of_mem (awaits : Awaits source used before after) {use : PendingUse}
    (member : use ∈ after.uses) :
    use ∈ before.uses ∨
      ∀ into position, use.effect = .usingDeclaration into position → use.space = .ordinary := by
  induction awaits with
  | quiet grows uses => exact .inl (uses ▸ member)
  | use state tree context space effect regular =>
    rw [noteUse_uses] at member
    split at member
    · exact .inl member
    · rcases Array.mem_push.1 member with old | rfl
      · exact .inl old
      · exact .inr regular
  | member => exact .inl member
  | append _ _ ihFirst ihLast =>
    rcases ihLast member with earlier | regular
    · exact ihFirst earlier
    · exact .inr regular

theorem waitsApart (awaits : Awaits source used before after) (apart : before.WaitsApart) :
    after.WaitsApart := by
  obtain ⟨new, perm, nodup, areNew⟩ := awaits.exists_waitingNames
  refine ⟨perm.nodup_iff.2 (List.nodup_append.2 ⟨apart.nodup, nodup, ?_⟩), ?_, ?_⟩
  · intro name waited other isNew same
    have below := (apart.unbound name waited).lt_size
    have above := (areNew other isNew).1
    omega
  · intro name waits
    rcases List.mem_append.1 (perm.mem_iff.1 waits) with waited | isNew
    · exact (apart.unbound name waited).of_grows awaits.grows
    · exact (areNew name isNew).2
  · intro use member
    rcases awaits.regular_of_mem member with old | regular
    · exact apart.regular use old
    · exact regular

theorem mem_waitingNames_iff (awaits : Awaits source used before after) {name : Nat}
    (known : name < before.names.size) :
    name ∈ after.waitingNames ↔ name ∈ before.waitingNames := by
  obtain ⟨new, perm, -, areNew⟩ := awaits.exists_waitingNames
  rw [perm.mem_iff, List.mem_append, or_iff_left]
  intro isNew
  exact absurd (areNew name isNew).1 (Nat.not_le_of_lt known)

end Awaits

/-! ## The nodes of what waits -/

/-- A use waits for a node that is used in a name space: its occurrences stand where the segments of
the node stand, and are spelled like them. -/
structure IsUseOf (source : List Char) (state : State) (node : ParseTree) (space : NameSpace)
    (use : PendingUse) : Prop where
  waits : use ∈ state.uses
  space : use.space = space
  isGlobal : use.isGlobal = (QualifiedName.ofTree node).isGlobal
  position : use.position = node.start
  places : use.names.map (fun name => (state.names[name]?).map NameNode.place) =
    (QualifiedName.ofTree node).segments.map fun segment => some (placeOf source segment)

/-- All segments of a name are plain, and there is one at least. -/
def IsIntact (node : ParseTree) : Prop :=
  (QualifiedName.ofTree node).isBroken = false ∧ (QualifiedName.ofTree node).segments ≠ []

namespace IsUseOf

variable {source : List Char} {node : ParseTree} {space : NameSpace} {use : PendingUse}
  {before after : State}

theorem of_grows (isUse : IsUseOf source before node space use) (grows : Grows before after)
    (waits : use ∈ after.uses) : IsUseOf source after node space use where
  waits := waits
  space := isUse.space
  isGlobal := isUse.isGlobal
  position := isUse.position
  places := by
    rw [← isUse.places]
    apply List.map_congr_left
    intro name member
    have placed : (before.names[name]?).map NameNode.place ∈
        (QualifiedName.ofTree node).segments.map fun segment => some (placeOf source segment) :=
      isUse.places ▸ List.mem_map_of_mem member
    obtain ⟨segment, -, isPlace⟩ := List.mem_map.1 placed
    obtain ⟨found, there, -⟩ := Option.map_eq_some_iff.1 isPlace.symm
    rw [there, grows.occurrence_eq there]

end IsUseOf

theorem AddsNames.place_eq {source : List Char} {nodes : List ParseTree} {before after : State}
    (adds : AddsNames source nodes before after) (index : Nat) :
    (after.names[before.names.size + index]?).map NameNode.place =
      (nodes[index]?).map (placeOf source) := by
  have places := congrArg (fun list => list[before.names.size + index]?) adds.places
  simp only [List.getElem?_map, Array.getElem?_toList] at places
  rw [places, List.getElem?_append_right (by simp)]
  simp

theorem noteUse_isUseOf (source : List Char) (state : State) {tree : ParseTree} (context : Context)
    (space : NameSpace) (effect : Effect) (intact : IsIntact tree) :
    IsUseOf source (state.noteUse source tree context space effect) tree space
      (useOf tree context space effect state.names.size) where
  waits := by
    rw [noteUse_uses, if_neg (by simp [intact.1, intact.2])]
    exact Array.mem_push_self
  space := rfl
  isGlobal := rfl
  position := rfl
  places := by
    have added := addsNames_noteUse source state tree context space effect
    apply List.ext_getElem (by simp [useOf])
    intro index _ inside
    have known : index < (QualifiedName.ofTree tree).segments.length := by simpa using inside
    have place := added.place_eq index
    rw [List.getElem?_eq_getElem known] at place
    simpa [useOf] using place

namespace Awaits

variable {source : List Char} {used : List (ParseTree × NameSpace)} {before after : State}

theorem uses_kept (awaits : Awaits source used before after) {use : PendingUse}
    (waited : use ∈ before.uses) : use ∈ after.uses := by
  induction awaits with
  | quiet grows uses => exact uses ▸ waited
  | use state tree context space effect regular =>
    rw [noteUse_uses]
    split
    · exact waited
    · exact Array.mem_push_of_mem _ waited
  | member => exact waited
  | append _ _ ihFirst ihLast => exact ihLast (ihFirst waited)

/-- Each node that is used has its use among those that wait. -/
theorem exists_isUseOf (awaits : Awaits source used before after) {node : ParseTree}
    {space : NameSpace} (member : (node, space) ∈ used) (intact : IsIntact node) :
    ∃ use, IsUseOf source after node space use := by
  induction awaits with
  | quiet => cases member
  | use state tree context space effect regular =>
    cases List.mem_singleton.1 member
    exact ⟨_, noteUse_isUseOf source state context space effect intact⟩
  | member => cases member
  | append begun ended ihFirst ihLast =>
    rcases List.mem_append.1 member with isFirst | isLast
    · obtain ⟨use, isUse⟩ := ihFirst isFirst
      exact ⟨use, isUse.of_grows ended.grows (ended.uses_kept isUse.waits)⟩
    · exact ihLast isLast

/-- Each use that begins to wait is that of a node that is used. -/
theorem isUseOf_of_mem (awaits : Awaits source used before after) {use : PendingUse}
    (member : use ∈ after.uses) :
    use ∈ before.uses ∨
      ∃ node space, (node, space) ∈ used ∧ IsUseOf source after node space use := by
  induction awaits with
  | quiet grows uses => exact .inl (uses ▸ member)
  | use state tree context space effect regular =>
    have uses := noteUse_uses source state tree context space effect
    split at uses
    · exact .inl (uses ▸ member)
    · rename_i intact
      rw [uses] at member
      rcases Array.mem_push.1 member with old | rfl
      · exact .inl old
      · exact .inr ⟨tree, space, List.mem_singleton_self _,
          noteUse_isUseOf source state context space effect (by simpa [IsIntact] using intact)⟩
  | member => exact .inl member
  | append begun ended ihFirst ihLast =>
    rcases ihLast member with earlier | ⟨node, space, isLast, isUse⟩
    · rcases ihFirst earlier with old | ⟨node, space, isFirst, isUse⟩
      · exact .inl old
      · exact .inr ⟨node, space, List.mem_append_left _ isFirst,
          isUse.of_grows ended.grows (ended.uses_kept isUse.waits)⟩
    · exact .inr ⟨node, space, List.mem_append_right _ isLast, isUse⟩

end Awaits

/-! ## Whole walks -/

theorem exists_awaits_run (source : List Char) (state : State) (frames : List Frame) :
    ∃ used, Awaits source used state (run source state frames) := by
  fun_induction run source state frames with
  | case1 state => exact ⟨[], .refl state⟩
  | case2 state frame rest visited ih =>
    obtain ⟨used, later⟩ := ih
    exact ⟨_, (visit_awaits source state frame).append later⟩

/-- At the end of a walk what waits is unbound and waits once. -/
theorem walked_waitsApart (source : List Char) (language : Language) (tree : ParseTree) :
    (SourceUnit.walked source language tree).WaitsApart := by
  obtain ⟨used, awaits⟩ := exists_awaits_run source (State.initial (language = .cpp))
    [Frame.root tree]
  exact awaits.waitsApart (waitsApart_initial _)

theorem Reaches.mem_waitingNames_walked {source : List Char} {language : Language}
    {tree : ParseTree} {visited waiting : List Frame} {state : State}
    (reached : Reaches source (State.initial (language = .cpp)) [Frame.root tree] visited state
      waiting) {name : Nat} (known : name < state.names.size) :
    name ∈ (SourceUnit.walked source language tree).waitingNames ↔ name ∈ state.waitingNames := by
  obtain ⟨used, awaits⟩ := exists_awaits_run source state waiting
  rw [reached.run_eq] at awaits
  exact awaits.mem_waitingNames_iff known

end CrossReference.Walk
