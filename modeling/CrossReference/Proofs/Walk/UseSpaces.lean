import CrossReference.Proofs.Walk.Macros
import CrossReference.Proofs.Walk.Spelling
import CrossReference.Proofs.Walk.UseOrder
import CrossReference.Proofs.Walk.Visits

/-!
# Uses keep to their name spaces

The tables of tags hold nothing but tags, and where tags are no types those of ordinary names hold
none, even after names have been declared by their use.  So a use of a tag is bound to a tag, or to
a macro that is still found there, and in C a use of an ordinary name is never bound to a tag.
-/

set_option autoImplicit false

namespace CrossReference

/-! ## Tables -/

/-- The tables of tags hold tags, and those of ordinary names hold none unless tags are types. -/
structure Scopes.TablesSuit (scopes : Scopes) (head? : Nat → Option (String × SymbolKind)) :
    Prop where
  tags : ∀ (number : Nat) (scope : Scope), scopes.all[number]? = some scope →
    ∀ pair ∈ scope.tags, Suits head? scopes.tagsAreTypes .tag pair.2.binding
  symbols : ∀ (number : Nat) (scope : Scope), scopes.all[number]? = some scope →
    ∀ pair ∈ scope.symbols, Suits head? scopes.tagsAreTypes .ordinary pair.2.binding

theorem Scopes.Apart.tablesSuit {scopes : Scopes} {head? : Nat → Option (String × SymbolKind)}
    (apart : scopes.Apart head?) : scopes.TablesSuit head? where
  tags number scope there pair member := (apart.tags number scope there pair member).2
  symbols number scope there pair member := (apart.symbols number scope there pair member).2

namespace Scopes.TablesSuit

variable {scopes : Scopes} {head? : Nat → Option (String × SymbolKind)}

/-- What a scope has for a tag is a tag; where tags are no types, what it has for an ordinary name
is none. -/
theorem suits_of_entry? (tables : scopes.TablesSuit head?) {space : NameSpace}
    (notQualifier : space ≠ .qualifier) {name : String} {number : Nat} {entry : ScopeEntry}
    (found : scopes.entry? space name number = some entry) :
    Suits head? scopes.tagsAreTypes space entry.binding := by
  unfold entry? at found
  split at found
  · rename_i scope there
    rcases mem_of_entryIn? found with ⟨tag, types⟩ | ⟨symbol, noTag⟩
    · exact (tables.tags number scope there _ tag).of_tag notQualifier types
    · exact (tables.symbols number scope there _ symbol).of_symbol noTag
  · cases found

theorem modify (tables : scopes.TablesSuit head?) (scope : Nat) (change : Scope → Scope)
    (tags : ∀ found, (change found).tags = found.tags)
    (symbols : ∀ found, (change found).symbols = found.symbols) :
    TablesSuit { scopes with all := scopes.all.modify scope change } head? := by
  have known (number : Nat) (after : Scope)
      (found : (scopes.all.modify scope change)[number]? = some after) :
      ∃ before, scopes.all[number]? = some before ∧ after.tags = before.tags ∧
        after.symbols = before.symbols := by
    rw [Array.getElem?_modify] at found
    split at found
    · obtain ⟨before, there, rfl⟩ := Option.map_eq_some_iff.1 found
      exact ⟨before, there, tags before, symbols before⟩
    · exact ⟨after, found, rfl, rfl⟩
  refine ⟨fun number after found pair member => ?_, fun number after found pair member => ?_⟩
  · obtain ⟨before, there, same, -⟩ := known number after found
    exact tables.tags number before there pair (same ▸ member)
  · obtain ⟨before, there, -, same⟩ := known number after found
    exact tables.symbols number before there pair (same ▸ member)

theorem declare (tables : scopes.TablesSuit head?) (scope : Nat) {name : String} {binding : Nat}
    (position : Nat) (suits : Suits head? scopes.tagsAreTypes .ordinary binding) :
    (scopes.declare scope .ordinary name binding position).TablesSuit head? := by
  have known (number : Nat) (after : Scope)
      (found : (scopes.declare scope .ordinary name binding position).all[number]? = some after) :
      ∃ before, scopes.all[number]? = some before ∧ after.tags = before.tags ∧
        ∀ pair ∈ after.symbols, pair ∈ before.symbols ∨ pair = (name, ⟨binding, position⟩) := by
    rw [getElem?_declare] at found
    split at found
    · obtain ⟨before, there, rfl⟩ := Option.map_eq_some_iff.1 found
      exact ⟨before, there, rfl, fun pair member => ScopeTable.mem_declare member⟩
    · exact ⟨after, found, rfl, fun _ => .inl⟩
  refine ⟨fun number after found pair member => ?_, fun number after found pair member => ?_⟩
  · obtain ⟨before, there, same, -⟩ := known number after found
    exact tables.tags number before there pair (same ▸ member)
  · obtain ⟨before, there, -, symbols⟩ := known number after found
    rcases symbols pair member with old | rfl
    · exact tables.symbols number before there pair old
    · exact suits

end Scopes.TablesSuit

namespace Walk

open ParseTree State

/-! ## Macros -/

namespace State

def MacrosSuit (state : State) : Prop :=
  ∀ text binding, HoldsMacro state.macros text binding →
    ∃ name, state.head? binding = some (name, .macroName)

theorem MacrosSuit.of_grows {before after : State} (suit : before.MacrosSuit)
    (grows : Grows before after) (held : ∀ text binding, HoldsMacro after.macros text binding →
      HoldsMacro before.macros text binding) : after.MacrosSuit := by
  intro text binding known
  obtain ⟨name, head⟩ := suit text binding (held text binding known)
  exact ⟨name, grows.head?_eq head⟩

end State

theorem Edit.macrosSuit {source : List Char} {frame : Frame} {before after : State}
    (edit : Edit source frame before after) (suit : before.MacrosSuit) : after.MacrosSuit := by
  have grows := edit.grows
  have same (equal : after.macros = before.macros) : after.MacrosSuit :=
    suit.of_grows grows fun _ _ held => equal ▸ held
  cases edit with
  | opened => exact same (by simp)
  | noted notes => exact same notes.macros
  | declared isKind declares => exact same declares.macros
  | shared scope isEnumerator declares => exact same declares.macros
  | pushed => exact same rfl
  | entered => exact same (by simp)
  | specified => exact same rfl
  | awaited => exact same rfl
  | accessed => exact same rfl
  | defined isDirective isKind defines =>
    intro text binding held
    rcases defines.macros text binding held with old | ⟨-, isMacro⟩
    · obtain ⟨name, head⟩ := suit text binding old
      exact ⟨name, grows.head?_eq head⟩
    · exact ⟨text, isMacro⟩
  | revoked macros values isDirective held => exact suit.of_grows grows held

theorem run_macrosSuit (source : List Char) (state : State) (frames : List Frame)
    (suit : state.MacrosSuit) : (run source state frames).MacrosSuit :=
  run_invariant (fun _ _ _ edit holds => edit.macrosSuit holds) state frames suit

theorem walked_macrosSuit (source : List Char) (language : Language) (tree : ParseTree) :
    (SourceUnit.walked source language tree).MacrosSuit := by
  apply run_macrosSuit
  rintro text binding ⟨entry, member, -⟩
  cases member

/-! ## What the last segment of a use is bound to -/

/-- A use of one name that is searched from the inside outwards. -/
def PendingUse.IsAlone (use : PendingUse) : Prop :=
  use.names.length = 1 ∧ use.isGlobal = false

namespace State

/-- The binding that a use gives to its last segment. -/
def lastBinding? (state : State) (use : PendingUse) : Option Nat :=
  (bindSegments use use.names (if use.isGlobal then some Scopes.file else none) true state).2

theorem bindSegments_getLast? (use : PendingUse) (names : List Nat) (scope : Option Nat)
    (isFirst : Bool) (state : State) {last : Nat} (isLast : names.getLast? = some last)
    (known : last < state.names.size) :
    (bindSegments use names scope isFirst state).1.binding? last =
      (bindSegments use names scope isFirst state).2 := by
  fun_induction bindSegments use names scope isFirst state with
  | case1 => cases isLast
  | case2 name =>
    obtain rfl : name = last := by simpa using isLast
    simp [binding?, setBinding_getElem?, Array.getElem?_eq_getElem known]
  | case3 name rest scope isFirst state notLast binding bound ih =>
    have later : rest.getLast? = some last := by
      rwa [List.getLast?_cons_of_ne_nil notLast] at isLast
    exact ih later (by simpa [bound, setBinding] using known)

theorem segmentBinding?_cases {state : State} {use : PendingUse} {scope : Option Nat}
    {isFirst : Bool} {space : NameSpace} {text : String} {binding : Nat}
    (found : state.segmentBinding? use scope isFirst space text = some binding) :
    (scope = none ∧ isFirst = true ∧ state.macroAt? text use.position = some binding) ∨
      ∃ number entry, state.scopes.entry? space text number = some entry ∧
        entry.binding = binding := by
  unfold segmentBinding? at found
  split at found
  · exact .inr (Scopes.exists_entry_of_lookupMember found)
  · split at found
    · rename_i isFirst
      split at found
      · rename_i isMacro
        exact .inl ⟨rfl, isFirst, isMacro.trans found⟩
      · exact .inr (Scopes.exists_entry_of_lookup found)
    · cases found

/-- The last segment is bound to a macro, if it is the only one, or to what the use finds in some
scope. -/
theorem bindSegments_cases (use : PendingUse) (names : List Nat) (scope : Option Nat)
    (isFirst : Bool) (state : State) {last binding : Nat} (isLast : names.getLast? = some last)
    (bound : (bindSegments use names scope isFirst state).2 = some binding) :
    (names = [last] ∧ scope = none ∧ isFirst = true ∧
        state.macroAt? (state.spelling last) use.position = some binding) ∨
      ∃ number entry, state.scopes.entry? use.space (state.spelling last) number = some entry ∧
        entry.binding = binding := by
  fun_induction bindSegments use names scope isFirst state with
  | case1 => cases isLast
  | case2 name scope isFirst state =>
    obtain rfl : name = last := by simpa using isLast
    exact (segmentBinding?_cases bound).imp_left fun isMacro => ⟨rfl, isMacro⟩
  | case3 name rest scope isFirst state notLast found after ih =>
    have later : rest.getLast? = some last := by
      rwa [List.getLast?_cons_of_ne_nil notLast] at isLast
    have spelled : after.spelling last = state.spelling last := setBinding_spelling state _ _ _
    obtain ⟨-, -, notFirst, -⟩ | found := ih later bound
    · cases notFirst
    · rw [spelled] at found
      exact .inr found

/-! ## While uses are resolved -/

/-- What holds of the states in which the uses of a walk are resolved. -/
structure Resolving (walked current : State) : Prop where
  rebinds : Rebinds walked current
  macros : current.macros = walked.macros
  types : current.scopes.tagsAreTypes = walked.scopes.tagsAreTypes
  tables : current.scopes.TablesSuit walked.head?

namespace Resolving

variable {walked current : State}

theorem spelling_eq (resolving : Resolving walked current) {name : Nat}
    (known : name < walked.names.size) : current.spelling name = walked.spelling name :=
  resolving.rebinds.spelling_eq known

theorem macroAt?_eq (resolving : Resolving walked current) {name : Nat}
    (known : name < walked.names.size) (position : Nat) :
    current.macroAt? (current.spelling name) position =
      walked.macroAt? (walked.spelling name) position := by
  rw [macroAt?, resolving.macros, resolving.spelling_eq known, ← macroAt?]

/-- A use is bound to a macro, or to what suits its name space. -/
theorem lastBinding?_cases (resolving : Resolving walked current) {use : PendingUse}
    (notQualifier : use.space ≠ .qualifier) {last binding : Nat}
    (isLast : use.names.getLast? = some last) (known : last < walked.names.size)
    (bound : current.lastBinding? use = some binding) :
    (use.IsAlone ∧ walked.macroAt? (walked.spelling last) use.position = some binding) ∨
      Suits walked.head? walked.scopes.tagsAreTypes use.space binding := by
  rcases bindSegments_cases use use.names _ true current isLast bound with
    ⟨names, notGlobal, -, isMacro⟩ | ⟨number, entry, found, rfl⟩
  · left
    rw [resolving.macroAt?_eq known] at isMacro
    exact ⟨⟨by rw [names]; rfl, by simpa using notGlobal⟩, isMacro⟩
  · right
    rw [← resolving.types]
    exact resolving.tables.suits_of_entry? notQualifier found

theorem lastBinding?_of_macroAt? (resolving : Resolving walked current) {use : PendingUse}
    (alone : use.IsAlone) {last binding : Nat} (isLast : use.names.getLast? = some last)
    (known : last < walked.names.size)
    (isMacro : walked.macroAt? (walked.spelling last) use.position = some binding) :
    current.lastBinding? use = some binding := by
  obtain ⟨one, notGlobal⟩ := alone
  obtain ⟨name, names⟩ := List.length_eq_one_iff.1 one
  obtain rfl : name = last := by simpa [names] using isLast
  rw [← resolving.macroAt?_eq known] at isMacro
  simp [lastBinding?, names, notGlobal, bindSegments, segmentBinding?, isMacro]

theorem changeScopes (resolving : Resolving walked current) {scopes : Scopes}
    (types : scopes.tagsAreTypes = current.scopes.tagsAreTypes)
    (tables : scopes.TablesSuit walked.head?) :
    Resolving walked { current with scopes := scopes } where
  rebinds := resolving.rebinds.trans (.scopes current scopes)
  macros := resolving.macros
  types := types.trans resolving.types
  tables := tables

theorem applyEffect (resolving : Resolving walked current) {binding : Nat} {effect : Effect}
    (suits : ∀ into position, effect = .usingDeclaration into position →
      Suits walked.head? walked.scopes.tagsAreTypes .ordinary binding) :
    Resolving walked (current.applyEffect binding effect) := by
  unfold State.applyEffect
  cases effect with
  | none => exact resolving
  | usingNamespace into =>
    simp only
    split
    · exact resolving.changeScopes rfl
        (resolving.tables.modify into _ (fun _ => rfl) fun _ => rfl)
    · exact resolving
  | base derived =>
    simp only
    split
    · exact resolving.changeScopes rfl
        (resolving.tables.modify derived _ (fun _ => rfl) fun _ => rfl)
    · exact resolving
  | usingDeclaration into position =>
    have suited := suits into position rfl
    rw [← resolving.types] at suited
    simp only
    split
    · split
      · exact resolving
      · exact resolving.changeScopes rfl (resolving.tables.declare into position suited)
    · exact resolving

theorem bindAll (resolving : Resolving walked current) {bindings : List (Nat × Option Nat)}
    (rebinds : Rebinds current (current.bindAll bindings)) :
    Resolving walked (current.bindAll bindings) := by
  obtain ⟨scopes, macros, -⟩ := bindAll_quiet current bindings
  refine ⟨resolving.rebinds.trans rebinds, macros.trans resolving.macros, ?_, ?_⟩
  · rw [scopes]
    exact resolving.types
  · rw [scopes]
    exact resolving.tables

theorem resolveUse (resolving : Resolving walked current) (apart : walked.WaitsApart)
    (suit : walked.MacrosSuit) {use : PendingUse} (waits : use ∈ walked.uses) :
    Resolving walked (current.resolveUse use) := by
  have unbound {name : Nat} (member : name ∈ use.names) : walked.IsUnbound name :=
    apart.unbound name (List.mem_append_left _
      (List.mem_flatMap.2 ⟨use, Array.mem_def.1 waits, member⟩))
  have uses : ∀ name ∈ use.names, IsUse current name := by
    intro name member
    obtain ⟨found, there, isUse, -⟩ := unbound member
    exact resolving.rebinds.isUse ⟨found, there, isUse⟩
  have rebinds := bindSegments_rebinds use use.names
    (if use.isGlobal then some Scopes.file else none) true current uses
  have bound := resolving.bindAll (bindSegments_eq use use.names _ true current ▸ rebinds)
  rw [← bindSegments_eq] at bound
  unfold State.resolveUse
  simp only
  split
  · rename_i binding isBinding
    apply bound.applyEffect
    intro into position isDeclaration
    have ordinary := apart.regular use waits into position isDeclaration
    cases isLast : use.names.getLast? with
    | none =>
      rw [List.getLast?_eq_none_iff.1 isLast] at isBinding
      cases isBinding
    | some last =>
      have known := (unbound (List.mem_of_getLast? isLast)).lt_size
      rcases resolving.lastBinding?_cases (by simp [ordinary]) isLast known isBinding with
        ⟨-, isMacro⟩ | suits
      · obtain ⟨name, head⟩ := suit _ _ (holdsMacro_of_macroAt? isMacro)
        exact ⟨_, head, fun _ isTag => by cases isTag⟩
      · rwa [ordinary] at suits
  · exact bound

theorem foldl_resolveUse (resolving : Resolving walked current) (apart : walked.WaitsApart)
    (suit : walked.MacrosSuit) {uses : List PendingUse} (wait : ∀ use ∈ uses, use ∈ walked.uses) :
    Resolving walked (uses.foldl State.resolveUse current) :=
  List.foldlRecOn (motive := Resolving walked) _ _ resolving
    fun _ known use member => known.resolveUse apart suit (wait use member)

end Resolving

theorem resolveUse_binding? (current : State) {use : PendingUse} {last : Nat}
    (isLast : use.names.getLast? = some last) (known : last < current.names.size) :
    (current.resolveUse use).binding? last = current.lastBinding? use := by
  have bound := bindSegments_getLast? use use.names
    (if use.isGlobal then some Scopes.file else none) true current isLast known
  unfold resolveUse
  simp only
  split
  · rw [binding?, applyEffect_names]
    exact bound
  · exact bound

section Split

variable {walked : State} {use : PendingUse} {before after : List PendingUse}

theorem mem_uses_of_split (split : walked.usesInOrder = before ++ use :: after) {other : PendingUse}
    (member : other ∈ before ++ use :: after) : other ∈ walked.uses :=
  Array.mem_def.2 (walked.usesInOrder_perm.mem_iff.1 (split ▸ member))

theorem WaitsApart.not_later (apart : walked.WaitsApart)
    (split : walked.usesInOrder = before ++ use :: after) {name : Nat} (isName : name ∈ use.names) :
    (∀ other ∈ after, name ∉ other.names) ∧
      ∀ member ∈ walked.members.toList, member.name ≠ name := by
  have nodup : (walked.usesInOrder.flatMap PendingUse.names ++
      walked.members.toList.map PendingMember.name).Nodup :=
    ((walked.usesInOrder_perm.flatMap_right PendingUse.names).append_right _).nodup_iff.2 apart.nodup
  obtain ⟨nodupUses, -, noMember⟩ := List.nodup_append.1 nodup
  rw [split, List.flatMap_append, List.flatMap_cons] at nodupUses
  obtain ⟨-, -, notLater⟩ := List.nodup_append.1 (List.nodup_append.1 nodupUses).2.1
  refine ⟨fun other member inOther => ?_, fun member isMember same => ?_⟩
  · exact notLater name isName name (List.mem_flatMap.2 ⟨other, member, inOther⟩) rfl
  · refine noMember name ?_ name (List.mem_map.2 ⟨member, isMember, same⟩) rfl
    rw [split]
    exact List.mem_flatMap.2 ⟨use, by simp, isName⟩

theorem WaitsApart.binding?_eq (apart : walked.WaitsApart)
    (split : walked.usesInOrder = before ++ use :: after) {name : Nat} (isName : name ∈ use.names) :
    walked.resolve.binding? name =
      ((before.foldl State.resolveUse walked).resolveUse use).binding? name := by
  obtain ⟨later, members⟩ := apart.not_later split isName
  rw [binding?, resolve, foldl_resolveMember_getElem? _ members, learnTypeScopes_names, split,
    List.foldl_append, List.foldl_cons, foldl_resolveUse_getElem? _ later, binding?]

theorem WaitsApart.resolving (apart : walked.WaitsApart) (suit : walked.MacrosSuit)
    (tables : walked.scopes.TablesSuit walked.head?)
    (split : walked.usesInOrder = before ++ use :: after) :
    Resolving walked (before.foldl State.resolveUse walked) :=
  Resolving.foldl_resolveUse ⟨.refl walked, rfl, rfl, tables⟩ apart suit fun _ member =>
    mem_uses_of_split split (List.mem_append_left _ member)

theorem exists_split (waits : use ∈ walked.uses) :
    ∃ before after, walked.usesInOrder = before ++ use :: after :=
  List.append_of_mem (walked.usesInOrder_perm.mem_iff.2 (Array.mem_def.1 waits))

end Split

theorem WaitsApart.lt_size {walked : State} (apart : walked.WaitsApart) {use : PendingUse}
    (waits : use ∈ walked.uses) {name : Nat} (isName : name ∈ use.names) :
    name < walked.names.size :=
  (apart.unbound name (List.mem_append_left _
    (List.mem_flatMap.2 ⟨use, Array.mem_def.1 waits, isName⟩))).lt_size

end State

/-! ## Uses of the nodes of a tree -/

structure UsedAt (source : List Char) (language : Language) (tree node : ParseTree)
    (space : NameSpace) (use : PendingUse) : Prop where
  noted : ∃ visited state frame waiting,
    Reaches source (State.initial (language = .cpp)) [Frame.root tree] visited state
      (frame :: waiting) ∧ (node, space) ∈ frame.usedNames
  isUse : IsUseOf source (SourceUnit.walked source language tree) node space use

section UsedAt

variable {source : List Char} {language : Language} {tree : ParseTree}

theorem exists_usedAt {visited waiting : List Frame} {state : State} {frame : Frame}
    (moment : Reaches source (State.initial (language = .cpp)) [Frame.root tree] visited state
      (frame :: waiting)) {node : ParseTree} {space : NameSpace}
    (used : (node, space) ∈ frame.usedNames) (intact : IsIntact node) :
    ∃ use, UsedAt source language tree node space use := by
  obtain ⟨use, isUse⟩ := (visit_awaits source state frame).exists_isUseOf used intact
  obtain ⟨_, later⟩ := exists_awaits_run source (visit source state frame).1
    ((visit source state frame).2 ++ waiting)
  rw [moment.visit.run_eq] at later
  exact ⟨use, ⟨_, _, _, _, moment, used⟩,
    isUse.of_grows moment.visit.grows_walked (later.uses_kept isUse.waits)⟩

/-- All uses that wait at some moment are those of nodes used before. -/
theorem Reaches.exists_usedNames {visited waiting : List Frame} {state : State}
    (reached : Reaches source (State.initial (language = .cpp)) [Frame.root tree] visited state
      waiting) :
    ∀ use ∈ state.uses, ∃ node space, (∃ before earlier frame rest,
      Reaches source (State.initial (language = .cpp)) [Frame.root tree] before earlier
        (frame :: rest) ∧ (node, space) ∈ frame.usedNames) ∧
      IsUseOf source state node space use := by
  induction reached with
  | start =>
    intro use member
    simp [State.initial] at member
  | @visit visited waiting state frame moment ih =>
    have awaits := visit_awaits source state frame
    intro use member
    rcases awaits.isUseOf_of_mem member with old | ⟨node, space, used, isUse⟩
    · obtain ⟨node, space, noted, isUse⟩ := ih use old
      exact ⟨node, space, noted, isUse.of_grows awaits.grows member⟩
    · exact ⟨node, space, ⟨_, _, _, _, moment, used⟩, isUse⟩

theorem exists_usedAt_of_mem {use : PendingUse}
    (waits : use ∈ (SourceUnit.walked source language tree).uses) :
    ∃ node space, UsedAt source language tree node space use := by
  obtain ⟨visited, ended⟩ := exists_reaches_run source
    (State.initial (language = .cpp)) [Frame.root tree]
  obtain ⟨node, space, noted, isUse⟩ := ended.exists_usedNames use waits
  exact ⟨node, space, noted, isUse⟩

/-- What the last segment of a use is bound to at the end, the use was bound to in a state with the
tables of the walk. -/
theorem UsedAt.exists_resolving {node : ParseTree} {space : NameSpace} {use : PendingUse}
    (usedAt : UsedAt source language tree node space use) {last : Nat}
    (isLast : use.names.getLast? = some last) :
    let walked := SourceUnit.walked source language tree
    last < walked.names.size ∧
      ∃ current, Resolving walked current ∧
        walked.resolve.binding? last = current.lastBinding? use := by
  intro walked
  have apart : walked.WaitsApart := walked_waitsApart source language tree
  have suit : walked.MacrosSuit := walked_macrosSuit source language tree
  obtain ⟨visited, ended⟩ := exists_reaches_run source
    (State.initial (language = .cpp)) [Frame.root tree]
  have named : Named source language tree walked := ended.named
  have isName : last ∈ use.names := List.mem_of_getLast? isLast
  obtain ⟨before, after, split⟩ := exists_split usedAt.isUse.waits
  have resolving := apart.resolving suit named.apart.tablesSuit split
  have known := apart.lt_size usedAt.isUse.waits isName
  refine ⟨known, _, resolving, ?_⟩
  rw [apart.binding?_eq split isName,
    resolveUse_binding? _ isLast (resolving.rebinds.names ▸ known)]

/-- The last segment of a use is bound to a macro, if it stands alone and one is found there, or to a
symbol that suits the name space of the use. -/
theorem UsedAt.binding?_cases {node : ParseTree} {space : NameSpace} {use : PendingUse}
    (usedAt : UsedAt source language tree node space use) (notQualifier : space ≠ .qualifier)
    {last binding : Nat} (isLast : use.names.getLast? = some last)
    (bound : (SourceUnit.walked source language tree).resolve.binding? last = some binding) :
    let walked := SourceUnit.walked source language tree
    (use.IsAlone ∧ walked.macroAt? (walked.spelling last) node.start = some binding) ∨
      Suits walked.head? (decide (language = .cpp)) space binding := by
  intro walked
  obtain ⟨visited, ended⟩ := exists_reaches_run source
    (State.initial (language = .cpp)) [Frame.root tree]
  have named : Named source language tree walked := ended.named
  obtain ⟨known, current, resolving, same⟩ := usedAt.exists_resolving isLast
  have isUse : IsUseOf source walked node space use := usedAt.isUse
  have cases' := resolving.lastBinding?_cases (isUse.space ▸ notQualifier) isLast known
    (same.symm.trans bound)
  rwa [isUse.space, isUse.position, named.types] at cases'

theorem UsedAt.binding?_of_macroAt? {node : ParseTree} {space : NameSpace} {use : PendingUse}
    (usedAt : UsedAt source language tree node space use) (alone : use.IsAlone)
    {last binding : Nat} (isLast : use.names.getLast? = some last)
    (isMacro : let walked := SourceUnit.walked source language tree
      walked.macroAt? (walked.spelling last) node.start = some binding) :
    (SourceUnit.walked source language tree).resolve.binding? last = some binding := by
  obtain ⟨known, current, resolving, same⟩ := usedAt.exists_resolving isLast
  rw [same]
  exact resolving.lastBinding?_of_macroAt? alone isLast known (usedAt.isUse.position ▸ isMacro)

def tagKinds : List SymbolKind := [.className, .structName, .unionName, .enumName]

theorem mem_tagKinds_iff (kind : SymbolKind) : kind ∈ tagKinds ↔ kind.space = .tag := by
  cases kind <;> decide

theorem exists_symbol_of_head? {binding : Nat} {head : String × SymbolKind}
    (isHead : (SourceUnit.walked source language tree).head? binding = some head) :
    ∃ symbol, (SourceUnit.walked source language tree).resolve.symbols[binding]? = some symbol ∧
      symbol.kind = head.2 := by
  rw [← (walked_rebinds source language tree).heads] at isHead
  obtain ⟨symbol, there, rfl⟩ := Option.map_eq_some_iff.1 isHead
  exact ⟨symbol, there, rfl⟩

theorem head?_of_macroAt? {text : String} {position binding : Nat}
    (isMacro : (SourceUnit.walked source language tree).macroAt? text position = some binding) :
    ∃ name, (SourceUnit.walked source language tree).head? binding = some (name, .macroName) :=
  walked_macrosSuit source language tree _ _ (holdsMacro_of_macroAt? isMacro)

/-- What is used as a tag is bound to one just if it is not hidden by a macro. -/
theorem UsedAt.isTag_iff {node : ParseTree} {use : PendingUse} {last binding : Nat}
    (usedAt : UsedAt source language tree node .tag use) (isLast : use.names.getLast? = some last)
    (bound : (SourceUnit.walked source language tree).resolve.binding? last = some binding) :
    let walked := SourceUnit.walked source language tree
    ∃ symbol, walked.resolve.symbols[binding]? = some symbol ∧
      (symbol.kind ∈ tagKinds ↔ ¬ (use.IsAlone ∧
        (walked.macroAt? (walked.spelling last) node.start).isSome = true)) := by
  intro walked
  by_cases isMacro : use.IsAlone ∧
      (walked.macroAt? (walked.spelling last) node.start).isSome = true
  · obtain ⟨found, isFound⟩ := Option.isSome_iff_exists.1 isMacro.2
    obtain rfl : found = binding := Option.some.inj
      ((usedAt.binding?_of_macroAt? isMacro.1 isLast isFound).symm.trans bound)
    obtain ⟨name, head⟩ := head?_of_macroAt? isFound
    obtain ⟨symbol, there, kind⟩ := exists_symbol_of_head? head
    have noTag : SymbolKind.macroName ∉ tagKinds := by decide
    exact ⟨symbol, there, iff_of_false (kind ▸ noTag) (not_not_intro isMacro)⟩
  · obtain ⟨alone, isFound⟩ | ⟨head, isHead, isTag⟩ :=
      usedAt.binding?_cases (by decide) isLast bound
    · exact absurd ⟨alone, Option.isSome_of_eq_some isFound⟩ isMacro
    · obtain ⟨symbol, there, kind⟩ := exists_symbol_of_head? isHead
      exact ⟨symbol, there, iff_of_true ((mem_tagKinds_iff _).2 (kind ▸ isTag)) isMacro⟩

end UsedAt

/-- Each name that a visit uses waits as a use of it in its name space, and nothing else waits.  A
name that is used as a tag, if it is bound, is bound to a class, struct, union or enum, unless it
stands alone and a macro of its spelling is found there.  One is found where the last directive on it
is a definition, and also where it is not but two definitions followed each other before.  In C a
name that is used as an ordinary one is never bound to a tag.  A specifier whose name has template
arguments uses no tag by itself: its parts are visited as plain names. -/
theorem uses_keep_to_name_spaces (source : List Char) (language : Language) (tree : ParseTree) :
    let walked := SourceUnit.walked source language tree
    (∀ visited state frame waiting node space,
      Reaches source (State.initial (language = .cpp)) [Frame.root tree] visited state
        (frame :: waiting) →
      (node, space) ∈ frame.usedNames → IsIntact node →
        ∃ use, UsedAt source language tree node space use) ∧
    (∀ use ∈ walked.uses, ∃ node space, UsedAt source language tree node space use) ∧
    (∀ node use last binding, UsedAt source language tree node .tag use →
      use.names.getLast? = some last →
      walked.resolve.binding? last = some binding →
        ∃ symbol, walked.resolve.symbols[binding]? = some symbol ∧
          (symbol.kind ∈ tagKinds ↔
            ¬ (use.IsAlone ∧
              (walked.macroAt? (walked.spelling last) node.start).isSome = true))) ∧
    (∀ visited,
      Reaches source (State.initial (language = .cpp)) [Frame.root tree] visited walked [] →
      (macroDirectives source visited).Pairwise (·.position ≤ ·.position) →
      ∀ node use last binding, UsedAt source language tree node .tag use →
        use.names.getLast? = some last →
        walked.resolve.binding? last = some binding →
          let before := upTo node.start (onMacro (walked.spelling last)
            (macroDirectives source visited))
          ∃ symbol, walked.resolve.symbols[binding]? = some symbol ∧
            (symbol.kind ∈ tagKinds ↔
              ¬ (use.IsAlone ∧ (DefinesLast before ∨ Redefines before)))) ∧
    (language = .c →
      ∀ node use last binding, UsedAt source language tree node .ordinary use →
        use.names.getLast? = some last →
        walked.resolve.binding? last = some binding →
          ∃ symbol, walked.resolve.symbols[binding]? = some symbol ∧ symbol.kind ∉ tagKinds) := by
  intro walked
  refine ⟨fun _ _ _ _ _ _ moment used intact => exists_usedAt moment used intact,
    fun use waits => exists_usedAt_of_mem waits,
    fun node use last binding usedAt isLast bound => usedAt.isTag_iff isLast bound, ?_, ?_⟩
  · intro visited reached ordered node use last binding usedAt isLast bound before
    have visible : (walked.macroAt? (walked.spelling last) node.start).isSome = true ↔
        DefinesLast before ∨ Redefines before := by
      rw [State.macroAt?_isSome, reached.spansOf_eq]
      exact covers_iff (ordered.filter _) node.start
    rw [← visible]
    exact usedAt.isTag_iff isLast bound
  · rintro rfl node use last binding usedAt isLast bound
    have suits : Suits walked.head? false .ordinary binding := by
      obtain ⟨-, isMacro⟩ | suits := usedAt.binding?_cases (by decide) isLast bound
      · obtain ⟨name, head⟩ := head?_of_macroAt? isMacro
        exact ⟨_, head, fun _ isTag => by cases isTag⟩
      · exact suits
    obtain ⟨head, isHead, noTag⟩ := suits
    obtain ⟨symbol, there, kind⟩ := exists_symbol_of_head? isHead
    refine ⟨symbol, there, fun isTag => noTag rfl ?_⟩
    rw [← kind]
    exact (mem_tagKinds_iff _).1 isTag

/-! ## A variable and macros named like a struct -/

/-- A text in which a struct is used before it is declared, and then a variable of its name.  Another
struct has the name of a macro that was defined twice and then taken back. -/
def taggedText : List Char :=
  ("struct s v;struct s{};int s;s;\n" ++
    "#define X 1\n#define X 2\n#undef X\nstruct X{};\nstruct X w;").toList

def elaboratedName : ParseTree := ruleNode 3 "type_identifier" "name" 7 8 []

def elaboratedNode : ParseTree := ruleNode 2 "struct_specifier" "type" 0 8 [elaboratedName]

def structVariable : ParseTree := ruleNode 4 "identifier" "declarator" 9 10 []

def structDeclaration : ParseTree :=
  ruleNode 1 "declaration" "" 0 11 [elaboratedNode, structVariable]

def structDefinition : ParseTree :=
  ruleNode 5 "struct_specifier" "" 11 21
    [ruleNode 6 "type_identifier" "name" 18 19 [],
      ruleNode 7 "field_declaration_list" "body" 19 21 []]

def namesakeDeclaration : ParseTree :=
  ruleNode 8 "declaration" "" 22 28
    [ruleNode 9 "primitive_type" "type" 22 25 [], ruleNode 10 "identifier" "declarator" 26 27 []]

def namesakeStatement : ParseTree :=
  ruleNode 11 "expression_statement" "" 28 30 [ruleNode 12 "identifier" "" 28 29 []]

def withdrawnMacro : List ParseTree :=
  [ruleNode 13 "preproc_def" "" 31 43 [ruleNode 14 "identifier" "name" 39 40 []],
    ruleNode 15 "preproc_def" "" 43 55 [ruleNode 16 "identifier" "name" 51 52 []],
    ruleNode 17 "preproc_call" "" 55 64
      [ruleNode 18 "preproc_directive" "directive" 55 61 [],
        ruleNode 19 "preproc_arg" "argument" 62 63 []],
    ruleNode 20 "struct_specifier" "" 64 74
      [ruleNode 21 "type_identifier" "name" 71 72 [],
        ruleNode 22 "field_declaration_list" "body" 72 74 []],
    ruleNode 23 "declaration" "" 76 87
      [ruleNode 24 "struct_specifier" "type" 76 84 [ruleNode 25 "type_identifier" "name" 83 84 []],
        ruleNode 26 "identifier" "declarator" 85 86 []]]

def taggedTree : ParseTree :=
  ruleNode 0 "translation_unit" "" 0 87
    (structDeclaration :: structDefinition :: namesakeDeclaration :: namesakeStatement ::
      withdrawnMacro)

theorem visit_taggedTree (state : State) :
    visit taggedText state (Frame.root taggedTree) =
      (state, (structDeclaration :: structDefinition :: namesakeDeclaration :: namesakeStatement ::
        withdrawnMacro).map fun tree => ⟨tree, true, .file, .plain⟩) := by
  have form : taggedTree.form = .transparent := by decide
  simp only [visit, Frame.root, visitPlain, form]
  rfl

theorem visit_structDeclaration (state : State) :
    visit taggedText state ⟨structDeclaration, true, .file, .plain⟩ =
      (let (opened, inner) := state.openDeclaration "declaration" .file
       (opened, [⟨elaboratedNode, false, inner, .plain⟩,
         ⟨structVariable, false, inner, .declarator .variable (some (.name 3)) none⟩])) := by
  have form : structDeclaration.form = .declaration .variable := by decide
  have type : structDeclaration.declaredType? = some (.name 3) := by decide +kernel
  simp only [visit, visitPlain, form, visitDeclaration, type]
  rfl

def taggedUse : PendingUse := ⟨[0], .tag, false, Scopes.file, 7, .none⟩

def plainUse : PendingUse := ⟨[4], .ordinary, false, Scopes.file, 28, .none⟩

def hiddenUse : PendingUse := ⟨[8], .tag, false, Scopes.file, 83, .none⟩

theorem isIntact_elaboratedName : IsIntact elaboratedName := by
  have unqualified : isQualified elaboratedName.kind = false := by decide
  unfold IsIntact QualifiedName.ofTree
  rw [QualifiedName.ofTreeFrom, unqualified]
  exact ⟨rfl, List.cons_ne_nil _ _⟩

def withdrawnDirectives : List MacroDirective :=
  [⟨"X", 43, true, true⟩, ⟨"X", 55, true, true⟩, ⟨"X", 55, false, true⟩]

theorem redefines_withdrawnDirectives : Redefines withdrawnDirectives :=
  ⟨⟨"X", 43, true, true⟩, ⟨"X", 55, true, true⟩, ⟨[], [⟨"X", 55, false, true⟩], rfl⟩, rfl, rfl⟩

theorem not_definesLast_withdrawnDirectives : ¬ DefinesLast withdrawnDirectives := by
  rintro ⟨last, isLast, defines⟩
  cases isLast
  cases defines

theorem exists_visited_taggedTree :
    ∃ visited, Reaches taggedText (State.initial (Language.c = .cpp)) [Frame.root taggedTree] visited
        (SourceUnit.walked taggedText .c taggedTree) [] ∧
      macroDirectives taggedText visited = withdrawnDirectives := by
  have directives : (visitWithin taggedText 60 (State.initial (Language.c = .cpp))
      [Frame.root taggedTree]).map (fun found => macroDirectives taggedText found.1) =
        some withdrawnDirectives := by
    decide +kernel
  obtain ⟨⟨visited, last⟩, ends, same⟩ := Option.map_eq_some_iff.1 directives
  have reached := Reaches.start.visitWithin ends
  have isEnd : last = SourceUnit.walked taggedText .c taggedTree :=
    (run_nil _ _).symm.trans reached.run_eq
  exact ⟨visited, isEnd ▸ reached, same⟩

/-- The use of the one tag is bound to its struct, and a use of the variable to the variable.  The use
of the other tag is bound to the macro, though that is not defined any more. -/
theorem uses_of_struct_and_variable_stay_apart :
    let walked := SourceUnit.walked taggedText .c taggedTree
    (UsedAt taggedText .c taggedTree elaboratedName .tag taggedUse ∧
      walked.macroAt? (walked.spelling 0) 7 = none ∧ walked.resolve.binding? 0 = some 1 ∧
      ∃ symbol, walked.resolve.symbols[1]? = some symbol ∧ symbol.kind ∈ tagKinds) ∧
    ((∃ node, UsedAt taggedText .c taggedTree node .ordinary plainUse) ∧
      walked.resolve.binding? 4 = some 2 ∧
      ∃ symbol, walked.resolve.symbols[2]? = some symbol ∧ symbol.kind ∉ tagKinds) ∧
    ∃ visited, Reaches taggedText (State.initial (Language.c = .cpp)) [Frame.root taggedTree]
        visited walked [] ∧
      (macroDirectives taggedText visited).Pairwise (·.position ≤ ·.position) ∧
      (∃ node, UsedAt taggedText .c taggedTree node .tag hiddenUse) ∧
      ¬ DefinesLast (upTo 83 (onMacro "X" (macroDirectives taggedText visited))) ∧
      walked.resolve.binding? 8 = some 3 ∧
      ∃ symbol, walked.resolve.symbols[3]? = some symbol ∧ symbol.kind ∉ tagKinds := by
  intro walked
  obtain ⟨exist, noted, tags, besideMacros, ordinary⟩ :=
    uses_keep_to_name_spaces taggedText .c taggedTree
  have begun : Reaches taggedText (State.initial (Language.c = .cpp))
      [Frame.root taggedTree] [] _ _ := .start
  have moment := (begun.visit_eq (visit_taggedTree _)).visit_eq (visit_structDeclaration _)
  obtain ⟨use, used⟩ := exist _ _ _ _ elaboratedName .tag moment
    (List.mem_singleton_self _) isIntact_elaboratedName
  have onlyOne : ∀ use ∈ walked.uses, use.space = .tag → use.position = 7 → use = taggedUse := by
    decide +kernel
  obtain rfl := onlyOne use used.isUse.waits used.isUse.space used.isUse.position
  obtain ⟨plainNode, plainSpace, plainUsed⟩ := noted plainUse (by decide +kernel)
  obtain rfl : NameSpace.ordinary = plainSpace := plainUsed.isUse.space
  obtain ⟨hiddenNode, hiddenSpace, hiddenUsed⟩ := noted hiddenUse (by decide +kernel)
  obtain rfl : NameSpace.tag = hiddenSpace := hiddenUsed.isUse.space
  have position : 83 = hiddenNode.start := hiddenUsed.isUse.position
  have noMacro : walked.macroAt? (walked.spelling 0) 7 = none := by decide +kernel
  have spelled : walked.spelling 8 = "X" := by decide +kernel
  have tagBound : walked.resolve.binding? 0 = some 1 := by decide +kernel
  have plainBound : walked.resolve.binding? 4 = some 2 := by decide +kernel
  have hiddenBound : walked.resolve.binding? 8 = some 3 := by decide +kernel
  obtain ⟨visited, reached, directives⟩ := exists_visited_taggedTree
  have ordered : (macroDirectives taggedText visited).Pairwise (·.position ≤ ·.position) := by
    rw [directives]
    decide
  have before : upTo 83 (onMacro "X" (macroDirectives taggedText visited)) =
      withdrawnDirectives := by
    rw [directives]
    decide
  obtain ⟨struct, isStruct, structKind⟩ := tags elaboratedName taggedUse 0 1 used rfl tagBound
  obtain ⟨hidden, isHidden, hiddenKind⟩ := besideMacros visited reached ordered hiddenNode hiddenUse 8
    3 hiddenUsed rfl hiddenBound
  refine ⟨⟨used, noMacro, tagBound, struct, isStruct, structKind.2 ?_⟩,
    ⟨⟨plainNode, plainUsed⟩, plainBound, ordinary rfl plainNode plainUse 4 2 plainUsed rfl plainBound⟩,
    visited, reached, ordered, ⟨hiddenNode, hiddenUsed⟩,
    before.symm ▸ not_definesLast_withdrawnDirectives, hiddenBound, hidden, isHidden,
    fun isTag => hiddenKind.1 isTag ⟨⟨rfl, rfl⟩, .inr ?_⟩⟩
  · rintro ⟨-, isMacro⟩
    have none : walked.macroAt? (walked.spelling 0) elaboratedName.start = none := noMacro
    rw [none] at isMacro
    cases isMacro
  · rw [spelled, ← position, before]
    exact redefines_withdrawnDirectives

end Walk

end CrossReference
