import CrossReference.Proofs.Scope
import CrossReference.Proofs.Walk.Resolve

/-!
# Tags and ordinary names

A tag and an ordinary name of the same spelling have different symbols where tags are no types.
Where they are, what is declared after a tag of its spelling in the same scope shares the symbol of
the tag, and nothing else does.
-/

set_option autoImplicit false

namespace CrossReference

/-- Kinds of symbols that are neither tags nor other names of scopes or types. -/
def SymbolKind.isEntity : SymbolKind → Bool
  | .function | .variable | .field | .parameter | .enumerator => true
  | .namespaceName | .className | .structName | .unionName | .enumName | .typeAlias
  | .templateParameter | .macroName => false

theorem SymbolKind.space_of_isEntity {kind : SymbolKind} (entity : kind.isEntity = true) :
    kind.space = .ordinary := by
  cases kind <;> first | rfl | cases entity

/-! ## What the tables hold -/

/-- What a symbol in a table of tags or of ordinary names is, where `head?` gives the name and the
kind of a symbol. -/
def Suits (head? : Nat → Option (String × SymbolKind)) (tagsAreTypes : Bool) (space : NameSpace)
    (binding : Nat) : Prop :=
  ∃ head, head? binding = some head ∧
    match space with
    | .tag => head.2.space = .tag
    | .ordinary | .qualifier => tagsAreTypes = false → head.2.space ≠ .tag

theorem Suits.mono {head? later : Nat → Option (String × SymbolKind)} {tagsAreTypes : Bool}
    {space : NameSpace} {binding : Nat} (suits : Suits head? tagsAreTypes space binding)
    (kept : ∀ binding head, head? binding = some head → later binding = some head) :
    Suits later tagsAreTypes space binding := by
  obtain ⟨head, there, holds⟩ := suits
  exact ⟨head, kept _ _ there, holds⟩

theorem Suits.of_head? {head? : Nat → Option (String × SymbolKind)} {tagsAreTypes : Bool}
    {binding : Nat} {text : String} {kind : SymbolKind}
    (isHead : head? binding = some (text, kind)) : Suits head? tagsAreTypes kind.space binding := by
  refine ⟨_, isHead, ?_⟩
  cases kind <;> simp [SymbolKind.space]

theorem Suits.of_tag {head? : Nat → Option (String × SymbolKind)} {tagsAreTypes : Bool}
    {space : NameSpace} {binding : Nat} (suits : Suits head? tagsAreTypes .tag binding)
    (notQualifier : space ≠ .qualifier) (types : space = .ordinary → tagsAreTypes = true) :
    Suits head? tagsAreTypes space binding := by
  obtain ⟨head, isHead, isTag⟩ := suits
  cases space with
  | tag => exact ⟨head, isHead, isTag⟩
  | ordinary => exact ⟨head, isHead, fun noTypes => by simp [types rfl] at noTypes⟩
  | qualifier => exact absurd rfl notQualifier

theorem Suits.of_symbol {head? : Nat → Option (String × SymbolKind)} {tagsAreTypes : Bool}
    {space : NameSpace} {binding : Nat} (suits : Suits head? tagsAreTypes .ordinary binding)
    (noTag : space ≠ .tag) : Suits head? tagsAreTypes space binding := by
  cases space with
  | tag => exact absurd rfl noTag
  | ordinary | qualifier => exact suits

theorem SymbolKind.space_ne_qualifier (kind : SymbolKind) : kind.space ≠ .qualifier := by
  cases kind <;> simp [SymbolKind.space]

/-- The tables of tags hold tags, those of ordinary names hold none unless tags are types, and no
scope takes names from others. -/
structure Scopes.Apart (scopes : Scopes) (head? : Nat → Option (String × SymbolKind)) : Prop where
  tags : ∀ (number : Nat) (scope : Scope), scopes.all[number]? = some scope →
    ∀ pair ∈ scope.tags, pair.1 ≠ "" ∧ Suits head? scopes.tagsAreTypes .tag pair.2.binding
  symbols : ∀ (number : Nat) (scope : Scope), scopes.all[number]? = some scope →
    ∀ pair ∈ scope.symbols,
      pair.1 ≠ "" ∧ Suits head? scopes.tagsAreTypes .ordinary pair.2.binding
  alone : ∀ (number : Nat) (scope : Scope), scopes.all[number]? = some scope →
    scope.bases = [] ∧ scope.usings = []

namespace Scopes.Apart

variable {scopes : Scopes} {head? : Nat → Option (String × SymbolKind)}

theorem initial (tagsAreTypes : Bool) : (Scopes.initial tagsAreTypes).Apart head? := by
  have onlyFile (number : Nat) (scope : Scope)
      (found : (Scopes.initial tagsAreTypes).all[number]? = some scope) :
      scope = Scope.fresh .file none := by
    cases number <;> simp_all [Scopes.initial]
  refine ⟨fun number scope found => ?_, fun number scope found => ?_, fun number scope found => ?_⟩
    <;> rw [onlyFile number scope found] <;> simp [Scope.fresh]

theorem mono {later : Nat → Option (String × SymbolKind)} (apart : scopes.Apart head?)
    (kept : ∀ binding head, head? binding = some head → later binding = some head) :
    scopes.Apart later where
  tags number scope found pair member := by
    obtain ⟨spelled, head, there, tag⟩ := apart.tags number scope found pair member
    exact ⟨spelled, head, kept _ _ there, tag⟩
  symbols number scope found pair member := by
    obtain ⟨spelled, head, there, noTag⟩ := apart.symbols number scope found pair member
    exact ⟨spelled, head, kept _ _ there, noTag⟩
  alone := apart.alone

theorem push (apart : scopes.Apart head?) (kind : ScopeKind) (parent : Option Nat) :
    (scopes.push kind parent).Apart head? := by
  have known (number : Nat) (scope : Scope)
      (found : (scopes.push kind parent).all[number]? = some scope) :
      scope = Scope.fresh kind parent ∨ scopes.all[number]? = some scope := by
    simp only [Scopes.push, Array.getElem?_push] at found
    split at found
    · exact .inl (Option.some.inj found).symm
    · exact .inr found
  refine ⟨fun number scope found => ?_, fun number scope found => ?_, fun number scope found => ?_⟩
  · rcases known number scope found with rfl | old
    · simp [Scope.fresh]
    · exact apart.tags number scope old
  · rcases known number scope found with rfl | old
    · simp [Scope.fresh]
    · exact apart.symbols number scope old
  · rcases known number scope found with rfl | old
    · simp [Scope.fresh]
    · exact apart.alone number scope old

theorem declare (apart : scopes.Apart head?) (scope : Nat) {space : NameSpace} {name : String}
    {binding : Nat} (position : Nat) (spelled : name ≠ "")
    (suits : Suits head? scopes.tagsAreTypes space binding) :
    (scopes.declare scope space name binding position).Apart head? := by
  have known (number : Nat) (after : Scope)
      (found : (scopes.declare scope space name binding position).all[number]? = some after) :
      ∃ before, scopes.all[number]? = some before ∧
        after.bases = before.bases ∧ after.usings = before.usings ∧
        (∀ pair ∈ after.tags, pair ∈ before.tags ∨
          space = .tag ∧ pair = (name, ⟨binding, position⟩)) ∧
        ∀ pair ∈ after.symbols, pair ∈ before.symbols ∨
          space ≠ .tag ∧ pair = (name, ⟨binding, position⟩) := by
    rw [getElem?_declare] at found
    split at found
    · obtain ⟨before, there, rfl⟩ := Option.map_eq_some_iff.1 found
      refine ⟨before, there, ?_⟩
      cases space with
      | tag =>
        exact ⟨rfl, rfl, fun pair member => (ScopeTable.mem_declare member).imp_right (⟨rfl, ·⟩),
          fun pair member => .inl member⟩
      | ordinary | qualifier =>
        exact ⟨rfl, rfl, fun pair member => .inl member,
          fun pair member => (ScopeTable.mem_declare member).imp_right (⟨nofun, ·⟩)⟩
    · exact ⟨after, found, rfl, rfl, fun _ => .inl, fun _ => .inl⟩
  refine ⟨fun number after found pair member => ?_, fun number after found pair member => ?_,
    fun number after found => ?_⟩
  · obtain ⟨before, there, -, -, tags, -⟩ := known number after found
    rcases tags pair member with old | ⟨rfl, rfl⟩
    · exact apart.tags number before there pair old
    · exact ⟨spelled, suits⟩
  · obtain ⟨before, there, -, -, -, symbols⟩ := known number after found
    rcases symbols pair member with old | ⟨noTag, rfl⟩
    · exact apart.symbols number before there pair old
    · cases space with
      | tag => exact absurd rfl noTag
      | ordinary | qualifier => exact ⟨spelled, suits⟩
  · obtain ⟨before, there, bases, usings, -⟩ := known number after found
    rw [bases, usings]
    exact apart.alone number before there

theorem imports_eq (apart : scopes.Apart head?) (number : Nat) : scopes.imports number = [] := by
  unfold Scopes.imports
  cases found : scopes.all[number]? with
  | none => rfl
  | some scope =>
    obtain ⟨bases, usings⟩ := apart.alone number scope found
    simp [bases, usings]

/-- What is found in a scope is a tag if a tag was searched; where tags are no types, an ordinary
name is none. -/
theorem suits_of_local? (apart : scopes.Apart head?) {space : NameSpace}
    (notQualifier : space ≠ .qualifier) {name : String} {scope binding : Nat}
    (found : scopes.local? space name scope = some binding) :
    name ≠ "" ∧ Suits head? scopes.tagsAreTypes space binding := by
  obtain ⟨entry, isEntry, rfl⟩ := Option.map_eq_some_iff.1 found
  unfold Scopes.entry? at isEntry
  split at isEntry
  · rename_i inner there
    rcases mem_of_entryIn? isEntry with ⟨tag, types⟩ | ⟨symbol, noTag⟩
    · obtain ⟨spelled, suits⟩ := apart.tags scope inner there _ tag
      exact ⟨spelled, suits.of_tag notQualifier types⟩
    · obtain ⟨spelled, suits⟩ := apart.symbols scope inner there _ symbol
      exact ⟨spelled, suits.of_symbol noTag⟩
  · cases isEntry

end Scopes.Apart

namespace Walk

open ParseTree State

/-! ## Tags during a walk -/

def IsTag (state : State) (binding : Nat) : Prop :=
  ∃ head, state.head? binding = some head ∧ head.2.space = .tag

/-- What edits of a frame do to tags: names that are declared have the kind of the frame, those that
are declared as tags are bound to tags, and a new tag has a name that is declared as such. -/
structure Tags (frame : Frame) (before after : State) : Prop where
  grows : Grows before after
  apart : after.scopes.Apart after.head?
  types : after.scopes.tagsAreTypes = before.scopes.tagsAreTypes
  kinds : ∀ (name : Nat) (found : NameNode), before.names.size ≤ name →
    after.names[name]? = some found → found.declares = true →
      ∃ kind, frame.declaredKind? = some kind
  names : ∀ kind, frame.declaredKind? = some kind → kind.space = .tag →
    ∀ (name : Nat) (found : NameNode) (binding : Nat), before.names.size ≤ name →
      after.names[name]? = some found → found.declares = true → found.binding = some binding →
        IsTag after binding
  symbols : ∀ binding head, before.symbols.size ≤ binding → after.head? binding = some head →
    head.2.space = .tag → frame.declaredKind? = some head.2 ∧
      ∃ (name : Nat) (found : NameNode), before.names.size ≤ name ∧
        after.names[name]? = some found ∧ found.declares = true ∧ found.binding = some binding

theorem plain_of_names_eq {before after : State} (same : after.names = before.names) (name : Nat)
    (found : NameNode) (new : before.names.size ≤ name)
    (there : after.names[name]? = some found) : found.declares = false := by
  rw [same, Array.getElem?_eq_none new] at there
  cases there

namespace Tags

variable {frame : Frame} {before middle after : State}

theorem refl (apart : before.scopes.Apart before.head?) : Tags frame before before where
  grows := .refl before
  apart := apart
  types := rfl
  kinds name found new there := by
    rw [Array.getElem?_eq_none new] at there
    cases there
  names kind _ _ name found binding new there := by
    rw [Array.getElem?_eq_none new] at there
    cases there
  symbols binding head new there := by
    rw [(head?_eq_none_iff before).2 new] at there
    cases there

theorem trans (first : Tags frame before middle) (last : Tags frame middle after) :
    Tags frame before after where
  grows := first.grows.trans last.grows
  apart := last.apart
  types := last.types.trans first.types
  kinds name found new there declares := by
    by_cases known : name < middle.names.size
    · rw [last.grows.occurrences name known] at there
      exact first.kinds name found new there declares
    · exact last.kinds name found (Nat.le_of_not_lt known) there declares
  names kind isKind tag name found binding new there declares bound := by
    by_cases known : name < middle.names.size
    · rw [last.grows.occurrences name known] at there
      obtain ⟨head, isHead, isTag⟩ :=
        first.names kind isKind tag name found binding new there declares bound
      exact ⟨head, last.grows.head?_eq isHead, isTag⟩
    · exact last.names kind isKind tag name found binding (Nat.le_of_not_lt known) there declares
        bound
  symbols binding head new there tag := by
    by_cases known : binding < middle.symbols.size
    · rw [last.grows.heads binding known] at there
      obtain ⟨isKind, name, found, newName, named, rest⟩ := first.symbols binding head new there tag
      exact ⟨isKind, name, found, newName, last.grows.occurrence_eq named, rest⟩
    · obtain ⟨isKind, name, found, newName, rest⟩ :=
        last.symbols binding head (Nat.le_of_not_lt known) there tag
      exact ⟨isKind, name, found, Nat.le_trans first.grows.names newName, rest⟩

theorem quiet (grows : Grows before after) (apart : after.scopes.Apart after.head?)
    (types : after.scopes.tagsAreTypes = before.scopes.tagsAreTypes)
    (plain : ∀ (name : Nat) (found : NameNode), before.names.size ≤ name →
      after.names[name]? = some found → found.declares = false)
    (symbols : after.symbols.size = before.symbols.size) : Tags frame before after where
  grows := grows
  apart := apart
  types := types
  kinds name found new there declares := by
    rw [plain name found new there] at declares
    cases declares
  names kind _ _ name found binding new there declares := by
    rw [plain name found new there] at declares
    cases declares
  symbols binding head new there := by
    rw [(head?_eq_none_iff after).2 (symbols ▸ new)] at there
    cases there

end Tags

theorem lt_size_of_local? {state : State} (apart : state.scopes.Apart state.head?)
    {space : NameSpace} (notQualifier : space ≠ .qualifier) {name : String} {scope binding : Nat}
    (found : state.scopes.local? space name scope = some binding) :
    binding < state.symbols.size := by
  obtain ⟨-, head, isHead, -⟩ := apart.suits_of_local? notQualifier found
  exact lt_size_of_head? isHead

theorem existing_eq_local? {state after : State} {scope : Nat} {kind : SymbolKind} {text : String}
    {position : Nat} {existing : Option Nat} (apart : state.scopes.Apart state.head?)
    (settles : SettlesSymbol scope kind text position existing state after) :
    existing = state.scopes.local? kind.space text scope := by
  rcases settles.searched with here | member
  · exact here
  · rw [member, Scopes.lookupMember_eq_local? _ _ _ (apart.imports_eq scope)]

/-- What a declaration binds its name to suits the table for its kind. -/
theorem State.Declares.suits {source : List Char} {tree : ParseTree} {kind : SymbolKind}
    {binding : Nat} {before after : State}
    (declares : Declares source tree kind (some binding) before after)
    (apart : before.scopes.Apart before.head?) :
    tree.text source ≠ "" ∧ Suits after.head? before.scopes.tagsAreTypes kind.space binding := by
  obtain ⟨none, -⟩ | ⟨scope, existing, same, settles⟩ := declares.symbol
  · cases none
  · refine ⟨settles.spelled, ?_⟩
    have searched := existing_eq_local? apart settles
    cases existing with
    | none =>
      obtain rfl : binding = before.symbols.size := Option.some.inj same
      exact .of_head? settles.head?_new
    | some found =>
      obtain rfl : binding = found := Option.some.inj same
      exact (apart.suits_of_local? kind.space_ne_qualifier searched.symm).2.mono
        fun _ _ => declares.grows.head?_eq

theorem State.Declares.apart {source : List Char} {tree : ParseTree} {kind : SymbolKind}
    {result : Option Nat} {before after : State}
    (declares : Declares source tree kind result before after)
    (apart : before.scopes.Apart before.head?) : after.scopes.Apart after.head? := by
  have later : before.scopes.Apart after.head? :=
    apart.mono fun _ _ => declares.grows.head?_eq
  obtain ⟨-, scopes, -⟩ | ⟨scope, existing, same, settles⟩ := declares.symbol
  · exact scopes ▸ later
  · rw [settles.scopes]
    cases existing with
    | some found => exact later
    | none => exact later.declare scope _ settles.spelled (.of_head? settles.head?_new)

theorem State.Declares.types {source : List Char} {tree : ParseTree} {kind : SymbolKind}
    {result : Option Nat} {before after : State}
    (declares : Declares source tree kind result before after) :
    after.scopes.tagsAreTypes = before.scopes.tagsAreTypes := by
  obtain ⟨-, scopes, -⟩ | ⟨scope, existing, same, settles⟩ := declares.symbol
  · rw [scopes]
  · rw [settles.scopes]
    split <;> rfl

theorem State.Declares.tags {source : List Char} {frame : Frame} {tree : ParseTree}
    {kind : SymbolKind} {result : Option Nat} {before after : State}
    (isKind : frame.declaredKind? = some kind)
    (declares : Declares source tree kind result before after)
    (apart : before.scopes.Apart before.head?) : Tags frame before after := by
  refine ⟨declares.grows, declares.apart apart, declares.types, fun _ _ _ _ _ => ⟨kind, isKind⟩,
    ?_, ?_⟩
  · intro other otherKind tag name found binding new there _ bound
    obtain rfl : kind = other := Option.some.inj (isKind.symm.trans otherKind)
    rw [declares.names, Array.getElem?_push] at there
    split at there
    · cases there
      cases bound
      obtain ⟨-, suits⟩ := declares.suits apart
      rwa [tag] at suits
    · rw [Array.getElem?_eq_none new] at there
      cases there
  · intro binding head new there tag
    obtain ⟨-, -, symbols⟩ | ⟨scope, existing, same, settles⟩ := declares.symbol
    · rw [(head?_eq_none_iff after).2 (symbols ▸ new)] at there
      cases there
    · rw [settles.heads] at there
      split at there
      · rename_i isNew
        obtain ⟨none, rfl⟩ := isNew
        cases there
        rw [Option.isNone_iff_eq_none.1 none] at same
        exact ⟨isKind, before.names.size, _, Nat.le_refl _,
          declares.names ▸ Array.getElem?_push_size, rfl, same⟩
      · rw [(head?_eq_none_iff before).2 new] at there
        cases there

theorem Edit.tags {source : List Char} {frame : Frame} {before after : State}
    (edit : Edit source frame before after) (apart : before.scopes.Apart before.head?) :
    Tags frame before after := by
  have grows := edit.grows
  have later : before.scopes.Apart after.head? := apart.mono fun _ _ => grows.head?_eq
  cases edit with
  | opened =>
    exact .quiet grows (by simpa using later) (by simp) (plain_of_names_eq (by simp)) (by simp)
  | noted notes =>
    exact .quiet grows (notes.scopes ▸ later) (by rw [notes.scopes]) notes.plain
      (by rw [notes.symbols])
  | declared isKind declares => exact declares.tags isKind apart
  | shared scope isEnumerator declares =>
    obtain ⟨spelled, suits⟩ := declares.suits apart
    have middle := declares.tags isEnumerator apart
    rw [← declares.types] at suits
    exact ⟨grows, middle.apart.declare scope _ spelled suits, middle.types, middle.kinds,
      middle.names, middle.symbols⟩
  | pushed => exact .quiet grows (later.push _ _) rfl (plain_of_names_eq rfl) rfl
  | entered binding kind parent =>
    refine .quiet grows ?_ ?_ (plain_of_names_eq (by simp)) (by simp)
    · obtain same | same := openMembers_scopes before binding kind parent
      · exact same ▸ later
      · exact same ▸ later.push _ _
    · obtain same | same := openMembers_scopes before binding kind parent <;> rw [same]
      rfl
  | specified => exact .quiet grows later rfl (plain_of_names_eq rfl) rfl
  | awaited => exact .quiet grows later rfl (plain_of_names_eq rfl) rfl
  | accessed => exact .quiet grows later rfl (plain_of_names_eq rfl) rfl
  | defined isDirective isKind defines =>
    refine ⟨grows, defines.scopes ▸ later, by rw [defines.scopes], fun _ _ _ _ _ => ⟨_, isKind⟩,
      ?_, ?_⟩
    · intro kind same tag
      cases isKind.symm.trans same
      cases tag
    · intro binding head new there tag
      rcases defines.heads binding with old | ⟨-, isMacro⟩
      · rw [old, (head?_eq_none_iff before).2 new] at there
        cases there
      · rw [isMacro] at there
        cases there
        cases tag
  | revoked => exact .quiet grows later rfl (plain_of_names_eq rfl) rfl

theorem Edits.tags {source : List Char} {frame : Frame} {before after : State}
    (edits : Edits source frame before after) (apart : before.scopes.Apart before.head?) :
    Tags frame before after := by
  induction edits with
  | refl => exact .refl apart
  | tail _ last ih => exact ih.trans (last.tags ih.apart)

/-! ## Declarations of ordinary names -/

theorem IsTag.of_grows {before after : State} {binding : Nat} (tag : IsTag before binding)
    (grows : Grows before after) : IsTag after binding := by
  obtain ⟨head, isHead, isTag⟩ := tag
  exact ⟨head, grows.head?_eq isHead, isTag⟩

theorem IsTag.lt_size {state : State} {binding : Nat} (tag : IsTag state binding) :
    binding < state.symbols.size := by
  obtain ⟨head, isHead, -⟩ := tag
  exact lt_size_of_head? isHead

/-- Names that are declared are bound to symbols that are there, and to a tag that was there before
if and only if a search for their spelling gives that tag. -/
structure BindsBy (search : String → Option Nat) (before after : State) : Prop where
  known : ∀ (name : Nat) (found : NameNode) (binding : Nat), before.names.size ≤ name →
    after.names[name]? = some found → found.declares = true → found.binding = some binding →
      ∃ head, after.head? binding = some head
  binds : ∀ (name : Nat) (found : NameNode), before.names.size ≤ name →
    after.names[name]? = some found → found.declares = true →
      ∀ binding, IsTag before binding →
        (found.binding = some binding ↔ search found.text = some binding)

theorem BindsBy.of_plain {search : String → Option Nat} {before after : State}
    (plain : ∀ (name : Nat) (found : NameNode), before.names.size ≤ name →
      after.names[name]? = some found → found.declares = false) :
    BindsBy search before after where
  known name found binding new there declares := by
    rw [plain name found new there] at declares
    cases declares
  binds name found new there declares := by
    rw [plain name found new there] at declares
    cases declares

/-- Names are declared in a scope: they are bound by look-ups in that scope, and such look-ups still
give the tags that they gave. -/
structure SettlesIn (scope : Nat) (before after : State) : Prop
    extends BindsBy (before.scopes.local? .ordinary · scope) before after where
  grows : Grows before after
  apart : after.scopes.Apart after.head?
  looks : ∀ (text : String) (binding : Nat), IsTag before binding →
    (after.scopes.local? .ordinary text scope = some binding ↔
      before.scopes.local? .ordinary text scope = some binding)

namespace SettlesIn

variable {scope : Nat} {before middle after : State}

theorem quiet (grows : Grows before after) (apart : after.scopes.Apart after.head?)
    (plain : ∀ (name : Nat) (found : NameNode), before.names.size ≤ name →
      after.names[name]? = some found → found.declares = false)
    (looks : ∀ text, after.scopes.local? .ordinary text scope =
      before.scopes.local? .ordinary text scope) : SettlesIn scope before after where
  toBindsBy := .of_plain plain
  grows := grows
  apart := apart
  looks text binding _ := by rw [looks]

theorem refl (apart : before.scopes.Apart before.head?) : SettlesIn scope before before :=
  .quiet (.refl before) apart (plain_of_names_eq rfl) fun _ => rfl

theorem trans (first : SettlesIn scope before middle) (last : SettlesIn scope middle after) :
    SettlesIn scope before after where
  grows := first.grows.trans last.grows
  apart := last.apart
  looks text binding tag :=
    (last.looks text binding (tag.of_grows first.grows)).trans (first.looks text binding tag)
  known name found binding new there declares bound := by
    by_cases isOld : name < middle.names.size
    · rw [last.grows.occurrences name isOld] at there
      obtain ⟨head, isHead⟩ := first.known name found binding new there declares bound
      exact ⟨head, last.grows.head?_eq isHead⟩
    · exact last.known name found binding (Nat.le_of_not_lt isOld) there declares bound
  binds name found new there declares binding tag := by
    by_cases isOld : name < middle.names.size
    · rw [last.grows.occurrences name isOld] at there
      exact first.binds name found new there declares binding tag
    · exact (last.binds name found (Nat.le_of_not_lt isOld) there declares binding
        (tag.of_grows first.grows)).trans (first.looks found.text binding tag)

theorem of_declares {source : List Char} {tree : ParseTree} {kind : SymbolKind}
    {result : Option Nat} (declares : Declares source tree kind result before after)
    (apart : before.scopes.Apart before.head?)
    (looks : ∀ (text : String) (binding : Nat), IsTag before binding →
      (after.scopes.local? .ordinary text scope = some binding ↔
        before.scopes.local? .ordinary text scope = some binding))
    (bound : ∀ binding, IsTag before binding →
      (result = some binding ↔
        before.scopes.local? .ordinary (tree.text source) scope = some binding)) :
    SettlesIn scope before after := by
  have onlyNew (name : Nat) (found : NameNode) (new : before.names.size ≤ name)
      (there : after.names[name]? = some found) :
      found = ⟨tree.text source, locationOf source tree, true, result⟩ := by
    rw [declares.names, Array.getElem?_push] at there
    split at there
    · exact (Option.some.inj there).symm
    · rw [Array.getElem?_eq_none new] at there
      cases there
  refine ⟨⟨?_, ?_⟩, declares.grows, declares.apart apart, looks⟩
  · intro name found binding new there _ isBinding
    rw [onlyNew name found new there] at isBinding
    subst isBinding
    obtain ⟨-, head, isHead, -⟩ := declares.suits apart
    exact ⟨head, isHead⟩
  · intro name found new there _ binding tag
    rw [onlyNew name found new there]
    exact bound binding tag

end SettlesIn

theorem settle_settlesIn (source : List Char) {state : State} (tree : ParseTree) (context : Context)
    (scope : Nat) {kind : SymbolKind} (typeRef : Option TypeRef)
    (ordinary : kind.space = .ordinary) (apart : state.scopes.Apart state.head?) :
    SettlesIn scope state
      (state.settle source tree context scope kind typeRef
        (state.scopes.local? kind.space (tree.text source) scope)).1 := by
  have declares := settle_declares source state tree context scope kind typeRef
    (state.scopes.local? kind.space (tree.text source) scope) (.inl rfl)
  by_cases spelled : tree.text source = ""
  · have unbound := settle_unspelled source state tree context scope kind typeRef
      (state.scopes.local? kind.space (tree.text source) scope) spelled
    refine .of_declares declares apart (fun text binding _ => ?_) fun binding _ => ?_
    · rw [unbound, addName_scopes]
    · rw [unbound]
      refine ⟨nofun, fun found => ?_⟩
      exact absurd spelled (apart.suits_of_local? (by decide) found).1
  · obtain ⟨result, settles⟩ := settle_settles source state tree context scope kind typeRef
      (state.scopes.local? kind.space (tree.text source) scope) spelled (.inl rfl)
    have scopes := settles.scopes
    rw [ordinary] at scopes result
    refine .of_declares declares apart (fun text binding tag => ?_) fun binding tag => ?_
    · rw [ordinary, scopes]
      split
      · rfl
      · rename_i unknown
        rw [Option.not_isSome_iff_eq_none] at unknown
        rw [Scopes.local?_declare_ordinary _ unknown]
        split
        · rename_i here
          rw [here.1, unknown, Option.some.injEq]
          exact ⟨fun same => absurd same (Nat.ne_of_gt tag.lt_size), nofun⟩
        · rfl
    · rw [ordinary, result]
      cases found : state.scopes.local? .ordinary (tree.text source) scope with
      | some existing => rfl
      | none =>
        rw [Option.getD_none, Option.some.injEq]
        exact ⟨fun same => absurd same (Nat.ne_of_gt tag.lt_size), nofun⟩

end Walk

end CrossReference
