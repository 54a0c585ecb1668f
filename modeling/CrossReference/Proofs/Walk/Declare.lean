import CrossReference.Proofs.Scope
import CrossReference.Proofs.Walk.State

/-!
# Noting uses and declaring names

The walk adds occurrences in two ways.  `NotesNames` adds such as declare nothing and leaves all
else as it is.  `Declares` adds one that declares, and binds it to a symbol that was found under its
spelling or to a new one that is then declared in a scope.
-/

set_option autoImplicit false

namespace CrossReference.Walk.State

/-! ## Occurrences that declare nothing -/

/-- Only occurrences that declare nothing are added, and those that are bound are bound to what their
spelling has in some scope. -/
structure NotesNames (before after : State) : Prop where
  scopes : after.scopes = before.scopes
  symbols : after.symbols = before.symbols
  macros : after.macros = before.macros
  macroValues : after.macroValues = before.macroValues
  uses : after.uses = before.uses
  members : after.members = before.members
  declarations : after.declarations.size = before.declarations.size
  marks : ∀ declaration, after.mark? declaration = before.mark? declaration
  names : before.names.size ≤ after.names.size
  occurrences : ∀ name < before.names.size, after.names[name]? = before.names[name]?
  plain : ∀ name found, before.names.size ≤ name → after.names[name]? = some found →
    found.declares = false
  held : ∀ name found binding, before.names.size ≤ name → after.names[name]? = some found →
    found.binding = some binding → before.scopes.Holds found.text binding

namespace NotesNames

theorem refl (state : State) : NotesNames state state where
  scopes := rfl
  symbols := rfl
  macros := rfl
  macroValues := rfl
  uses := rfl
  members := rfl
  declarations := rfl
  marks _ := rfl
  names := Nat.le_refl _
  occurrences _ _ := rfl
  plain name found new there := by
    rw [Array.getElem?_eq_none new] at there
    cases there
  held name found binding new there := by
    rw [Array.getElem?_eq_none new] at there
    cases there

theorem trans {before middle after : State} (first : NotesNames before middle)
    (last : NotesNames middle after) : NotesNames before after where
  scopes := last.scopes.trans first.scopes
  symbols := last.symbols.trans first.symbols
  macros := last.macros.trans first.macros
  macroValues := last.macroValues.trans first.macroValues
  uses := last.uses.trans first.uses
  members := last.members.trans first.members
  declarations := last.declarations.trans first.declarations
  marks declaration := (last.marks declaration).trans (first.marks declaration)
  names := Nat.le_trans first.names last.names
  occurrences name known :=
    (last.occurrences name (Nat.lt_of_lt_of_le known first.names)).trans
      (first.occurrences name known)
  plain name found new there := by
    by_cases known : name < middle.names.size
    · rw [last.occurrences name known] at there
      exact first.plain name found new there
    · exact last.plain name found (Nat.le_of_not_lt known) there
  held name found binding new there bound := by
    by_cases known : name < middle.names.size
    · rw [last.occurrences name known] at there
      exact first.held name found binding new there bound
    · rw [← first.scopes]
      exact last.held name found binding (Nat.le_of_not_lt known) there bound

theorem grows {before after : State} (notes : NotesNames before after) : Grows before after where
  declarations := Nat.le_of_eq notes.declarations.symm
  marks declaration _ := notes.marks declaration
  names := notes.names
  occurrences := notes.occurrences
  symbols := Nat.le_of_eq (by rw [notes.symbols])
  heads binding _ := by rw [head?, notes.symbols, head?]

theorem memberScopes {before after : State} (notes : NotesNames before after) (binding : Nat) :
    after.memberScope? binding = before.memberScope? binding := by
  rw [memberScope?, notes.symbols, memberScope?]

theorem typeScopes {before after : State} (notes : NotesNames before after) (binding : Nat) :
    after.typeScope? binding = before.typeScope? binding := by
  rw [typeScope?, notes.symbols, typeScope?]

end NotesNames

theorem eq_of_getElem?_push {names : Array NameNode} {added found : NameNode} {name : Nat}
    (new : names.size ≤ name) (there : (names.push added)[name]? = some found) :
    found = added := by
  rw [Array.getElem?_push] at there
  split at there
  · exact (Option.some.inj there).symm
  · rw [Array.getElem?_eq_none new] at there
    cases there

theorem addName_notesNames (source : List Char) (state : State) (tree : ParseTree)
    (context : Context) :
    NotesNames state (state.addName source tree context false).1 where
  scopes := rfl
  symbols := rfl
  macros := rfl
  macroValues := rfl
  uses := rfl
  members := rfl
  declarations := by simp
  marks _ := by simp
  names := by simp
  occurrences name known := by
    simp [Array.getElem?_push, Nat.ne_of_lt known]
  plain name found new there := by
    rw [eq_of_getElem?_push new there]
  held name found binding new there bound := by
    rw [eq_of_getElem?_push new there] at bound
    cases bound

theorem setBinding_notesNames {before after : State} (notes : NotesNames before after)
    {name : Nat} (new : before.names.size ≤ name) (binding : Option Nat)
    (held : ∀ found bound, after.names[name]? = some found → binding = some bound →
      before.scopes.Holds found.text bound) :
    NotesNames before (after.setBinding name binding) where
  scopes := notes.scopes
  symbols := notes.symbols
  macros := notes.macros
  macroValues := notes.macroValues
  uses := notes.uses
  members := notes.members
  declarations := notes.declarations
  marks := notes.marks
  names := by simpa [setBinding] using notes.names
  occurrences other known := by
    simp only [setBinding, Array.getElem?_modify]
    rw [if_neg (by omega), notes.occurrences other known]
  plain other found otherNew there := by
    simp only [setBinding, Array.getElem?_modify] at there
    split at there
    · obtain ⟨was, found, rfl⟩ := Option.map_eq_some_iff.1 there
      exact notes.plain other was otherNew found
    · exact notes.plain other found otherNew there
  held other found bound otherNew there isBound := by
    simp only [setBinding, Array.getElem?_modify] at there
    split at there
    · rename_i same
      obtain ⟨was, isThere, rfl⟩ := Option.map_eq_some_iff.1 there
      exact held was bound (same ▸ isThere) isBound
    · exact notes.held other found bound otherNew there isBound

theorem bindQualifiers_notesNames (source : List Char) (context : Context)
    (segments : List ParseTree) (isFirst : Bool) (reached : Prefixed) :
    NotesNames reached.state (bindQualifiers source context segments isFirst reached).state := by
  induction segments generalizing isFirst reached with
  | nil => exact .refl _
  | cons segment rest ih =>
    refine .trans ?_ (ih false _)
    refine setBinding_notesNames (addName_notesNames source reached.state segment context)
      (Nat.le_refl _) _ ?_
    intro found bound there isBound
    obtain rfl : found = _ := by simpa using there.symm
    split at isBound
    · exact Scopes.holds_of_lookupMember isBound
    · split at isBound
      · exact Scopes.holds_of_lookup isBound
      · cases isBound

theorem addUses_notesNames (source : List Char) (context : Context) (segments : List ParseTree)
    (state : State) :
    NotesNames state (addUses source context segments state).1 ∧
      ∀ name ∈ (addUses source context segments state).2,
        state.names.size ≤ name ∧ name < (addUses source context segments state).1.names.size := by
  induction segments generalizing state with
  | nil => exact ⟨.refl _, by simp [addUses]⟩
  | cons segment rest ih =>
    obtain ⟨notes, new⟩ := ih (state.addName source segment context false).1
    have grown := notes.names
    simp only [addName_names, Array.size_push] at new grown
    refine ⟨(addName_notesNames source state segment context).trans notes, fun name member => ?_⟩
    rcases List.mem_cons.1 member with rfl | later
    · exact ⟨Nat.le_refl _, grown⟩
    · obtain ⟨low, high⟩ := new name later
      exact ⟨by omega, high⟩

/-! ## Occurrences that declare -/

/-- The symbols of a state after a declaration of a spelling, with a kind and in a scope, for which
a symbol has been found or not. -/
structure SettlesSymbol (scope : Nat) (kind : SymbolKind) (text : String) (position : Nat)
    (existing : Option Nat) (before after : State) : Prop where
  /-- The symbol is searched in the scope itself or among its members. -/
  searched : existing = before.scopes.local? kind.space text scope ∨
    existing = before.scopes.lookupMember kind.space text scope
  spelled : text ≠ ""
  scopes : after.scopes =
    if existing.isSome then before.scopes
    else before.scopes.declare scope kind.space text before.symbols.size position
  size : after.symbols.size =
    if existing.isSome then before.symbols.size else before.symbols.size + 1
  heads : ∀ binding, after.head? binding =
    if existing.isNone ∧ binding = before.symbols.size then some (text, kind)
    else before.head? binding

theorem SettlesSymbol.head?_new {scope : Nat} {kind : SymbolKind} {text : String} {position : Nat}
    {before after : State} (settles : SettlesSymbol scope kind text position none before after) :
    after.head? before.symbols.size = some (text, kind) := by
  rw [settles.heads, if_pos ⟨rfl, rfl⟩]

/-- One occurrence is added that declares a symbol of a kind, or that stays unbound. -/
structure Declares (source : List Char) (tree : ParseTree) (kind : SymbolKind)
    (result : Option Nat) (before after : State) : Prop where
  names : after.names =
    before.names.push ⟨tree.text source, locationOf source tree, true, result⟩
  macros : after.macros = before.macros
  macroValues : after.macroValues = before.macroValues
  uses : after.uses = before.uses
  members : after.members = before.members
  declarations : after.declarations.size = before.declarations.size
  marks : ∀ declaration, after.mark? declaration = before.mark? declaration
  memberScopes : ∀ binding, after.memberScope? binding = before.memberScope? binding
  typeScopes : ∀ binding, after.typeScope? binding = before.typeScope? binding
  symbol :
    result = none ∧ after.scopes = before.scopes ∧ after.symbols = before.symbols ∨
      ∃ scope existing, result = some (existing.getD before.symbols.size) ∧
        SettlesSymbol scope kind (tree.text source) tree.start existing before after

theorem Declares.grows {source : List Char} {tree : ParseTree} {kind : SymbolKind}
    {result : Option Nat} {before after : State}
    (declares : Declares source tree kind result before after) : Grows before after where
  declarations := Nat.le_of_eq declares.declarations.symm
  marks declaration _ := declares.marks declaration
  names := by simp [declares.names]
  occurrences name known := by
    simp [declares.names, Array.getElem?_push, Nat.ne_of_lt known]
  symbols := by
    obtain ⟨-, -, same⟩ | ⟨scope, existing, -, settles⟩ := declares.symbol
    · exact Nat.le_of_eq (by rw [same])
    · rw [settles.size]
      split <;> omega
  heads binding known := by
    obtain ⟨-, -, same⟩ | ⟨scope, existing, -, settles⟩ := declares.symbol
    · rw [head?, same, head?]
    · rw [settles.heads, if_neg (by omega)]

/-- A spelling is that of a macro with a binding. -/
def HoldsMacro (macros : List (String × MacroEntry)) (text : String) (binding : Nat) : Prop :=
  ∃ entry, (text, entry) ∈ macros ∧ entry.binding = binding

/-- One occurrence is added that declares a macro, or that stays unbound.  What is known of macros
may change, but of those that were there each keeps its binding. -/
structure Defines (source : List Char) (tree : ParseTree) (result : Option Nat)
    (before after : State) : Prop where
  names : after.names =
    before.names.push ⟨tree.text source, locationOf source tree, true, result⟩
  scopes : after.scopes = before.scopes
  uses : after.uses = before.uses
  members : after.members = before.members
  declarations : after.declarations.size = before.declarations.size
  marks : ∀ declaration, after.mark? declaration = before.mark? declaration
  memberScopes : ∀ binding, after.memberScope? binding = before.memberScope? binding
  typeScopes : ∀ binding, after.typeScope? binding = before.typeScope? binding
  symbols : before.symbols.size ≤ after.symbols.size
  heads : ∀ binding, after.head? binding = before.head? binding ∨
    before.symbols.size ≤ binding ∧ after.head? binding = some (tree.text source, .macroName)
  macros : ∀ text binding, HoldsMacro after.macros text binding →
    HoldsMacro before.macros text binding ∨
      text = tree.text source ∧ after.head? binding = some (text, .macroName)
  bound : ∀ binding, result = some binding → HoldsMacro after.macros (tree.text source) binding

theorem Defines.grows {source : List Char} {tree : ParseTree} {result : Option Nat}
    {before after : State} (defines : Defines source tree result before after) :
    Grows before after where
  declarations := Nat.le_of_eq defines.declarations.symm
  marks declaration _ := defines.marks declaration
  names := by simp [defines.names]
  occurrences name known := by
    simp [defines.names, Array.getElem?_push, Nat.ne_of_lt known]
  symbols := defines.symbols
  heads binding known := (defines.heads binding).resolve_right fun new => by omega

/-- The end that both ways of declaring have in common: an occurrence is added, and unless it spells
nothing it is bound to the symbol that has been found or to a new one. -/
def settle (source : List Char) (state : State) (tree : ParseTree) (context : Context)
    (scope : Nat) (kind : SymbolKind) (typeRef : Option TypeRef) (existing : Option Nat) :
    State × Option Nat :=
  let (named, name) := state.addName source tree context true
  if (tree.text source).isEmpty then (named, none)
  else
    let (declared, binding) := named.symbolIn existing scope kind (tree.text source) tree.start
    (declared.bindDeclaration name binding typeRef, some binding)

theorem declare_eq_settle (source : List Char) (state : State) (tree : ParseTree)
    (context : Context) (scope : Nat) (kind : SymbolKind) (typeRef : Option TypeRef) :
    state.declare source tree context scope kind typeRef =
      state.settle source tree context scope kind typeRef
        (state.scopes.local? kind.space (tree.text source) scope) := rfl

def prefixed (source : List Char) (state : State) (tree : ParseTree) (context : Context) :
    Prefixed :=
  bindQualifiers source context (QualifiedName.ofTree tree).segments.dropLast true
    ⟨state, if (QualifiedName.ofTree tree).isGlobal then some Scopes.file else none,
      !(QualifiedName.ofTree tree).isBroken⟩

def Prefixed.owner? (reached : Prefixed) : Option Nat :=
  if reached.resolved then reached.scope else none

theorem prefixed_notesNames (source : List Char) (state : State) (tree : ParseTree)
    (context : Context) : NotesNames state (state.prefixed source tree context).state :=
  bindQualifiers_notesNames source context (QualifiedName.ofTree tree).segments.dropLast true
    ⟨state, _, _⟩

theorem declareQualified_eq_settle (source : List Char) (state : State) (tree : ParseTree)
    (context : Context) (kind : SymbolKind) (typeRef : Option TypeRef) :
    state.declareQualified source tree context kind typeRef =
      match (QualifiedName.ofTree tree).segments.getLast? with
      | none => (state, none)
      | some last =>
          let reached := state.prefixed source tree context
          match reached.owner? with
          | none => ((reached.state.addName source last context true).1, none)
          | some owner =>
              reached.state.settle source last context owner kind typeRef
                (reached.state.scopes.lookupMember kind.space (last.text source) owner) := by
  unfold declareQualified prefixed
  simp only
  generalize bindQualifiers source context (QualifiedName.ofTree tree).segments.dropLast true
    ⟨state, if (QualifiedName.ofTree tree).isGlobal then some Scopes.file else none,
      !(QualifiedName.ofTree tree).isBroken⟩ = reached
  obtain ⟨after, scope, resolved⟩ := reached
  cases (QualifiedName.ofTree tree).segments.getLast? with
  | none => rfl
  | some last => cases scope <;> cases resolved <;> simp [Prefixed.owner?, settle]

theorem unbound_declares (source : List Char) (state : State) (tree : ParseTree)
    (context : Context) (kind : SymbolKind) :
    Declares source tree kind none state (state.addName source tree context true).1 where
  names := rfl
  macros := rfl
  macroValues := rfl
  uses := rfl
  members := rfl
  declarations := by simp
  marks := by simp
  memberScopes _ := rfl
  typeScopes _ := rfl
  symbol := .inl ⟨rfl, rfl, rfl⟩

theorem addName_defines (source : List Char) (state : State) (tree : ParseTree)
    (context : Context) :
    Defines source tree none state (state.addName source tree context true).1 where
  names := rfl
  scopes := rfl
  uses := rfl
  members := rfl
  declarations := by simp
  marks := by simp
  memberScopes _ := rfl
  typeScopes _ := rfl
  symbols := Nat.le_refl _
  heads _ := .inl rfl
  macros _ _ := .inl
  bound _ := nofun

section Settle

variable (source : List Char) (state : State) (tree : ParseTree) (context : Context) (scope : Nat)
  (kind : SymbolKind) (typeRef : Option TypeRef) (existing : Option Nat)

theorem settle_unspelled (unspelled : tree.text source = "") :
    state.settle source tree context scope kind typeRef existing =
      ((state.addName source tree context true).1, none) := by
  simp [settle, unspelled]

/-- Any other name is bound to the symbol that was found, or to a new one. -/
theorem settle_settles (spelled : tree.text source ≠ "")
    (searched : existing = state.scopes.local? kind.space (tree.text source) scope ∨
      existing = state.scopes.lookupMember kind.space (tree.text source) scope) :
    (state.settle source tree context scope kind typeRef existing).2 =
        some (existing.getD state.symbols.size) ∧
      SettlesSymbol scope kind (tree.text source) tree.start existing state
        (state.settle source tree context scope kind typeRef existing).1 := by
  unfold settle
  simp only [String.isEmpty_iff, spelled, if_false]
  refine ⟨by rw [symbolIn_binding, addName_symbols], searched, spelled, ?_, ?_, fun binding => ?_⟩
  · simp [bindDeclaration, setBinding, symbolIn_scopes]
  · simp [symbolIn_symbols_size]
  · rw [bindDeclaration_head?, symbolIn_head?]
    simp [head?]

theorem settle_declares
    (searched : existing = state.scopes.local? kind.space (tree.text source) scope ∨
      existing = state.scopes.lookupMember kind.space (tree.text source) scope) :
    Declares source tree kind
      (state.settle source tree context scope kind typeRef existing).2 state
      (state.settle source tree context scope kind typeRef existing).1 := by
  by_cases spelled : tree.text source = ""
  · rw [settle_unspelled source state tree context scope kind typeRef existing spelled]
    exact unbound_declares source state tree context kind
  · obtain ⟨result, settles⟩ :=
      settle_settles source state tree context scope kind typeRef existing spelled searched
    refine ⟨?_, ?_, ?_, ?_, ?_, ?_, fun declaration => ?_, fun binding => ?_, fun binding => ?_,
      .inr ⟨scope, existing, result, settles⟩⟩ <;>
      simp only [settle, String.isEmpty_iff, spelled, if_false]
    · rw [bindDeclaration_names, symbolIn_names, addName_names, addName_number, modify_push]
    · simp [bindDeclaration, setBinding]
    · simp [bindDeclaration, setBinding]
    · simp [bindDeclaration, setBinding]
    · simp [bindDeclaration, setBinding]
    · simp [bindDeclaration, setBinding]
    · rw [← addName_mark? source state tree context true declaration]
      simp [bindDeclaration, setBinding, mark?]
    · rw [bindDeclaration_memberScope?, symbolIn_memberScope?]
      rfl
    · rw [bindDeclaration_typeScope?, symbolIn_typeScope?]
      rfl

end Settle

/-- What is declared without a qualifier is searched and declared in a scope itself. -/
theorem declare_declares (source : List Char) (state : State) (tree : ParseTree)
    (context : Context) (scope : Nat) (kind : SymbolKind) (typeRef : Option TypeRef) :
    Declares source tree kind (state.declare source tree context scope kind typeRef).2 state
      (state.declare source tree context scope kind typeRef).1 := by
  rw [declare_eq_settle]
  exact settle_declares source state tree context scope kind typeRef _ (.inl rfl)

theorem declareQualified_declares_last (source : List Char) (state : State) (tree : ParseTree)
    (context : Context) (kind : SymbolKind) (typeRef : Option TypeRef) :
    state.declareQualified source tree context kind typeRef = (state, none) ∨
      ∃ middle last, (QualifiedName.ofTree tree).segments.getLast? = some last ∧
        NotesNames state middle ∧
        Declares source last kind
          (state.declareQualified source tree context kind typeRef).2 middle
          (state.declareQualified source tree context kind typeRef).1 := by
  rw [declareQualified_eq_settle]
  split
  · exact .inl rfl
  · rename_i last found
    refine .inr ⟨_, last, found, prefixed_notesNames source state tree context, ?_⟩
    simp only
    split
    · exact unbound_declares source _ last context kind
    · rename_i owner reached
      exact settle_declares source _ last context owner kind typeRef _ (.inr rfl)

theorem declareQualified_declares (source : List Char) (state : State) (tree : ParseTree)
    (context : Context) (kind : SymbolKind) (typeRef : Option TypeRef) :
    state.declareQualified source tree context kind typeRef = (state, none) ∨
      ∃ middle last, NotesNames state middle ∧
        Declares source last kind
          (state.declareQualified source tree context kind typeRef).2 middle
          (state.declareQualified source tree context kind typeRef).1 := by
  obtain same | ⟨middle, last, -, notes, declares⟩ :=
    declareQualified_declares_last source state tree context kind typeRef
  · exact .inl same
  · exact .inr ⟨middle, last, notes, declares⟩

end CrossReference.Walk.State
