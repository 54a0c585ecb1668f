import CrossReference.Walk.Qualified

/-!
# What the operations of the walk do to its state

One lemma for each part of the state that an operation changes, and the fact that a state only
grows: a declaration keeps its kind and whether it is compiled in, an occurrence keeps all it has
once the operation that adds it is over, and a symbol keeps its name and kind.
-/

set_option autoImplicit false

namespace CrossReference.Walk.State

variable (source : List Char) (state : State)

def mark? (declaration : Nat) : Option (String × Bool) :=
  (state.declarations[declaration]?).map fun found => (found.kind, found.active)

def head? (binding : Nat) : Option (String × SymbolKind) :=
  (state.symbols[binding]?).map fun found => (found.name, found.kind)

theorem mark?_eq_none_iff {declaration : Nat} :
    state.mark? declaration = none ↔ state.declarations.size ≤ declaration := by
  simp [mark?]

theorem head?_eq_none_iff {binding : Nat} :
    state.head? binding = none ↔ state.symbols.size ≤ binding := by
  simp [head?]

variable {state} in
theorem lt_size_of_head? {binding : Nat} {head : String × SymbolKind}
    (found : state.head? binding = some head) : binding < state.symbols.size :=
  Nat.lt_of_not_le fun outside => by
    rw [(head?_eq_none_iff state).2 outside] at found
    cases found

/-! ## Beginning a declaration -/

section Open

variable (kind : String) (context : Context)

@[simp]
theorem openDeclaration_names :
    (state.openDeclaration kind context).1.names = state.names := by
  unfold openDeclaration
  cases context.owner <;> rfl

@[simp]
theorem openDeclaration_symbols :
    (state.openDeclaration kind context).1.symbols = state.symbols := by
  unfold openDeclaration
  cases context.owner <;> rfl

@[simp]
theorem openDeclaration_scopes :
    (state.openDeclaration kind context).1.scopes = state.scopes := by
  unfold openDeclaration
  cases context.owner <;> rfl

@[simp]
theorem openDeclaration_macros :
    (state.openDeclaration kind context).1.macros = state.macros := by
  unfold openDeclaration
  cases context.owner <;> rfl

@[simp]
theorem openDeclaration_macroValues :
    (state.openDeclaration kind context).1.macroValues = state.macroValues := by
  unfold openDeclaration
  cases context.owner <;> rfl

@[simp]
theorem openDeclaration_uses :
    (state.openDeclaration kind context).1.uses = state.uses := by
  unfold openDeclaration
  cases context.owner <;> rfl

@[simp]
theorem openDeclaration_members :
    (state.openDeclaration kind context).1.members = state.members := by
  unfold openDeclaration
  cases context.owner <;> rfl

@[simp]
theorem openDeclaration_size :
    (state.openDeclaration kind context).1.declarations.size = state.declarations.size + 1 := by
  unfold openDeclaration
  cases context.owner <;> simp

theorem openDeclaration_mark? (declaration : Nat) :
    (state.openDeclaration kind context).1.mark? declaration =
      if declaration = state.declarations.size then some (kind, context.active)
      else state.mark? declaration := by
  have pushed : ((state.declarations.push ⟨kind, [], [], context.active⟩)[declaration]?).map
      (fun found => (found.kind, found.active)) =
      if declaration = state.declarations.size then some (kind, context.active)
      else state.mark? declaration := by
    rw [Array.getElem?_push]
    split <;> simp [mark?]
  unfold openDeclaration
  cases context.owner with
  | none => exact pushed
  | some parent =>
    rw [← pushed]
    simp only [mark?, Array.getElem?_modify]
    split <;> simp [Option.map_map, Function.comp_def]

end Open

/-! ## Adding occurrences -/

section Names

variable (tree : ParseTree) (context : Context) (declares : Bool)

@[simp]
theorem addName_names :
    (state.addName source tree context declares).1.names =
      state.names.push ⟨tree.text source, locationOf source tree, declares, none⟩ := rfl

@[simp]
theorem addName_number : (state.addName source tree context declares).2 = state.names.size := rfl

@[simp]
theorem addName_symbols :
    (state.addName source tree context declares).1.symbols = state.symbols := rfl

@[simp]
theorem addName_scopes :
    (state.addName source tree context declares).1.scopes = state.scopes := rfl

@[simp]
theorem addName_macros :
    (state.addName source tree context declares).1.macros = state.macros := rfl

@[simp]
theorem addName_macroValues :
    (state.addName source tree context declares).1.macroValues = state.macroValues := rfl

@[simp]
theorem addName_uses :
    (state.addName source tree context declares).1.uses = state.uses := rfl

@[simp]
theorem addName_members :
    (state.addName source tree context declares).1.members = state.members := rfl

@[simp]
theorem addName_size :
    (state.addName source tree context declares).1.declarations.size =
      state.declarations.size := by
  unfold addName
  cases context.owner <;> simp

@[simp]
theorem addName_mark? (declaration : Nat) :
    (state.addName source tree context declares).1.mark? declaration =
      state.mark? declaration := by
  unfold addName mark?
  cases context.owner with
  | none => rfl
  | some owner =>
    simp only [Array.getElem?_modify]
    split <;> simp [Option.map_map, Function.comp_def]

end Names

theorem modify_push (names : Array NameNode) (name : NameNode) (change : NameNode → NameNode) :
    (names.push name).modify names.size change = names.push (change name) := by
  ext index bound other
  · simp
  · simp only [Array.getElem_modify, Array.getElem_push]
    split
    · rename_i same
      subst same
      simp
    · rename_i different
      have inside : index < names.size := by
        simp only [Array.size_modify, Array.size_push] at bound
        omega
      simp [inside]

/-! ## Binding declarations -/

section Bind

variable (name : Nat) (binding : Nat) (typeRef : Option TypeRef)

theorem bindDeclaration_names :
    (state.bindDeclaration name binding typeRef).names =
      state.names.modify name fun found => { found with binding := some binding } := rfl

@[simp]
theorem bindDeclaration_head? (other : Nat) :
    (state.bindDeclaration name binding typeRef).head? other = state.head? other := by
  unfold head? bindDeclaration setBinding
  simp only [Array.getElem?_modify]
  split <;> simp [Option.map_map, Function.comp_def]

@[simp]
theorem bindDeclaration_typeScope? (other : Nat) :
    (state.bindDeclaration name binding typeRef).typeScope? other = state.typeScope? other := by
  simp only [typeScope?, bindDeclaration, setBinding, Array.getElem?_modify]
  by_cases same : binding = other
  · rw [if_pos same]
    cases state.symbols[other]? <;> rfl
  · rw [if_neg same]

@[simp]
theorem bindDeclaration_memberScope? (other : Nat) :
    (state.bindDeclaration name binding typeRef).memberScope? other = state.memberScope? other := by
  simp only [memberScope?, bindDeclaration, setBinding, Array.getElem?_modify]
  by_cases same : binding = other
  · rw [if_pos same]
    cases state.symbols[other]? <;> rfl
  · rw [if_neg same]

@[simp]
theorem bindDeclaration_symbols_size :
    (state.bindDeclaration name binding typeRef).symbols.size = state.symbols.size := by
  simp [bindDeclaration, setBinding]

end Bind

/-! ## Finding or adding symbols -/

section Symbols

variable (existing : Option Nat) (scope : Nat) (kind : SymbolKind) (text : String) (position : Nat)

@[simp]
theorem symbolIn_names :
    (state.symbolIn existing scope kind text position).1.names = state.names := by
  cases existing <;> rfl

@[simp]
theorem symbolIn_declarations :
    (state.symbolIn existing scope kind text position).1.declarations = state.declarations := by
  cases existing <;> rfl

@[simp]
theorem symbolIn_macros :
    (state.symbolIn existing scope kind text position).1.macros = state.macros := by
  cases existing <;> rfl

@[simp]
theorem symbolIn_macroValues :
    (state.symbolIn existing scope kind text position).1.macroValues = state.macroValues := by
  cases existing <;> rfl

@[simp]
theorem symbolIn_uses :
    (state.symbolIn existing scope kind text position).1.uses = state.uses := by
  cases existing <;> rfl

@[simp]
theorem symbolIn_members :
    (state.symbolIn existing scope kind text position).1.members = state.members := by
  cases existing <;> rfl

@[simp]
theorem addSymbol_memberScope? (name : String) (other : Nat) :
    (state.addSymbol name kind).1.memberScope? other = state.memberScope? other := by
  simp only [memberScope?, addSymbol, Array.getElem?_push]
  by_cases new : other = state.symbols.size
  · simp [new]
  · rw [if_neg new]

@[simp]
theorem symbolIn_memberScope? (other : Nat) :
    (state.symbolIn existing scope kind text position).1.memberScope? other =
      state.memberScope? other := by
  cases existing with
  | some binding => rfl
  | none => exact addSymbol_memberScope? state kind text other

@[simp]
theorem addSymbol_typeScope? (name : String) (other : Nat) :
    (state.addSymbol name kind).1.typeScope? other = state.typeScope? other := by
  simp only [typeScope?, addSymbol, Array.getElem?_push]
  by_cases new : other = state.symbols.size
  · simp [new]
  · rw [if_neg new]

@[simp]
theorem symbolIn_typeScope? (other : Nat) :
    (state.symbolIn existing scope kind text position).1.typeScope? other =
      state.typeScope? other := by
  cases existing with
  | some binding => rfl
  | none => exact addSymbol_typeScope? state kind text other

/-- The symbol of a declaration is the one that was found, or else the next one. -/
theorem symbolIn_binding :
    (state.symbolIn existing scope kind text position).2 = existing.getD state.symbols.size := by
  cases existing <;> rfl

/-- If a symbol was found, all scopes stay as they are; else the new one is declared. -/
theorem symbolIn_scopes :
    (state.symbolIn existing scope kind text position).1.scopes =
      if existing.isSome then state.scopes
      else state.scopes.declare scope kind.space text state.symbols.size position := by
  cases existing <;> rfl

theorem symbolIn_symbols_size :
    (state.symbolIn existing scope kind text position).1.symbols.size =
      if existing.isSome then state.symbols.size else state.symbols.size + 1 := by
  cases existing <;> simp [symbolIn, addSymbol]

theorem symbolIn_head? (other : Nat) :
    (state.symbolIn existing scope kind text position).1.head? other =
      if existing.isNone ∧ other = state.symbols.size then some (text, kind)
      else state.head? other := by
  cases existing with
  | some binding => simp [symbolIn]
  | none =>
    simp only [symbolIn, addSymbol, head?, Array.getElem?_push, Option.isNone_none, true_and]
    split <;> simp

end Symbols

/-! ## Opening scopes of members -/

section Members

variable (binding : Option Nat) (kind : ScopeKind) (parent : Nat)

theorem openMembers_eq :
    (state.openMembers binding kind parent).1 =
      { state with
        scopes := (state.openMembers binding kind parent).1.scopes
        symbols := (state.openMembers binding kind parent).1.symbols } := by
  unfold openMembers
  split
  · rfl
  · cases binding <;> rfl

@[simp]
theorem openMembers_names : (state.openMembers binding kind parent).1.names = state.names := by
  rw [openMembers_eq]

@[simp]
theorem openMembers_declarations :
    (state.openMembers binding kind parent).1.declarations = state.declarations := by
  rw [openMembers_eq]

@[simp]
theorem openMembers_macros : (state.openMembers binding kind parent).1.macros = state.macros := by
  rw [openMembers_eq]

@[simp]
theorem openMembers_macroValues :
    (state.openMembers binding kind parent).1.macroValues = state.macroValues := by
  rw [openMembers_eq]

@[simp]
theorem openMembers_uses : (state.openMembers binding kind parent).1.uses = state.uses := by
  rw [openMembers_eq]

@[simp]
theorem openMembers_members :
    (state.openMembers binding kind parent).1.members = state.members := by
  rw [openMembers_eq]

@[simp]
theorem openMembers_symbols_size :
    (state.openMembers binding kind parent).1.symbols.size = state.symbols.size := by
  unfold openMembers
  split
  · rfl
  · cases binding <;> simp [pushScope]

@[simp]
theorem openMembers_head? (other : Nat) :
    (state.openMembers binding kind parent).1.head? other = state.head? other := by
  unfold openMembers
  split
  · rfl
  · cases binding with
    | none => rfl
    | some binding =>
      simp only [head?, pushScope, Array.getElem?_modify]
      split <;> simp [Option.map_map, Function.comp_def]

theorem openMembers_scopes :
    (state.openMembers binding kind parent).1.scopes = state.scopes ∨
      (state.openMembers binding kind parent).1.scopes = state.scopes.push kind (some parent) := by
  unfold openMembers
  split
  · exact .inl rfl
  · cases binding <;> exact .inr rfl

end Members

/-! ## Only adding to a state -/

structure Grows (before after : State) : Prop where
  declarations : before.declarations.size ≤ after.declarations.size
  marks : ∀ declaration < before.declarations.size,
    after.mark? declaration = before.mark? declaration
  names : before.names.size ≤ after.names.size
  occurrences : ∀ name < before.names.size, after.names[name]? = before.names[name]?
  symbols : before.symbols.size ≤ after.symbols.size
  heads : ∀ binding < before.symbols.size, after.head? binding = before.head? binding

namespace Grows

theorem refl (state : State) : Grows state state :=
  ⟨Nat.le_refl _, fun _ _ => rfl, Nat.le_refl _, fun _ _ => rfl, Nat.le_refl _, fun _ _ => rfl⟩

theorem trans {before middle after : State} (first : Grows before middle)
    (last : Grows middle after) : Grows before after where
  declarations := Nat.le_trans first.declarations last.declarations
  marks declaration known :=
    (last.marks declaration (Nat.lt_of_lt_of_le known first.declarations)).trans
      (first.marks declaration known)
  names := Nat.le_trans first.names last.names
  occurrences name known :=
    (last.occurrences name (Nat.lt_of_lt_of_le known first.names)).trans
      (first.occurrences name known)
  symbols := Nat.le_trans first.symbols last.symbols
  heads binding known :=
    (last.heads binding (Nat.lt_of_lt_of_le known first.symbols)).trans
      (first.heads binding known)

theorem of_same {before after : State} (declarations : after.declarations = before.declarations)
    (names : after.names = before.names) (symbols : after.symbols.size = before.symbols.size)
    (heads : ∀ binding, after.head? binding = before.head? binding) : Grows before after where
  declarations := Nat.le_of_eq (by rw [declarations])
  marks declaration _ := by rw [mark?, declarations, mark?]
  names := Nat.le_of_eq (by rw [names])
  occurrences name _ := by rw [names]
  symbols := Nat.le_of_eq symbols.symm
  heads binding _ := heads binding

theorem mark?_eq {before after : State} (grows : Grows before after) {declaration : Nat}
    {mark : String × Bool} (found : before.mark? declaration = some mark) :
    after.mark? declaration = some mark := by
  have known : declaration < before.declarations.size := Nat.lt_of_not_le fun unknown => by
    rw [(mark?_eq_none_iff before).2 unknown] at found
    cases found
  rw [grows.marks declaration known, found]

theorem head?_eq {before after : State} (grows : Grows before after) {binding : Nat}
    {head : String × SymbolKind} (found : before.head? binding = some head) :
    after.head? binding = some head := by
  have known := lt_size_of_head? found
  rw [grows.heads binding known, found]

theorem occurrence_eq {before after : State} (grows : Grows before after) {name : Nat}
    {occurrence : NameNode} (found : before.names[name]? = some occurrence) :
    after.names[name]? = some occurrence := by
  have known : name < before.names.size := Nat.lt_of_not_le fun unknown => by
    rw [Array.getElem?_eq_none unknown] at found
    cases found
  rw [grows.occurrences name known, found]

end Grows

theorem openDeclaration_grows (kind : String) (context : Context) :
    Grows state (state.openDeclaration kind context).1 where
  declarations := by simp
  marks declaration known := by rw [openDeclaration_mark?, if_neg (Nat.ne_of_lt known)]
  names := by simp
  occurrences name _ := by simp
  symbols := by simp
  heads binding _ := by simp [head?]

theorem openMembers_grows (binding : Option Nat) (kind : ScopeKind) (parent : Nat) :
    Grows state (state.openMembers binding kind parent).1 :=
  .of_same (by simp) (by simp) (by simp) (by simp)

end CrossReference.Walk.State
