import CrossReference.Scope.Lookup

/-!
# Laws of scopes

What a table finds after a declaration, and what a look-up in a scope finds after a declaration in
that scope or another one.  As long as no scope takes names from others, a look-up behind `::` is
one in the scope itself.
-/

set_option autoImplicit false

namespace CrossReference

namespace ScopeTable

theorem find?_declare (table : ScopeTable) (name other : String) (entry : ScopeEntry) :
    (table.declare name entry).find? other =
      (table.find? other).or (if name = other then some entry else none) := by
  unfold declare
  split
  · rename_i declared
    by_cases same : name = other
    · obtain ⟨found, there⟩ := Option.isSome_iff_exists.1 declared
      rw [← same, there]
      rfl
    · simp [same]
  · rename_i undeclared
    rw [find?, List.find?_append, Option.map_or, ← find?]
    by_cases same : name = other <;> simp [same]

theorem mem_of_find? {table : ScopeTable} {name : String} {entry : ScopeEntry}
    (found : table.find? name = some entry) : (name, entry) ∈ table := by
  obtain ⟨pair, there, rfl⟩ := Option.map_eq_some_iff.1 found
  have same : pair.1 = name := by simpa using List.find?_some there
  exact same ▸ List.mem_of_find?_eq_some there

theorem mem_declare {table : ScopeTable} {name : String} {entry : ScopeEntry}
    {pair : String × ScopeEntry} (member : pair ∈ table.declare name entry) :
    pair ∈ table ∨ pair = (name, entry) := by
  unfold declare at member
  split at member
  · exact .inl member
  · simpa using member

end ScopeTable

namespace Scopes

variable (scopes : Scopes)

theorem getElem?_declare (scope other : Nat) (space : NameSpace) (name : String)
    (binding position : Nat) :
    (scopes.declare scope space name binding position).all[other]? =
      if scope = other then
        (scopes.all[other]?).map fun found =>
          match space with
          | .tag => { found with tags := found.tags.declare name ⟨binding, position⟩ }
          | .ordinary | .qualifier =>
              { found with symbols := found.symbols.declare name ⟨binding, position⟩ }
      else scopes.all[other]? := by
  unfold declare
  exact Array.getElem?_modify

theorem local?_declare_of_ne {scope other : Nat} (different : scope ≠ other)
    (space searched : NameSpace) (name text : String) (binding position : Nat) :
    (scopes.declare scope space name binding position).local? searched text other =
      scopes.local? searched text other := by
  unfold local? entry?
  rw [getElem?_declare, if_neg different]
  rfl

/-- An ordinary name that was not known in a scope is found there once it is declared, and all else
is found as before. -/
theorem local?_declare_ordinary {scope : Nat} {name : String}
    (unknown : scopes.local? .ordinary name scope = none) (binding position : Nat) (text : String) :
    (scopes.declare scope .ordinary name binding position).local? .ordinary text scope =
      if text = name ∧ scope < scopes.all.size then some binding
      else scopes.local? .ordinary text scope := by
  unfold local? entry? at unknown ⊢
  rw [getElem?_declare, if_pos rfl]
  cases found : scopes.all[scope]? with
  | none =>
    have outside := Array.getElem?_eq_none_iff.1 found
    simp [Nat.not_lt_of_le outside]
  | some inner =>
    obtain ⟨inside, -⟩ := Array.getElem?_eq_some_iff.1 found
    simp only [found, Option.map_eq_none_iff] at unknown
    simp only [Option.map_some, inside, and_true]
    unfold entryIn? at unknown ⊢
    have typesSame : (scopes.declare scope .ordinary name binding position).tagsAreTypes =
      scopes.tagsAreTypes := rfl
    simp only [typesSame, ScopeTable.find?_declare] at unknown ⊢
    by_cases same : text = name
    · subst same
      cases types : scopes.tagsAreTypes <;> simp_all
    · cases types : scopes.tagsAreTypes <;> simp [same, Ne.symm same]

theorem lookupMember_eq_local? (space : NameSpace) (name : String) {scope : Nat}
    (alone : scopes.imports scope = []) :
    scopes.lookupMember space name scope = scopes.local? space name scope := by
  unfold lookupMember maxSteps memberWithin local?
  cases scopes.entry? space name scope with
  | none => simp [alone]
  | some entry => rfl

/-! ## What a look-up finds -/

section Found

variable {scopes} {space : NameSpace} {name : String} {binding : Nat}

theorem exists_entry_of_memberWithin {steps scope : Nat}
    (found : scopes.memberWithin space name steps scope = some binding) :
    ∃ number entry, scopes.entry? space name number = some entry ∧ entry.binding = binding := by
  induction steps generalizing scope with
  | zero =>
    unfold memberWithin at found
    split at found
    · rename_i entry isEntry
      exact ⟨scope, entry, isEntry, Option.some.inj found⟩
    · cases found
  | succ steps ih =>
    unfold memberWithin at found
    split at found
    · rename_i entry isEntry
      exact ⟨scope, entry, isEntry, Option.some.inj found⟩
    · obtain ⟨imported, -, foundThere⟩ := List.exists_of_findSome?_eq_some found
      exact ih foundThere

theorem exists_entry_of_lookupMember {scope : Nat}
    (found : scopes.lookupMember space name scope = some binding) :
    ∃ number entry, scopes.entry? space name number = some entry ∧ entry.binding = binding :=
  exists_entry_of_memberWithin found

theorem exists_entry_of_seenFrom? {position number : Nat} {scope : Scope}
    (there : scopes.all[number]? = some scope)
    (found : scopes.seenFrom? space name position scope = some binding) :
    ∃ number entry, scopes.entry? space name number = some entry ∧ entry.binding = binding := by
  unfold seenFrom? at found
  split at found
  · rename_i own isOwn
    cases found
    unfold visible? at isOwn
    split at isOwn
    · rename_i entry isEntry
      split at isOwn
      · exact ⟨number, entry, by simpa [there, entry?] using isEntry, Option.some.inj isOwn⟩
      · cases isOwn
    · cases isOwn
  · obtain ⟨imported, -, foundThere⟩ := List.exists_of_findSome?_eq_some found
    exact exists_entry_of_memberWithin foundThere

/-- What is found from a scope outwards is an entry of some scope. -/
theorem exists_entry_of_lookup {position scope : Nat}
    (found : scopes.lookup space name position scope = some binding) :
    ∃ number entry, scopes.entry? space name number = some entry ∧ entry.binding = binding := by
  fun_induction lookup scopes space name position scope with
  | case1 scope missing => cases found
  | case2 scope inner there own seen =>
    cases found
    exact exists_entry_of_seenFrom? there seen
  | case3 scope inner there unseen outermost => cases found
  | case4 scope inner there unseen parent isParent outer ih => exact ih found
  | case5 scope inner there unseen parent isParent notOuter => cases found

end Found

/-! ## What scopes hold -/

def Holds (text : String) (binding : Nat) : Prop :=
  ∃ (number : Nat) (scope : Scope) (entry : ScopeEntry), scopes.all[number]? = some scope ∧
    ((text, entry) ∈ scope.tags ∨ (text, entry) ∈ scope.symbols) ∧ entry.binding = binding

section Holds

variable {scopes} {space : NameSpace} {name text : String} {binding : Nat}

/-- What a scope has is in one of its tables.  A tag answers for an ordinary name only where tags
are types, and an ordinary name never for a tag. -/
theorem mem_of_entryIn? {scope : Scope} {entry : ScopeEntry}
    (found : scopes.entryIn? space name scope = some entry) :
    (name, entry) ∈ scope.tags ∧ (space = .ordinary → scopes.tagsAreTypes = true) ∨
      (name, entry) ∈ scope.symbols ∧ space ≠ .tag := by
  unfold entryIn? at found
  cases space with
  | tag => exact .inl ⟨ScopeTable.mem_of_find? found, nofun⟩
  | ordinary =>
    simp only at found
    split at found
    · rename_i types
      rw [Option.orElse_eq_orElse, Option.orElse_eq_or, Option.or_eq_some_iff] at found
      rcases found with symbol | ⟨-, tag⟩
      · exact .inr ⟨ScopeTable.mem_of_find? symbol, nofun⟩
      · exact .inl ⟨ScopeTable.mem_of_find? tag, fun _ => types⟩
    · exact .inr ⟨ScopeTable.mem_of_find? found, nofun⟩
  | qualifier =>
    simp only [Option.orElse_eq_orElse, Option.orElse_eq_or, Option.or_eq_some_iff] at found
    rcases found with tag | ⟨-, symbol⟩
    · exact .inl ⟨ScopeTable.mem_of_find? tag, nofun⟩
    · exact .inr ⟨ScopeTable.mem_of_find? symbol, nofun⟩

theorem holds_of_entry? {scope : Nat} {entry : ScopeEntry}
    (found : scopes.entry? space name scope = some entry) : scopes.Holds name entry.binding := by
  unfold entry? at found
  split at found
  · rename_i inner there
    exact ⟨scope, inner, entry, there, (mem_of_entryIn? found).imp And.left And.left, rfl⟩
  · cases found

theorem holds_of_local? {scope : Nat} (found : scopes.local? space name scope = some binding) :
    scopes.Holds name binding := by
  obtain ⟨entry, isEntry, rfl⟩ := Option.map_eq_some_iff.1 found
  exact holds_of_entry? isEntry

theorem holds_of_lookupMember {scope : Nat}
    (found : scopes.lookupMember space name scope = some binding) : scopes.Holds name binding := by
  obtain ⟨number, entry, isEntry, rfl⟩ := exists_entry_of_lookupMember found
  exact holds_of_entry? isEntry

theorem holds_of_lookup {position scope : Nat}
    (found : scopes.lookup space name position scope = some binding) :
    scopes.Holds name binding := by
  obtain ⟨number, entry, isEntry, rfl⟩ := exists_entry_of_lookup found
  exact holds_of_entry? isEntry

theorem not_holds_initial {tagsAreTypes : Bool} : ¬ (initial tagsAreTypes).Holds text binding := by
  rintro ⟨number, scope, entry, there, member, -⟩
  have isFile : scope = Scope.fresh .file none := by
    cases number <;> simp_all [initial]
  rw [isFile] at member
  simp [Scope.fresh] at member

theorem holds_of_push {kind : ScopeKind} {parent : Option Nat}
    (held : (scopes.push kind parent).Holds text binding) : scopes.Holds text binding := by
  obtain ⟨number, scope, entry, there, member, bound⟩ := held
  simp only [push, Array.getElem?_push] at there
  split at there
  · cases there
    simp [Scope.fresh] at member
  · exact ⟨number, scope, entry, there, member, bound⟩

theorem mem_of_declare {scope declared position number : Nat} {after : Scope}
    (there : (scopes.declare scope space name declared position).all[number]? = some after) :
    ∃ before, scopes.all[number]? = some before ∧
      ∀ entry, (text, entry) ∈ after.tags ∨ (text, entry) ∈ after.symbols →
        ((text, entry) ∈ before.tags ∨ (text, entry) ∈ before.symbols) ∨
          number = scope ∧ text = name ∧ entry.binding = declared := by
  rw [getElem?_declare] at there
  split at there
  · rename_i here
    obtain ⟨before, isThere, rfl⟩ := Option.map_eq_some_iff.1 there
    refine ⟨before, isThere, fun entry member => ?_⟩
    have known {table : ScopeTable}
        (isMember : (text, entry) ∈ table.declare name ⟨declared, position⟩) :
        (text, entry) ∈ table ∨ number = scope ∧ text = name ∧ entry.binding = declared := by
      rcases ScopeTable.mem_declare isMember with old | new
      · exact .inl old
      · cases new
        exact .inr ⟨here.symm, rfl, rfl⟩
    cases space with
    | tag =>
      rcases member with tag | symbol
      · exact (known tag).imp_left .inl
      · exact .inl (.inr symbol)
    | ordinary | qualifier =>
      rcases member with tag | symbol
      · exact .inl (.inl tag)
      · exact (known symbol).imp_left .inr
  · exact ⟨after, there, fun _ => .inl⟩

/-- A declaration adds the binding that it declares under its spelling. -/
theorem holds_of_declare {scope declared position : Nat}
    (held : (scopes.declare scope space name declared position).Holds text binding) :
    scopes.Holds text binding ∨ text = name ∧ binding = declared := by
  obtain ⟨number, after, entry, there, member, bound⟩ := held
  obtain ⟨before, isThere, known⟩ := mem_of_declare there
  rcases known entry member with old | ⟨-, same, isDeclared⟩
  · exact .inl ⟨number, before, entry, isThere, old, bound⟩
  · exact .inr ⟨same, bound.symm.trans isDeclared⟩

theorem holds_of_modify {scope : Nat} (change : Scope → Scope)
    (tags : ∀ found, (change found).tags = found.tags)
    (symbols : ∀ found, (change found).symbols = found.symbols)
    (held : Holds { scopes with all := scopes.all.modify scope change } text binding) :
    scopes.Holds text binding := by
  obtain ⟨number, found, entry, there, member, bound⟩ := held
  rw [Array.getElem?_modify] at there
  split at there
  · obtain ⟨before, isThere, rfl⟩ := Option.map_eq_some_iff.1 there
    rw [tags, symbols] at member
    exact ⟨number, before, entry, isThere, member, bound⟩
  · exact ⟨number, found, entry, there, member, bound⟩

theorem holds_of_addBase {scope base : Nat}
    (held : (scopes.addBase scope base).Holds text binding) : scopes.Holds text binding :=
  holds_of_modify (fun found => { found with bases := addEdge scope base found.bases })
    (fun _ => rfl) (fun _ => rfl) held

theorem holds_of_addUsing {scope used : Nat}
    (held : (scopes.addUsing scope used).Holds text binding) : scopes.Holds text binding :=
  holds_of_modify (fun found => { found with usings := addEdge scope used found.usings })
    (fun _ => rfl) (fun _ => rfl) held

end Holds

/-! ## What one scope holds -/

/-- A scope has a binding in one of its tables. -/
def HoldsIn (number binding : Nat) : Prop :=
  ∃ (scope : Scope) (text : String) (entry : ScopeEntry), scopes.all[number]? = some scope ∧
    ((text, entry) ∈ scope.tags ∨ (text, entry) ∈ scope.symbols) ∧ entry.binding = binding

section HoldsIn

variable {scopes} {space searched : NameSpace} {name text : String}
  {scope other binding declared position : Nat}

theorem holdsIn_of_local? (found : scopes.local? space name scope = some binding) :
    scopes.HoldsIn scope binding := by
  obtain ⟨entry, isEntry, rfl⟩ := Option.map_eq_some_iff.1 found
  unfold entry? at isEntry
  split at isEntry
  · rename_i inner there
    exact ⟨inner, name, entry, there, (mem_of_entryIn? isEntry).imp And.left And.left, rfl⟩
  · cases isEntry

theorem not_holdsIn_initial {tagsAreTypes : Bool} :
    ¬ (initial tagsAreTypes).HoldsIn scope binding := by
  rintro ⟨inner, text, entry, there, member, -⟩
  exact not_holds_initial ⟨scope, inner, entry, there, member, rfl⟩

theorem holdsIn_of_push {kind : ScopeKind} {parent : Option Nat}
    (held : (scopes.push kind parent).HoldsIn scope binding) : scopes.HoldsIn scope binding := by
  obtain ⟨inner, text, entry, there, member, bound⟩ := held
  simp only [push, Array.getElem?_push] at there
  split at there
  · cases there
    simp [Scope.fresh] at member
  · exact ⟨inner, text, entry, there, member, bound⟩

theorem holdsIn_of_declare
    (held : (scopes.declare scope space name declared position).HoldsIn other binding) :
    scopes.HoldsIn other binding ∨ other = scope ∧ binding = declared := by
  obtain ⟨after, text, entry, there, member, bound⟩ := held
  obtain ⟨before, isThere, known⟩ := mem_of_declare there
  rcases known entry member with old | ⟨here, -, isDeclared⟩
  · exact .inl ⟨before, text, entry, isThere, old, bound⟩
  · exact .inr ⟨here, bound.symm.trans isDeclared⟩

@[simp]
theorem local?_push (kind : ScopeKind) (parent : Option Nat) :
    (scopes.push kind parent).local? searched text scope = scopes.local? searched text scope := by
  have nothing : (scopes.push kind parent).entryIn? searched text (.fresh kind parent) = none := by
    unfold entryIn?
    split <;> simp [Scope.fresh, ScopeTable.find?]
  unfold local? entry?
  by_cases isLast : scope = scopes.all.size
  · have there : (scopes.push kind parent).all[scope]? = some (.fresh kind parent) := by
      simp [push, isLast]
    have before : scopes.all[scope]? = none := by simp [isLast]
    simp [there, nothing, before]
  · have there : (scopes.push kind parent).all[scope]? = scopes.all[scope]? := by
      rw [push, Array.getElem?_push, if_neg isLast]
    rw [there]
    rfl

/-- What is found in a scope stays, whatever is declared that was not found. -/
theorem local?_declare_kept (noQualifier : space ≠ .qualifier) (plain : searched ≠ .qualifier)
    (unknown : scopes.local? space name scope = none)
    (found : scopes.local? searched text other = some binding) :
    (scopes.declare scope space name declared position).local? searched text other =
      some binding := by
  by_cases here : scope = other
  · subst here
    by_cases same : searched = space ∧ text = name
    · rw [same.1, same.2, unknown] at found
      cases found
    · unfold local? entry? at unknown found ⊢
      rw [getElem?_declare, if_pos rfl]
      cases there : scopes.all[scope]? with
      | none => simp [there] at found
      | some inner =>
        simp only [there, Option.map_some] at unknown found ⊢
        unfold entryIn? at unknown found ⊢
        have typesSame : (scopes.declare scope space name declared position).tagsAreTypes =
          scopes.tagsAreTypes := rfl
        rw [typesSame]
        cases space with
        | qualifier => exact absurd rfl noQualifier
        | tag =>
          cases searched with
          | qualifier => exact absurd rfl plain
          | tag =>
            obtain ⟨entry, isEntry, bound⟩ := Option.map_eq_some_iff.1 found
            simp [ScopeTable.find?_declare, isEntry, bound]
          | ordinary =>
            simp only [ScopeTable.find?_declare] at found ⊢
            cases symbol : inner.symbols.find? text <;> cases tag : inner.tags.find? text <;>
              cases types : scopes.tagsAreTypes <;> simp_all
        | ordinary =>
          cases searched with
          | qualifier => exact absurd rfl plain
          | tag => exact found
          | ordinary =>
            have different : ¬ name = text := fun equal => same ⟨rfl, equal.symm⟩
            simpa [ScopeTable.find?_declare, different] using found
  · rw [local?_declare_of_ne scopes here]
    exact found

theorem local?_declare_new (noQualifier : space ≠ .qualifier)
    (unknown : scopes.local? space name scope = none) (inside : scope < scopes.all.size) :
    (scopes.declare scope space name declared position).local? space name scope =
      some declared := by
  cases space with
  | qualifier => exact absurd rfl noQualifier
  | ordinary => rw [local?_declare_ordinary scopes unknown, if_pos ⟨rfl, inside⟩]
  | tag =>
    unfold local? entry? at unknown ⊢
    rw [getElem?_declare, if_pos rfl]
    rw [Array.getElem?_eq_getElem inside] at unknown ⊢
    simp only [entryIn?, Option.map_eq_none_iff, Option.map_some] at unknown ⊢
    simp [ScopeTable.find?_declare, unknown]

end HoldsIn

end Scopes

end CrossReference
