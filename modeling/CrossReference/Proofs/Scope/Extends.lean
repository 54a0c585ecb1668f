import CrossReference.Proofs.Scope.Search

/-!
# Scopes that grow

Whatever is done to scopes, they keep their places, their names and what they take names from.  If in
addition nothing is declared under a name that a search finds already, then a scope that has a name
for a use never loses it.
-/

set_option autoImplicit false

namespace CrossReference

structure Scope.Extends (before after : Scope) : Prop where
  kind : after.kind = before.kind
  parent : after.parent = before.parent
  symbols : ∀ name entry, before.symbols.find? name = some entry →
    after.symbols.find? name = some entry
  tags : ∀ name entry, before.tags.find? name = some entry → after.tags.find? name = some entry
  bases : before.bases ⊆ after.bases
  usings : before.usings ⊆ after.usings

theorem ScopeTable.find?_declare_kept {table : ScopeTable} {text : String} {found : ScopeEntry}
    (there : table.find? text = some found) (name : String) (entry : ScopeEntry) :
    (table.declare name entry).find? text = some found := by
  rw [find?_declare, there]
  rfl

namespace Scope.Extends

theorem refl (scope : Scope) : scope.Extends scope :=
  ⟨rfl, rfl, fun _ _ => id, fun _ _ => id, List.Subset.refl _, List.Subset.refl _⟩

theorem trans {before middle after : Scope} (first : before.Extends middle)
    (last : middle.Extends after) : before.Extends after where
  kind := last.kind.trans first.kind
  parent := last.parent.trans first.parent
  symbols name entry found := last.symbols name entry (first.symbols name entry found)
  tags name entry found := last.tags name entry (first.tags name entry found)
  bases := List.Subset.trans first.bases last.bases
  usings := List.Subset.trans first.usings last.usings

end Scope.Extends

namespace Scopes

theorem subset_addEdge (scope target : Nat) (edges : List Nat) :
    edges ⊆ addEdge scope target edges := by
  unfold addEdge
  split
  · exact List.Subset.refl edges
  · exact List.subset_append_left edges [target]

structure Extends (before after : Scopes) : Prop where
  types : after.tagsAreTypes = before.tagsAreTypes
  scopes : ∀ (number : Nat) (found : Scope), before.all[number]? = some found →
    ∃ later, after.all[number]? = some later ∧ found.Extends later

theorem next_declare (scopes : Scopes) (scope : Nat) (space : NameSpace) (name : String)
    (binding position : Nat) :
    (scopes.declare scope space name binding position).next = scopes.next := by
  simp [Scopes.next, Scopes.declare]

theorem encloses_push (scopes : Scopes) (kind : ScopeKind) (parent : Nat) :
    (scopes.push kind (some parent)).Encloses parent scopes.next :=
  .inside (Array.getElem?_push_size) rfl .self

namespace Extends

variable {before middle after : Scopes}

theorem refl (scopes : Scopes) : scopes.Extends scopes :=
  ⟨rfl, fun _ found there => ⟨found, there, .refl found⟩⟩

theorem trans (first : before.Extends middle) (last : middle.Extends after) :
    before.Extends after where
  types := last.types.trans first.types
  scopes number found there := by
    obtain ⟨between, isThere, grown⟩ := first.scopes number found there
    obtain ⟨later, isLater, grownLater⟩ := last.scopes number between isThere
    exact ⟨later, isLater, grown.trans grownLater⟩

theorem push (scopes : Scopes) (kind : ScopeKind) (parent : Option Nat) :
    scopes.Extends (scopes.push kind parent) where
  types := rfl
  scopes number found there := by
    obtain ⟨inside, -⟩ := Array.getElem?_eq_some_iff.1 there
    refine ⟨found, ?_, .refl found⟩
    rw [Scopes.push, Array.getElem?_push, if_neg (Nat.ne_of_lt inside), there]

theorem modify (scopes : Scopes) (scope : Nat) (change : Scope → Scope)
    (grown : ∀ found, Scope.Extends found (change found)) :
    scopes.Extends { scopes with all := scopes.all.modify scope change } where
  types := rfl
  scopes number found there := by
    by_cases here : scope = number
    · exact ⟨change found, by simp [Array.getElem?_modify, here, there], grown found⟩
    · exact ⟨found, by simp [Array.getElem?_modify, here, there], .refl found⟩

theorem declare (scopes : Scopes) (scope : Nat) (space : NameSpace) (name : String)
    (binding position : Nat) :
    scopes.Extends (scopes.declare scope space name binding position) := by
  refine modify scopes scope _ fun found => ?_
  cases space with
  | tag =>
    exact ⟨rfl, rfl, fun _ _ => id, fun _ _ there => ScopeTable.find?_declare_kept there _ _,
      List.Subset.refl _, List.Subset.refl _⟩
  | ordinary | qualifier =>
    exact ⟨rfl, rfl, fun _ _ there => ScopeTable.find?_declare_kept there _ _, fun _ _ => id,
      List.Subset.refl _, List.Subset.refl _⟩

theorem addBase (scopes : Scopes) (scope base : Nat) : scopes.Extends (scopes.addBase scope base) :=
  modify scopes scope _ fun _ =>
    ⟨rfl, rfl, fun _ _ => id, fun _ _ => id, subset_addEdge _ _ _, List.Subset.refl _⟩

theorem addUsing (scopes : Scopes) (scope used : Nat) :
    scopes.Extends (scopes.addUsing scope used) :=
  modify scopes scope _ fun _ =>
    ⟨rfl, rfl, fun _ _ => id, fun _ _ => id, List.Subset.refl _, subset_addEdge _ _ _⟩

theorem next_le (grown : before.Extends after) : before.next ≤ after.next := by
  apply Nat.le_of_not_lt
  intro fewer
  have inside : after.all.size < before.all.size := fewer
  obtain ⟨later, isLater, -⟩ := grown.scopes _ _ (Array.getElem?_eq_getElem inside)
  simp at isLater

theorem nested (grown : before.Extends after) (same : after.next = before.next)
    (nested : before.Nested) : after.Nested := by
  intro inner later parent isLater isParent
  have inside : inner < before.all.size := by
    obtain ⟨bound, -⟩ := Array.getElem?_eq_some_iff.1 isLater
    exact Nat.lt_of_lt_of_eq bound same
  obtain ⟨kept, isKept, extended⟩ :=
    grown.scopes inner _ (Array.getElem?_eq_getElem inside)
  rw [isLater] at isKept
  cases isKept
  exact nested inner _ parent (Array.getElem?_eq_getElem inside) (extended.parent ▸ isParent)

theorem encloses {outer inner : Nat} (grown : before.Extends after)
    (around : before.Encloses outer inner) : after.Encloses outer inner := by
  induction around with
  | self => exact .self
  | @inside inner parent found there isParent _ ih =>
    obtain ⟨later, isLater, same⟩ := grown.scopes inner found there
    exact .inside isLater (same.parent.trans isParent) ih

theorem imports_subset (grown : before.Extends after) (scope : Nat) :
    before.imports scope ⊆ after.imports scope := by
  cases there : before.all[scope]? with
  | none => simp [imports, there]
  | some found =>
    obtain ⟨later, isLater, same⟩ := grown.scopes scope found there
    simp only [imports, there, isLater]
    exact List.append_subset.2 ⟨List.subset_append_of_subset_left _ same.bases,
      List.subset_append_of_subset_right _ same.usings⟩

end Extends

/-! ## Entries -/

def Lists (scopes : Scopes) (scope : Nat) (name : String) (entry : ScopeEntry) : Prop :=
  ∃ here, scopes.all[scope]? = some here ∧
    (here.symbols.find? name = some entry ∨ here.tags.find? name = some entry)

theorem Extends.lists {before after : Scopes} (grown : before.Extends after) {scope : Nat}
    {name : String} {entry : ScopeEntry} (lists : before.Lists scope name entry) :
    after.Lists scope name entry := by
  obtain ⟨here, isHere, isEntry⟩ := lists
  obtain ⟨later, isLater, extended⟩ := grown.scopes scope here isHere
  exact ⟨later, isLater, isEntry.imp (extended.symbols _ entry) (extended.tags _ entry)⟩

theorem lists_of_entry? {scopes : Scopes} {scope : Nat} {name : String} {entry : ScopeEntry}
    (found : scopes.entry? .ordinary name scope = some entry) : scopes.Lists scope name entry := by
  unfold Scopes.entry? at found
  split at found
  · rename_i here isHere
    refine ⟨here, isHere, ?_⟩
    simp only [entryIn?] at found
    split at found
    · cases symbol : here.symbols.find? name with
      | some other => exact .inl (by simpa [symbol] using found)
      | none => exact .inr (by simpa [symbol] using found)
    · exact .inl found
  · cases found

theorem lists_of_push {scopes : Scopes} {kind : ScopeKind} {parent : Option Nat} {scope : Nat}
    {name : String} {entry : ScopeEntry}
    (lists : (scopes.push kind parent).Lists scope name entry) : scopes.Lists scope name entry := by
  obtain ⟨here, isHere, isEntry⟩ := lists
  rw [Scopes.push, Array.getElem?_push] at isHere
  split at isHere
  · cases isHere
    rcases isEntry with symbol | tag
    · cases symbol
    · cases tag
  · exact ⟨here, isHere, isEntry⟩

theorem lists_of_declare {scopes : Scopes} {scope other : Nat} {space : NameSpace}
    {name text : String} {binding position : Nat} {entry : ScopeEntry}
    (lists : (scopes.declare scope space name binding position).Lists other text entry) :
    scopes.Lists other text entry ∨ text = name ∧ entry = ⟨binding, position⟩ := by
  have ofTable {table : ScopeTable}
      (found : (table.declare name ⟨binding, position⟩).find? text = some entry) :
      table.find? text = some entry ∨ text = name ∧ entry = ⟨binding, position⟩ := by
    rw [ScopeTable.find?_declare, Option.or_eq_some_iff] at found
    rcases found with old | ⟨-, new⟩
    · exact .inl old
    · obtain ⟨same, isNew⟩ := by simpa using new
      exact .inr ⟨same.symm, isNew.symm⟩
  obtain ⟨here, isHere, isEntry⟩ := lists
  rw [getElem?_declare] at isHere
  split at isHere
  · obtain ⟨before, isBefore, rfl⟩ := Option.map_eq_some_iff.1 isHere
    cases space with
    | tag =>
      rcases isEntry with symbol | tag
      · exact .inl ⟨before, isBefore, .inl symbol⟩
      · exact (ofTable tag).imp_left fun old => ⟨before, isBefore, .inr old⟩
    | ordinary | qualifier =>
      rcases isEntry with symbol | tag
      · exact (ofTable symbol).imp_left fun old => ⟨before, isBefore, .inl old⟩
      · exact .inl ⟨before, isBefore, .inr tag⟩
  · exact .inl ⟨here, isHere, isEntry⟩

/-! ## Scopes in which searches find what they found -/

/-- Scopes of which none is made, and that grow without a declaration that gives a search another
entry. -/
structure Widens (before after : Scopes) : Prop extends Extends before after where
  next : after.next = before.next
  entries : ∀ (space : NameSpace) (name : String) (scope : Nat) (entry : ScopeEntry),
    before.entry? space name scope = some entry → after.entry? space name scope = some entry

namespace Widens

variable {before middle after : Scopes} {space : NameSpace} {name : String}

theorem refl (scopes : Scopes) : scopes.Widens scopes :=
  ⟨.refl scopes, rfl, fun _ _ _ _ => id⟩

theorem trans (first : before.Widens middle) (last : middle.Widens after) :
    before.Widens after where
  toExtends := first.toExtends.trans last.toExtends
  next := last.next.trans first.next
  entries space name scope entry found :=
    last.entries space name scope entry (first.entries space name scope entry found)

theorem of_edges {scopes : Scopes} {scope : Nat} {change : Scope → Scope}
    (grown : scopes.Extends { scopes with all := scopes.all.modify scope change })
    (symbols : ∀ found, (change found).symbols = found.symbols)
    (tags : ∀ found, (change found).tags = found.tags) :
    scopes.Widens { scopes with all := scopes.all.modify scope change } where
  toExtends := grown
  next := by simp [Scopes.next]
  entries space name number entry found := by
    unfold Scopes.entry? at found ⊢
    cases there : scopes.all[number]? with
    | none => simp [there] at found
    | some inner =>
      by_cases here : scope = number
      · simpa [Array.getElem?_modify, here, there, entryIn?, symbols, tags] using found
      · simpa [Array.getElem?_modify, here, there, entryIn?] using found

theorem addBase (scopes : Scopes) (scope base : Nat) : scopes.Widens (scopes.addBase scope base) :=
  of_edges (.addBase scopes scope base) (fun _ => rfl) fun _ => rfl

theorem addUsing (scopes : Scopes) (scope used : Nat) :
    scopes.Widens (scopes.addUsing scope used) :=
  of_edges (.addUsing scopes scope used) (fun _ => rfl) fun _ => rfl

theorem declare {scopes : Scopes} {scope : Nat}
    (unknown : scopes.local? .ordinary name scope = none) (binding position : Nat) :
    scopes.Widens (scopes.declare scope .ordinary name binding position) where
  toExtends := .declare scopes scope .ordinary name binding position
  next := next_declare _ _ _ _ _ _
  entries searched text number entry found := by
    by_cases here : scope = number
    · subst here
      unfold local? Scopes.entry? at unknown
      unfold Scopes.entry? at found ⊢
      rw [getElem?_declare, if_pos rfl]
      cases there : scopes.all[scope]? with
      | none => simp [there] at found
      | some inner =>
        simp only [there, Option.map_some, Option.map_eq_none_iff] at unknown found ⊢
        unfold entryIn? at unknown found ⊢
        have types : (scopes.declare scope .ordinary name binding position).tagsAreTypes =
          scopes.tagsAreTypes := rfl
        by_cases same : text = name
        · subst same
          cases searched <;> cases isType : scopes.tagsAreTypes <;>
            simp_all [ScopeTable.find?_declare]
        · cases searched <;>
            simp_all [ScopeTable.find?_declare, Ne.symm same]
    · unfold Scopes.entry? at found ⊢
      rw [getElem?_declare, if_neg here]
      exact found

theorem exists_offers (widens : before.Widens after) {scope binding : Nat} {path : List Nat}
    (offers : before.Offers space name scope path binding) :
    ∃ later, later.length = path.length ∧ after.Offers space name scope later binding := by
  induction path generalizing scope with
  | nil =>
    obtain ⟨entry, isEntry, bound⟩ := offers_nil.1 offers
    exact ⟨[], rfl, offers_nil.2 ⟨entry, widens.entries _ _ _ _ isEntry, bound⟩⟩
  | cons edge rest ih =>
    obtain ⟨target, isEdge, offersRest⟩ := offers_cons.1 offers
    obtain ⟨later, same, offersLater⟩ := ih offersRest
    obtain ⟨moved, isMoved⟩ :=
      List.getElem?_of_mem (widens.imports_subset scope (List.mem_of_getElem? isEdge))
    exact ⟨moved :: later, by simp [same], offers_cons.2 ⟨target, isMoved, offersLater⟩⟩

/-- A scope that has something for a use goes on to have something. -/
theorem exists_has (widens : before.Widens after) {position scope binding : Nat}
    (has : before.Has space name position scope binding) :
    ∃ found, after.Has space name position scope found := by
  rcases has with ⟨found, entry, there, isEntry, visible, -⟩ | ⟨-, path, limits, offers, -⟩
  · obtain ⟨later, isLater, grown⟩ := widens.scopes scope found there
    have isKept := widens.entries space name scope entry (by simpa [there, Scopes.entry?])
    refine ⟨entry.binding, .inl ⟨later, entry, isLater, ?_, ?_, rfl⟩⟩
    · simpa [isLater, Scopes.entry?] using isKept
    · rw [grown.kind]
      exact visible
  · obtain ⟨later, same, offersLater⟩ := widens.exists_offers offers
    have edges : later ≠ [] := by
      intro none
      rw [none] at same
      exact limits.1 (List.length_eq_zero_iff.1 same.symm)
    exact exists_has_of_offers edges (same ▸ limits.2) offersLater

end Widens

end Scopes

end CrossReference
