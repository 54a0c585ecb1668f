import CrossReference.Proofs.ParseTree.Descent
import CrossReference.Proofs.Scope.Outwards
import CrossReference.Proofs.Walk.OwnerScope
import CrossReference.Proofs.Walk.Sees

/-!
# The graph of scopes

Of the scopes of a file each is made after the one around it, and takes names from other scopes only
after the walk, when uses are bound.  What it takes names from are bodies of classes and namespaces.
So a search outwards comes to an end wherever it starts, and what is declared behind a qualifier
during the walk is never taken from elsewhere.
-/

set_option autoImplicit false

namespace CrossReference

open Relation

namespace Scopes

def IsBody (scopes : Scopes) (scope : Nat) : Prop :=
  ∃ found, scopes.all[scope]? = some found ∧
    (found.kind = .classBody ∨ found.kind = .namespaceBody)

def TakesNone (scopes : Scopes) : Prop :=
  ∀ (scope : Nat) (found : Scope), scopes.all[scope]? = some found →
    found.bases = [] ∧ found.usings = []

/-- Scopes are made after the ones around them, and take names from bodies other than themselves,
from each once as from a base and once as from a namespace that is used. -/
structure Sound (scopes : Scopes) : Prop where
  nested : scopes.Nested
  leads : ∀ (scope : Nat) (found : Scope), scopes.all[scope]? = some found →
    ∀ target ∈ found.bases ++ found.usings, target ≠ scope ∧ scopes.IsBody target
  once : ∀ (scope : Nat) (found : Scope), scopes.all[scope]? = some found →
    found.bases.Nodup ∧ found.usings.Nodup

section Sound

variable {scopes before after : Scopes}

theorem IsBody.of_extends {scope : Nat} (body : before.IsBody scope)
    (grown : before.Extends after) : after.IsBody scope := by
  obtain ⟨found, there, isBody⟩ := body
  obtain ⟨later, isLater, extended⟩ := grown.scopes scope found there
  exact ⟨later, isLater, extended.kind ▸ isBody⟩

theorem TakesNone.sound (none : scopes.TakesNone) (nested : scopes.Nested) : scopes.Sound where
  nested := nested
  leads scope found there target isTarget := by
    obtain ⟨bases, usings⟩ := none scope found there
    simp [bases, usings] at isTarget
  once scope found there := by
    obtain ⟨bases, usings⟩ := none scope found there
    simp [bases, usings]

theorem mem_addEdge {scope target other : Nat} {edges : List Nat}
    (member : other ∈ addEdge scope target edges) :
    other ∈ edges ∨ other = target ∧ target ≠ scope := by
  unfold addEdge at member
  split at member
  · exact .inl member
  · rename_i new
    refine (List.mem_append.1 member).imp_right fun isTarget => ?_
    exact ⟨List.mem_singleton.1 isTarget, fun same => new (.inl same.symm)⟩

theorem nodup_addEdge {edges : List Nat} (once : edges.Nodup) (scope target : Nat) :
    (addEdge scope target edges).Nodup := by
  unfold addEdge
  split
  · exact once
  · rename_i new
    exact once.append (List.nodup_singleton target)
      (List.disjoint_singleton.2 fun member => new (.inr member))

/-- A change of one scope is sound if that leads only to bodies afterwards. -/
theorem Sound.modify (sound : scopes.Sound) {scope : Nat} {change : Scope → Scope}
    (grown : scopes.Extends { scopes with all := scopes.all.modify scope change })
    (parent : ∀ found, (change found).parent = found.parent)
    (leads : ∀ found, scopes.all[scope]? = some found →
      ∀ target ∈ (change found).bases ++ (change found).usings,
        target ∈ found.bases ++ found.usings ∨ target ≠ scope ∧ scopes.IsBody target)
    (once : ∀ found : Scope, found.bases.Nodup ∧ found.usings.Nodup →
      (change found).bases.Nodup ∧ (change found).usings.Nodup) :
    Sound { scopes with all := scopes.all.modify scope change } := by
  have known {number : Nat} {found : Scope}
      (there : (scopes.all.modify scope change)[number]? = some found) :
      ∃ old, scopes.all[number]? = some old ∧
        (found = old ∨ number = scope ∧ found = change old) := by
    rw [Array.getElem?_modify] at there
    split at there
    · rename_i same
      obtain ⟨old, isOld, rfl⟩ := Option.map_eq_some_iff.1 there
      exact ⟨old, isOld, .inr ⟨same.symm, rfl⟩⟩
    · exact ⟨found, there, .inl rfl⟩
  refine ⟨sound.nested.modify parent, fun number found there => ?_,
    fun number found there => ?_⟩
  · obtain ⟨old, isOld, rfl | ⟨rfl, rfl⟩⟩ := known there
    · intro target isTarget
      exact (sound.leads number found isOld target isTarget).imp_right fun body =>
        body.of_extends grown
    · intro target isTarget
      rcases leads old isOld target isTarget with was | new
      · exact (sound.leads number old isOld target was).imp_right fun body =>
          body.of_extends grown
      · exact new.imp_right fun body => body.of_extends grown
  · obtain ⟨old, isOld, rfl | ⟨-, rfl⟩⟩ := known there
    · exact sound.once number found isOld
    · exact once old (sound.once number old isOld)

theorem Sound.addBase (sound : scopes.Sound) (derived : Nat) {base : Nat}
    (body : scopes.IsBody base) : (scopes.addBase derived base).Sound := by
  refine sound.modify (.addBase scopes derived base) (fun _ => rfl)
    (fun found _ target isTarget => ?_) fun found once => ⟨nodup_addEdge once.1 derived base, once.2⟩
  rcases List.mem_append.1 isTarget with isBase | isUsing
  · refine (mem_addEdge isBase).imp (List.mem_append_left _) ?_
    rintro ⟨rfl, other⟩
    exact ⟨other, body⟩
  · exact .inl (List.mem_append_right _ isUsing)

theorem Sound.addUsing (sound : scopes.Sound) (into : Nat) {used : Nat}
    (body : scopes.IsBody used) : (scopes.addUsing into used).Sound := by
  refine sound.modify (.addUsing scopes into used) (fun _ => rfl)
    (fun found _ target isTarget => ?_) fun found once => ⟨once.1, nodup_addEdge once.2 into used⟩
  rcases List.mem_append.1 isTarget with isBase | isUsing
  · exact .inl (List.mem_append_left _ isBase)
  · refine (mem_addEdge isUsing).imp (List.mem_append_right _) ?_
    rintro ⟨rfl, other⟩
    exact ⟨other, body⟩

theorem Sound.declare (sound : scopes.Sound) (scope : Nat) (space : NameSpace) (name : String)
    (binding position : Nat) : (scopes.declare scope space name binding position).Sound := by
  refine sound.modify (.declare scopes scope space name binding position) (fun found => ?_)
    (fun found _ target isTarget => .inl ?_) fun found once => ?_
  · cases space <;> rfl
  · cases space <;> exact isTarget
  · cases space <;> exact once

end Sound

/-! ## Changes during a walk -/

/-- What a walk does to scopes: it makes one or declares a name. -/
inductive Change (scopes : Scopes) : Scopes → Prop where
  | push (kind : ScopeKind) (parent : Nat) : Change scopes (scopes.push kind (some parent))
  | declare (scope : Nat) (space : NameSpace) (name : String) (binding position : Nat) :
      Change scopes (scopes.declare scope space name binding position)

abbrev Changes : Scopes → Scopes → Prop := ReflTransGen Change

section Changes

variable {before after : Scopes}

theorem Changes.extends (changes : Changes before after) : before.Extends after := by
  induction changes with
  | refl => exact .refl before
  | tail _ last ih =>
    refine ih.trans ?_
    cases last with
    | push kind parent => exact .push _ kind (some parent)
    | declare scope space name binding position => exact .declare _ scope space name binding position

theorem Change.takesNone (change : Change before after) (none : before.TakesNone) :
    after.TakesNone := by
  intro scope found there
  cases change with
  | push kind parent =>
    rw [Scopes.push, Array.getElem?_push] at there
    split at there
    · cases there
      exact ⟨rfl, rfl⟩
    · exact none scope found there
  | declare into space name binding position =>
    rw [getElem?_declare] at there
    split at there
    · obtain ⟨old, isOld, rfl⟩ := Option.map_eq_some_iff.1 there
      cases space <;> exact none scope old isOld
    · exact none scope found there

theorem Changes.takesNone (changes : Changes before after) (none : before.TakesNone) :
    after.TakesNone := by
  induction changes with
  | refl => exact none
  | tail _ last ih => exact last.takesNone ih

theorem Extends.nested_before (grown : before.Extends after) (nested : after.Nested) :
    before.Nested := by
  intro inner found parent there isParent
  obtain ⟨later, isLater, extended⟩ := grown.scopes inner found there
  exact nested inner later parent isLater (extended.parent.trans isParent)

end Changes

end Scopes

namespace Walk

open ParseTree State

section Edits

variable {source : List Char} {frame : Frame} {before after : State}

theorem State.Declares.changes {tree : ParseTree} {kind : SymbolKind} {result : Option Nat}
    (declares : Declares source tree kind result before after) :
    Scopes.Changes before.scopes after.scopes := by
  obtain ⟨-, scopes, -⟩ | ⟨scope, existing, -, settles⟩ := declares.symbol
  · rw [scopes]
  · rw [settles.scopes]
    split
    · exact .refl
    · exact .single (.declare _ _ _ _ _)

theorem Edit.changes (edit : Edit source frame before after) :
    Scopes.Changes before.scopes after.scopes := by
  have same (scopes : after.scopes = before.scopes) :
      Scopes.Changes before.scopes after.scopes := by rw [scopes]
  cases edit with
  | opened => exact same (by simp)
  | noted notes => exact same notes.scopes
  | declared isKind declares => exact declares.changes
  | shared scope isEnumerator declares =>
    exact declares.changes.tail (Scopes.Change.declare scope .ordinary _ _ _)
  | pushed kind parent => exact .single (.push _ _)
  | entered binding kind parent =>
    obtain scopes | scopes := openMembers_scopes before binding kind parent
    · exact same scopes
    · rw [scopes]
      exact .single (.push _ _)
  | defined isDirective isKind defines => exact same defines.scopes
  | specified | awaited | accessed | revoked => exact .refl

theorem visit_changes (source : List Char) (state : State) (frame : Frame) :
    Scopes.Changes state.scopes (visit source state frame).1.scopes := by
  have edits := edits_visit source state frame
  generalize (visit source state frame).1 = later at edits
  induction edits with
  | refl => exact .refl
  | tail _ last ih => exact ih.trans last.changes

end Edits

/-! ## Scopes that come about -/

/-- A walk over a tree has scopes between two changes that a visit makes. -/
structure WalksWith (source : List Char) (language : Language) (tree : ParseTree)
    (scopes : Scopes) : Prop where
  during : ∃ visited waiting state frame,
    Reaches source (State.initial (language = .cpp)) [Frame.root tree] visited state
        (frame :: waiting) ∧
      Scopes.Changes state.scopes scopes ∧
      Scopes.Changes scopes (visit source state frame).1.scopes

/-- Scopes come about while a file is read: in the walk, after some of the uses have been bound, or
in the end. -/
inductive ComesAbout (source : List Char) (language : Language) (tree : ParseTree) :
    Scopes → Prop where
  | walking {scopes : Scopes} (walks : WalksWith source language tree scopes) :
      ComesAbout source language tree scopes
  | binding {done rest : List PendingUse}
      (split : (SourceUnit.walked source language tree).usesInOrder = done ++ rest) :
      ComesAbout source language tree
        (done.foldl resolveUse (SourceUnit.walked source language tree)).scopes
  | resolved : ComesAbout source language tree (SourceUnit.walked source language tree).resolve.scopes

section Walks

variable {source : List Char} {language : Language} {tree : ParseTree}

theorem Reaches.takesNone {visited waiting : List Frame} {state : State}
    (reached : Reaches source (State.initial (language = .cpp)) [Frame.root tree] visited state
      waiting) : state.scopes.TakesNone :=
  reached.named.apart.alone

theorem Reaches.walksWith {visited waiting : List Frame} {state : State} {frame : Frame}
    (reached : Reaches source (State.initial (language = .cpp)) [Frame.root tree] visited state
      (frame :: waiting)) : WalksWith source language tree state.scopes :=
  ⟨visited, waiting, state, frame, reached, .refl, visit_changes source state frame⟩

theorem WalksWith.takesNone {scopes : Scopes} (walks : WalksWith source language tree scopes) :
    scopes.TakesNone := by
  obtain ⟨visited, waiting, state, frame, moment, begun, -⟩ := walks.during
  exact begun.takesNone moment.takesNone

theorem WalksWith.sound {scopes : Scopes} (walks : WalksWith source language tree scopes) :
    scopes.Sound := by
  refine walks.takesNone.sound ?_
  obtain ⟨visited, waiting, state, frame, moment, -, ended⟩ := walks.during
  exact ended.extends.nested_before moment.visit.nested

/-! ## Scopes while uses are bound -/

/-- While uses are bound, symbols stay as they are and scopes keep what they have. -/
structure KeepsSound (walked current : State) : Prop where
  symbols : current.symbols = walked.symbols
  grown : walked.scopes.Extends current.scopes
  sound : current.scopes.Sound

variable {walked current : State}

theorem KeepsSound.of_same {later : State} (binds : KeepsSound walked current)
    (symbols : later.symbols = current.symbols) (scopes : later.scopes = current.scopes) :
    KeepsSound walked later :=
  ⟨symbols.trans binds.symbols, scopes ▸ binds.grown, scopes ▸ binds.sound⟩

theorem KeepsSound.isBody (binds : KeepsSound walked current) (bodies : MembersInBodies walked)
    (untyped : ∀ binding, walked.typeScope? binding = none) {binding scope : Nat}
    (found : current.scope? binding = some scope) : current.scopes.IsBody scope := by
  have isMembers : walked.memberScope? binding = some scope := by
    have none := untyped binding
    rw [scope?, binds.symbols] at found
    unfold typeScope? at none
    unfold memberScope?
    cases there : walked.symbols[binding]? with
    | none => simp [there] at found
    | some symbol =>
      simp only [there] at found none
      simpa [Symbol.scope?, none] using found
  exact Scopes.IsBody.of_extends (bodies binding scope isMembers) binds.grown

theorem KeepsSound.applyEffect (binds : KeepsSound walked current) (bodies : MembersInBodies walked)
    (untyped : ∀ binding, walked.typeScope? binding = none) (binding : Nat) (effect : Effect) :
    KeepsSound walked (current.applyEffect binding effect) := by
  unfold State.applyEffect
  cases effect with
  | none => exact binds
  | usingNamespace into =>
    simp only
    split
    · rename_i used found
      have body := binds.isBody bodies untyped found
      exact ⟨binds.symbols, binds.grown.trans (.addUsing _ into used), binds.sound.addUsing into body⟩
    · exact binds
  | base derived =>
    simp only
    split
    · rename_i base found
      have body := binds.isBody bodies untyped found
      exact ⟨binds.symbols, binds.grown.trans (.addBase _ derived base),
        binds.sound.addBase derived body⟩
    · exact binds
  | usingDeclaration into position =>
    simp only
    split
    · split
      · exact binds
      · exact ⟨binds.symbols, binds.grown.trans (.declare _ into .ordinary _ _ _),
          binds.sound.declare into .ordinary _ _ _⟩
    · exact binds

theorem KeepsSound.resolveUse (binds : KeepsSound walked current) (bodies : MembersInBodies walked)
    (untyped : ∀ binding, walked.typeScope? binding = none) (use : PendingUse) :
    KeepsSound walked (current.resolveUse use) := by
  have bound : KeepsSound walked (bindSegments use use.names
      (if use.isGlobal then some Scopes.file else none) true current).1 := by
    rw [bindSegments_eq]
    obtain ⟨scopes, -, symbols⟩ := bindAll_quiet current (current.segmentBindings use use.names
      (if use.isGlobal then some Scopes.file else none) true)
    exact binds.of_same symbols scopes
  unfold State.resolveUse
  simp only
  split
  · exact bound.applyEffect bodies untyped _ _
  · exact bound

theorem foldl_resolveUse_sound (uses : List PendingUse) :
    (uses.foldl resolveUse (SourceUnit.walked source language tree)).scopes.Sound := by
  obtain ⟨_, ended⟩ := exists_reaches_run source (State.initial (language = .cpp)) [Frame.root tree]
  have begun : KeepsSound (SourceUnit.walked source language tree)
      (SourceUnit.walked source language tree) :=
    ⟨rfl, .refl _, ended.takesNone.sound ended.nested⟩
  exact (List.foldlRecOn (motive := KeepsSound (SourceUnit.walked source language tree)) uses _ begun
    fun _ binds use _ => binds.resolveUse ended.membersInBodies
      (walked_typeScope? source language tree) use).sound

theorem ComesAbout.sound {scopes : Scopes} (comes : ComesAbout source language tree scopes) :
    scopes.Sound := by
  cases comes with
  | walking walks => exact walks.sound
  | binding split => exact foldl_resolveUse_sound _
  | resolved =>
    rw [resolve_scopes]
    exact foldl_resolveUse_sound _

end Walks

/-! ## Declarations behind qualifiers -/

end Walk

end CrossReference
