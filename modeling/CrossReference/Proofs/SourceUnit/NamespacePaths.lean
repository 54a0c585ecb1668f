import CrossReference.Proofs.Walk.Located
import CrossReference.Proofs.Walk.Namespaces

/-!
# Namespaces are their paths

Two bodies of namespaces have one scope if and only if the names of the namespaces around them are
the same, whether a path is written in one name or in nested blocks, and however often it is opened
again.
-/

set_option autoImplicit false

namespace CrossReference

open ParseTree

namespace Walk

open State

/-! ## What a walk leads to -/

variable (source : List Char) (language : Language) (tree : ParseTree)

/-- The moments of the walk over a tree, with the namespaces around the frames that wait. -/
abbrev LocatedIn : State → List Site → Prop :=
  Located source (State.initial (language = .cpp)) [⟨Frame.root tree, some []⟩]

/-- At some moment of the walk a frame waits that has just the namespaces of a path around it. -/
def StandsIn (path : List String) (frame : Frame) : Prop :=
  ∃ state waiting, LocatedIn source language tree state waiting ∧ ⟨frame, some path⟩ ∈ waiting

/-- An occurrence is a segment of a name of a namespace.  It stands in the namespaces of a path and
is declared in a scope. -/
def DeclaresSegment (path : List String) (text : String) (name scope : Nat) : Prop :=
  ∃ state frame outer waiting index placement,
    LocatedIn source language tree state (⟨frame, some outer⟩ :: waiting) ∧
      frame.opensNamespace = true ∧
      (frame.placements source state)[index]? = some placement ∧
      path = outer ++ (frame.tree.ownSegments.take index).map (·.text source) ∧
      text = placement.node.text source ∧
      name = state.names.size + index ∧
      scope = placement.scope

/-- Nothing but namespaces is declared under a spelling in a scope. -/
def Undisputed (text : String) (scope : Nat) : Prop :=
  ∀ visited state frame waiting kind,
    Reaches source (State.initial (language = .cpp)) [Frame.root tree] visited state
      (frame :: waiting) →
    frame.declaredKind? = some kind → kind ≠ .namespaceName →
      (visit source state frame).1.scopes.local? .ordinary text scope =
        state.scopes.local? .ordinary text scope

def IsNamespace (scope : Nat) (text : String) : Prop :=
  ∃ path name, DeclaresSegment source language tree path text name scope

variable {source language tree}

section Undisputed

variable {visited : List Frame} {state : State} {frame : Frame} {waiting : List Frame}
  (undisputed : ∀ scope text, IsNamespace source language tree scope text →
    Undisputed source language tree text scope)

include undisputed

/-- A visit leaves the names of namespaces as they are, but for those that it declares as such. -/
theorem Reaches.retains
    (moment : Reaches source (State.initial (language = .cpp)) [Frame.root tree] visited state
      (frame :: waiting)) :
    Retains (IsNamespace source language tree) state (Walk.visit source state frame).1 ∧
      (NamespacesApart (IsNamespace source language tree) state →
        NamespacesApart (IsNamespace source language tree)
          (Walk.visit source state frame).1) := by
  have edits := edits_visit source state frame
  have apart := moment.named.apart
  have members := (edits.membersApart moment.membersApart).2
  have of_same (same : ∀ scope text, IsNamespace source language tree scope text →
      (Walk.visit source state frame).1.scopes.local? .ordinary text scope =
        state.scopes.local? .ordinary text scope) := And.intro
    (Retains.mk (fun scope text binding named found => (same scope text named).trans found) members)
    fun namespaces => NamespacesApart.of_same namespaces same
  cases isKind : frame.declaredKind? with
  | none => exact of_same fun scope text _ => edits.local?_eq isKind .ordinary text scope
  | some kind =>
    by_cases isNamespace : kind = .namespaceName
    · subst isNamespace
      exact ⟨edits.retains isKind apart moment.membersApart, edits.namespacesApart isKind apart⟩
    · exact of_same fun scope text named =>
        undisputed scope text named _ _ _ _ kind moment isKind isNamespace

theorem Reaches.retains_walked
    (reached : Reaches source (State.initial (language = .cpp)) [Frame.root tree] visited state
      waiting) :
    Retains (IsNamespace source language tree) state
      (SourceUnit.walked source language tree) :=
  reached.holds_at_end (Retains (IsNamespace source language tree) state) (.refl state)
    fun _ _ _ _ moment kept => kept.trans (moment.retains undisputed).1

theorem Reaches.namespacesApart
    (reached : Reaches source (State.initial (language = .cpp)) [Frame.root tree] visited state
      waiting) : NamespacesApart (IsNamespace source language tree) state := by
  refine reached.invariant
    (fun _ state _ => NamespacesApart (IsNamespace source language tree) state) ?_
    fun _ _ _ _ moment => (moment.retains undisputed).2
  intro first second one two binding _ _ found
  exact absurd (Scopes.holdsIn_of_local? found) Scopes.not_holdsIn_initial

end Undisputed

/-- The path of a site, if it has one, leads to the scope in which its frame looks names up and
declares them. -/
def Site.IsLed (isNamespace : Nat → String → Prop) (state : State) (site : Site) : Prop :=
  ∀ path, site.path? = some path →
    Leads isNamespace state path site.frame.context.scope ∧
      site.frame.context.declareIn = site.frame.context.scope

section Located

variable {state : State} {frame : Frame} {site : Site} {outer : List String} {waiting : List Site}
  (spelled : ∀ path text name scope,
    DeclaresSegment source language tree path text name scope → text ≠ "")

include spelled

theorem Located.segments
    (moment : LocatedIn source language tree state (⟨frame, some outer⟩ :: waiting))
    (opens : frame.opensNamespace = true)
    (led : (⟨frame, some outer⟩ : Site).IsLed (IsNamespace source language tree) state) :
    (∀ next ∈ (Walk.visit source state frame).2, next.tree.field = "body" →
      Leads (IsNamespace source language tree) (Walk.visit source state frame).1
          (outer ++ frame.tree.ownSegments.map (·.text source)) next.context.scope ∧
        next.context.declareIn = next.context.scope) ∧
      ∀ (index : Nat) (placement : Placement),
        (frame.placements source state)[index]? = some placement →
          Leads (IsNamespace source language tree) (Walk.visit source state frame).1
              (outer ++ (frame.tree.ownSegments.take index).map (·.text source)) placement.scope ∧
            ∃ binding, BoundIn (Walk.visit source state frame).1 (state.names.size + index)
              placement.scope (placement.node.text source) binding := by
  obtain ⟨visited, reached⟩ := moment.reaches
  have isKind := declaredKind?_of_opensNamespace opens
  have opened : Edits source frame state _ := edits_openDeclaration state
  obtain ⟨leads, inside⟩ := led outer rfl
  have each (index : Nat) (placement : Placement)
      (placed : (frame.placements source state)[index]? = some placement) :
      placement.node.text source ≠ "" ∧
        IsNamespace source language tree placement.scope (placement.node.text source) :=
    have declares : DeclaresSegment source language tree _ _ _ _ :=
      ⟨state, frame, outer, waiting, index, placement, moment, opens, placed, rfl, rfl, rfl, rfl⟩
    ⟨spelled _ _ _ _ declares, _, _, declares⟩
  have after := visit_state_of_opensNamespace source state opens
  have bodies (next : Frame) (member : next ∈ (Walk.visit source state frame).2)
      (isBody : next.tree.field = "body") := context_of_body opens member isBody
  rw [placements_of_opensNamespace opens, inside] at each
  rw [inside] at after bodies
  rw [placements_of_opensNamespace opens, inside, after]
  have segments := leads_segments isKind
    (state.openDeclaration frame.tree.kind frame.context).2 frame.tree.ownSegments
    (Edits.tags opened reached.named.apart).apart (opened.membersApart reached.membersApart).1
    (leads.retain (opened.retains isKind reached.named.apart reached.membersApart))
    fun placement member => by
      obtain ⟨index, known, rfl⟩ := List.getElem_of_mem member
      exact each index _ (List.getElem?_eq_getElem known)
  rw [openDeclaration_names] at segments
  refine ⟨fun next member isBody => ?_, segments.2⟩
  rw [bodies next member isBody]
  exact ⟨segments.1, rfl⟩

variable (undisputed : ∀ scope text, IsNamespace source language tree scope text →
  Undisputed source language tree text scope)

include undisputed

/-- One visit: what comes out of it is led by its path, and what waits still is. -/
theorem Located.isLed_visit
    (moment : LocatedIn source language tree state (site :: waiting))
    (led : ∀ other ∈ site :: waiting, other.IsLed (IsNamespace source language tree) state) :
    ∀ other ∈ (Walk.visit source state site.frame).2.map (site.next source) ++ waiting,
      other.IsLed (IsNamespace source language tree) (Walk.visit source state site.frame).1 := by
  obtain ⟨visited, reached⟩ := moment.reaches
  have retains := (reached.retains undisputed).1
  intro other member
  rcases List.mem_append.1 member with isNext | waits
  · obtain ⟨next, isNew, rfl⟩ := List.mem_map.1 isNext
    have here := led site List.mem_cons_self
    intro path isPath
    unfold Site.next at isPath
    simp only at isPath
    split at isPath
    · rename_i passes
      obtain ⟨leads, inside⟩ := here path isPath
      obtain ⟨scope, declareIn⟩ := (visit_of_passesOn passes).2 next isNew
      simp only [Site.next]
      rw [scope, declareIn]
      exact ⟨leads.retain retains, inside⟩
    · split at isPath
      · rename_i opensBody
        obtain ⟨opens, isBody⟩ := Bool.and_eq_true_iff.1 opensBody
        obtain ⟨frame, path?⟩ := site
        obtain ⟨outer, rfl, rfl⟩ := Option.map_eq_some_iff.1 isPath
        exact (moment.segments spelled opens here).1 next isNew (of_decide_eq_true isBody)
      · cases isPath
  · intro path isPath
    obtain ⟨leads, inside⟩ := led other (List.mem_cons_of_mem _ waits) path isPath
    exact ⟨leads.retain retains, inside⟩

/-- At every moment all paths lead to the scopes of their frames. -/
theorem Located.isLed (located : LocatedIn source language tree state waiting) :
    ∀ site ∈ waiting, site.IsLed (IsNamespace source language tree) state := by
  induction located with
  | start =>
    intro site isRoot path isPath
    cases List.mem_singleton.1 isRoot
    cases isPath
    exact ⟨.file, rfl⟩
  | visit before ih => exact before.isLed_visit spelled undisputed ih

theorem StandsIn.leads {path : List String} (stands : StandsIn source language tree path frame) :
    Leads (IsNamespace source language tree) (SourceUnit.walked source language tree) path
        frame.context.scope ∧
      frame.context.declareIn = frame.context.scope := by
  obtain ⟨state, waiting, located, waits⟩ := stands
  obtain ⟨visited, reached⟩ := located.reaches
  obtain ⟨leads, inside⟩ := located.isLed spelled undisputed _ waits path rfl
  exact ⟨leads.retain (reached.retains_walked undisputed), inside⟩

theorem DeclaresSegment.leads {path : List String} {text : String} {name scope : Nat}
    (declares : DeclaresSegment source language tree path text name scope) :
    Leads (IsNamespace source language tree) (SourceUnit.walked source language tree) path scope ∧
      ∃ binding, BoundIn (SourceUnit.walked source language tree) name scope text binding := by
  have named : IsNamespace source language tree scope text := ⟨_, _, declares⟩
  obtain ⟨state, frame, outer, waiting, index, placement, moment, opens, placed, rfl, rfl, rfl,
    rfl⟩ := declares
  obtain ⟨visited, reached⟩ := moment.reaches
  have led := moment.isLed spelled undisputed _ List.mem_cons_self
  obtain ⟨leads, binding, bound⟩ := (moment.segments spelled opens led).2 index placement placed
  have later := reached.visit
  have retains := later.retains_walked undisputed
  exact ⟨leads.retain retains, binding, bound.retain named later.grows_walked retains⟩

end Located

/-! ## Trees of namespaces -/

/-- There is nothing but definitions of namespaces in a tree, and all segments of their names spell
something. -/
inductive OnlyNamespaces (source : List Char) : ParseTree → Prop where
  | list {tree : ParseTree} (form : tree.form = .transparent)
      (children : ∀ child ∈ tree.namedChildren, OnlyNamespaces source child) :
      OnlyNamespaces source tree
  | definition {tree : ParseTree} (form : tree.form = .namespaceDefinition)
      (spelled : ∀ segment ∈ tree.ownSegments, segment.text source ≠ "")
      (bodies : ∀ child ∈ tree.namedChildren, child.field ≠ "name" → child.field = "body")
      (children : ∀ child ∈ tree.namedChildren, child.field ≠ "name" →
        OnlyNamespaces source child) :
      OnlyNamespaces source tree

section OnlyNamespaces

variable {state : State}

theorem OnlyNamespaces.declaredKind? {frame : Frame} (only : OnlyNamespaces source frame.tree)
    (plain : frame.mode = .plain) {kind : SymbolKind} (isKind : frame.declaredKind? = some kind) :
    kind = .namespaceName := by
  simp only [Frame.declaredKind?, plain] at isKind
  cases only with
  | list form => simp [form, Form.declaredKind?] at isKind
  | definition form spelled bodies children => simpa [form, Form.declaredKind?] using isKind.symm

structure Site.IsNested (source : List Char) (site : Site) : Prop where
  plain : site.frame.mode = .plain
  only : OnlyNamespaces source site.frame.tree
  isLocated : site.path?.isSome = true

theorem Site.IsNested.visit {site : Site} (nested : site.IsNested source) :
    ∀ next ∈ (visit source state site.frame).2, (site.next source next).IsNested source := by
  obtain ⟨⟨tree, declaresTag, context, mode⟩, path?⟩ := site
  obtain ⟨plain, only, isLocated⟩ := nested
  simp only at plain only isLocated
  subst plain
  cases only with
  | list form children =>
    have passes : Frame.passesOn ⟨tree, declaresTag, context, .plain⟩ = true := by
      simp [Frame.passesOn, form]
    simp only [Walk.visit, visitPlain, form]
    intro next member
    obtain ⟨child, isChild, rfl⟩ := List.mem_map.1 member
    exact ⟨rfl, children child isChild, by simpa [Site.next, passes] using isLocated⟩
  | definition form spelled bodies children =>
    have opens : Frame.opensNamespace ⟨tree, declaresTag, context, .plain⟩ = true := by
      simp [Frame.opensNamespace, form]
    rw [visit_of_opensNamespace opens]
    intro next member
    obtain ⟨child, isChild, rfl⟩ := List.mem_map.1 member
    obtain ⟨isNamed, other⟩ := List.mem_filter.1 isChild
    have isBody := bodies child isNamed (of_decide_eq_true other)
    refine ⟨rfl, children child isNamed (of_decide_eq_true other), ?_⟩
    simp [Site.next, Frame.passesOn, form, opens, Frame.child, isBody, isLocated]

theorem Located.isNested (only : OnlyNamespaces source tree) {waiting : List Site}
    (located : LocatedIn source language tree state waiting) :
    ∀ site ∈ waiting, site.IsNested source := by
  induction located with
  | start =>
    intro site isRoot
    cases List.mem_singleton.1 isRoot
    exact ⟨rfl, only, rfl⟩
  | visit before ih =>
    intro site member
    rcases List.mem_append.1 member with isNext | waits
    · obtain ⟨next, isNew, rfl⟩ := List.mem_map.1 isNext
      exact (ih _ List.mem_cons_self).visit next isNew
    · exact ih site (List.mem_cons_of_mem _ waits)

theorem OnlyNamespaces.undisputed (only : OnlyNamespaces source tree) (text : String)
    (scope : Nat) : Undisputed source language tree text scope := by
  intro visited state frame waiting kind reached isKind isOther
  obtain ⟨sites, located, same⟩ := reached.located [⟨Frame.root tree, some []⟩]
  cases sites with
  | nil => cases same
  | cons site rest =>
    cases same
    have nested := located.isNested only site List.mem_cons_self
    exact absurd (nested.only.declaredKind? nested.plain isKind) isOther

theorem OnlyNamespaces.spelled (only : OnlyNamespaces source tree) {path : List String}
    {text : String} {name scope : Nat}
    (declares : DeclaresSegment source language tree path text name scope) : text ≠ "" := by
  obtain ⟨state, frame, outer, waiting, index, placement, moment, opens, placed, -, rfl, -, -⟩ :=
    declares
  have nested := moment.isNested only _ List.mem_cons_self
  have isSegment : placement.node ∈ frame.tree.ownSegments := by
    rw [placements_of_opensNamespace opens] at placed
    rw [← map_node_segmentPlacements source _ frame.tree.ownSegments]
    exact List.mem_map.2 ⟨placement, List.mem_of_getElem? placed, rfl⟩
  obtain ⟨-, form⟩ := Bool.and_eq_true_iff.1 opens
  cases nested.only with
  | list other => simp [other] at form
  | definition other spelled bodies children => exact spelled _ isSegment

theorem OnlyNamespaces.exists_standsIn (only : OnlyNamespaces source tree)
    {visited waiting : List Frame}
    (reached : Reaches source (State.initial (language = .cpp)) [Frame.root tree] visited state
      waiting) : ∀ frame ∈ waiting, ∃ path, StandsIn source language tree path frame := by
  obtain ⟨sites, located, rfl⟩ := reached.located [⟨Frame.root tree, some []⟩]
  intro frame waits
  obtain ⟨site, member, rfl⟩ := List.mem_map.1 waits
  obtain ⟨path, isPath⟩ := Option.isSome_iff_exists.1 (located.isNested only site member).isLocated
  exact ⟨path, state, sites, located, isPath ▸ member⟩

end OnlyNamespaces

end Walk

namespace SourceUnit

open Walk

/-- Namespaces are identified by their paths, as long as all segments of their names spell something
and nothing else is declared under their spelling in their scope.  Two frames that have only
namespaces around them, such as the bodies of two namespaces, look names up and declare them in one
scope if and only if their paths are the same.  Every segment is bound, to the symbol that has the
scope of the bodies for its members, and two segments are bound to one symbol if and only if they
end the same path. -/
theorem namespaces_are_their_paths (source : List Char) (language : Language)
    (withDeclarations : Bool) (tree : ParseTree)
    (spelled : ∀ path text name scope,
      DeclaresSegment source language tree path text name scope → text ≠ "")
    (undisputed : ∀ path text name scope,
      DeclaresSegment source language tree path text name scope →
        Undisputed source language tree text scope) :
    (∀ first second one two,
      StandsIn source language tree first one → StandsIn source language tree second two →
        one.context.declareIn = one.context.scope ∧
          (one.context.scope = two.context.scope ↔ first = second)) ∧
    (∀ path text name scope, DeclaresSegment source language tree path text name scope →
      ∃ binding,
        (ofTree source language withDeclarations tree).toTranslationUnit.binding? name =
          some binding ∧
        ∀ body, StandsIn source language tree (path ++ [text]) body →
          (walked source language tree).memberScope? binding = some body.context.scope) ∧
    ∀ first second one two name other scope otherScope,
      DeclaresSegment source language tree first one name scope →
      DeclaresSegment source language tree second two other otherScope →
        ((ofTree source language withDeclarations tree).toTranslationUnit.binding? name =
            (ofTree source language withDeclarations tree).toTranslationUnit.binding? other ↔
          first ++ [one] = second ++ [two]) := by
  have undisputedNames (scope : Nat) (text : String)
      (named : IsNamespace source language tree scope text) :
      Undisputed source language tree text scope := by
    obtain ⟨path, name, declares⟩ := named
    exact undisputed path text name scope declares
  obtain ⟨visited, ended⟩ :=
    exists_reaches_run source (State.initial (language = .cpp)) [Frame.root tree]
  have apart : NamespacesApart (IsNamespace source language tree) (walked source language tree) :=
    ended.namespacesApart undisputedNames
  have members : MembersApart (walked source language tree) := ended.membersApart
  have isBound {name scope binding : Nat} {text : String}
      (bound : BoundIn (walked source language tree) name scope text binding) :
      (ofTree source language withDeclarations tree).toTranslationUnit.binding? name =
        some binding := by
    obtain ⟨found, there, declares, isBinding⟩ := bound.occurrence
    exact (binding?_of_declares there declares).trans isBinding
  refine ⟨?_, ?_, ?_⟩
  · intro first second one two standsOne standsTwo
    obtain ⟨leadsOne, inside⟩ := standsOne.leads spelled undisputedNames
    obtain ⟨leadsTwo, -⟩ := standsTwo.leads spelled undisputedNames
    exact ⟨inside, leadsOne.scope_eq_iff apart members leadsTwo⟩
  · intro path text name scope declares
    obtain ⟨leads, binding, bound⟩ := declares.leads spelled undisputedNames
    refine ⟨binding, isBound bound, fun body stands => ?_⟩
    obtain ⟨outer, other, leadsOuter, found, hasMembers⟩ :=
      (stands.leads spelled undisputedNames).1.exists_outer
    rw [← leads.scope_eq leadsOuter, bound.found] at found
    rwa [← Option.some.inj found] at hasMembers
  · intro first second one two name other scope otherScope declaresOne declaresTwo
    obtain ⟨leadsOne, binding, bound⟩ := declaresOne.leads spelled undisputedNames
    obtain ⟨leadsTwo, otherBinding, otherBound⟩ := declaresTwo.leads spelled undisputedNames
    rw [isBound bound, isBound otherBound, Option.some.injEq]
    constructor
    · rintro rfl
      obtain ⟨rfl, rfl⟩ := apart _ _ _ _ _ ⟨_, _, declaresOne⟩ ⟨_, _, declaresTwo⟩ bound.found
        otherBound.found
      rw [leadsOne.path_eq apart members leadsTwo]
    · intro same
      obtain ⟨rfl, last⟩ := List.append_inj' same rfl
      cases last
      have found := bound.found
      rw [leadsOne.scope_eq leadsTwo, otherBound.found] at found
      exact (Option.some.inj found).symm

/-! ## A namespace that is written in both ways -/

def meetingText : List Char := "namespace a::b{}namespace a{namespace b{}}".toList

def compactOuter : ParseTree := ruleNode 3 "namespace_identifier" "" 10 11 []

def compactInner : ParseTree := ruleNode 4 "namespace_identifier" "" 13 14 []

def compactName : ParseTree :=
  ruleNode 2 "nested_namespace_specifier" "name" 10 14 [compactOuter, compactInner]

def compactBody : ParseTree := ruleNode 5 "declaration_list" "body" 14 16 []

def compactNamespace : ParseTree :=
  ruleNode 1 "namespace_definition" "" 0 16 [compactName, compactBody]

def blockInnerName : ParseTree := ruleNode 10 "namespace_identifier" "name" 38 39 []

def blockInnerBody : ParseTree := ruleNode 11 "declaration_list" "body" 39 41 []

def blockInner : ParseTree :=
  ruleNode 9 "namespace_definition" "" 28 41 [blockInnerName, blockInnerBody]

def blockOuterName : ParseTree := ruleNode 7 "namespace_identifier" "name" 26 27 []

def blockOuterBody : ParseTree := ruleNode 8 "declaration_list" "body" 27 42 [blockInner]

def blockOuter : ParseTree :=
  ruleNode 6 "namespace_definition" "" 16 42 [blockOuterName, blockOuterBody]

def meetingTree : ParseTree :=
  ruleNode 0 "translation_unit" "" 0 42 [compactNamespace, blockOuter]

theorem onlyNamespaces_meetingTree : OnlyNamespaces meetingText meetingTree := by
  have empty {tree : ParseTree} (form : tree.form = .transparent)
      (noChild : tree.namedChildren = []) : OnlyNamespaces meetingText tree :=
    .list form (by simp [noChild])
  have definition {tree name body : ParseTree} (form : tree.form = .namespaceDefinition)
      (parts : tree.namedChildren = [name, body]) (isName : name.field = "name")
      (isBody : body.field = "body") (only : OnlyNamespaces meetingText body)
      (spelled : ∀ segment ∈ tree.ownSegments, segment.text meetingText ≠ "") :
      OnlyNamespaces meetingText tree :=
    .definition form spelled (by simp [parts, isName, isBody]) (by simp [parts, isName, only])
  have inner : OnlyNamespaces meetingText blockInner :=
    definition (by decide) rfl rfl rfl (empty (by decide) rfl) (by decide +kernel)
  have block : OnlyNamespaces meetingText blockOuterBody :=
    .list (by decide) fun child isChild => by
      cases List.mem_singleton.1 isChild
      exact inner
  have outer : OnlyNamespaces meetingText blockOuter :=
    definition (by decide) rfl rfl rfl block (by decide +kernel)
  have compact : OnlyNamespaces meetingText compactNamespace :=
    definition (by decide) rfl rfl rfl (empty (by decide) rfl) (by decide +kernel)
  refine .list (by decide) fun child isChild => ?_
  rcases List.mem_cons.1 isChild with rfl | isLast
  · exact compact
  · cases List.mem_singleton.1 isLast
    exact outer

/-- Both ways lead to one scope and one symbol, which is another one than that of the outer
namespace. -/
theorem compact_and_nested_names_meet :
    OnlyNamespaces meetingText meetingTree ∧
      ∃ one two,
        StandsIn meetingText .cpp meetingTree ["a", "b"] one ∧ one.tree = compactBody ∧
        StandsIn meetingText .cpp meetingTree ["a", "b"] two ∧ two.tree = blockInnerBody ∧
        one.context.scope = two.context.scope ∧
        DeclaresSegment meetingText .cpp meetingTree [] "a" 0 Scopes.file ∧
        DeclaresSegment meetingText .cpp meetingTree ["a"] "b" 1 1 ∧
        DeclaresSegment meetingText .cpp meetingTree ["a"] "b" 3 1 ∧
        (ofTree meetingText .cpp true meetingTree).toTranslationUnit.binding? 1 =
          (ofTree meetingText .cpp true meetingTree).toTranslationUnit.binding? 3 ∧
        (ofTree meetingText .cpp true meetingTree).toTranslationUnit.binding? 0 ≠
          (ofTree meetingText .cpp true meetingTree).toTranslationUnit.binding? 1 := by
  have only := onlyNamespaces_meetingTree
  have begun : LocatedIn meetingText .cpp meetingTree _ _ := .start
  have listed := begun.visit_list (by decide)
  have compactPath :
      [] ++ compactNamespace.ownSegments.map (·.text meetingText) = ["a", "b"] := by decide +kernel
  have compact := listed.visit_definition (by decide) (rfl : _ = [compactName, compactBody]) rfl rfl
    compactPath
  have blockPath : [] ++ blockOuter.ownSegments.map (·.text meetingText) = ["a"] := by
    decide +kernel
  have block := (compact.visit_list (by decide)).visit_definition (by decide)
    (rfl : _ = [blockOuterName, blockOuterBody]) rfl rfl blockPath
  have blocks := block.visit_list (by decide)
  have innerPath : ["a"] ++ blockInner.ownSegments.map (·.text meetingText) = ["a", "b"] := by
    decide +kernel
  have inner := blocks.visit_definition (by decide)
    (rfl : _ = [blockInnerName, blockInnerBody]) rfl rfl innerPath
  have standsCompact : StandsIn meetingText .cpp meetingTree ["a", "b"] _ :=
    ⟨_, _, compact, List.mem_cons_self⟩
  have standsInner : StandsIn meetingText .cpp meetingTree ["a", "b"] _ :=
    ⟨_, _, inner, List.mem_cons_self⟩
  have outerDeclared : DeclaresSegment meetingText .cpp meetingTree [] "a" 0 Scopes.file :=
    ⟨_, _, _, _, 0, _, listed, by decide, rfl, by decide +kernel, by decide +kernel, rfl, rfl⟩
  have compactDeclared : DeclaresSegment meetingText .cpp meetingTree ["a"] "b" 1 1 :=
    ⟨_, _, _, _, 1, _, listed, by decide, rfl, by decide +kernel, by decide +kernel, rfl, rfl⟩
  have innerDeclared : DeclaresSegment meetingText .cpp meetingTree ["a"] "b" 3 1 :=
    ⟨_, _, _, _, 0, _, blocks, by decide, rfl, by decide +kernel, by decide +kernel,
      by decide +kernel, by decide +kernel⟩
  obtain ⟨scopes, -, bindings⟩ := namespaces_are_their_paths meetingText .cpp true meetingTree
    (fun _ _ _ _ declares => only.spelled declares)
    fun _ text _ scope _ => only.undisputed text scope
  refine ⟨only, _, _, standsCompact, rfl, standsInner, rfl,
    ((scopes _ _ _ _ standsCompact standsInner).2).2 rfl, outerDeclared, compactDeclared,
    innerDeclared, (bindings _ _ _ _ _ _ _ _ compactDeclared innerDeclared).2 rfl, ?_⟩
  intro same
  have paths := (bindings _ _ _ _ _ _ _ _ outerDeclared compactDeclared).1 same
  cases paths

end SourceUnit

end CrossReference
