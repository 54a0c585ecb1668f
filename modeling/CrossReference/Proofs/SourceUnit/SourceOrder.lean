import CrossReference.Proofs.SourceUnit.Locations
import CrossReference.Proofs.Walk.Inside
import CrossReference.Proofs.Walk.PartOrder

/-!
# The order of names and that of the source

The names of a spelling are listed in the order in which the walk met them.  In a well-formed tree
this is the order in which they stand in the source, but for the nodes that a visit takes ahead: the
last segment of `S<V>::V` is named with the first one, and the template arguments between them
later.
-/

set_option autoImplicit false

namespace CrossReference

open ParseTree

namespace Walk

variable {source : List Char} {language : Language} {tree node other : ParseTree}

/-! ## Nodes that are taken ahead -/

/-- A node is taken ahead of another one that stands before it: the visit of a qualified name or of
the head of a definition makes two parts in the order that is not theirs in the source, and the
nodes lie below these. -/
inductive TakenAhead (source : List Char) (language : Language) (tree node other : ParseTree) :
    Prop where
  | parts {frame : Frame} {parts : List ParseTree} {first second : ParseTree}
      (made : MakesParts source (State.initial (language = .cpp)) [Frame.root tree] frame parts)
      (ahead : frame.namesAhead = true) (order : [first, second].Sublist parts)
      (reversed : second.stop ≤ first.start) (below : Within node first)
      (otherBelow : Within other second) : TakenAhead source language tree node other

theorem MakesParts.wellFormed {start : State} {frame : Frame} {parts : List ParseTree}
    (made : MakesParts source start [Frame.root tree] frame parts)
    (wellFormed : WellFormed source tree) : WellFormed source frame.tree := by
  cases made with
  | visit reached adds splits =>
    obtain ⟨first, isFirst, within⟩ := reached.exists_within frame List.mem_cons_self
    rw [List.mem_singleton] at isFirst
    subst isFirst
    exact wellFormed.of_within within

theorem TakenAhead.stop_le_start (taken : TakenAhead source language tree node other)
    (wellFormed : WellFormed source tree) : other.stop ≤ node.start := by
  obtain ⟨made, -, order, reversed, below, otherBelow⟩ := taken
  have frameFormed := made.wellFormed wellFormed
  have lies := (standApart_of_splitsInto made.splitsInto).within
  have span := (frameFormed.of_within (lies _ (order.subset (by simp)))).span_le below
  have otherSpan := (frameFormed.of_within (lies _ (order.subset (by simp)))).span_le otherBelow
  omega

/-- The segments of a qualified name are taken ahead of all that stands before them in what is set
apart, such as the template arguments of the segments in front. -/
theorem takenAhead_of_qualified {visited waiting : List Frame} {state : State} {frame : Frame}
    (reached : Reaches source (State.initial (language = .cpp)) [Frame.root tree] visited state
      (frame :: waiting)) (ahead : frame.namesAhead = true)
    (qualified : isQualified frame.tree.kind = true) {segment extra : ParseTree}
    (isSegment : segment ∈ (QualifiedName.ofTree frame.tree).segments)
    (isExtra : extra ∈ (QualifiedName.ofTree frame.tree).extras)
    (before : extra.stop ≤ segment.start) (lies : Within other extra) :
    TakenAhead source language tree segment other := by
  obtain ⟨adds, left⟩ := visit_of_qualified source state ahead qualified
  have isParts : partsOf (QualifiedName.ofTree frame.tree).segments (visit source state frame) =
      (QualifiedName.ofTree frame.tree).segments ++ (QualifiedName.ofTree frame.tree).extras := by
    rw [partsOf, left]
  have made := MakesParts.visit reached adds
    (isParts ▸ QualifiedName.splitsInto_ofTree frame.tree)
  rw [isParts] at made
  have order : [segment, extra].Sublist
      ((QualifiedName.ofTree frame.tree).segments ++ (QualifiedName.ofTree frame.tree).extras) :=
    (List.singleton_sublist.2 isSegment).append (List.singleton_sublist.2 isExtra)
  exact ⟨made, ahead, order, before, .root segment, lies⟩

theorem PartAt.takenAhead
    (parted : PartAt source (State.initial (language = .cpp)) [Frame.root tree] node other)
    (wellFormed : WellFormed source tree) (covers : node.start < node.stop)
    (reversed : other.stop ≤ node.start) (otherCovers : other.start < other.stop) :
    TakenAhead source language tree node other := by
  obtain @⟨frame, parts, first, second, made, calm, order, below, otherBelow⟩ := parted
  have frameFormed := made.wellFormed wellFormed
  have apart := standApart_of_splitsInto made.splitsInto
  have span := (frameFormed.of_within (apart.within first (order.subset (by simp)))).span_le below
  have otherSpan :=
    (frameFormed.of_within (apart.within second (order.subset (by simp)))).span_le otherBelow
  have notInOrder : ¬ first.stop ≤ second.start := by omega
  have ahead : frame.namesAhead = true := by
    rw [← Bool.not_eq_false]
    exact fun inOrder => notInOrder ((calm inOrder).stop_le_start frameFormed order)
  have disjoint := List.rel_of_pairwise_cons
    ((apart.pairwise_disjoint frameFormed).sublist order) (List.mem_singleton_self second)
  exact ⟨made, ahead, order, disjoint.resolve_left notInOrder, below, otherBelow⟩

namespace State

variable {location otherLocation : Location}

theorem offset_lt_of_stop_le (boundaries : OnBoundaries source tree) (lies : Within node tree)
    (located : locationOf source node = some location)
    (otherLocated : locationOf source other = some otherLocation)
    (before : node.stop ≤ other.start) : location.offset < otherLocation.offset := by
  obtain ⟨first, last⟩ := boundaries node lies
  have nonempty := (spells_of_locationOf first last located).1
  obtain ⟨-, rfl⟩ := locationOf_eq_some located
  obtain ⟨-, rfl⟩ := locationOf_eq_some otherLocated
  have ordered := Text.charactersBefore_mono source before
  simp only at nonempty ⊢
  omega

end State

/-- A node that is named before another one has a smaller offset, unless it is taken ahead. -/
theorem PartAt.offset_lt_iff
    (parted : PartAt source (State.initial (language = .cpp)) [Frame.root tree] node other)
    (wellFormed : WellFormed source tree) (lies : Within node tree) (otherLies : Within other tree)
    (apart : node.stop ≤ other.start ∨ other.stop ≤ node.start) {location otherLocation : Location}
    (located : State.locationOf source node = some location)
    (otherLocated : State.locationOf source other = some otherLocation) :
    location.offset ≠ otherLocation.offset ∧
      (otherLocation.offset < location.offset ↔ TakenAhead source language tree node other) := by
  have covers := (State.locationOf_eq_some located).1
  have otherCovers := (State.locationOf_eq_some otherLocated).1
  rcases apart with before | behind
  · have ordered :=
      State.offset_lt_of_stop_le wellFormed.boundaries lies located otherLocated before
    refine ⟨Nat.ne_of_lt ordered, fun reversed => absurd reversed (Nat.lt_asymm ordered), ?_⟩
    intro taken
    have reversed := taken.stop_le_start wellFormed
    omega
  · have ordered :=
      State.offset_lt_of_stop_le wellFormed.boundaries otherLies otherLocated located behind
    exact ⟨Nat.ne_of_gt ordered,
      fun _ => parted.takenAhead wellFormed covers behind otherCovers, fun _ => ordered⟩

end Walk

open Walk

namespace SourceUnit

variable {source : List Char}

/-! ## The offsets of a spelling -/

def offset? (unit : SourceUnit) (name : Nat) : Option Nat :=
  unit.names[name]?.bind fun found => found.location.map Location.offset

def offsetsSpelled (unit : SourceUnit) (text : String) : List Nat :=
  (unit.namesSpelled text).filterMap unit.offset?

def offsetSpelled? (text : String) (place : String × Option Location) : Option Nat :=
  if place.1 = text then place.2.map Location.offset else none

theorem offsetSpelled?_placeOf {text : String} {node : ParseTree} {offset : Nat} :
    offsetSpelled? text (placeOf source node) = some offset ↔
      node.text source = text ∧
        ∃ location, State.locationOf source node = some location ∧ location.offset = offset := by
  rw [offsetSpelled?, Option.ite_none_right_eq_some, Option.map_eq_some_iff]
  rfl

theorem filterMap_range_getElem? {α β : Type} (items : List α) (value? : α → Option β) :
    (List.range items.length).filterMap (fun number => items[number]?.bind value?) =
      items.filterMap value? := by
  induction items with
  | nil => rfl
  | cons item rest ih =>
    rw [List.length_cons, List.range_succ_eq_map, List.filterMap_cons, List.filterMap_map,
      List.filterMap_cons]
    simp only [Function.comp_def, List.getElem?_cons_zero, List.getElem?_cons_succ, ih]
    rfl

theorem offsetsSpelled_eq (unit : SourceUnit) (text : String) :
    unit.offsetsSpelled text =
      (unit.names.toList.map NameNode.place).filterMap (offsetSpelled? text) := by
  rw [List.filterMap_map, ← filterMap_range_getElem?, offsetsSpelled, namesSpelled,
    List.filterMap_filter]
  apply List.filterMap_congr
  intro name _
  simp only [offset?, Array.getElem?_toList]
  cases unit.names[name]? with
  | none => rfl
  | some found =>
    by_cases spelled : found.text = text <;> simp [offsetSpelled?, NameNode.place, spelled]

/-- Where it is told of each pair of nodes whether their offsets are the other way round, the
offsets of a spelling increase if and only if no pair of that spelling is so. -/
theorem pairwise_offsetsSpelled_iff {unit : SourceUnit} {nodes : List ParseTree}
    {reversed : ParseTree → ParseTree → Prop}
    (places : unit.names.toList.map NameNode.place = nodes.map (placeOf source))
    (pairs : nodes.Pairwise fun node other => ∀ location otherLocation,
      State.locationOf source node = some location →
      State.locationOf source other = some otherLocation →
        location.offset ≠ otherLocation.offset ∧
          (otherLocation.offset < location.offset ↔ reversed node other)) (text : String) :
    (unit.offsetsSpelled text).Pairwise (· < ·) ↔
      ∀ node other, [node, other].Sublist nodes →
        node.text source = text → (State.locationOf source node).isSome →
        other.text source = text → (State.locationOf source other).isSome →
          ¬ reversed node other := by
  rw [List.pairwise_iff_forall_sublist] at pairs
  rw [offsetsSpelled_eq, places, List.filterMap_map, List.pairwise_filterMap,
    List.pairwise_iff_forall_sublist]
  simp only [Function.comp_apply, offsetSpelled?_placeOf]
  constructor
  · intro increasing node other order spelled located otherSpelled otherLocated isReversed
    obtain ⟨location, located⟩ := Option.isSome_iff_exists.1 located
    obtain ⟨otherLocation, otherLocated⟩ := Option.isSome_iff_exists.1 otherLocated
    have before := increasing order _ ⟨spelled, location, located, rfl⟩ _
      ⟨otherSpelled, otherLocation, otherLocated, rfl⟩
    have behind := (pairs order _ _ located otherLocated).2.2 isReversed
    exact Nat.lt_asymm before behind
  · rintro none node other order _ ⟨spelled, location, located, rfl⟩ _
      ⟨otherSpelled, otherLocation, otherLocated, rfl⟩
    obtain ⟨different, behind⟩ := pairs order _ _ located otherLocated
    have kept : ¬ otherLocation.offset < location.offset := fun isBehind =>
      none node other order spelled (by simp [located]) otherSpelled (by simp [otherLocated])
        (behind.1 isBehind)
    omega

/-- The names of a spelling stand in the source in the order in which they are listed, if and only
if none of them is taken ahead of one that is listed after it.  The segments of a qualified name are
taken ahead of what stands in the template arguments before them. -/
theorem spelled_names_in_source_order_iff (source : List Char) (language : Language)
    (withDeclarations : Bool) (tree : ParseTree) (wellFormed : WellFormed source tree) :
    (∃ nodes, StandApart tree nodes ∧
      (walked source language tree).nameOfNode = (nodes.map ParseTree.id).zipIdx.reverse ∧
      (ofTree source language withDeclarations tree).names.toList.map NameNode.place =
        nodes.map (placeOf source) ∧
      (nodes.Pairwise fun node other => ∀ location otherLocation,
        State.locationOf source node = some location →
        State.locationOf source other = some otherLocation →
          location.offset ≠ otherLocation.offset ∧
            (otherLocation.offset < location.offset ↔
              TakenAhead source language tree node other)) ∧
      ∀ text,
        ((ofTree source language withDeclarations tree).offsetsSpelled text).Pairwise (· < ·) ↔
          ∀ node other, [node, other].Sublist nodes →
            node.text source = text → (State.locationOf source node).isSome →
            other.text source = text → (State.locationOf source other).isSome →
              ¬ TakenAhead source language tree node other) ∧
    ∀ visited state frame waiting,
      Reaches source (State.initial (language = .cpp)) [Frame.root tree] visited state
        (frame :: waiting) → frame.namesAhead = true → isQualified frame.tree.kind = true →
      ∀ segment ∈ (QualifiedName.ofTree frame.tree).segments,
      ∀ extra ∈ (QualifiedName.ofTree frame.tree).extras, extra.stop ≤ segment.start →
      ∀ other, Within other extra → TakenAhead source language tree segment other := by
  refine ⟨?_, fun visited state frame waiting reached ahead qualified segment isSegment extra
    isExtra before other lies =>
      takenAhead_of_qualified reached ahead qualified isSegment isExtra before lies⟩
  obtain ⟨visited, reached⟩ := exists_reaches_run source (State.initial (language = .cpp))
    [Frame.root tree]
  obtain ⟨nodes, adds, splits, parted⟩ := reached.exists_nodes_parted
  rw [List.map_nil, List.append_nil] at splits parted
  have apart := standApart_of_splitsInto splits
  have places : (ofTree source language withDeclarations tree).names.toList.map NameNode.place =
      nodes.map (placeOf source) :=
    (walked_rebinds source language tree).places.trans adds.places
  have pairs : nodes.Pairwise fun node other => ∀ location otherLocation,
      State.locationOf source node = some location →
      State.locationOf source other = some otherLocation →
        location.offset ≠ otherLocation.offset ∧
          (otherLocation.offset < location.offset ↔
            TakenAhead source language tree node other) := by
    refine (parted.and (apart.pairwise_disjoint wellFormed)).imp_of_mem ?_
    rintro node other isNode isOther ⟨partAt, disjoint⟩ location otherLocation located otherLocated
    exact partAt.offset_lt_iff wellFormed (apart.within node isNode) (apart.within other isOther)
      disjoint located otherLocated
  exact ⟨nodes, apart, adds.nodeIds.trans (List.append_nil _), places, pairs,
    pairwise_offsetsSpelled_iff places pairs⟩

/-! ### A member with the name of a template argument -/

/-- A class whose name is also that of a member of a template, and a variable of the type that this
member is when the class is its argument. -/
def aheadText : List Char :=
  ("struct V {};\ntemplate <class T> struct S { typedef int V; };\n" ++ "S<V>::V x;\n").toList

def aheadName : ParseTree :=
  ruleNode 15 "qualified_identifier" "type" 61 68
    [ruleNode 16 "template_type" "scope" 61 65
      [ruleNode 17 "type_identifier" "name" 61 62 [],
        ruleNode 18 "template_argument_list" "arguments" 62 65
          [ruleNode 19 "type_descriptor" "" 63 64 [ruleNode 20 "type_identifier" "type" 63 64 []]]],
      ruleNode 21 "type_identifier" "name" 67 68 []]

def aheadTree : ParseTree :=
  ruleNode 0 "translation_unit" "" 0 72
    [ruleNode 1 "struct_specifier" "" 0 11
      [ruleNode 2 "type_identifier" "name" 7 8 [],
        ruleNode 3 "field_declaration_list" "body" 9 11 []],
      ruleNode 4 "template_declaration" "" 13 60
        [ruleNode 5 "template_parameter_list" "parameters" 22 31
          [ruleNode 6 "type_parameter_declaration" "" 23 30
            [ruleNode 7 "type_identifier" "" 29 30 []]],
          ruleNode 8 "struct_specifier" "" 32 59
            [ruleNode 9 "type_identifier" "name" 39 40 [],
              ruleNode 10 "field_declaration_list" "body" 41 59
                [ruleNode 11 "type_definition" "" 43 57
                  [ruleNode 12 "primitive_type" "type" 51 54 [],
                    ruleNode 13 "type_identifier" "declarator" 55 56 []]]]],
      ruleNode 14 "declaration" "" 61 71
        [aheadName, ruleNode 22 "identifier" "declarator" 69 70 []]]

/-- The member behind the template is listed before the class that is the argument. -/
theorem member_of_template_is_taken_ahead :
    WellFormed aheadText aheadTree ∧
      (ofTree aheadText .cpp false aheadTree).offsetsSpelled "V" = [7, 55, 67, 63] ∧
      (ofTree aheadText .cpp false aheadTree).offsetsSpelled "S" = [39, 61] ∧
      ∃ node other, node.text aheadText = "V" ∧ other.text aheadText = "V" ∧
        State.locationOf aheadText node = some ⟨67, 1⟩ ∧
        State.locationOf aheadText other = some ⟨63, 1⟩ ∧
        TakenAhead aheadText .cpp aheadTree node other := by
  have wellFormed : WellFormed aheadText aheadTree := by decide +kernel
  have isListed : (ofTree aheadText .cpp false aheadTree).offsetsSpelled "V" = [7, 55, 67, 63] := by
    decide +kernel
  have isPlace : (ofTree aheadText .cpp false aheadTree).names.toList.map NameNode.place =
      [("V", some ⟨7, 1⟩), ("T", some ⟨29, 1⟩), ("S", some ⟨39, 1⟩), ("V", some ⟨55, 1⟩),
        ("S", some ⟨61, 1⟩), ("V", some ⟨67, 1⟩), ("V", some ⟨63, 1⟩), ("x", some ⟨69, 1⟩)] := by
    decide +kernel
  obtain ⟨⟨nodes, -, -, places, reversed, -⟩, -⟩ :=
    spelled_names_in_source_order_iff aheadText .cpp false aheadTree wellFormed
  rw [isPlace] at places
  have size : nodes.length = 8 := by simpa using (congrArg List.length places).symm
  have placeAt (number : Nat) (inside : number < nodes.length) :
      some (placeOf aheadText nodes[number]) = _ :=
    (by simp [inside] : _ = (nodes.map (placeOf aheadText))[number]?).trans
      (congrArg (·[number]?) places).symm
  obtain ⟨text, located⟩ := Prod.mk.inj (Option.some.inj (placeAt 5 (by omega)))
  obtain ⟨otherText, otherLocated⟩ := Prod.mk.inj (Option.some.inj (placeAt 6 (by omega)))
  have pair := List.pairwise_iff_getElem.1 reversed 5 6 (by omega) (by omega) (by omega)
  exact ⟨wellFormed, isListed, by decide +kernel, nodes[5], nodes[6], text, otherText, located,
    otherLocated, (pair _ _ located otherLocated).2.1 (by decide)⟩

end SourceUnit

end CrossReference
