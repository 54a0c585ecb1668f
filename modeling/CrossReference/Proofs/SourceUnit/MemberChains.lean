import CrossReference.Proofs.SourceUnit.FunctionParameters
import CrossReference.Proofs.Walk.AccessedMembers

/-!
# Chains of member accesses

In a chain such as `(*a.b).c` each member is looked up in the type of the name in front of it.  The
walk comes to a member after all of its object, so that members are bound one after the other along
the chain.  An object that the walk does not find behind its parentheses, as with a comment in front
of it, leaves the member unbound.
-/

set_option autoImplicit false

namespace CrossReference

open ParseTree Walk

namespace Walk

open State

/-! ## Chains -/

structure IsAccess (tree argument field : ParseTree) : Prop where
  kind : tree.kind = "field_expression"
  isArgument : tree.child? "argument" = some argument
  isField : tree.child? "field" = some field
  isPlain : field.kind = "field_identifier"
  ordered : ∃ before between after,
    tree.namedChildren = before ++ argument :: (between ++ field :: after)

/-- The names of a chain of accesses, from the last member back to the first object.  Parentheses,
dereferences and subscripts may stand around all that is accessed. -/
inductive MemberChain : ParseTree → List ParseTree → Prop where
  | name {tree : ParseTree} (isName : tree.kind = "identifier") : MemberChain tree [tree]
  | qualified {tree last : ParseTree} (qualified : isQualified tree.kind = true)
      (isLast : (QualifiedName.ofTree tree).segments.getLast? = some last) : MemberChain tree [last]
  | access {tree argument field : ParseTree} {names : List ParseTree}
      (isAccess : IsAccess tree argument field) (object : MemberChain argument names) :
      MemberChain tree (field :: names)
  | parentheses {tree inner : ParseTree} {rest names : List ParseTree}
      (kind : tree.kind = "parenthesized_expression") (parts : tree.namedChildren = inner :: rest)
      (inside : MemberChain inner names) : MemberChain tree names
  | behind {tree inner : ParseTree} {names : List ParseTree}
      (kind : tree.kind = "pointer_expression" ∨ tree.kind = "subscript_expression")
      (isArgument : tree.child? "argument" = some inner) (isNamed : inner.isNamed = true)
      (inside : MemberChain inner names) : MemberChain tree names

theorem field_of_child? {tree child : ParseTree} {part : String}
    (found : tree.child? part = some child) : child.field = part := by
  simpa using List.find?_some found

theorem mem_namedChildren_of_child? {tree child : ParseTree} {part : String}
    (found : tree.child? part = some child) (isNamed : child.isNamed = true) :
    child ∈ tree.namedChildren :=
  List.mem_filter.2 ⟨mem_of_child? found, isNamed⟩

section Objects

variable {tree inner : ParseTree} {rest : List ParseTree}

theorem objectOf?_of_parentheses (kind : tree.kind = "parenthesized_expression")
    (parts : tree.namedChildren = inner :: rest) (scopes : Scopes) (scope : Nat) :
    objectOf? scopes scope tree = objectOf? scopes scope inner := by
  rw [objectOf?, if_neg (by rw [kind]; decide), if_neg (by rw [kind]; decide),
    if_neg (by rw [kind]; decide), if_pos kind]
  split
  · rename_i first others found
    obtain ⟨rfl, -⟩ := List.cons.inj (parts.symm.trans found)
    rfl
  · rename_i nothing
    rw [parts] at nothing
    cases nothing

theorem objectOf?_of_argument
    (kind : tree.kind = "pointer_expression" ∨ tree.kind = "subscript_expression")
    (isArgument : tree.child? "argument" = some inner) (scopes : Scopes) (scope : Nat) :
    objectOf? scopes scope tree = objectOf? scopes scope inner := by
  have other {kindThere : String} (different : kindThere ≠ "pointer_expression" ∧
      kindThere ≠ "subscript_expression") : tree.kind ≠ kindThere := by
    rintro rfl
    exact kind.elim different.1 different.2
  rw [objectOf?, if_neg (other (by decide)), if_neg (other (by decide)),
    if_neg (other (by decide)), if_neg (other (by decide)), if_pos (by simpa using kind)]
  split
  · rename_i found isFound
    obtain rfl := Option.some.inj (isArgument.symm.trans isFound)
    rfl
  · rename_i missing
    rw [isArgument] at missing
    cases missing

theorem objectOf?_of_qualified (qualified : isQualified tree.kind = true) (scopes : Scopes)
    (scope : Nat) :
    objectOf? scopes scope tree =
      (QualifiedName.ofTree tree).segments.getLast?.map fun last => .name last.id := by
  have kinds : tree.kind = "qualified_identifier" ∨ tree.kind = "qualified_type_identifier" ∨
      tree.kind = "qualified_field_identifier" := by simpa [isQualified] using qualified
  rw [objectOf?]
  rcases kinds with kind | kind | kind <;> simp [kind, isQualified]

theorem objectOf?_of_comment (kind : tree.kind = "parenthesized_expression")
    (parts : tree.namedChildren = inner :: rest) (isComment : inner.kind = "comment")
    (scopes : Scopes) (scope : Nat) : objectOf? scopes scope tree = none := by
  rw [objectOf?_of_parentheses kind parts, objectOf?]
  simp [isComment, isQualified]

end Objects

/-- The object that a chain denotes is its last name. -/
theorem MemberChain.objectOf?_eq {tree : ParseTree} {names : List ParseTree}
    (chain : MemberChain tree names) (scopes : Scopes) (scope : Nat) :
    objectOf? scopes scope tree = names.head?.map fun last => .name last.id := by
  induction chain with
  | name isName =>
    rw [objectOf?, if_pos isName]
    rfl
  | qualified qualified isLast =>
    rw [objectOf?_of_qualified qualified, isLast]
    rfl
  | access isAccess object ih =>
    rw [objectOf?, if_neg (by rw [isAccess.kind]; decide), if_pos isAccess.kind, isAccess.isField]
    rfl
  | parentheses kind parts inside ih => rw [objectOf?_of_parentheses kind parts, ih]
  | behind kind isArgument isNamed inside ih => rw [objectOf?_of_argument kind isArgument, ih]

/-! ## The walk along a chain -/

theorem form_of_parentheses {tree : ParseTree}
    (kind : tree.kind ∈ ["parenthesized_expression", "pointer_expression",
      "subscript_expression"]) : tree.form = .transparent := by
  have forms : ∀ kind ∈ ["parenthesized_expression", "pointer_expression",
      "subscript_expression"], Form.ofKind kind = .transparent := by decide
  exact forms tree.kind kind

section Walks

variable {source : List Char} {state : State} {frame next : Frame} {node : ParseTree}

theorem notedAs_of_next (left : next ∈ (visit source state frame).2)
    (noted : ∀ later, ∃ name, NotedAs source (run source later [next]) node name) :
    ∃ name, NotedAs source (run source state [frame]) node name := by
  have begun : Reaches source state [frame] [] state [frame] := .start
  obtain ⟨_, later, rest, reached⟩ := begun.exists_next left
  obtain ⟨name, known⟩ := noted later
  have whole := known.run rest
  rw [← run_append, List.singleton_append, reached.run_eq] at whole
  exact ⟨name, whole⟩

theorem notedAs_of_name (plain : frame.mode = .plain) (form : frame.tree.form = .name)
    (isSegment : node ∈ (QualifiedName.ofTree frame.tree).segments) :
    ∃ name, NotedAs source (run source state [frame]) node name := by
  obtain ⟨index, isNode⟩ := List.getElem?_of_mem isSegment
  have adds : AddsNames source (QualifiedName.ofTree frame.tree).segments state
      (visit source state frame).1 := by
    simp only [visit, plain, visitPlain, form, visitUse]
    exact addsNames_noteUse source state frame.tree frame.context .ordinary .none
  rw [run_cons]
  exact ⟨_, (adds.notedAs isNode).run _⟩

theorem notedAs_of_member {object : Option ObjectRef} (member : frame.mode = .member object)
    (isPlain : frame.tree.kind = "field_identifier") :
    NotedAs source (visit source state frame).1 frame.tree state.names.size := by
  have adds : AddsNames source [frame.tree] state (visit source state frame).1 := by
    simp only [visit, member, isPlain, if_true]
    exact (addsNames_addName source state frame.tree frame.context false).quiet_after
      (.of_same rfl rfl)
  have isFirst : [frame.tree][0]? = some frame.tree := rfl
  exact adds.notedAs isFirst

theorem visit_of_access (source : List Char) (state : State) (plain : frame.mode = .plain)
    (kind : frame.tree.kind = "field_expression") :
    visit source state frame =
      (state, frame.tree.namedChildren.map fun child =>
        Frame.child frame.tree frame.context
          (if child.field = "field" then
            .member ((frame.tree.child? "argument").bind
              (objectOf? state.scopes frame.context.scope))
          else .plain) child) := by
  have isAccess : Form.ofKind "field_expression" = .memberAccess := by decide
  have form : frame.tree.form = .memberAccess := by rw [ParseTree.form, kind, isAccess]
  simp only [visit, plain, visitPlain, form, visitMemberAccess]

theorem left_of_access (plain : frame.mode = .plain) (kind : frame.tree.kind = "field_expression")
    (isPart : node ∈ frame.tree.namedChildren) :
    Frame.child frame.tree frame.context
      (if node.field = "field" then
        .member ((frame.tree.child? "argument").bind (objectOf? state.scopes frame.context.scope))
      else .plain) node ∈ (visit source state frame).2 := by
  rw [visit_of_access source state plain kind]
  exact List.mem_map_of_mem isPart

/-- What stands in parentheses, behind a dereference or in front of a subscript is visited by its
form. -/
theorem left_of_parentheses (plain : frame.mode = .plain)
    (kind : frame.tree.kind ∈ ["parenthesized_expression", "pointer_expression",
      "subscript_expression"]) (isPart : node ∈ frame.tree.namedChildren) :
    Frame.child frame.tree frame.context .plain node ∈ (visit source state frame).2 := by
  simp only [visit, plain, visitPlain, form_of_parentheses kind]
  exact List.mem_map_of_mem isPart

/-- All names of a chain are noted in the walk over it. -/
theorem MemberChain.exists_notedAs {tree : ParseTree} {names : List ParseTree}
    (chain : MemberChain tree names) (isName : node ∈ names) (isTree : frame.tree = tree)
    (plain : frame.mode = .plain) :
    ∃ name, NotedAs source (run source state [frame]) node name := by
  induction chain generalizing frame state with
  | name isIdentifier =>
    subst isTree
    have isPlain : isPlainName frame.tree.kind = true := by rw [isIdentifier]; decide
    refine notedAs_of_name plain (form_of_isPlainName isPlain) ?_
    rwa [QualifiedName.ofTree_of_isPlainName isPlain]
  | qualified isQualified isLast =>
    subst isTree
    rw [List.mem_singleton.1 isName]
    exact notedAs_of_name plain (form_of_isQualified isQualified) (List.mem_of_getLast? isLast)
  | @access tree argument field names isAccess object ih =>
    subst isTree
    obtain ⟨before, between, after, parts⟩ := isAccess.ordered
    rcases List.mem_cons.1 isName with rfl | isObject
    · have isPart : node ∈ frame.tree.namedChildren := by
        rw [parts]
        simp
      refine notedAs_of_next (left_of_access plain isAccess.kind isPart) fun later => ?_
      rw [if_pos (field_of_child? isAccess.isField), run_cons]
      exact ⟨_, (notedAs_of_member rfl isAccess.isPlain).run _⟩
    · have isPart : argument ∈ frame.tree.namedChildren := by
        rw [parts]
        simp
      refine notedAs_of_next (left_of_access plain isAccess.kind isPart) fun later => ?_
      rw [if_neg (by rw [field_of_child? isAccess.isArgument]; decide)]
      exact ih isObject rfl rfl
  | parentheses kind parts inside ih =>
    subst isTree
    refine notedAs_of_next (left_of_parentheses plain (by simp [kind])
      (parts ▸ List.mem_cons_self)) fun later => ?_
    exact ih isName rfl rfl
  | behind kind isArgument isNamed inside ih =>
    subst isTree
    refine notedAs_of_next (left_of_parentheses plain (by simpa using .inr kind)
      (mem_namedChildren_of_child? isArgument isNamed)) fun later => ?_
    exact ih isName rfl rfl

variable {start : State} {frames visited waiting : List Frame}

/-- The walk comes to a member of a chain with the name in front of it for its object, which has been
noted by then. -/
theorem Reaches.exists_member {tree : ParseTree} {names : List ParseTree}
    (chain : MemberChain tree names)
    (moment : Reaches source start frames visited state (frame :: waiting))
    (isTree : frame.tree = tree) (plain : frame.mode = .plain) {front back : List ParseTree}
    {field object : ParseTree} (parts : names = front ++ field :: object :: back) :
    ∃ before later next rest, Reaches source start frames before later (next :: rest) ∧
      next.tree = field ∧ field.kind = "field_identifier" ∧
      next.mode = .member (some (.name object.id)) ∧ ∃ name, NotedAs source later object name := by
  induction chain generalizing frame state visited waiting front with
  | name => cases front <;> simp at parts
  | qualified => cases front <;> simp at parts
  | @access tree argument last names isAccess inside ih =>
    subst isTree
    obtain ⟨before, between, after, split⟩ := isAccess.ordered
    let part (child : ParseTree) : Frame := Frame.child frame.tree frame.context
      (if child.field = "field" then
        .member ((frame.tree.child? "argument").bind (objectOf? state.scopes frame.context.scope))
      else .plain) child
    have isObject : part argument = Frame.child frame.tree frame.context .plain argument := by
      simp only [part, field_of_child? isAccess.isArgument]
      rfl
    have whole : Reaches source start frames (visited ++ [frame]) state
        (before.map part ++ ([part argument] ++ (between.map part ++
          (part last :: (after.map part ++ waiting))))) := by
      have reached := moment.visit
      rw [visit_of_access source state plain isAccess.kind, split] at reached
      simpa [part] using reached
    obtain ⟨_, atObject⟩ := whole.exists_past
    cases front with
    | cons _ front =>
      rw [isObject] at atObject
      exact ih atObject rfl rfl (List.cons.inj parts).2
    | nil =>
      obtain ⟨rfl, rfl⟩ := List.cons.inj parts
      obtain ⟨name, noted⟩ : ∃ name, NotedAs source
          (run source (run source state (before.map part)) [part argument]) object name :=
        inside.exists_notedAs List.mem_cons_self rfl (by rw [isObject]; rfl)
      obtain ⟨_, pastObject⟩ := atObject.exists_past
      obtain ⟨_, atField⟩ := pastObject.exists_past
      refine ⟨_, _, part last, _, atField, rfl, isAccess.isPlain, ?_, name, noted.run _⟩
      simp only [part, field_of_child? isAccess.isField, isAccess.isArgument, Option.bind_some,
        inside.objectOf?_eq]
      rfl
  | parentheses kind split inside ih =>
    subst isTree
    obtain ⟨_, _, _, reached⟩ := moment.exists_next (left_of_parentheses plain (by simp [kind])
      (split ▸ List.mem_cons_self))
    exact ih reached rfl rfl parts
  | behind kind isArgument isNamed inside ih =>
    subst isTree
    obtain ⟨_, _, _, reached⟩ := moment.exists_next (left_of_parentheses plain
      (by simpa using .inr kind) (mem_namedChildren_of_child? isArgument isNamed))
    exact ih reached rfl rfl parts

variable {language : Language} {tree : ParseTree} {object : Option ObjectRef}

/-- The name of an accessed member waits to the end of the walk over a tree of distinct nodes. -/
theorem Reaches.member_waits (distinct : tree.ids.Nodup)
    (moment : Reaches source (State.initial (language = .cpp)) [Frame.root tree] visited state
      (frame :: waiting)) (member : frame.mode = .member object)
    (isPlain : frame.tree.kind = "field_identifier") :
    OccursAs source (SourceUnit.walked source language tree) frame.tree state.names.size ∧
      ⟨state.names.size, object⟩ ∈ (SourceUnit.walked source language tree).members := by
  refine ⟨moment.visit.occursAs distinct (notedAs_of_member member isPlain), ?_⟩
  have waits : ⟨state.names.size, object⟩ ∈ (Walk.visit source state frame).1.members := by
    simp only [Walk.visit, member, isPlain, if_true]
    exact Array.mem_push_self
  obtain ⟨_, later⟩ := exists_awaits_run source (Walk.visit source state frame).1
    ((Walk.visit source state frame).2 ++ waiting)
  rw [moment.visit.run_eq] at later
  exact later.members_kept waits

end Walks

/-- Each member of a chain is bound to what the type of the name in front of it has for its name,
where both that name and its type are as in the end; if that name has no binding, or its binding no
type with members, the member is not bound.  When the turn of a member comes, the name in front of it
has its final binding.  A member of which the walk finds no object is not bound either. -/
theorem chained_members_are_bound_stepwise {source : List Char} {language : Language}
    {tree : ParseTree} (distinct : tree.ids.Nodup) {visited waiting : List Frame} {state : State}
    {frame : Frame}
    (moment : Reaches source (State.initial (language = .cpp)) [Frame.root tree] visited state
      (frame :: waiting)) (plain : frame.mode = .plain) :
    let walked := SourceUnit.walked source language tree
    (∀ names, MemberChain frame.tree names → ∀ front field object back,
      names = front ++ field :: object :: back →
        ∃ member name, OccursAs source walked field member ∧ OccursAs source walked object name ∧
          walked.resolve.binding? member =
            ((walked.resolve.binding? name).bind walked.resolve.typeScope?).bind
              (walked.resolve.scopes.lookupMember .ordinary (field.text source)) ∧
          ∃ earlier pending later, walked.members.toList = earlier ++ pending :: later ∧
            pending.name = member ∧
            (walked.boundUpTo earlier).binding? name = walked.resolve.binding? name) ∧
    (frame.tree.kind = "field_expression" → ∀ field ∈ frame.tree.namedChildren,
      field.field = "field" → field.kind = "field_identifier" →
      (frame.tree.child? "argument").bind (objectOf? state.scopes frame.context.scope) = none →
        ∃ member, OccursAs source walked field member ∧ walked.resolve.binding? member = none) := by
  intro walked
  refine ⟨fun names chain front field object back parts => ?_,
    fun kind field isPart isField isPlain noObject => ?_⟩
  · obtain ⟨_, later, next, _, reached, rfl, isPlain, member, name, noted⟩ :=
      moment.exists_member chain rfl plain parts
    obtain ⟨occurs, waits⟩ := reached.member_waits distinct member isPlain
    have isObject := reached.occursAs distinct noted
    obtain ⟨bound, earlier, others, split, final⟩ :=
      member_binding?_of_object rfl waits rfl isObject (lt_size_of_place noted.place)
    have rebinds := walked_rebinds source language tree
    have spelled : walked.resolve.spelling later.names.size = next.tree.text source :=
      (rebinds.spelling_eq (lt_size_of_place occurs.place)).trans occurs.spelling_eq
    exact ⟨_, name, occurs, isObject, spelled ▸ bound, earlier, _, others, split, rfl, final⟩
  · have left := @left_of_access source state frame field plain kind isPart
    rw [if_pos isField, noObject] at left
    obtain ⟨_, later, _, reached⟩ := moment.exists_next left
    obtain ⟨occurs, waits⟩ := reached.member_waits distinct rfl isPlain
    obtain ⟨earlier, others, split⟩ := List.append_of_mem (Array.mem_def.1 waits)
    exact ⟨later.names.size, occurs, (walked_waitsApart source language tree).member_binding? split⟩

/-! ## A chain, and an object behind a comment -/

def chainText : List Char :=
  "struct S{int x;S*s;};int f(S p){return (*p.s).x+(/**/p).x;}".toList

def chainClass : ParseTree :=
  ruleNode 1 "struct_specifier" "" 0 20
    [ruleNode 2 "type_identifier" "name" 7 8 [],
      ruleNode 3 "field_declaration_list" "body" 8 20
        [ruleNode 4 "field_declaration" "" 9 15
            [ruleNode 5 "primitive_type" "type" 9 12 [],
              ruleNode 6 "field_identifier" "declarator" 13 14 []],
          ruleNode 7 "field_declaration" "" 15 19
            [ruleNode 8 "type_identifier" "type" 15 16 [],
              ruleNode 9 "pointer_declarator" "declarator" 16 18
                [ruleNode 10 "field_identifier" "declarator" 17 18 []]]]]

def chainType : ParseTree := ruleNode 12 "primitive_type" "type" 21 24 []

def chainDeclarator : ParseTree :=
  ruleNode 13 "function_declarator" "declarator" 25 31
    [ruleNode 14 "identifier" "declarator" 25 26 [],
      ruleNode 15 "parameter_list" "parameters" 26 31
        [ruleNode 16 "parameter_declaration" "" 27 30
          [ruleNode 17 "type_identifier" "type" 27 28 [],
            ruleNode 18 "identifier" "declarator" 29 30 []]]]

def chainObject : ParseTree := ruleNode 26 "identifier" "argument" 41 42 []

def chainMember : ParseTree := ruleNode 27 "field_identifier" "field" 43 44 []

def chainFirst : ParseTree :=
  ruleNode 25 "field_expression" "argument" 41 44 [chainObject, chainMember]

def chainPointer : ParseTree := ruleNode 24 "pointer_expression" "" 40 44 [chainFirst]

def chainParentheses : ParseTree :=
  ruleNode 23 "parenthesized_expression" "argument" 39 45 [chainPointer]

def chainLast : ParseTree := ruleNode 28 "field_identifier" "field" 46 47 []

def chainAccess : ParseTree :=
  ruleNode 22 "field_expression" "left" 39 47 [chainParentheses, chainLast]

def commentedParentheses : ParseTree :=
  ruleNode 30 "parenthesized_expression" "argument" 48 55
    [ruleNode 31 "comment" "" 49 53 [], ruleNode 32 "identifier" "" 53 54 []]

def commentedMember : ParseTree := ruleNode 33 "field_identifier" "field" 56 57 []

def commentedAccess : ParseTree :=
  ruleNode 29 "field_expression" "right" 48 57 [commentedParentheses, commentedMember]

def chainSum : ParseTree := ruleNode 21 "binary_expression" "" 39 57 [chainAccess, commentedAccess]

def chainReturn : ParseTree := ruleNode 20 "return_statement" "" 32 58 [chainSum]

def chainBody : ParseTree := ruleNode 19 "compound_statement" "body" 31 59 [chainReturn]

def chainFunction : ParseTree :=
  ruleNode 11 "function_definition" "" 21 59 [chainType, chainDeclarator, chainBody]

def chainTree : ParseTree := ruleNode 0 "translation_unit" "" 0 59 [chainClass, chainFunction]

theorem memberChain_chainAccess : MemberChain chainAccess [chainLast, chainMember, chainObject] := by
  have object : IsAccess chainFirst chainObject chainMember :=
    ⟨by decide, rfl, rfl, by decide, [], [], [], rfl⟩
  have last : IsAccess chainAccess chainParentheses chainLast :=
    ⟨by decide, rfl, rfl, by decide, [], [], [], rfl⟩
  exact .access last (.parentheses (by decide) rfl
    (.behind (.inl (by decide)) rfl rfl (.access object (.name (by decide)))))

def chainPart (part : ParseTree) : Frame := ⟨part, false, ⟨2, 2, some 3, true⟩, .plain⟩

def chainFrame : Frame := ⟨chainFunction, true, .file, .plain⟩

def stateAtChainFunction : State :=
  run chainText (State.initial (Language.cpp = .cpp)) [⟨chainClass, true, .file, .plain⟩]

def chainFunctionPart (part : ParseTree) : Frame :=
  functionPart chainFunction ⟨Scopes.file, Scopes.file, some 3, true⟩ 2 part

def stateAtChain : State :=
  run chainText (visit chainText stateAtChainFunction chainFrame).1
    [chainFunctionPart chainType, chainFunctionPart chainDeclarator]

theorem visit_chainFunction :
    (visit chainText stateAtChainFunction chainFrame).2 =
      [chainFunctionPart chainType, chainFunctionPart chainDeclarator] ++
        [chainFunctionPart chainBody] := by
  have made : stateAtChainFunction.scopes.next = 2 := by decide +kernel
  have opened : stateAtChainFunction.declarations.size = 3 := by decide +kernel
  rw [visit_of_function chainText _ (.inl rfl) (by decide), made, openDeclaration, opened]
  rfl

theorem exists_moment_of_chain :
    ∃ visited, Reaches chainText (State.initial (Language.cpp = .cpp)) [Frame.root chainTree] visited
      stateAtChain [chainPart chainAccess, chainPart commentedAccess] := by
  have begun : Reaches chainText (State.initial (Language.cpp = .cpp)) [Frame.root chainTree] [] _
    _ := .start
  have file (state : State) : visit chainText state (Frame.root chainTree) =
      (state, [⟨chainClass, true, .file, .plain⟩] ++ [chainFrame]) := by
    have form : chainTree.form = .transparent := by decide
    simp only [visit, Frame.root, visitPlain, form]
    rfl
  have started : Reaches chainText (State.initial (Language.cpp = .cpp)) [Frame.root chainTree] _ _
      ([⟨chainClass, true, .file, .plain⟩] ++ [chainFrame]) := begun.visit_eq (file _)
  obtain ⟨_, atFunction⟩ := started.exists_past
  have entered := atFunction.visit
  rw [List.append_nil, ← stateAtChainFunction, visit_chainFunction] at entered
  obtain ⟨_, atBody⟩ := entered.exists_past
  have body (state : State) : visit chainText state (chainFunctionPart chainBody) =
      (state, [⟨chainReturn, true, ⟨2, 2, some 3, true⟩, .plain⟩]) := rfl
  have inside (state : State) :
      visit chainText state ⟨chainReturn, true, ⟨2, 2, some 3, true⟩, .plain⟩ =
        (state, [chainPart chainSum]) := by
    have form : chainReturn.form = .transparent := by decide
    simp only [visit, visitPlain, form]
    rfl
  have sum (state : State) : visit chainText state (chainPart chainSum) =
      (state, [chainPart chainAccess, chainPart commentedAccess]) := by
    have form : chainSum.form = .transparent := by decide
    simp only [visit, chainPart, visitPlain, form]
    rfl
  exact ⟨_, ((atBody.visit_eq (body _)).visit_eq (inside _)).visit_eq (sum _)⟩

/-- The members `s` and `x` of the chain are bound in the type of the name in front of them, and the
`x` behind the comment is not bound, though the object has a type with that member. -/
theorem chain_is_bound_and_member_behind_comment_is_not :
    let walked := SourceUnit.walked chainText .cpp chainTree
    chainTree.ids.Nodup ∧
    ∃ (visited : List Frame) (state : State) (last middle object behind : Nat),
      Reaches chainText (State.initial (Language.cpp = .cpp)) [Frame.root chainTree] visited state
        [chainPart chainAccess, chainPart commentedAccess] ∧
      MemberChain chainAccess [chainLast, chainMember, chainObject] ∧
      OccursAs chainText walked chainLast last ∧ OccursAs chainText walked chainMember middle ∧
      OccursAs chainText walked chainObject object ∧
      OccursAs chainText walked commentedMember behind ∧
      (walked.resolve.binding? object).bind walked.resolve.typeScope? = some 1 ∧
      walked.resolve.binding? middle = walked.resolve.scopes.lookupMember .ordinary "s" 1 ∧
      (walked.resolve.binding? middle).bind walked.resolve.typeScope? = some 1 ∧
      walked.resolve.binding? last = walked.resolve.scopes.lookupMember .ordinary "x" 1 ∧
      walked.resolve.scopes.lookupMember .ordinary "x" 1 = some 1 ∧
      walked.resolve.binding? behind = none := by
  intro walked
  have distinct : chainTree.ids.Nodup := by decide +kernel
  obtain ⟨visited, moment⟩ := exists_moment_of_chain
  have atChain : Reaches chainText (State.initial (Language.cpp = .cpp)) [Frame.root chainTree]
      visited stateAtChain ([chainPart chainAccess] ++ [chainPart commentedAccess]) := moment
  obtain ⟨_, atCommented⟩ := atChain.exists_past
  obtain ⟨chained, -⟩ := chained_members_are_bound_stepwise distinct moment rfl
  obtain ⟨last, middle, isLast, isMiddle, lastBound, -⟩ :=
    chained _ memberChain_chainAccess [] chainLast chainMember [chainObject] rfl
  obtain ⟨middleToo, object, isMiddleToo, isObject, middleBound, -⟩ :=
    chained _ memberChain_chainAccess [chainLast] chainMember chainObject [] rfl
  obtain ⟨-, unchained⟩ := chained_members_are_bound_stepwise distinct atCommented rfl
  have noObject (state : State) : (commentedAccess.child? "argument").bind
      (objectOf? state.scopes (chainPart commentedAccess).context.scope) = none :=
    @objectOf?_of_comment commentedParentheses _ _ (by decide) rfl (by decide) _ _
  obtain ⟨behind, isBehind, unbound⟩ := unchained (by decide) commentedMember
    (List.mem_cons_of_mem _ List.mem_cons_self) rfl (by decide) (noObject _)
  have same : middleToo = middle := isMiddleToo.name_eq isMiddle.found
  have foundObject : walked.nameOfNode.find? (·.1 = 26) = some (26, 7) := by decide +kernel
  have foundMiddle : walked.nameOfNode.find? (·.1 = 27) = some (27, 8) := by decide +kernel
  have isSeven : object = 7 := isObject.name_eq foundObject
  have isEight : middle = 8 := isMiddle.name_eq foundMiddle
  have objectType : (walked.resolve.binding? 7).bind walked.resolve.typeScope? = some 1 := by
    decide +kernel
  have middleType : (walked.resolve.binding? 8).bind walked.resolve.typeScope? = some 1 := by
    decide +kernel
  have spelledMiddle : chainMember.text chainText = "s" := by decide +kernel
  have spelledLast : chainLast.text chainText = "x" := by decide +kernel
  subst same isSeven isEight
  rw [objectType, Option.bind_some, spelledMiddle] at middleBound
  rw [middleType, Option.bind_some, spelledLast] at lastBound
  exact ⟨distinct, visited, stateAtChain, last, 8, 7, behind, moment, memberChain_chainAccess,
    isLast, isMiddle, isObject, isBehind, objectType, middleBound, middleType, lastBound,
    by decide +kernel, unbound⟩

end Walk

end CrossReference
