import CrossReference.Proofs.Walk.Contexts
import CrossReference.Proofs.Walk.Sharing

/-!
# Where names are declared

`Frame.placements` lists what a visit of a frame declares without a qualifier, and the scope that
receives each of these names.  A name is bound to what a look-up in its scope gives from then on, so
that names of one spelling in one scope share a symbol, and names in different scopes never do.
-/

set_option autoImplicit false

namespace CrossReference.Walk

open ParseTree State

/-- A name that is declared without a qualifier: its node, the scope that receives it, and what it
is declared as. -/
structure Placement where
  node : ParseTree
  scope : Nat
  kind : SymbolKind

def tagName? (tree : ParseTree) (allowTemplate : Bool) : Option ParseTree :=
  (tree.child? "name").bind fun name =>
    if isQualified name.kind then none
    else if allowTemplate && name.kind = "template_type" then name.child? "name"
    else some name

/-- A specifier that only uses the name of a tag places nothing. -/
def Frame.tagPlacements (frame : Frame) (kind : SymbolKind) (allowTemplate : Bool) :
    List Placement :=
  if !(frame.tree.child? "body").isSome && !frame.declaresTag then []
  else (tagName? frame.tree allowTemplate).toList.map (⟨·, frame.context.declareIn, kind⟩)

def segmentPlacements (source : List Char) (inner : Context) :
    List ParseTree → State → Nat → List Placement
  | [], _, _ => []
  | segment :: rest, state, scope =>
      let (declared, binding) := state.declare source segment inner scope .namespaceName none
      let (entered, members) := declared.openMembers binding .namespaceBody scope
      ⟨segment, scope, .namespaceName⟩ :: segmentPlacements source inner rest entered members

theorem map_node_segmentPlacements (source : List Char) (inner : Context)
    (segments : List ParseTree) (state : State) (scope : Nat) :
    (segmentPlacements source inner segments state scope).map (·.node) = segments := by
  induction segments generalizing state scope with
  | nil => rfl
  | cons segment rest ih => exact congrArg (segment :: ·) (ih _ _)

/-- What a visit by the form of a node declares without a qualifier.  Macros and enumerators are not
placed. -/
def Frame.formPlacements (source : List Char) (state : State) (frame : Frame) : List Placement :=
  let scope := frame.context.declareIn
  match frame.tree.form with
  | .classSpecifier kind => frame.tagPlacements kind true
  | .enumSpecifier => frame.tagPlacements .enumName false
  | .namespaceDefinition =>
      let (opened, inner) := state.openDeclaration frame.tree.kind frame.context
      let segments :=
        match frame.tree.child? "name" with
        | some name => name.namespaceSegments
        | none => []
      segmentPlacements source inner segments opened scope
  | .typeParameter =>
      frame.tree.namedChildren.filterMap fun child =>
        if child.field ≠ "default_type" && child.field ≠ "default_value" &&
            child.kind = "type_identifier" then some ⟨child, scope, .templateParameter⟩
        else none
  | .alias =>
      frame.tree.namedChildren.filterMap fun child =>
        if child.field = "name" then some ⟨child, scope, .typeAlias⟩ else none
  | _ => []

/-- What a visit of a frame declares without a qualifier, in the order of the occurrences that it
adds. -/
def Frame.placements (source : List Char) (state : State) (frame : Frame) : List Placement :=
  let scope := frame.context.declareIn
  match frame.mode with
  | .plain | .member _ => frame.formPlacements source state
  | .declarator kind _ _ =>
      if isPlainName frame.tree.kind then [⟨frame.tree, scope, kind⟩]
      else if frame.tree.kind = "template_function" then
        (frame.tree.child? "name").toList.map (⟨·, scope, kind⟩)
      else if frame.tree.kind = "structured_binding_declarator" then
        (frame.tree.namedChildren.filter (·.kind = "identifier")).map (⟨·, scope, .variable⟩)
      else []
  | .body | .branch _ => []

def Frame.formIsApart (frame : Frame) : Bool :=
  match frame.tree.form with
  | .macroDefinition => true
  | .classSpecifier _ | .enumSpecifier =>
      (frame.tree.child? "name").any fun name => isQualified name.kind
  | _ => false

/-- A frame that declares a macro or a qualified name. -/
def Frame.isApart (frame : Frame) : Bool :=
  match frame.mode with
  | .plain | .member _ => frame.formIsApart
  | .declarator _ _ _ => isQualified frame.tree.kind
  | .body | .branch _ => false

/-! ## Placed names -/

/-- An occurrence declares what is placed, and if it is bound, then to what a look-up of its
spelling in its scope gives. -/
def IsPlaced (source : List Char) (state : State) (name : Nat) (placement : Placement) : Prop :=
  ∃ found, state.names[name]? = some found ∧ found.declares = true ∧
    found.text = placement.node.text source ∧
    ∀ binding, found.binding = some binding →
      state.scopes.local? placement.kind.space found.text placement.scope = some binding

theorem IsPlaced.keep {source : List Char} {before after : State} {name : Nat}
    {placement : Placement} (placed : IsPlaced source before name placement)
    (keeps : Keeps before after) : IsPlaced source after name placement := by
  obtain ⟨found, there, declares, spelled, bound⟩ := placed
  refine ⟨found, keeps.grows.occurrence_eq there, declares, spelled, ?_⟩
  intro binding isBinding
  exact keeps.looks _ _ _ binding placement.kind.space_ne_qualifier (bound binding isBinding)

/-- The first occurrences that are added are what is placed, and no other one declares. -/
structure Places (source : List Char) (placements : List Placement) (before after : State) :
    Prop where
  homed : Homed after
  keeps : Keeps before after
  placed : ∀ (index : Nat) (placement : Placement), placements[index]? = some placement →
    IsPlaced source after (before.names.size + index) placement
  plain : ∀ (name : Nat) (found : NameNode), before.names.size + placements.length ≤ name →
    after.names[name]? = some found → found.declares = false

structure PlacesOnly (source : List Char) (placements : List Placement) (before after : State) :
    Prop extends Places source placements before after where
  size : after.names.size = before.names.size + placements.length

def silentFrame (tree : ParseTree) : Frame :=
  ⟨tree, false, Context.file, .body⟩

namespace Places

variable {source : List Char} {placements later : List Placement} {before middle after : State}

theorem of_names_eq (names : after.names = before.names) (homed : Homed after)
    (keeps : Keeps before after) : PlacesOnly source [] before after where
  homed := homed
  keeps := keeps
  placed index placement isPlacement := by simp at isPlacement
  plain := plain_of_names_eq names
  size := by
    rw [names]
    rfl

theorem refl (homed : Homed before) : PlacesOnly source [] before before :=
  of_names_eq rfl homed (.refl before)

theorem of_edits {frame : Frame} (edits : Edits source frame before after) (homed : Homed before)
    (noEnumerator : frame.tree.form ≠ .enumerator) (nothing : frame.declaredKind? = none) :
    Places source [] before after := by
  obtain ⟨final, keeps⟩ := edits.homed noEnumerator homed
  refine ⟨final, keeps, ?_, ?_⟩
  · intro index placement isPlacement
    simp at isPlacement
  · intro name found new there
    apply Bool.eq_false_iff.2
    intro declares
    obtain ⟨kind, isKind⟩ := (edits.tags homed.apart).kinds name found new there declares
    rw [nothing] at isKind
    cases isKind

theorem of_silent {tree : ParseTree} (edits : Edits source (silentFrame tree) before after)
    (homed : Homed before) (noEnumerator : tree.form ≠ .enumerator) :
    Places source [] before after :=
  of_edits edits homed noEnumerator rfl

theorem then_nothing (first : Places source placements before middle)
    (last : Places source [] middle after) : Places source placements before after where
  homed := last.homed
  keeps := first.keeps.trans last.keeps
  placed index placement isPlacement := (first.placed index placement isPlacement).keep last.keeps
  plain name found new there := by
    by_cases known : name < middle.names.size
    · rw [last.keeps.grows.occurrences name known] at there
      exact first.plain name found new there
    · exact last.plain name found (Nat.le_of_not_lt known) there

end Places

namespace PlacesOnly

variable {source : List Char} {placements later : List Placement} {before middle after : State}

theorem then_places (first : PlacesOnly source placements before middle)
    (last : Places source later middle after) :
    Places source (placements ++ later) before after where
  homed := last.homed
  keeps := first.keeps.trans last.keeps
  placed index placement isPlacement := by
    rcases Nat.lt_or_ge index placements.length with isFirst | isLast
    · rw [List.getElem?_append_left isFirst] at isPlacement
      exact (first.placed index placement isPlacement).keep last.keeps
    · rw [List.getElem?_append_right isLast] at isPlacement
      have placed := last.placed _ placement isPlacement
      have same : middle.names.size + (index - placements.length) = before.names.size + index := by
        rw [first.size]
        omega
      rwa [same] at placed
  plain name found new there := by
    have size := first.size
    rw [List.length_append] at new
    exact last.plain name found (by omega) there

theorem trans (first : PlacesOnly source placements before middle)
    (last : PlacesOnly source later middle after) :
    PlacesOnly source (placements ++ later) before after where
  toPlaces := first.then_places last.toPlaces
  size := by
    rw [last.size, first.size, List.length_append]
    omega

end PlacesOnly

section Declarations

variable {source : List Char} {state : State}

theorem local?_of_declare {tree : ParseTree} {context : Context} {scope binding : Nat}
    {kind : SymbolKind} {typeRef : Option TypeRef} (made : scope < state.scopes.next)
    (bound : (state.declare source tree context scope kind typeRef).2 = some binding) :
    (state.declare source tree context scope kind typeRef).1.scopes.local? kind.space
      (tree.text source) scope = some binding := by
  rw [declare_eq_settle] at bound ⊢
  by_cases spelled : tree.text source = ""
  · rw [settle_unspelled source state tree context scope kind typeRef _ spelled] at bound
    cases bound
  · obtain ⟨result, settles⟩ := settle_settles source state tree context scope kind typeRef
      (state.scopes.local? kind.space (tree.text source) scope) spelled (.inl rfl)
    have scopes := settles.scopes
    rw [result] at bound
    rw [scopes]
    cases found : state.scopes.local? kind.space (tree.text source) scope with
    | some existing =>
      rw [found] at bound
      exact found.trans bound
    | none =>
      rw [found] at bound
      cases bound
      exact Scopes.local?_declare_new kind.space_ne_qualifier found made

theorem places_declare (homed : Homed state) (tree : ParseTree) (context : Context) {scope : Nat}
    (made : scope < state.scopes.next) (kind : SymbolKind) (typeRef : Option TypeRef) :
    PlacesOnly source [⟨tree, scope, kind⟩] state
      (state.declare source tree context scope kind typeRef).1 := by
  have declares := declare_declares source state tree context scope kind typeRef
  refine ⟨⟨declares.homed homed, declares.keeps homed.apart, ?_, ?_⟩, by simp [declares.names]⟩
  · intro index placement isPlacement
    cases index with
    | succ index => simp at isPlacement
    | zero =>
      cases isPlacement
      exact ⟨_, declares.names ▸ Array.getElem?_push_size, rfl, rfl,
        fun _ => local?_of_declare made⟩
  · intro name found new there
    have inside := (Array.getElem?_eq_some_iff.1 there).1
    simp only [declares.names, Array.size_push, List.length_singleton] at inside new
    omega

theorem places_declareEach (homed : Homed state) (context : Context)
    (made : context.declareIn < state.scopes.next) (kind : SymbolKind) (trees : List ParseTree) :
    PlacesOnly source (trees.map (⟨·, context.declareIn, kind⟩)) state
      (trees.foldl (fun state child =>
        (state.declare source child context context.declareIn kind none).1) state) := by
  induction trees generalizing state with
  | nil => exact Places.refl homed
  | cons tree rest ih =>
    have first : PlacesOnly source _ state _ := places_declare homed tree context made kind none
    exact first.trans (ih first.homed (Nat.lt_of_lt_of_le made first.keeps.scopes))

theorem places_visitEach {placementOf? : ParseTree → Option Placement}
    {step : State → ParseTree → Visited} {bound : Nat} (trees : List ParseTree)
    (each : ∀ current : State, Homed current → bound ≤ current.scopes.next →
      ∀ child ∈ trees, PlacesOnly source (placementOf? child).toList current (step current child).1)
    (homed : Homed state) (made : bound ≤ state.scopes.next) :
    PlacesOnly source (trees.filterMap placementOf?) state (visitEach step trees state).1 := by
  induction trees generalizing state with
  | nil => exact Places.refl homed
  | cons tree rest ih =>
    have first := each state homed made tree List.mem_cons_self
    have others := ih
      (fun current homed made child member =>
        each current homed made child (List.mem_cons_of_mem _ member))
      first.homed (Nat.le_trans made first.keeps.scopes)
    have both := first.trans others
    have split : (tree :: rest).filterMap placementOf? =
        (placementOf? tree).toList ++ rest.filterMap placementOf? := by
      cases placed : placementOf? tree <;> simp [placed]
    rw [split]
    exact both

theorem places_openMembers (homed : Homed state) (binding : Option Nat) (kind : ScopeKind)
    (parent : Nat) : PlacesOnly source [] state (state.openMembers binding kind parent).1 :=
  Places.of_names_eq (by simp) (homed.openMembers binding kind parent)
    (keeps_openMembers state binding kind parent)

theorem places_segments (homed : Homed state) (inner : Context) (segments : List ParseTree)
    {scope : Nat} (made : scope < state.scopes.next) :
    PlacesOnly source (segmentPlacements source inner segments state scope) state
        (visitNamespaceSegments source inner segments state scope).1 ∧
      (visitNamespaceSegments source inner segments state scope).2 <
        (visitNamespaceSegments source inner segments state scope).1.scopes.next := by
  induction segments generalizing state scope with
  | nil => exact ⟨Places.refl homed, made⟩
  | cons segment rest ih =>
    have declared : PlacesOnly source _ state _ :=
      places_declare homed segment inner made .namespaceName none
    unfold segmentPlacements visitNamespaceSegments
    simp only
    generalize state.declare source segment inner scope .namespaceName none = result at declared ⊢
    obtain ⟨after, binding⟩ := result
    have isMade := openMembers_lt_next binding .namespaceBody scope declared.homed.members
    have entered : PlacesOnly source [] after _ :=
      places_openMembers declared.homed binding .namespaceBody scope
    obtain ⟨others, last⟩ := ih entered.homed isMade
    exact ⟨declared.trans (entered.trans others), last⟩

end Declarations

/-! ## Visits -/

section Visits

variable {source : List Char} {state : State}

theorem places_openDeclaration (homed : Homed state) (kind : String) (context : Context) :
    PlacesOnly source [] state (state.openDeclaration kind context).1 := by
  have grows := openDeclaration_grows state kind context
  have scopes := openDeclaration_scopes state kind context
  exact Places.of_names_eq (by simp) (homed.of_same grows scopes fun _ => by simp [memberScope?])
    (.of_same grows scopes)

theorem places_noteSpecifier (homed : Homed state) (tree : ParseTree) (scope : Nat) :
    PlacesOnly source [] state (state.noteSpecifier tree scope) := by
  have grows : Grows state (state.noteSpecifier tree scope) := .of_same rfl rfl rfl fun _ => rfl
  exact Places.of_names_eq rfl (homed.of_same grows rfl fun _ => rfl) (.of_same grows rfl)

theorem places_writtenOut (homed : Homed state) (tree : ParseTree) (binding : Option Nat)
    (kind : ScopeKind) (parent : Nat) :
    PlacesOnly source [] state
      ((state.openMembers binding kind parent).1.noteSpecifier tree
        (state.openMembers binding kind parent).2) :=
  have entered : PlacesOnly source [] state _ := places_openMembers homed binding kind parent
  entered.trans (places_noteSpecifier entered.homed tree _)

theorem places_visitTag (homed : Homed state) {tree : ParseTree} (inner : Context)
    {declareIn : Nat} (made : declareIn < state.scopes.next) (kind : SymbolKind)
    (allowTemplate : Bool)
    (unqualified : (tree.child? "name").any (fun name => isQualified name.kind) = false) :
    PlacesOnly source ((tagName? tree allowTemplate).toList.map (⟨·, declareIn, kind⟩)) state
      (visitTag source state tree inner declareIn kind allowTemplate).1.1 := by
  unfold visitTag tagName?
  cases isName : tree.child? "name" with
  | none => exact Places.refl homed
  | some name =>
    simp only [isName, Option.any_some] at unqualified
    simp only [unqualified, Option.bind_some, Bool.false_eq_true, if_false]
    split
    · cases name.child? "name" with
      | none => exact Places.refl homed
      | some plain => exact places_declare homed plain inner made kind none
    · exact places_declare homed name inner made kind none

theorem places_visitClass (homed : Homed state) {frame : Frame} (kind : SymbolKind)
    (made : frame.context.declareIn < state.scopes.next)
    (noEnumerator : frame.tree.form ≠ .enumerator)
    (unqualified : (frame.tree.child? "name").any (fun name => isQualified name.kind) = false) :
    Places source (frame.tagPlacements kind true) state
      (visitClass source state frame.tree frame.context kind frame.declaresTag).1 := by
  unfold visitClass Frame.tagPlacements
  simp only
  split
  · exact Places.of_silent (edits_visitElaborated state frame.tree frame.context) homed noEnumerator
  · have opened : PlacesOnly source [] state _ :=
      places_openDeclaration homed frame.tree.kind frame.context
    have tagged := opened.trans (places_visitTag opened.homed
      (state.openDeclaration frame.tree.kind frame.context).2
      (Nat.lt_of_lt_of_le made opened.keeps.scopes) kind true unqualified)
    generalize visitTag source (state.openDeclaration frame.tree.kind frame.context).1 frame.tree
      (state.openDeclaration frame.tree.kind frame.context).2 frame.context.declareIn kind true =
        tag at tagged ⊢
    obtain ⟨⟨declared, binding⟩, frames⟩ := tag
    split
    · exact tagged.toPlaces
    · have written := tagged.trans
        (places_writtenOut tagged.homed frame.tree binding .classBody frame.context.scope)
      rw [List.append_nil] at written
      refine written.toPlaces.then_nothing
        (.of_silent ?_ written.homed noEnumerator)
      apply edits_visitEach
      exact fun state child => edits_visitClassPart frame.tree _ _ state child

theorem places_visitEnum (homed : Homed state) {frame : Frame}
    (made : frame.context.declareIn < state.scopes.next)
    (noEnumerator : frame.tree.form ≠ .enumerator)
    (unqualified : (frame.tree.child? "name").any (fun name => isQualified name.kind) = false) :
    Places source (frame.tagPlacements .enumName false) state
      (visitEnum source state frame.tree frame.context frame.declaresTag).1 := by
  unfold visitEnum Frame.tagPlacements
  simp only
  split
  · exact Places.of_silent (edits_visitElaborated state frame.tree frame.context) homed noEnumerator
  · have opened : PlacesOnly source [] state _ :=
      places_openDeclaration homed frame.tree.kind frame.context
    have tagged := opened.trans (places_visitTag opened.homed
      (state.openDeclaration frame.tree.kind frame.context).2
      (Nat.lt_of_lt_of_le made opened.keeps.scopes) .enumName false unqualified)
    split
    · exact tagged.toPlaces.then_nothing
        (places_writtenOut tagged.homed frame.tree _ .namespaceBody frame.context.scope).toPlaces
    · exact tagged.toPlaces

theorem places_visitNamespace (homed : Homed state) (tree : ParseTree) (context : Context)
    (made : context.declareIn < state.scopes.next) :
    Places source
      (segmentPlacements source (state.openDeclaration tree.kind context).2
        (match tree.child? "name" with
          | some name => name.namespaceSegments
          | none => [])
        (state.openDeclaration tree.kind context).1 context.declareIn)
      state (visitNamespace source state tree context).1 := by
  have opened : PlacesOnly source [] state _ := places_openDeclaration homed tree.kind context
  exact (opened.trans (places_segments opened.homed _ _
    (Nat.lt_of_lt_of_le made opened.keeps.scopes)).1).toPlaces

theorem places_declaredChildren (homed : Homed state) (tree : ParseTree) (context : Context)
    (made : context.declareIn < state.scopes.next) (test : ParseTree → Prop) [DecidablePred test]
    (kind : SymbolKind) (typeRef : Option TypeRef) :
    Places source
      (tree.namedChildren.filterMap fun child =>
        if test child then some (⟨child, context.declareIn, kind⟩ : Placement) else none)
      state
      (let (opened, inner) := state.openDeclaration tree.kind context
       visitEach
         (fun state child =>
           if test child then
             ((state.declare source child inner context.declareIn kind typeRef).1, [])
           else (state, [Frame.child tree inner .plain child]))
         tree.namedChildren opened).1 := by
  have opened : PlacesOnly source [] state _ := places_openDeclaration homed tree.kind context
  refine (opened.trans (places_visitEach tree.namedChildren ?_ opened.homed
    (Nat.lt_of_lt_of_le made opened.keeps.scopes))).toPlaces
  intro current homed made child _
  split
  · exact places_declare homed child _ made kind typeRef
  · exact Places.refl homed

theorem places_visitDeclarator (homed : Homed state) (frame : Frame) (kind : SymbolKind)
    (typeRef : Option TypeRef) (parameters : Option Nat)
    (manner : frame.mode = .declarator kind typeRef parameters)
    (made : frame.context.declareIn < state.scopes.next)
    (noEnumerator : frame.tree.form ≠ .enumerator)
    (unqualified : isQualified frame.tree.kind = false) :
    Places source (frame.placements source state) state
      (visitDeclarator source state frame kind typeRef parameters).1 := by
  have nothing : Places source [] state state := (Places.refl homed).toPlaces
  simp only [visitDeclarator, Frame.placements, manner, unqualified, Bool.false_eq_true, if_false]
  split
  · exact (places_declare homed frame.tree frame.context made kind typeRef).toPlaces
  · split
    · rename_i isTemplate
      rw [if_neg (by rw [isTemplate]; decide), if_neg (by rw [isTemplate]; decide)]
      cases frame.tree.child? "name" with
      | none => exact nothing
      | some name => exact (places_declare homed name frame.context made kind typeRef).toPlaces
    · split
      · rename_i isStructured
        rw [if_neg (by rw [isStructured]; decide), if_neg (by rw [isStructured]; decide)]
        exact (places_declareEach homed frame.context made .variable _).toPlaces
      · split
        · exact .of_silent
            (edits_visitFunctionDeclarator state frame.tree frame.context kind typeRef parameters)
            homed noEnumerator
        · split
          · exact nothing
          · split <;> exact nothing

theorem visit_of_form (frame : Frame)
    (manner : frame.mode = .plain ∨ ∃ object, frame.mode = .member object)
    (declares : frame.tree.form ≠ .name) :
    visit source state frame =
      visitPlain source state frame.tree frame.declaresTag frame.context := by
  unfold visit
  rcases manner with plain | ⟨object, member⟩
  · simp only [plain]
  · have noMember : frame.tree.kind ≠ "field_identifier" := by
      intro isName
      apply declares
      rw [form, isName]
      decide
    simp only [member, if_neg noMember]

theorem placements_eq_nil {frame : Frame} (nothing : frame.declaredKind? = none) :
    frame.placements source state = [] := by
  have byForm (noForm : frame.tree.form.declaredKind? = none) :
      frame.formPlacements source state = [] := by
    unfold Frame.formPlacements
    split <;> simp_all [Form.declaredKind?]
  unfold Frame.declaredKind? at nothing
  unfold Frame.placements
  split <;> rename_i manner <;> simp only [manner] at nothing
  · exact byForm nothing
  · exact byForm nothing
  · split at nothing <;> cases nothing
  · rfl
  · rfl

theorem placements_eq_nil_of_isApart {frame : Frame} (apart : frame.isApart = true) :
    frame.placements source state = [] := by
  have ofTag (kind : SymbolKind) (allowTemplate : Bool)
      (qualified : (frame.tree.child? "name").any (fun name => isQualified name.kind) = true) :
      frame.tagPlacements kind allowTemplate = [] := by
    cases isName : frame.tree.child? "name" with
    | none => simp [isName] at qualified
    | some name =>
      rw [isName, Option.any_some] at qualified
      simp [Frame.tagPlacements, tagName?, isName, qualified]
  have byForm (isApart : frame.formIsApart = true) : frame.formPlacements source state = [] := by
    unfold Frame.formIsApart at isApart
    unfold Frame.formPlacements
    split at isApart
    · simp only [*]
    · simp only [*]
    · simp only [*]
    · cases isApart
  unfold Frame.isApart at apart
  unfold Frame.placements
  split <;> rename_i manner <;> simp only [manner] at apart
  · exact byForm apart
  · exact byForm apart
  · have noName : isPlainName frame.tree.kind = false := by
      apply Bool.eq_false_iff.2
      intro isName
      rw [isQualified_of_isPlainName isName] at apart
      cases apart
    have other : frame.tree.kind ≠ "template_function" ∧
        frame.tree.kind ≠ "structured_binding_declarator" := by
      constructor <;> intro same <;> rw [same] at apart <;> revert apart <;> decide
    simp [noName, other.1, other.2]
  · cases apart
  · cases apart

theorem places_visitPlain (homed : Homed state) (frame : Frame) {kind : SymbolKind}
    (made : frame.context.declareIn < state.scopes.next)
    (noEnumerator : frame.tree.form ≠ .enumerator) (unqualified : frame.formIsApart = false)
    (declares : frame.tree.form.declaredKind? = some kind) :
    Places source (frame.formPlacements source state) state
      (visitPlain source state frame.tree frame.declaresTag frame.context).1 := by
  unfold Frame.formIsApart at unqualified
  unfold Frame.formPlacements visitPlain
  cases form : frame.tree.form <;> simp only [form] at declares unqualified ⊢
  case classSpecifier kind => exact places_visitClass homed kind made noEnumerator unqualified
  case enumSpecifier => exact places_visitEnum homed made noEnumerator unqualified
  case enumerator => exact absurd form noEnumerator
  case namespaceDefinition => exact places_visitNamespace homed frame.tree frame.context made
  case typeParameter =>
    exact places_declaredChildren homed frame.tree frame.context made _ .templateParameter none
  case «alias» =>
    exact places_declaredChildren homed frame.tree frame.context made (·.field = "name") .typeAlias
      frame.tree.declaredType?
  case macroDefinition => cases unqualified
  all_goals cases declares

/-- A visit that declares no qualified name and no macro places what its frame says. -/
theorem visit_places (homed : Homed state) (frame : Frame)
    (under : frame.Under state.scopes.next) (noEnumerator : frame.tree.form ≠ .enumerator)
    (unqualified : frame.isApart = false) :
    Places source (frame.placements source state) state (visit source state frame).1 := by
  have edits : Edits source frame state _ := edits_visit source state frame
  have made := under.context.declareIn
  cases declares : frame.declaredKind? with
  | none =>
    rw [placements_eq_nil declares]
    exact .of_edits edits homed noEnumerator declares
  | some declared =>
    have byForm (manner : frame.mode = .plain ∨ ∃ object, frame.mode = .member object)
        (isKind : frame.tree.form.declaredKind? = some declared)
        (plain : frame.formIsApart = false) :
        Places source (frame.formPlacements source state) state (visit source state frame).1 := by
      have noName : frame.tree.form ≠ .name := by
        intro isName
        rw [isName] at isKind
        cases isKind
      rw [visit_of_form frame manner noName]
      exact places_visitPlain homed frame made noEnumerator plain isKind
    unfold Frame.declaredKind? at declares
    unfold Frame.isApart at unqualified
    unfold Frame.placements
    cases manner : frame.mode <;> simp only [manner] at declares unqualified ⊢
    case plain => exact byForm (.inl manner) declares unqualified
    case member object => exact byForm (.inr ⟨object, manner⟩) declares unqualified
    case declarator kind typeRef parameters =>
      have placed : Places source (frame.placements source state) state _ :=
        places_visitDeclarator homed frame kind typeRef parameters manner made noEnumerator
          unqualified
      simpa only [Frame.placements, visit, manner] using placed
    case body => cases declares
    case branch taken => cases declares

end Visits

end CrossReference.Walk
