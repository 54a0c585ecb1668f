import CrossReference.Proofs.Walk.Declare
import CrossReference.Walk.Visit
import Mathlib.Logic.Relation

/-!
# Visits as edits of the state

An `Edit` is one of the few ways in which a visit changes the state.  Every visit of a frame is a
run of edits of that frame, so that what each edit preserves is preserved by a visit.
-/

set_option autoImplicit false

namespace CrossReference

def ParseTree.Form.declaredKind? : Form → Option SymbolKind
  | .classSpecifier kind => some kind
  | .enumSpecifier => some .enumName
  | .enumerator => some .enumerator
  | .namespaceDefinition => some .namespaceName
  | .typeParameter => some .templateParameter
  | .alias => some .typeAlias
  | .macroDefinition => some .macroName
  | .silent | .function | .declaration _ | .template | .usingDeclaration | .directive
  | .conditional | .block | .lambda | .memberAccess | .name | .transparent => none

namespace Walk

open ParseTree Relation

def Frame.declaredKind? (frame : Frame) : Option SymbolKind :=
  match frame.mode with
  | .plain | .member _ => frame.tree.form.declaredKind?
  | .declarator kind _ _ =>
      if frame.tree.kind = "structured_binding_declarator" then some .variable else some kind
  | .body | .branch _ => none

def Frame.isDirective (frame : Frame) : Bool :=
  match frame.mode with
  | .plain | .member _ =>
      decide (frame.tree.form = .macroDefinition) || decide (frame.tree.form = .directive)
  | .body | .declarator _ _ _ | .branch _ => false

variable (source : List Char) (frame : Frame)

/-- One change that a visit of a frame makes to the state. -/
inductive Edit : State → State → Prop where
  /-- The declaration of the node is begun. -/
  | opened (state : State) : Edit state (state.openDeclaration frame.tree.kind frame.context).1
  | noted {before after : State} (notes : State.NotesNames before after) : Edit before after
  | declared {before after : State} {tree : ParseTree} {kind : SymbolKind} {result : Option Nat}
      (isKind : frame.declaredKind? = some kind)
      (declares : State.Declares source tree kind result before after) : Edit before after
  /-- An enumerator is declared, and made a member of its enum as well. -/
  | shared {before middle : State} {tree : ParseTree} {binding : Nat} (scope : Nat)
      (isEnumerator : frame.declaredKind? = some .enumerator)
      (declares : State.Declares source tree .enumerator (some binding) before middle)
      (form : frame.tree.form = .enumerator) :
      Edit before { middle with
        scopes := middle.scopes.declare scope .ordinary (tree.text source) binding tree.start }
  | pushed (state : State) (kind : ScopeKind) (parent : Nat) :
      Edit state (state.pushScope kind parent).1
  /-- The body of a class or of a namespace is entered. -/
  | entered (state : State) (binding : Option Nat) (kind : ScopeKind) (parent : Nat)
      (isBody : kind = .classBody ∨ kind = .namespaceBody) :
      Edit state (state.openMembers binding kind parent).1
  | specified (state : State) (tree : ParseTree) (scope : Nat) :
      Edit state (state.noteSpecifier tree scope)
  /-- A use of occurrences that declare nothing begins to wait. -/
  | awaited (state : State) (use : PendingUse)
      (plain : ∀ name ∈ use.names, ∃ found,
        state.names[name]? = some found ∧ found.declares = false) :
      Edit state { state with uses := state.uses.push use }
  /-- An occurrence that names a member begins to wait. -/
  | accessed (state : State) (member : PendingMember)
      (plain : ∃ found, state.names[member.name]? = some found ∧ found.declares = false) :
      Edit state { state with members := state.members.push member }
  | defined {before after : State} {tree : ParseTree} {result : Option Nat}
      (isDirective : frame.isDirective = true) (isKind : frame.declaredKind? = some .macroName)
      (defines : State.Defines source tree result before after) : Edit before after
  /-- The definition of a macro is taken back.  Its binding stays known. -/
  | revoked (state : State) (macros : List (String × MacroEntry)) (values : Condition.Macros)
      (isDirective : frame.isDirective = true)
      (held : ∀ text binding, State.HoldsMacro macros text binding →
        State.HoldsMacro state.macros text binding) :
      Edit state { state with macros := macros, macroValues := values }

abbrev Edits : State → State → Prop := ReflTransGen (Edit source frame)

variable {source frame}

/-- What each edit preserves, a run of edits preserves. -/
theorem Edits.invariant {holds : State → Prop}
    (each : ∀ before after, Edit source frame before after → holds before → holds after)
    {before after : State} (edits : Edits source frame before after) (initial : holds before) :
    holds after := by
  induction edits with
  | refl => exact initial
  | tail _ last ih => exact each _ _ last ih

theorem Edits.refl (state : State) : Edits source frame state state := ReflTransGen.refl

theorem Edits.notes {before after : State} (notes : State.NotesNames before after) :
    Edits source frame before after :=
  .single (.noted notes)

theorem edits_declare (state : State) (tree : ParseTree) (context : Context) (scope : Nat)
    {kind : SymbolKind} (typeRef : Option TypeRef) (isKind : frame.declaredKind? = some kind) :
    Edits source frame state (state.declare source tree context scope kind typeRef).1 :=
  .single (.declared isKind (State.declare_declares source state tree context scope kind typeRef))

theorem edits_declareQualified (state : State) (tree : ParseTree) (context : Context)
    {kind : SymbolKind} (typeRef : Option TypeRef) (isKind : frame.declaredKind? = some kind) :
    Edits source frame state (state.declareQualified source tree context kind typeRef).1 := by
  obtain same | ⟨middle, last, notes, declares⟩ :=
    State.declareQualified_declares source state tree context kind typeRef
  · rw [same]
  · exact (Edits.notes notes).trans (.single (.declared isKind declares))

theorem edits_visitUse (state : State) (tree : ParseTree) (context : Context)
    (space : NameSpace) (effect : Effect) :
    Edits source frame state (visitUse source state tree context space effect).1 := by
  obtain ⟨notes, new⟩ := State.addUses_notesNames source context
    (QualifiedName.ofTree tree).segments state
  have noted : Edits source frame state _ := .notes notes
  simp only [visitUse, State.noteUse]
  split
  · exact noted
  · refine noted.trans (.single (.awaited _ _ fun name member => ?_))
    obtain ⟨low, high⟩ := new name member
    exact ⟨_, Array.getElem?_eq_getElem high,
      notes.plain name _ low (Array.getElem?_eq_getElem high)⟩

theorem edits_visitEach {step : State → ParseTree → Visited} {trees : List ParseTree}
    (each : ∀ state tree, Edits source frame state (step state tree).1) (state : State) :
    Edits source frame state (visitEach step trees state).1 := by
  induction trees generalizing state with
  | nil => exact .refl _
  | cons tree rest ih => exact (each state tree).trans (ih _)

theorem edits_openDeclaration (state : State) :
    Edits source frame state (state.openDeclaration frame.tree.kind frame.context).1 :=
  .single (.opened state)

theorem edits_visitFunction (state : State) :
    Edits source frame state (visitFunction source state frame.tree frame.context).1 :=
  (edits_openDeclaration state).trans (.single (.pushed _ _ _))

theorem edits_visitElaborated (state : State) (tree : ParseTree) (context : Context) :
    Edits source frame state (visitElaborated source state tree context).1 := by
  refine edits_visitEach (fun state child => ?_) state
  split
  · exact edits_visitUse state child context .tag .none
  · exact .refl _

theorem visitTag_cases (source : List Char) (state : State) (tree : ParseTree) (inner : Context)
    (declareIn : Nat) (kind : SymbolKind) (allowTemplate : Bool) :
    (visitTag source state tree inner declareIn kind allowTemplate).1 = (state, none) ∨
      ∃ middle name result, State.NotesNames state middle ∧
        State.Declares source name kind result middle
          (visitTag source state tree inner declareIn kind allowTemplate).1.1 := by
  have plain (name : ParseTree) : ∃ middle node result, State.NotesNames state middle ∧
      State.Declares source node kind result middle
        (state.declare source name inner declareIn kind none).1 :=
    ⟨state, name, _, .refl state, State.declare_declares source state name inner declareIn kind none⟩
  unfold visitTag
  split
  · exact .inl rfl
  · rename_i name _
    split
    · obtain same | ⟨middle, last, notes, declares⟩ :=
        State.declareQualified_declares source state name inner kind none
      · exact .inl same
      · exact .inr ⟨middle, last, _, notes, declares⟩
    · split
      · simp only
        split
        · rename_i template _
          exact .inr (plain template)
        · exact .inl rfl
      · exact .inr (plain name)

theorem edits_visitTag (state : State) (tree : ParseTree) (inner : Context) (declareIn : Nat)
    {kind : SymbolKind} (allowTemplate : Bool) (isKind : frame.declaredKind? = some kind) :
    Edits source frame state
      (visitTag source state tree inner declareIn kind allowTemplate).1.1 := by
  obtain same | ⟨middle, name, result, notes, declares⟩ :=
    visitTag_cases source state tree inner declareIn kind allowTemplate
  · rw [same]
  · exact (Edits.notes notes).trans (.single (.declared isKind declares))

theorem edits_visitClassPart (tree : ParseTree) (inner : Context) (scope : Nat) (state : State)
    (child : ParseTree) :
    Edits source frame state (visitClassPart source tree inner scope state child).1 := by
  unfold visitClassPart
  split
  · exact .refl _
  · split
    · exact .refl _
    · split
      · refine edits_visitEach (fun state base => ?_) state
        split
        · exact edits_visitUse state base inner .qualifier _
        · exact .refl _
      · exact .refl _

theorem edits_visitClass (state : State) {kind : SymbolKind} (declaresTag : Bool)
    (isKind : frame.declaredKind? = some kind) :
    Edits source frame state
      (visitClass source state frame.tree frame.context kind declaresTag).1 := by
  unfold visitClass
  simp only
  split
  · exact edits_visitElaborated state frame.tree frame.context
  · have opened : Edits source frame state _ := edits_openDeclaration state
    have tagged := opened.trans
      (edits_visitTag (state.openDeclaration frame.tree.kind frame.context).1 frame.tree
        (state.openDeclaration frame.tree.kind frame.context).2 frame.context.declareIn true isKind)
    split
    · exact tagged
    · exact ((tagged.tail (.entered _ _ _ _ (.inl rfl))).tail (.specified _ _ _)).trans
        (edits_visitEach (fun state child => edits_visitClassPart frame.tree _ _ state child) _)

theorem edits_visitEnum (state : State) (declaresTag : Bool)
    (isKind : frame.declaredKind? = some .enumName) :
    Edits source frame state
      (visitEnum source state frame.tree frame.context declaresTag).1 := by
  unfold visitEnum
  simp only
  split
  · exact edits_visitElaborated state frame.tree frame.context
  · have opened : Edits source frame state _ := edits_openDeclaration state
    have tagged := opened.trans
      (edits_visitTag (state.openDeclaration frame.tree.kind frame.context).1 frame.tree
        (state.openDeclaration frame.tree.kind frame.context).2 frame.context.declareIn false
        isKind)
    split
    · exact (tagged.tail (.entered _ _ _ _ (.inr rfl))).tail (.specified _ _ _)
    · exact tagged

theorem edits_visitEnumerator (state : State) (form : frame.tree.form = .enumerator)
    (isKind : frame.declaredKind? = some .enumerator) :
    Edits source frame state
      (visitEnumerator source state frame.tree frame.context).1 := by
  refine (edits_openDeclaration state).trans (edits_visitEach (fun current child => ?_) _)
  split
  · exact .refl _
  · have declares (inner : Context) := State.declare_declares source current child inner
      frame.context.declareIn .enumerator none
    simp only
    split
    · rename_i binding bound
      split
      · exact .single (.shared _ isKind (bound ▸ declares _) form)
      · exact .single (.declared isKind (declares _))
    · exact .single (.declared isKind (declares _))

theorem edits_visitNamespaceSegments (inner : Context)
    (isKind : frame.declaredKind? = some .namespaceName) (segments : List ParseTree)
    (state : State) (scope : Nat) :
    Edits source frame state (visitNamespaceSegments source inner segments state scope).1 := by
  induction segments generalizing state scope with
  | nil => exact .refl _
  | cons segment rest ih =>
    exact ((edits_declare state segment inner scope none isKind).tail
      (.entered _ _ _ _ (.inr rfl))).trans (ih _ _)

theorem edits_visitNamespace (state : State)
    (isKind : frame.declaredKind? = some .namespaceName) :
    Edits source frame state (visitNamespace source state frame.tree frame.context).1 :=
  (edits_openDeclaration state).trans (edits_visitNamespaceSegments _ isKind _ _ _)

theorem edits_visitTypeParameter (state : State)
    (isKind : frame.declaredKind? = some .templateParameter) :
    Edits source frame state (visitTypeParameter source state frame.tree frame.context).1 := by
  refine (edits_openDeclaration state).trans (edits_visitEach (fun state child => ?_) _)
  split
  · exact edits_declare state child _ _ none isKind
  · exact .refl _

theorem edits_visitAlias (state : State) (isKind : frame.declaredKind? = some .typeAlias) :
    Edits source frame state (visitAlias source state frame.tree frame.context).1 := by
  refine (edits_openDeclaration state).trans (edits_visitEach (fun state child => ?_) _)
  split
  · exact edits_declare state child _ _ _ isKind
  · exact .refl _

theorem edits_visitUsing (state : State) :
    Edits source frame state (visitUsing source state frame.tree frame.context).1 := by
  refine (edits_openDeclaration state).trans (edits_visitEach (fun state child => ?_) _)
  split
  · exact edits_visitUse state child _ .ordinary _
  · exact .refl _

theorem edits_visitBlock (state : State) (tree : ParseTree) (context : Context) :
    Edits source frame state (visitBlock state tree context).1 := by
  unfold visitBlock
  simp only
  split <;> exact .single (.pushed _ _ _)

theorem edits_visitLambda (state : State) (tree : ParseTree) (context : Context) :
    Edits source frame state (visitLambda state tree context).1 :=
  .single (.pushed _ _ _)

theorem edits_visitTemplate (state : State) :
    Edits source frame state (visitTemplate state frame.tree frame.context).1 :=
  (edits_openDeclaration state).trans (.single (.pushed _ _ _))

theorem edits_visitFunctionDeclarator (state : State) (tree : ParseTree) (context : Context)
    (kind : SymbolKind) (typeRef : Option TypeRef) (parameters : Option Nat) :
    Edits source frame state
      (visitFunctionDeclarator state tree context kind typeRef parameters).1 := by
  cases parameters with
  | some scope => exact .refl _
  | none => exact .single (.pushed _ _ _)

theorem edits_declareEach (context : Context) (scope : Nat) {kind : SymbolKind}
    (isKind : frame.declaredKind? = some kind) (trees : List ParseTree) (state : State) :
    Edits source frame state
      (trees.foldl (fun state child => (state.declare source child context scope kind none).1)
        state) := by
  induction trees generalizing state with
  | nil => exact .refl _
  | cons tree rest ih => exact (edits_declare state tree context scope none isKind).trans (ih _)

theorem declaredKind?_of_declarator {kind : SymbolKind} {typeRef : Option TypeRef}
    {parameters : Option Nat} (manner : frame.mode = .declarator kind typeRef parameters) :
    frame.declaredKind? =
      if frame.tree.kind = "structured_binding_declarator" then some .variable else some kind := by
  simp [Frame.declaredKind?, manner]

theorem edits_visitDeclarator (state : State) (kind : SymbolKind) (typeRef : Option TypeRef)
    (parameters : Option Nat) (manner : frame.mode = .declarator kind typeRef parameters) :
    Edits source frame state
      (visitDeclarator source state frame kind typeRef parameters).1 := by
  have isKind := declaredKind?_of_declarator manner
  have noBinding {other : String} (different : other ≠ "structured_binding_declarator")
      (same : frame.tree.kind = other) : frame.declaredKind? = some kind := by
    rw [isKind, if_neg (same ▸ different)]
  unfold visitDeclarator
  simp only
  split
  · rename_i isName
    refine edits_declare state frame.tree frame.context _ typeRef (isKind.trans (if_neg ?_))
    intro same
    simp [same, isPlainName] at isName
  · split
    · rename_i isName
      refine edits_declareQualified state frame.tree frame.context typeRef
        (isKind.trans (if_neg ?_))
      intro same
      simp [same, isQualified] at isName
    · split
      · exact edits_visitFunctionDeclarator state frame.tree frame.context kind typeRef parameters
      · split
        · exact .refl _
        · split
          · rename_i isTemplate
            split
            · exact edits_declare state _ frame.context _ typeRef (noBinding (by decide) isTemplate)
            · exact .refl _
          · split
            · rename_i isStructured
              exact edits_declareEach frame.context _ (isKind.trans (if_pos isStructured)) _ state
            · split <;> exact .refl _

theorem holdsMacro_of_map {macros : List (String × MacroEntry)} {name text : String}
    {binding : Nat} (respan : List MacroSpan → List MacroSpan)
    (held : State.HoldsMacro (macros.map fun (other, entry) =>
      if other = name then (other, { entry with spans := respan entry.spans })
      else (other, entry)) text binding) : State.HoldsMacro macros text binding := by
  obtain ⟨entry, member, bound⟩ := held
  obtain ⟨⟨other, old⟩, isOld, same⟩ := List.mem_map.1 member
  simp only at same
  split at same
  · cases same
    exact ⟨old, isOld, bound⟩
  · cases same
    exact ⟨entry, isOld, bound⟩

theorem defineMacro_eq (state : State) (name : String) (start : Nat) :
    (∃ macros, (state.defineMacro name start).1 = { state with macros := macros }) ∨
      ∃ macros, (state.defineMacro name start).1 =
        { (state.addSymbol name .macroName).1 with macros := macros } := by
  unfold State.defineMacro
  split
  · exact .inl ⟨_, rfl⟩
  · exact .inr ⟨_, rfl⟩

theorem holdsMacro_of_defineMacro (state : State) (name : String) (start : Nat) (text : String)
    (binding : Nat)
    (held : State.HoldsMacro (state.defineMacro name start).1.macros text binding) :
    State.HoldsMacro state.macros text binding ∨
      text = name ∧ (state.defineMacro name start).1.head? binding = some (text, .macroName) := by
  unfold State.defineMacro at held ⊢
  split at held
  · exact .inl (holdsMacro_of_map (fun spans => spans ++ [⟨start, none⟩]) held)
  · obtain ⟨entry, member, bound⟩ := held
    rcases List.mem_append.1 member with old | new
    · exact .inl ⟨entry, old, bound⟩
    · cases List.mem_singleton.1 new
      refine .inr ⟨rfl, ?_⟩
      rw [← bound]
      simp [State.head?, State.addSymbol]

theorem defineMacro_holdsMacro (state : State) (name : String) (start : Nat) :
    State.HoldsMacro (state.defineMacro name start).1.macros name
      (state.defineMacro name start).2 := by
  unfold State.defineMacro
  split
  · rename_i other entry found
    have same : other = name := by simpa using List.find?_some found
    subst same
    refine ⟨{ entry with spans := entry.spans ++ [⟨start, none⟩] }, ?_, rfl⟩
    exact List.mem_map.2 ⟨(other, entry), List.mem_of_find?_eq_some found, if_pos rfl⟩
  · exact ⟨_, List.mem_append_right _ (List.mem_singleton_self _), rfl⟩

theorem defineMacro_defines (source : List Char) (state : State) (tree : ParseTree)
    (context : Context) (start : Nat) (values : Condition.Macros) {defined : State} {symbol : Nat}
    (result : (state.addName source tree context true).1.defineMacro (tree.text source) start =
      (defined, symbol)) :
    State.Defines source tree (some symbol) state
      { defined.setBinding state.names.size (some symbol) with macroValues := values } := by
  have names := State.modify_push state.names
    ⟨tree.text source, State.locationOf source tree, true, none⟩
    fun found => { found with binding := some symbol }
  have marks (declaration : Nat) := State.addName_mark? source state tree context true declaration
  have memberScopes (binding : Nat) := State.addSymbol_memberScope?
    (state.addName source tree context true).1 .macroName (tree.text source) binding
  have typeScopes (binding : Nat) := State.addSymbol_typeScope?
    (state.addName source tree context true).1 .macroName (tree.text source) binding
  have size := State.addName_size source state tree context true
  have shape := defineMacro_eq (state.addName source tree context true).1 (tree.text source) start
  have known :=
    defineMacro_holdsMacro (state.addName source tree context true).1 (tree.text source) start
  have held :=
    holdsMacro_of_defineMacro (state.addName source tree context true).1 (tree.text source) start
  rw [result] at shape known held
  have bound (binding : Nat) (same : some symbol = some binding) :
      State.HoldsMacro defined.macros (tree.text source) binding := Option.some.inj same ▸ known
  obtain ⟨macros, rfl⟩ | ⟨macros, rfl⟩ := shape
  · exact ⟨names, rfl, rfl, rfl, size, marks, fun _ => rfl, fun _ => rfl, Nat.le_refl _,
      fun _ => .inl rfl, held, bound⟩
  · refine ⟨names, rfl, rfl, rfl, size, marks, memberScopes, typeScopes, ?_, fun binding => ?_,
      held, bound⟩
    · simp [State.setBinding, State.addSymbol]
    · by_cases new : binding = state.symbols.size
      · exact .inr ⟨Nat.le_of_eq new.symm, by
          simp [State.head?, State.setBinding, State.addSymbol, new]⟩
      · exact .inl (by
          simp [State.head?, State.setBinding, State.addSymbol, Array.getElem?_push, new])

theorem edits_visitMacroDefinition (state : State) (isDirective : frame.isDirective = true)
    (isKind : frame.declaredKind? = some .macroName) :
    Edits source frame state (visitMacroDefinition source state frame.tree frame.context) := by
  have opened : Edits source frame state _ := edits_openDeclaration state
  unfold visitMacroDefinition
  simp only
  generalize (state.openDeclaration frame.tree.kind frame.context).2 = inner
  generalize (state.openDeclaration frame.tree.kind frame.context).1 = begun at opened ⊢
  split
  · exact opened
  · rename_i nameTree found
    split
    · exact opened.tail
        (.defined isDirective isKind (State.addName_defines source begun nameTree inner))
    · have defines (values : Condition.Macros) :=
        defineMacro_defines source begun nameTree inner frame.tree.stop values rfl
      split <;> exact opened.tail (.defined isDirective isKind (defines _))

theorem edits_visitDirective (state : State) (tree : ParseTree) (context : Context)
    (isDirective : frame.isDirective = true) :
    Edits source frame state (visitDirective source state tree context) := by
  unfold visitDirective
  simp only
  split
  · exact .refl _
  · split
    · exact .refl _
    · split <;> exact .single (.revoked _ _ _ isDirective
        fun _ _ => holdsMacro_of_map (endLast tree.start))

theorem edits_visitPlain (state : State) (declaresTag : Bool)
    (manner : frame.mode = .plain ∨ ∃ object, frame.mode = .member object) :
    Edits source frame state
      (visitPlain source state frame.tree declaresTag frame.context).1 := by
  have isKind {form : Form} (same : frame.tree.form = form) {kind : SymbolKind}
      (declared : form.declaredKind? = some kind) : frame.declaredKind? = some kind := by
    rcases manner with plain | ⟨object, member⟩ <;>
      simp [Frame.declaredKind?, *]
  have isDirective (form : frame.tree.form = .macroDefinition ∨ frame.tree.form = .directive) :
      frame.isDirective = true := by
    rcases manner with plain | ⟨object, member⟩ <;>
      simp [Frame.isDirective, *]
  unfold visitPlain
  split
  · exact .refl _
  · exact edits_visitFunction state
  · exact edits_openDeclaration state
  · rename_i form
    exact edits_visitClass state declaresTag (isKind form rfl)
  · rename_i form
    exact edits_visitEnum state declaresTag (isKind form rfl)
  · rename_i form
    exact edits_visitEnumerator state form (isKind form rfl)
  · rename_i form
    exact edits_visitNamespace state (isKind form rfl)
  · exact edits_visitTemplate state
  · rename_i form
    exact edits_visitTypeParameter state (isKind form rfl)
  · rename_i form
    exact edits_visitAlias state (isKind form rfl)
  · exact edits_visitUsing state
  · rename_i form
    exact edits_visitMacroDefinition state (isDirective (.inl form)) (isKind form rfl)
  · rename_i form
    exact edits_visitDirective state frame.tree frame.context (isDirective (.inr form))
  · exact .refl _
  · exact edits_visitBlock state frame.tree frame.context
  · exact edits_visitLambda state frame.tree frame.context
  · exact .refl _
  · exact edits_visitUse state frame.tree frame.context _ _
  · exact .refl _

/-- Every visit is a run of edits. -/
theorem edits_visit (source : List Char) (state : State) (frame : Frame) :
    Edits source frame state (visit source state frame).1 := by
  unfold visit
  split
  · rename_i plain
    exact edits_visitPlain state frame.declaresTag (.inl plain)
  · exact .refl _
  · rename_i kind typeRef parameters manner
    exact edits_visitDeclarator state kind typeRef parameters manner
  · rename_i object member
    split
    · have notes := State.addName_notesNames source state frame.tree frame.context
      exact (Edits.notes notes).tail (.accessed _ _ ⟨_, Array.getElem?_push_size, rfl⟩)
    · exact edits_visitPlain state frame.declaresTag (.inr ⟨object, member⟩)
  · exact .refl _

end Walk

end CrossReference
