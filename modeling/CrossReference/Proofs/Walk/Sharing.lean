import CrossReference.Proofs.ParseTree.Names
import CrossReference.Proofs.ParseTree.Within
import CrossReference.Proofs.Walk.NameSpaces

/-!
# Which names share the symbol of a tag

A name of a function, variable, field, parameter or enumerator has the symbol of a tag just if a
look-up in the scope that receives its declaration finds that tag, which only happens where tags
are types.
-/

set_option autoImplicit false

namespace CrossReference.Walk

open ParseTree State

/-- The scope that receives what a frame declares.  A qualified declarator declares among the
members of its owner, if it has one. -/
def Frame.declaringScope? (source : List Char) (state : State) (frame : Frame) : Option Nat :=
  match frame.mode with
  | .declarator _ _ _ =>
      if isQualified frame.tree.kind then
        (state.prefixed source frame.tree frame.context).owner?
      else some frame.context.declareIn
  | .plain | .member _ | .body | .branch _ => some frame.context.declareIn

def State.ordinaryIn? (state : State) (scope? : Option Nat) (text : String) : Option Nat :=
  scope?.bind (state.scopes.local? .ordinary text)

theorem State.ordinaryIn?_eq_some_iff {state : State} {scope? : Option Nat} {text : String}
    {binding : Nat} :
    state.ordinaryIn? scope? text = some binding ↔
      ∃ scope, scope? = some scope ∧ state.scopes.local? .ordinary text scope = some binding :=
  Option.bind_eq_some_iff

theorem SettlesIn.bindsBy {scope : Nat} {before after : State}
    (settles : SettlesIn scope before after) :
    BindsBy (before.ordinaryIn? (some scope)) before after :=
  settles.toBindsBy

theorem BindsBy.of_addName (source : List Char) {state middle : State}
    (notes : NotesNames state middle) (tree : ParseTree) (context : Context) :
    BindsBy (state.ordinaryIn? none) state (middle.addName source tree context true).1 := by
  have unbound (name : Nat) (found : NameNode) (new : state.names.size ≤ name)
      (there : (middle.addName source tree context true).1.names[name]? = some found)
      (declares : found.declares = true) : found.binding = none := by
    rw [addName_names, Array.getElem?_push] at there
    split at there
    · cases there
      rfl
    · rw [notes.plain name found new there] at declares
      cases declares
  refine ⟨fun name found binding new there declares bound => ?_,
    fun name found new there declares binding _ => ?_⟩
  · rw [unbound name found new there declares] at bound
    cases bound
  · rw [unbound name found new there declares]
    rfl

/-! ## Visits of declarators and enumerators -/

section Visits

variable {source : List Char} {state : State}

theorem declare_settlesIn (tree : ParseTree) (context : Context) (scope : Nat) {kind : SymbolKind}
    (typeRef : Option TypeRef) (ordinary : kind.space = .ordinary)
    (apart : state.scopes.Apart state.head?) :
    SettlesIn scope state (state.declare source tree context scope kind typeRef).1 := by
  rw [declare_eq_settle]
  exact settle_settlesIn source tree context scope typeRef ordinary apart

theorem declareEach_settlesIn (context : Context) (scope : Nat) {kind : SymbolKind}
    (ordinary : kind.space = .ordinary) (trees : List ParseTree) (state : State)
    (apart : state.scopes.Apart state.head?) :
    SettlesIn scope state
      (trees.foldl (fun state child => (state.declare source child context scope kind none).1)
        state) := by
  induction trees generalizing state with
  | nil => exact .refl apart
  | cons tree rest ih =>
    have first : SettlesIn scope state (state.declare source tree context scope kind none).1 :=
      declare_settlesIn tree context scope none ordinary apart
    exact first.trans (ih _ first.apart)

theorem declareQualified_bindsBy (tree : ParseTree) (context : Context) {kind : SymbolKind}
    (typeRef : Option TypeRef) (ordinary : kind.space = .ordinary)
    (apart : state.scopes.Apart state.head?) :
    BindsBy (state.ordinaryIn? (state.prefixed source tree context).owner?) state
      (state.declareQualified source tree context kind typeRef).1 := by
  have notes := state.prefixed_notesNames source tree context
  rw [declareQualified_eq_settle]
  split
  · exact .of_plain (plain_of_names_eq rfl)
  · rename_i last _
    simp only
    generalize state.prefixed source tree context = reached at notes ⊢
    have later : reached.state.scopes.Apart reached.state.head? := by
      rw [notes.scopes]
      exact apart.mono fun _ _ => notes.grows.head?_eq
    cases reached.owner? with
    | none => exact .of_addName source notes last context
    | some owner =>
      have first : SettlesIn owner state reached.state :=
        .quiet notes.grows later notes.plain fun _ => by rw [notes.scopes]
      simp only [Scopes.lookupMember_eq_local? _ _ _ (later.imports_eq owner)]
      exact SettlesIn.bindsBy
        (first.trans (settle_settlesIn source last context owner typeRef ordinary later))

theorem openDeclaration_settlesIn (kind : String) (context : Context) (scope : Nat)
    (apart : state.scopes.Apart state.head?) :
    SettlesIn scope state (state.openDeclaration kind context).1 := by
  have grows := state.openDeclaration_grows kind context
  refine .quiet grows ?_ (plain_of_names_eq (by simp)) (by simp)
  rw [openDeclaration_scopes]
  exact apart.mono fun _ _ => grows.head?_eq

theorem visitEach_settlesIn {scope : Nat} {step : State → ParseTree → Visited}
    (each : ∀ (state : State) (tree : ParseTree), state.scopes.Apart state.head? →
      SettlesIn scope state (step state tree).1)
    (trees : List ParseTree) (state : State) (apart : state.scopes.Apart state.head?) :
    SettlesIn scope state (visitEach step trees state).1 := by
  induction trees generalizing state with
  | nil => exact .refl apart
  | cons tree rest ih =>
    have first := each state tree apart
    exact first.trans (ih _ first.apart)

theorem shared_settlesIn {scope other : Nat} (different : other ≠ scope) {tree : ParseTree}
    {kind : SymbolKind} {binding : Nat} {after : State} (ordinary : kind.space = .ordinary)
    (declares : Declares source tree kind (some binding) state after)
    (apart : state.scopes.Apart state.head?) (settles : SettlesIn scope state after) :
    SettlesIn scope state { after with
      scopes := after.scopes.declare other .ordinary (tree.text source) binding tree.start } := by
  obtain ⟨spelled, suits⟩ := declares.suits apart
  rw [← declares.types, ordinary] at suits
  refine settles.trans (.quiet (.of_same rfl rfl rfl fun _ => rfl)
    (settles.apart.declare other _ spelled suits) (plain_of_names_eq rfl) fun text => ?_)
  exact Scopes.local?_declare_of_ne _ different _ _ _ _ _ _

/-- That an enumerator becomes a member of its enum as well is not seen in the scope that receives
it. -/
theorem visitEnumerator_settlesIn (tree : ParseTree) (context : Context)
    (apart : state.scopes.Apart state.head?) :
    SettlesIn context.declareIn state (visitEnumerator source state tree context).1 := by
  have opened := openDeclaration_settlesIn tree.kind context context.declareIn apart
  refine opened.trans (visitEach_settlesIn (fun current child apart => ?_) _ _ opened.apart)
  have settles (inner : Context) : SettlesIn context.declareIn current
      (current.declare source child inner context.declareIn .enumerator none).1 :=
    declare_settlesIn child inner context.declareIn none rfl apart
  split
  · exact .refl apart
  · simp only
    split
    · rename_i binding bound
      split
      · rename_i different
        exact shared_settlesIn different rfl
          (bound ▸ declare_declares source current child _ context.declareIn .enumerator none)
          apart (settles _)
      · exact settles _
    · exact settles _

theorem form_of_isEntity {tree : ParseTree} {kind : SymbolKind}
    (isKind : tree.form.declaredKind? = some kind) (entity : kind.isEntity = true) :
    tree.form = .enumerator := by
  have onlyEnumerators : ∀ entry ∈ Form.table,
      entry.2.declaredKind?.any SymbolKind.isEntity = true → entry.2 = .enumerator := by decide
  unfold form Form.ofKind at isKind ⊢
  split
  · rename_i kinds form found
    rw [found] at isKind
    exact onlyEnumerators _ (List.mem_of_find?_eq_some found) (by simp_all)
  · rename_i none
    rw [none] at isKind
    simp only at isKind
    split at isKind <;> cases isKind

theorem visitDeclarator_bindsBy (frame : Frame) {kind : SymbolKind} (typeRef : Option TypeRef)
    (parameters : Option Nat) (manner : frame.mode = .declarator kind typeRef parameters)
    (entity : frame.declaredKind?.any SymbolKind.isEntity = true)
    (apart : state.scopes.Apart state.head?) :
    BindsBy (state.ordinaryIn? (frame.declaringScope? source state)) state
      (visitDeclarator source state frame kind typeRef parameters).1 := by
  rw [declaredKind?_of_declarator manner] at entity
  have ordinary (other : frame.tree.kind ≠ "structured_binding_declarator") :
      kind.space = .ordinary := by
    rw [if_neg other] at entity
    exact SymbolKind.space_of_isEntity entity
  have unqualified (plain : isQualified frame.tree.kind = false) :
      frame.declaringScope? source state = some frame.context.declareIn := by
    simp [Frame.declaringScope?, manner, plain]
  unfold visitDeclarator
  simp only
  split
  · rename_i isName
    rw [unqualified (isQualified_of_isPlainName isName)]
    refine SettlesIn.bindsBy (declare_settlesIn frame.tree frame.context _ typeRef
      (ordinary fun same => ?_) apart)
    simp [same, isPlainName] at isName
  · split
    · rename_i qualified
      have declares :
          BindsBy (state.ordinaryIn? (state.prefixed source frame.tree frame.context).owner?) state
          (state.declareQualified source frame.tree frame.context kind typeRef).1 :=
        declareQualified_bindsBy frame.tree frame.context typeRef
          (ordinary fun same => by simp [same, isQualified] at qualified) apart
      simpa [Frame.declaringScope?, manner, qualified, visitQualified] using declares
    · rename_i plain
      rw [unqualified (by simpa using plain)]
      have nothing : BindsBy (state.ordinaryIn? (some frame.context.declareIn)) state state :=
        .of_plain (plain_of_names_eq rfl)
      split
      · cases parameters with
        | some scope => exact nothing
        | none => exact .of_plain (plain_of_names_eq rfl)
      · split
        · exact nothing
        · split
          · rename_i isTemplate
            split
            · exact SettlesIn.bindsBy (declare_settlesIn _ frame.context _ typeRef
                (ordinary (by simp [isTemplate])) apart)
            · exact nothing
          · split
            · exact SettlesIn.bindsBy
                (declareEach_settlesIn frame.context _ rfl _ state apart)
            · split <;> exact nothing

/-- A frame that declares such names binds them by look-ups in the scope that receives them. -/
theorem visit_bindsBy (frame : Frame) {kind : SymbolKind} (isKind : frame.declaredKind? = some kind)
    (entity : kind.isEntity = true) (apart : state.scopes.Apart state.head?) :
    BindsBy (state.ordinaryIn? (frame.declaringScope? source state)) state
      (visit source state frame).1 := by
  have isEntity : frame.declaredKind?.any SymbolKind.isEntity = true := by simp [isKind, entity]
  unfold Frame.declaredKind? at isKind
  unfold visit
  split <;> rename_i manner <;> simp only [manner] at isKind
  · have enumerator := form_of_isEntity isKind entity
    simp only [visitPlain, enumerator, Frame.declaringScope?, manner]
    exact SettlesIn.bindsBy (visitEnumerator_settlesIn frame.tree frame.context apart)
  · cases isKind
  · exact visitDeclarator_bindsBy frame _ _ manner isEntity apart
  · have enumerator := form_of_isEntity isKind entity
    split
    · rename_i isName
      rw [form, isName] at enumerator
      exact absurd enumerator (by decide)
    · simp only [visitPlain, enumerator, Frame.declaringScope?, manner]
      exact SettlesIn.bindsBy (visitEnumerator_settlesIn frame.tree frame.context apart)
  · cases isKind

end Visits

/-! ## The unit of a tree -/

variable (source : List Char) (language : Language) (tree : ParseTree)

/-- At a moment of the walk over a tree, the visit of a frame adds an occurrence that declares a
name of a kind. -/
structure DeclaresAt (name : Nat) (text : String) (kind : SymbolKind) (state : State)
    (frame : Frame) : Prop where
  moment : ∃ visited waiting, Reaches source (State.initial (language = .cpp)) [Frame.root tree]
    visited state (frame :: waiting)
  isKind : frame.declaredKind? = some kind
  new : state.names.size ≤ name
  added : ∃ found, (visit source state frame).1.names[name]? = some found ∧
    found.declares = true ∧ found.text = text

def IsTagName (name : Nat) : Prop :=
  ∃ text kind state frame,
    kind.space = .tag ∧ DeclaresAt source language tree name text kind state frame

/-- What holds at every moment of a walk: the tables hold what they should, each name that is
declared has been declared at an earlier moment, and each tag has a name that declares it. -/
structure Named (state : State) : Prop where
  apart : state.scopes.Apart state.head?
  types : state.scopes.tagsAreTypes = decide (language = .cpp)
  declared : ∀ (name : Nat) (found : NameNode), state.names[name]? = some found →
    found.declares = true → ∃ kind moment frame,
      DeclaresAt source language tree name found.text kind moment frame
  tags : ∀ binding, IsTag state binding → ∃ name found, IsTagName source language tree name ∧
    state.names[name]? = some found ∧ found.declares = true ∧ found.binding = some binding

variable {source language tree}

theorem Named.initial : Named source language tree (State.initial (language = .cpp)) where
  apart := .initial _
  types := rfl
  declared name found there := by simp [State.initial] at there
  tags binding tag := by simpa [State.initial] using tag.lt_size

theorem Named.visit {state : State} {frame : Frame} {visited waiting : List Frame}
    (named : Named source language tree state)
    (moment : Reaches source (State.initial (language = .cpp)) [Frame.root tree] visited state
      (frame :: waiting)) : Named source language tree (visit source state frame).1 := by
  have tags := (edits_visit source state frame).tags named.apart
  have declaredNow {kind : SymbolKind} (isKind : frame.declaredKind? = some kind) {name : Nat}
      {found : NameNode} (new : state.names.size ≤ name)
      (there : (Walk.visit source state frame).1.names[name]? = some found)
      (declares : found.declares = true) :
      DeclaresAt source language tree name found.text kind state frame :=
    ⟨⟨_, _, moment⟩, isKind, new, found, there, declares, rfl⟩
  refine ⟨tags.apart, tags.types.trans named.types, fun name found there declares => ?_,
    fun binding tag => ?_⟩
  · by_cases known : name < state.names.size
    · rw [tags.grows.occurrences name known] at there
      exact named.declared name found there declares
    · have new := Nat.le_of_not_lt known
      obtain ⟨kind, isKind⟩ := tags.kinds name found new there declares
      exact ⟨kind, state, frame, declaredNow isKind new there declares⟩
  · obtain ⟨head, isHead, isTag⟩ := tag
    by_cases known : binding < state.symbols.size
    · rw [tags.grows.heads binding known] at isHead
      obtain ⟨name, found, isName, there, rest⟩ := named.tags binding ⟨head, isHead, isTag⟩
      exact ⟨name, found, isName, tags.grows.occurrence_eq there, rest⟩
    · obtain ⟨isKind, name, found, new, there, declares, bound⟩ :=
        tags.symbols binding head (Nat.le_of_not_lt known) isHead isTag
      exact ⟨name, found, ⟨_, _, _, _, isTag, declaredNow isKind new there declares⟩, there,
        declares, bound⟩

theorem Reaches.named {visited waiting : List Frame} {state : State}
    (reached : Reaches source (State.initial (language = .cpp)) [Frame.root tree] visited state
      waiting) : Named source language tree state :=
  reached.invariant (fun _ state _ => Named source language tree state) .initial
    fun _ _ _ _ moment named => named.visit moment

theorem Reaches.grows_walked {visited waiting : List Frame} {state : State}
    (reached : Reaches source (State.initial (language = .cpp)) [Frame.root tree] visited state
      waiting) : Grows state (SourceUnit.walked source language tree) := by
  have grows := run_grows source state waiting
  rwa [reached.run_eq] at grows

/-- What declares is bound in a unit as it was in the walk. -/
theorem binding?_of_declares {withDeclarations : Bool} {name : Nat} {found : NameNode}
    (there : (SourceUnit.walked source language tree).names[name]? = some found)
    (declares : found.declares = true) :
    (SourceUnit.ofTree source language withDeclarations tree).toTranslationUnit.binding? name =
      found.binding := by
  obtain ⟨binding, after, kept⟩ :=
    (walked_rebinds source language tree).occurrences name found there
  simp [TranslationUnit.binding?, SourceUnit.toTranslationUnit, SourceUnit.ofTree, after,
    kept declares]

theorem exists_declaresAt {withDeclarations : Bool} {name : Nat} {found : NameNode}
    (there : (SourceUnit.ofTree source language withDeclarations tree).names[name]? = some found)
    (declares : found.declares = true) :
    ∃ kind state frame, DeclaresAt source language tree name found.text kind state frame := by
  have rebinds := walked_rebinds source language tree
  obtain ⟨inside, -⟩ := Array.getElem?_eq_some_iff.1 there
  have known : name < (SourceUnit.walked source language tree).names.size := rebinds.names ▸ inside
  obtain ⟨binding, after, -⟩ := rebinds.occurrences name _ (Array.getElem?_eq_getElem known)
  obtain rfl := Option.some.inj (after.symm.trans there)
  obtain ⟨visited, ended⟩ :=
    exists_reaches_run source (State.initial (language = .cpp)) [Frame.root tree]
  have named : Named source language tree (SourceUnit.walked source language tree) := ended.named
  exact named.declared name (SourceUnit.walked source language tree).names[name]
    (Array.getElem?_eq_getElem known) declares

namespace DeclaresAt

variable {name : Nat} {text : String} {kind : SymbolKind} {state : State} {frame : Frame}

theorem named (declared : DeclaresAt source language tree name text kind state frame) :
    Named source language tree state := by
  obtain ⟨visited, waiting, reached⟩ := declared.moment
  exact reached.named

theorem grows_walked (declared : DeclaresAt source language tree name text kind state frame) :
    Grows (visit source state frame).1 (SourceUnit.walked source language tree) := by
  obtain ⟨visited, waiting, reached⟩ := declared.moment
  exact reached.visit.grows_walked

theorem isTag (declared : DeclaresAt source language tree name text kind state frame)
    (tag : kind.space = .tag) {withDeclarations : Bool} {binding : Nat}
    (bound : (SourceUnit.ofTree source language withDeclarations tree).toTranslationUnit.binding?
      name = some binding) : IsTag (SourceUnit.walked source language tree) binding := by
  obtain ⟨found, there, declares, -⟩ := declared.added
  rw [binding?_of_declares (declared.grows_walked.occurrence_eq there) declares] at bound
  exact (((edits_visit source state frame).tags declared.named.apart).names kind declared.isKind
    tag name found binding declared.new there declares bound).of_grows declared.grows_walked

theorem isTag_of_isTag (declared : DeclaresAt source language tree name text kind state frame)
    (noTag : kind.space ≠ .tag) {binding : Nat} {head : String × SymbolKind}
    (there : (visit source state frame).1.head? binding = some head)
    (tag : IsTag (SourceUnit.walked source language tree) binding) : IsTag state binding := by
  obtain ⟨later, isLater, isTag⟩ := tag
  obtain rfl : head = later :=
    Option.some.inj ((declared.grows_walked.head?_eq there).symm.trans isLater)
  have tags := (edits_visit source state frame).tags declared.named.apart
  by_cases known : binding < state.symbols.size
  · exact ⟨head, tags.grows.heads binding known ▸ there, isTag⟩
  · obtain ⟨isKind, -⟩ := tags.symbols binding head (Nat.le_of_not_lt known) there isTag
    obtain rfl : kind = head.2 := Option.some.inj (declared.isKind.symm.trans isKind)
    exact absurd isTag noTag

end DeclaresAt

/-- All names that a unit declares have been declared at moments of the walk.  One of a function,
variable, field, parameter or enumerator has the symbol of a tag just if tags are types and a
look-up in the scope that received it gave a tag at that moment; where tags are no types the two
are always told apart. -/
theorem shares_symbol_with_tag_iff (source : List Char) (language : Language)
    (withDeclarations : Bool) (tree : ParseTree) :
    (∀ (name : Nat) (found : NameNode),
      (SourceUnit.ofTree source language withDeclarations tree).names[name]? = some found →
      found.declares = true →
        ∃ kind state frame, DeclaresAt source language tree name found.text kind state frame) ∧
    ∀ (name : Nat) (text : String) (kind : SymbolKind) (state : State) (frame : Frame),
      DeclaresAt source language tree name text kind state frame → kind.isEntity = true →
        ((∃ tagName binding, IsTagName source language tree tagName ∧
            (SourceUnit.ofTree source language withDeclarations tree).toTranslationUnit.binding?
              tagName = some binding ∧
            (SourceUnit.ofTree source language withDeclarations tree).toTranslationUnit.binding?
              name = some binding) ↔
          language = .cpp ∧ ∃ scope binding, frame.declaringScope? source state = some scope ∧
            state.scopes.local? .ordinary text scope = some binding ∧ IsTag state binding) := by
  refine ⟨fun name found => exists_declaresAt, fun name text kind state frame declared entity => ?_⟩
  have noTag : kind.space ≠ .tag := by simp [SymbolKind.space_of_isEntity entity]
  have binds : BindsBy (state.ordinaryIn? (frame.declaringScope? source state)) state
      (visit source state frame).1 :=
    visit_bindsBy frame declared.isKind entity declared.named.apart
  obtain ⟨found, there, declares, rfl⟩ := declared.added
  have isBinding (binding : Nat) :
      (SourceUnit.ofTree source language withDeclarations tree).toTranslationUnit.binding? name =
        some binding ↔ found.binding = some binding := by
    rw [binding?_of_declares (declared.grows_walked.occurrence_eq there) declares]
  constructor
  · rintro ⟨tagName, binding, ⟨_, _, _, _, tag, tagDeclared⟩, tagBound, bound⟩
    rw [isBinding] at bound
    obtain ⟨head, isHead⟩ := binds.known name found binding declared.new there declares bound
    have isTag := declared.isTag_of_isTag noTag isHead (tagDeclared.isTag tag tagBound)
    obtain ⟨scope, isScope, here⟩ :=
      State.ordinaryIn?_eq_some_iff.1
        ((binds.binds name found declared.new there declares binding isTag).1 bound)
    refine ⟨?_, scope, binding, isScope, here, isTag⟩
    obtain ⟨-, other, isOther, suits⟩ := declared.named.apart.suits_of_local? (by decide) here
    obtain ⟨same, isSame, tagKind⟩ := isTag
    obtain rfl : other = same := Option.some.inj (isOther.symm.trans isSame)
    refine Classical.byContradiction fun notCpp => ?_
    exact suits (by rw [declared.named.types]; simp [notCpp]) tagKind
  · rintro ⟨-, scope, binding, isScope, here, isTag⟩
    have bound := (binds.binds name found declared.new there declares binding isTag).2
      (State.ordinaryIn?_eq_some_iff.2 ⟨scope, isScope, here⟩)
    obtain ⟨tagName, tagFound, isTagName, tagThere, tagDeclares, tagBound⟩ :=
      declared.named.tags binding isTag
    have grows := (visit_grows source state frame).1.trans declared.grows_walked
    refine ⟨tagName, binding, isTagName, ?_, (isBinding binding).2 bound⟩
    rw [binding?_of_declares (grows.occurrence_eq tagThere) tagDeclares, tagBound]

/-! ## A tag and a variable of one name -/

def sharedName : List Char := "struct s; int s;".toList

def structName : ParseTree := ruleNode 2 "type_identifier" "name" 7 8 []

def structNode : ParseTree := ruleNode 1 "struct_specifier" "" 0 8 [structName]

def typeNode : ParseTree := ruleNode 4 "primitive_type" "type" 10 13 []

def variableNode : ParseTree := ruleNode 5 "identifier" "declarator" 14 15 []

def declarationNode : ParseTree :=
  ruleNode 3 "declaration" "" 10 16 [typeNode, variableNode]

def sharedNameTree : ParseTree :=
  ruleNode 0 "translation_unit" "" 0 16 [structNode, declarationNode]

theorem visit_sharedNameTree (state : State) :
    visit sharedName state (Frame.root sharedNameTree) =
      (state, [⟨structNode, true, .file, .plain⟩, ⟨declarationNode, true, .file, .plain⟩]) := by
  have form : sharedNameTree.form = .transparent := by decide
  simp only [visit, Frame.root, visitPlain, form]
  rfl

theorem visit_structNode (state : State) :
    visit sharedName state ⟨structNode, true, .file, .plain⟩ =
      (let (opened, inner) := state.openDeclaration "struct_specifier" .file
       (opened.declare sharedName structName inner Scopes.file .structName none).1, []) := by
  have form : structNode.form = .classSpecifier .structName := by decide
  simp only [visit, visitPlain, form]
  rfl

theorem visit_declarationNode (state : State) :
    visit sharedName state ⟨declarationNode, true, .file, .plain⟩ =
      (let (opened, inner) := state.openDeclaration "declaration" .file
       (opened, [⟨typeNode, false, inner, .plain⟩,
         ⟨variableNode, false, inner, .declarator .variable none none⟩])) := by
  have form : declarationNode.form = .declaration .variable := by decide
  have type : declarationNode.declaredType? = none := by decide +kernel
  simp only [visit, visitPlain, form, visitDeclaration, type]
  rfl

theorem visit_typeNode (state : State) (context : Context) :
    visit sharedName state ⟨typeNode, false, context, .plain⟩ = (state, []) := by
  have form : typeNode.form = .silent := by decide
  simp only [visit, visitPlain, form]

/-- The variable has the symbol of the struct. -/
theorem variable_shares_symbol_of_struct :
    ∃ state frame,
      DeclaresAt sharedName .cpp sharedNameTree 1 "s" .variable state frame ∧
      SymbolKind.variable.isEntity = true ∧
      ∃ tagName binding, IsTagName sharedName .cpp sharedNameTree tagName ∧
        (SourceUnit.ofTree sharedName .cpp true sharedNameTree).toTranslationUnit.binding?
          tagName = some binding ∧
        (SourceUnit.ofTree sharedName .cpp true sharedNameTree).toTranslationUnit.binding? 1 =
          some binding := by
  have begun : Reaches sharedName (State.initial (Language.cpp = .cpp))
      [Frame.root sharedNameTree] [] _ _ := .start
  have reached := (((begun.visit_eq (visit_sharedNameTree _)).visit_eq
    (visit_structNode _)).visit_eq (visit_declarationNode _)).visit_eq (visit_typeNode _ _)
  have declared : DeclaresAt sharedName .cpp sharedNameTree 1 "s" .variable _ _ :=
    ⟨⟨_, _, reached⟩, rfl, by decide +kernel,
      ⟨"s", some ⟨14, 1⟩, true, some 0⟩, by decide +kernel, rfl, rfl⟩
  refine ⟨_, _, declared, rfl, ?_⟩
  refine ((shares_symbol_with_tag_iff sharedName .cpp true sharedNameTree).2 1 "s" .variable _ _
    declared rfl).2 ⟨rfl, Scopes.file, 0, rfl, by decide +kernel, ("s", .structName), ?_, rfl⟩
  decide +kernel

end CrossReference.Walk
