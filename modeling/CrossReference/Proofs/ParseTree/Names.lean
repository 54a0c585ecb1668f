import CrossReference.ParseTree.Form

/-!
# Names

Plain and qualified names are told apart by their kinds, and have the form of a name.  A plain name is
the only segment of itself.
-/

set_option autoImplicit false

namespace CrossReference

namespace ParseTree

theorem isQualified_of_isPlainName {kind : String} (isName : isPlainName kind = true) :
    isQualified kind = false := by
  simp only [isPlainName, List.mem_cons, List.not_mem_nil, or_false, decide_eq_true_eq] at isName
  rcases isName with rfl | rfl | rfl | rfl | rfl | rfl <;> decide

theorem isTemplateName_of_isPlainName {kind : String} (isName : isPlainName kind = true) :
    isTemplateName kind = false := by
  simp only [isPlainName, List.mem_cons, List.not_mem_nil, or_false, decide_eq_true_eq] at isName
  rcases isName with rfl | rfl | rfl | rfl | rfl | rfl <;> decide

theorem form_of_isPlainName {tree : ParseTree} (isName : isPlainName tree.kind = true) :
    tree.form = .name := by
  unfold form
  generalize tree.kind = kind at isName ⊢
  simp only [isPlainName, List.mem_cons, List.not_mem_nil, or_false, decide_eq_true_eq] at isName
  rcases isName with rfl | rfl | rfl | rfl | rfl | rfl <;> decide

theorem form_of_isQualified {tree : ParseTree} (qualified : isQualified tree.kind = true) :
    tree.form = .name := by
  unfold form
  generalize tree.kind = kind at qualified ⊢
  simp only [isQualified, List.mem_cons, List.not_mem_nil, or_false, decide_eq_true_eq] at qualified
  rcases qualified with rfl | rfl | rfl <;> decide

theorem ofTree_of_plain {name scope last : ParseTree} (qualified : isQualified name.kind = true)
    (isScope : name.child? "scope" = some scope) (isLast : name.child? "name" = some last)
    (plain : isPlainName scope.kind = true) (plainToo : isPlainName last.kind = true)
    (noTemplate : isTemplateName scope.kind = false) (noTemplateToo : isTemplateName last.kind = false) :
    QualifiedName.ofTree name = ⟨false, false, [scope, last], []⟩ := by
  have unqualified := isQualified_of_isPlainName plainToo
  rw [QualifiedName.ofTree, QualifiedName.ofTreeFrom, if_pos qualified]
  split
  · rename_i found isFound
    obtain rfl := Option.some.inj (isLast.symm.trans isFound)
    rw [QualifiedName.ofTreeFrom, unqualified, if_neg Bool.false_ne_true]
    simp [QualifiedName.qualifier, QualifiedName.segment, QualifiedName.append, isScope, plain,
      plainToo, noTemplate, noTemplateToo]
  · rename_i missing
    rw [isLast] at missing
    cases missing

end ParseTree

open ParseTree

theorem QualifiedName.ofTree_of_isPlainName {tree : ParseTree}
    (isName : isPlainName tree.kind = true) :
    QualifiedName.ofTree tree = ⟨false, false, [tree], []⟩ := by
  rw [ofTree, ofTreeFrom, isQualified_of_isPlainName isName, if_neg Bool.false_ne_true, segment,
    isTemplateName_of_isPlainName isName, if_neg Bool.false_ne_true, if_pos isName]

end CrossReference
