import FileSpec.Text.Order
import Mathlib.Data.List.Lex
import Mathlib.Data.List.Nodup

/-!
# The order of texts

Texts are compared like words in a lexicon, and so are lists of texts. Sorting by such an order has
one result for all arrangements of the same elements, as long as no two of them have the same key.
-/

set_option autoImplicit false

namespace FileSpec.Text

/-- The order of characters by their code points. -/
def Below (first second : Char) : Prop :=
  first.toNat < second.toNat

instance : Std.Trichotomous Below where
  trichotomous _ _ notBelow notAbove :=
    Char.toNat_inj.mp (Nat.le_antisymm (Nat.not_lt.mp notAbove) (Nat.not_lt.mp notBelow))

instance : Std.Asymm Below where
  asymm _ _ := Nat.lt_asymm

instance : IsOrderConnected Char Below where
  conn _ second _ below := (Nat.lt_or_ge _ second.toNat).imp_right (Nat.lt_of_le_of_lt · below)

theorem comesBefore_iff (first second : List Char) :
    comesBefore first second = true ↔ List.Lex Below first second := by
  simp only [comesBefore, List.lex_eq_decide_lex, decide_eq_true_eq]
  rfl

theorem lex_comesBefore_iff (first second : List (List Char)) :
    first.lex second comesBefore = true ↔ List.Lex (List.Lex Below) first second := by
  simp only [List.lex_eq_decide_lex, decide_eq_true_eq, comesBefore_iff]

variable {Element : Type} (key : Element → List (List Char))

/-- An element does not come after another one, by the texts that a key lists for each. -/
def notAfter (first second : Element) : Bool :=
  !(key second).lex (key first) comesBefore

theorem notAfter_iff (first second : Element) :
    notAfter key first second = true ↔ ¬ List.Lex (List.Lex Below) (key second) (key first) := by
  rw [notAfter, Bool.not_eq_true', ← Bool.not_eq_true, lex_comesBefore_iff]

theorem pairwise_mergeSort_notAfter (elements : List Element) :
    (elements.mergeSort (notAfter key)).Pairwise fun first second =>
      notAfter key first second = true := by
  apply List.pairwise_mergeSort
  · intro first second third notAbove alsoNot
    rw [notAfter_iff] at notAbove alsoNot ⊢
    intro above
    rcases IsOrderConnected.conn _ (key second) _ above with either | other
    · exact alsoNot either
    · exact notAbove other
  · intro first second
    rw [Bool.or_eq_true, notAfter_iff, notAfter_iff]
    by_cases above : List.Lex (List.Lex Below) (key second) (key first)
    · exact .inr (asymm above)
    · exact .inl above

theorem mergeSort_notAfter_eq_of_perm {elements others : List Element}
    (distinct : (elements.map key).Nodup) (perm : elements.Perm others) :
    elements.mergeSort (notAfter key) = others.mergeSort (notAfter key) := by
  refine List.Perm.eq_of_pairwise ?_ (pairwise_mergeSort_notAfter key elements)
    (pairwise_mergeSort_notAfter key others)
    ((List.mergeSort_perm elements _).trans (perm.trans (List.mergeSort_perm others _).symm))
  intro first second isFirst isSecond notAbove alsoNot
  rw [notAfter_iff] at notAbove alsoNot
  apply List.inj_on_of_nodup_map distinct (List.mem_mergeSort.mp isFirst)
    (perm.mem_iff.mpr (List.mem_mergeSort.mp isSecond))
  exact Std.Trichotomous.trichotomous _ _ alsoNot notAbove

theorem sortTexts_eq (texts : List (List Char)) :
    sortTexts texts = texts.mergeSort (notAfter fun text => [text]) := by
  have same : (fun first second => !comesBefore second first) = notAfter fun text => [text] := by
    funext first second
    simp [notAfter, List.cons_lex_cons]
  rw [sortTexts, same]

@[simp]
theorem mem_sortTexts {texts : List (List Char)} {text : List Char} :
    text ∈ sortTexts texts ↔ text ∈ texts :=
  List.mem_mergeSort

/-- Different texts stand in a strict order after sorting. -/
theorem pairwise_sortTexts {texts : List (List Char)} (distinct : texts.Nodup) :
    (sortTexts texts).Pairwise (List.Lex Below) := by
  have stillDistinct : (sortTexts texts).Nodup :=
    (List.mergeSort_perm texts _).nodup_iff.mpr distinct
  have inOrder := pairwise_mergeSort_notAfter (fun text => [text]) texts
  rw [← sortTexts_eq] at inOrder
  refine (inOrder.and stillDistinct).imp fun ⟨notAbove, different⟩ => ?_
  rw [notAfter_iff] at notAbove
  by_contra notBelow
  exact different (Std.Trichotomous.trichotomous _ _ notBelow fun above => notAbove (.rel above))

end FileSpec.Text
