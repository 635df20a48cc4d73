/-
# Texts in order

Sorting texts only moves them, and there is one order to move them to.  So lists with the same texts
are sorted alike, and what is left out before sorting may as well be left out after it.

Where repetitions are left out too, the result is strictly ascending (`pairwise_sortDistinct`),
depends only on which texts there are (`sortDistinct_congr`), and loses nothing when there are more
(`sortDistinct_sublist`).
-/
import Mathlib.Data.List.Induction
import Mathlib.Data.List.Nodup
import Mathlib.Data.List.Sort
import PhpCatalog.Text.Order

namespace PhpCatalog.Text

lemma perm_sortTexts (texts : List String) : (sortTexts texts).Perm texts :=
  List.mergeSort_perm texts _

lemma pairwise_sortTexts (texts : List String) : (sortTexts texts).Pairwise (· ≤ ·) := by
  have htrans : ∀ a b c : String, decide (a ≤ b) = true → decide (b ≤ c) = true →
      decide (a ≤ c) = true := by
    simpa using fun a b c => String.le_trans
  have htotal : ∀ a b : String, (decide (a ≤ b) || decide (b ≤ a)) = true := by
    simpa using String.le_total
  exact (List.pairwise_mergeSort htrans htotal texts).imp of_decide_eq_true

/-- Texts in order are what sorting makes of the same texts in any order. -/
lemma eq_sortTexts {sorted texts : List String} (hperm : sorted.Perm texts)
    (hsorted : sorted.Pairwise (· ≤ ·)) : sorted = sortTexts texts := by
  refine (hperm.trans (perm_sortTexts texts).symm).eq_of_pairwise ?_ hsorted
    (pairwise_sortTexts texts)
  exact fun a b _ _ => String.le_antisymm

lemma sortTexts_congr {a b : List String} (h : a.Perm b) : sortTexts a = sortTexts b :=
  eq_sortTexts ((perm_sortTexts a).trans h) (pairwise_sortTexts a)

lemma filter_sortTexts (p : String → Bool) (texts : List String) :
    (sortTexts texts).filter p = sortTexts (texts.filter p) :=
  eq_sortTexts ((perm_sortTexts texts).filter p) ((pairwise_sortTexts texts).filter p)

lemma mem_sortTexts {text : String} {texts : List String} :
    text ∈ sortTexts texts ↔ text ∈ texts :=
  (perm_sortTexts texts).mem_iff

/-! ### Different texts -/

lemma eraseDups_concat (texts : List String) (text : String) :
    (texts ++ [text]).eraseDups =
      if text ∈ texts then texts.eraseDups else texts.eraseDups ++ [text] := by
  rw [List.eraseDups_append]
  by_cases h : text ∈ texts <;> simp [List.removeAll, h, List.eraseDups_cons]

lemma eraseDups_sublist (texts : List String) : texts.eraseDups.Sublist texts := by
  induction texts using List.reverseRecOn with
  | nil => exact List.Sublist.refl _
  | append_singleton texts text ih =>
    rw [eraseDups_concat]
    split
    · exact ih.trans (List.sublist_append_left _ _)
    · exact ih.append_right [text]

lemma nodup_eraseDups (texts : List String) : texts.eraseDups.Nodup := by
  induction texts using List.reverseRecOn with
  | nil => exact List.nodup_nil
  | append_singleton texts text ih =>
    rw [eraseDups_concat]
    split
    · exact ih
    · rename_i hnew
      exact ih.append (List.nodup_singleton text) (by simpa [List.mem_eraseDups] using hnew)

lemma eraseDups_of_nodup {texts : List String} (h : texts.Nodup) : texts.eraseDups = texts := by
  induction texts using List.reverseRecOn with
  | nil => rfl
  | append_singleton texts text ih =>
    obtain ⟨hfront, -, hdisjoint⟩ := List.nodup_append.mp h
    have hnew : text ∉ texts := fun hmem => hdisjoint text hmem text (by simp) rfl
    rw [eraseDups_concat, if_neg hnew, ih hfront]

/-- The first text of a kind is not left out. -/
lemma find?_eraseDups (q : String → Bool) (texts : List String) :
    texts.eraseDups.find? q = texts.find? q := by
  induction texts using List.reverseRecOn with
  | nil => rfl
  | append_singleton texts text ih =>
    rw [eraseDups_concat, List.find?_append]
    by_cases hmem : text ∈ texts
    · rw [if_pos hmem, ih]
      cases hfind : texts.find? q with
      | some first => rfl
      | none => simpa using List.find?_eq_none.mp hfind text hmem
    · rw [if_neg hmem, List.find?_append, ih]

lemma nodup_sortDistinct (texts : List String) : (sortDistinct texts).Nodup :=
  (perm_sortTexts _).nodup_iff.mpr (nodup_eraseDups texts)

lemma mem_sortDistinct {text : String} {texts : List String} :
    text ∈ sortDistinct texts ↔ text ∈ texts := by
  rw [sortDistinct, mem_sortTexts, List.mem_eraseDups]

lemma pairwise_sortDistinct (texts : List String) : (sortDistinct texts).Pairwise (· < ·) := by
  have hle := pairwise_sortTexts texts.eraseDups
  refine (hle.and (nodup_sortDistinct texts)).imp ?_
  rintro a b ⟨hab, hne⟩
  exact Decidable.byContradiction fun hlt =>
    hne (String.le_antisymm hab (String.not_lt.mp hlt))

/-- More texts leave what there was in its order. -/
lemma sortDistinct_sublist {a b : List String} (h : a ⊆ b) :
    (sortDistinct a).Sublist (sortDistinct b) := by
  have hsubset : sortDistinct a ⊆ sortDistinct b := fun text htext =>
    mem_sortDistinct.mpr (h (mem_sortDistinct.mp htext))
  have hantisymm : @Std.Antisymm String (· ≤ ·) := ⟨fun _ _ => String.le_antisymm⟩
  exact List.sublist_of_subperm_of_pairwise (List.subperm_of_subset (nodup_sortDistinct a) hsubset)
    (pairwise_sortTexts _) (pairwise_sortTexts _)

lemma sortDistinct_congr {a b : List String} (h : ∀ text, text ∈ a ↔ text ∈ b) :
    sortDistinct a = sortDistinct b := by
  apply sortTexts_congr
  rw [List.perm_ext_iff_of_nodup (nodup_eraseDups a) (nodup_eraseDups b)]
  intro text
  rw [List.mem_eraseDups, List.mem_eraseDups, h]

end PhpCatalog.Text
