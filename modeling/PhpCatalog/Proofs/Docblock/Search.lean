/-
# Which comment is the docblock

The search for the docblock of a declaration starts at the sibling next to it and goes back.  It
passes over formatting that is no comment, and the first sibling that it does not pass over decides:

* a comment that opens as a docblock is the docblock, and is read (`find?_of_opens`);
* anything else blocks the search, and there is no docblock (`find?_of_blocks`).

What stands behind the deciding sibling is never looked at.
-/
import Mathlib.Tactic.Lemma
import PhpCatalog.Docblock

namespace PhpCatalog.Docblock

/-- A sibling that the search passes over: formatting that is no comment. -/
def Passed (n : Node) : Prop :=
  n.extra = true ∧ n.kind ∉ commentKinds ∧ n.kind ≠ "inline_comment"

/-- A comment that opens as a docblock, blanks in front allowed. -/
def Opens (source : ByteArray) (n : Node) : Prop :=
  n.kind ∈ commentKinds ∧ opener <+: Text.trimStart (n.chars source)

instance (n : Node) : Decidable (Passed n) :=
  inferInstanceAs (Decidable (_ ∧ _ ∧ _))

instance (source : ByteArray) (n : Node) : Decidable (Opens source n) :=
  inferInstanceAs (Decidable (_ ∧ _))

variable {source : ByteArray} {n : Node} {near far : List Node}

/-! ### One sibling -/

lemma find?_cons_of_passed (h : Passed n) : find? source (n :: far) = find? source far := by
  obtain ⟨hextra, hcomment, hinline⟩ := h
  simp [find?, hextra, hcomment, hinline]

lemma find?_cons_of_opens (h : Opens source n) :
    find? source (n :: far) = some (parse (n.chars source)) := by
  simp [find?, h.1, h.2]

/-- A sibling that is neither formatting nor a docblock ends the search. -/
lemma find?_cons_of_blocks (hpassed : ¬ Passed n) (hopens : ¬ Opens source n) :
    find? source (n :: far) = none := by
  by_cases hcomment : n.kind ∈ commentKinds
  · have hplain : ¬ opener <+: Text.trimStart (n.chars source) := fun h => hopens ⟨hcomment, h⟩
    simp [find?, hcomment, hplain]
  · have hends : n.kind = "inline_comment" ∨ n.extra = false := by
      rcases Decidable.em (n.kind = "inline_comment") with hinline | hinline
      · exact Or.inl hinline
      · refine Or.inr (Bool.eq_false_iff.mpr fun hextra => ?_)
        exact hpassed ⟨hextra, hcomment, hinline⟩
    simp [find?, hcomment, hends]

/-! ### Behind what was passed over -/

lemma find?_append_of_passed (h : ∀ m ∈ near, Passed m) :
    find? source (near ++ far) = find? source far := by
  induction near with
  | nil => rfl
  | cons m rest ih =>
    rw [List.forall_mem_cons] at h
    rw [List.cons_append, find?_cons_of_passed h.1, ih h.2]

lemma find?_of_opens (hnear : ∀ m ∈ near, Passed m) (h : Opens source n) :
    find? source (near ++ n :: far) = some (parse (n.chars source)) := by
  rw [find?_append_of_passed hnear, find?_cons_of_opens h]

lemma find?_of_blocks (hnear : ∀ m ∈ near, Passed m) (hpassed : ¬ Passed n)
    (hopens : ¬ Opens source n) : find? source (near ++ n :: far) = none := by
  rw [find?_append_of_passed hnear, find?_cons_of_blocks hpassed hopens]

/-- The siblings are passed over one and all, or one of them is the first that is not. -/
lemma deciding_cases (before : List Node) :
    (∀ m ∈ before, Passed m) ∨
      ∃ near n far, before = near ++ n :: far ∧ (∀ m ∈ near, Passed m) ∧ ¬ Passed n := by
  induction before with
  | nil => exact Or.inl (by simp)
  | cons n rest ih =>
    by_cases hn : Passed n
    · rcases ih with hall | ⟨near, s, far, rfl, hnear, hs⟩
      · exact Or.inl (List.forall_mem_cons.mpr ⟨hn, hall⟩)
      · exact Or.inr ⟨n :: near, s, far, rfl, List.forall_mem_cons.mpr ⟨hn, hnear⟩, hs⟩
    · exact Or.inr ⟨[], n, rest, rfl, by simp, hn⟩

/-- With a sibling that is not passed over, the search does not get behind it. -/
lemma find?_append_cons_congr (near other : List Node) (h : ¬ Passed n) :
    find? source (near ++ n :: other) = find? source (near ++ n :: far) := by
  induction near with
  | nil =>
    by_cases hopens : Opens source n
    · rw [List.nil_append, List.nil_append, find?_cons_of_opens hopens, find?_cons_of_opens hopens]
    · rw [List.nil_append, List.nil_append, find?_cons_of_blocks h hopens,
        find?_cons_of_blocks h hopens]
  | cons m rest ih => simp only [List.cons_append, find?, ih]

/-- Behind a sibling that blocks there is nothing to find. -/
lemma find?_append_of_blocks (near : List Node) (hpassed : ¬ Passed n) (hopens : ¬ Opens source n) :
    find? source (near ++ n :: far) = find? source near := by
  induction near with
  | nil => exact find?_cons_of_blocks hpassed hopens
  | cons m rest ih => simp only [List.cons_append, find?, ih]

/-- A comment from which the docblock of a declaration is read: it opens as a docblock, and the
siblings between it and the declaration are passed over. -/
def Documents (source : ByteArray) (before : List Node) (n : Node) : Prop :=
  ∃ near far, before = near ++ n :: far ∧ Opens source n ∧ ∀ m ∈ near, Passed m

lemma find?_of_documents {before : List Node} (h : Documents source before n) :
    find? source before = some (parse (n.chars source)) := by
  obtain ⟨near, far, rfl, hopens, hnear⟩ := h
  exact find?_of_opens hnear hopens

/-- What is found was read from a comment that documents. -/
lemma documents_of_find? {before : List Node} {d : Docblock} (h : find? source before = some d) :
    ∃ n, Documents source before n ∧ d = parse (n.chars source) := by
  rcases deciding_cases before with hall | ⟨near, n, far, rfl, hnear, hn⟩
  · have hend : find? source (before ++ []) = none := find?_append_of_passed hall
    rw [List.append_nil, h] at hend
    cases hend
  by_cases hopens : Opens source n
  · rw [find?_of_opens hnear hopens] at h
    exact ⟨n, ⟨near, far, rfl, hopens, hnear⟩, (Option.some.inj h).symm⟩
  · rw [find?_of_blocks hnear hn hopens] at h
    cases h

/-- **The first sibling that is not passed over decides.**  The docblock of a declaration is read
from a comment exactly if the comment opens as a docblock and every sibling between it and the
declaration is passed over; without such a comment there is none.  A sibling that blocks hides every
comment behind it, and nothing behind the deciding sibling has any influence. -/
theorem find?_decided_by_first (source : ByteArray) (before : List Node) :
    (∀ d, find? source before = some d ↔
      ∃ n, Documents source before n ∧ d = parse (n.chars source)) ∧
    (find? source before = none ↔ ∀ n, ¬ Documents source before n) ∧
    ∀ near n far, before = near ++ n :: far → ¬ Passed n →
      (¬ Opens source n → find? source before = find? source near) ∧
      ∀ other, find? source before = find? source (near ++ n :: other) := by
  refine ⟨fun d => ⟨documents_of_find?, ?_⟩, ⟨?_, ?_⟩, ?_⟩
  · rintro ⟨n, hn, rfl⟩
    exact find?_of_documents hn
  · intro h n hn
    rw [find?_of_documents hn] at h
    cases h
  · intro h
    rcases hfind : find? source before with _ | d
    · rfl
    · obtain ⟨n, hn, -⟩ := documents_of_find? hfind
      exact absurd hn (h n)
  · rintro near n far rfl hn
    exact ⟨find?_append_of_blocks near hn, fun other => find?_append_cons_congr near far hn⟩

/-- The bytes of `/** D *//*x*/`. -/
def commentSource : ByteArray :=
  ⟨#[47, 42, 42, 32, 68, 32, 42, 47, 47, 42, 120, 42, 47]⟩

/-- The comment `/** D */`. -/
def docComment : Node where
  kind := "comment"
  start := 0
  stop := 8
  startPoint := ⟨0, 0⟩
  stopPoint := ⟨0, 8⟩
  extra := true

/-- The comment `/*x*/`. -/
def plainComment : Node where
  kind := "comment"
  start := 8
  stop := 13
  startPoint := ⟨0, 8⟩
  stopPoint := ⟨0, 13⟩
  extra := true

/-- Formatting without bytes, behind both comments. -/
def gap : Node where
  kind := "text_interpolation"
  start := 13
  stop := 13
  startPoint := ⟨0, 13⟩
  stopPoint := ⟨0, 13⟩
  extra := true

/-- A docblock is found behind the gap, and is hidden where the plain comment is nearer. -/
theorem find?_commentSource :
    find? commentSource [gap, docComment, plainComment] = some { description := "D" } ∧
    find? commentSource [gap, plainComment, docComment] = none := by
  have hgap : ∀ m ∈ [gap], Passed m := by decide
  have hopens : Opens commentSource docComment := by decide +kernel
  have hplain : ¬ Opens commentSource plainComment := by decide +kernel
  have hparse : parse (docComment.chars commentSource) = { description := "D" } := by decide +kernel
  obtain ⟨hfound, -, -⟩ := find?_decided_by_first commentSource [gap, docComment, plainComment]
  obtain ⟨-, -, hblocked⟩ := find?_decided_by_first commentSource [gap, plainComment, docComment]
  refine ⟨(hfound _).mpr ⟨docComment, ⟨[gap], [plainComment], rfl, hopens, hgap⟩, hparse.symm⟩, ?_⟩
  exact (hblocked [gap] plainComment [docComment] rfl (by decide)).1 hplain

end PhpCatalog.Docblock
