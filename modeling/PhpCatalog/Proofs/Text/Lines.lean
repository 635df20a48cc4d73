/-
# Lines of joined texts

Texts without line breaks that are joined by line feeds come back as the lines of the whole.  The
last text must not be empty, for a text that ends in a line feed has no further line after it.

Two texts of any kind with a line feed between them keep their lines: one empty line may come
between them, and nothing else changes (`exists_lines_append_feed`).
-/
import Mathlib.Tactic.Lemma
import PhpCatalog.Text.Lines

namespace PhpCatalog.Text

/-- A text without line breaks. -/
def BreakFree (s : List Char) : Prop :=
  ∀ c ∈ s, isBreak c = false

instance (s : List Char) : Decidable (BreakFree s) :=
  decidable_of_iff (s.all (!isBreak ·) = true) (by simp [BreakFree])

lemma BreakFree.append {a b : List Char} (ha : BreakFree a) (hb : BreakFree b) :
    BreakFree (a ++ b) :=
  List.forall_mem_append.mpr ⟨ha, hb⟩

lemma BreakFree.intercalate {sep : List Char} (hsep : BreakFree sep) {parts : List (List Char)}
    (h : ∀ p ∈ parts, BreakFree p) : BreakFree (sep.intercalate parts) := by
  induction parts with
  | nil => exact fun _ hc => absurd hc List.not_mem_nil
  | cons p rest ih =>
    have hp := h p List.mem_cons_self
    by_cases hrest : rest = []
    · subst hrest
      simpa using hp
    · rw [List.intercalate_cons_of_ne_nil hrest]
      exact (hp.append hsep).append (ih fun q hq => h q (List.mem_cons_of_mem _ hq))

/-- A text that is not free of breaks has a first one. -/
lemma exists_break {s : List Char} (h : ¬ BreakFree s) :
    ∃ before c after, s = before ++ c :: after ∧ BreakFree before ∧ isBreak c = true := by
  induction s with
  | nil => exact absurd (by simp [BreakFree]) h
  | cons d s ih =>
    rcases hd : isBreak d with _ | _
    · have hrest : ¬ BreakFree s := fun hfree => h (List.forall_mem_cons.mpr ⟨hd, hfree⟩)
      obtain ⟨before, c, after, rfl, hbefore, hc⟩ := ih hrest
      exact ⟨d :: before, c, after, rfl, List.forall_mem_cons.mpr ⟨hd, hbefore⟩, hc⟩
    · exact ⟨[], d, s, rfl, by simp [BreakFree], hd⟩

lemma breakFree_map_iff {f : Char → Char} (h : ∀ c, isBreak (f c) = isBreak c) {s : List Char} :
    BreakFree (s.map f) ↔ BreakFree s := by
  simp [BreakFree, h]

lemma lines_cons {c : Char} (h : isBreak c = false) (rest : List Char) :
    lines (c :: rest) = (c :: (lines rest).headD []) :: (lines rest).tail := by
  have hcr : c ≠ '\r' := by
    rintro rfl
    exact absurd h (by decide)
  rw [lines.eq_3 _ _ (by simp [hcr]), h]
  rcases lines rest with _ | ⟨line, others⟩ <;> rfl

lemma lines_newline (rest : List Char) : lines ('\n' :: rest) = [] :: lines rest := by
  rw [lines.eq_3 _ _ (by simp)]
  rfl

/-- A text without breaks and a line feed behind it are one line. -/
lemma lines_append_newline {line : List Char} (h : BreakFree line) (rest : List Char) :
    lines (line ++ '\n' :: rest) = line :: lines rest := by
  induction line with
  | nil => exact lines_newline rest
  | cons c line ih =>
    rw [List.cons_append, lines_cons (h c List.mem_cons_self),
      ih fun d hd => h d (List.mem_cons_of_mem _ hd)]
    rfl

lemma lines_single {line : List Char} (hne : line ≠ []) (h : BreakFree line) :
    lines line = [line] := by
  induction line with
  | nil => exact absurd rfl hne
  | cons c line ih =>
    rw [lines_cons (h c List.mem_cons_self)]
    by_cases hnil : line = []
    · subst hnil
      rfl
    · rw [ih hnil fun d hd => h d (List.mem_cons_of_mem _ hd)]
      rfl

/-- Texts without breaks that are joined by line feeds are the lines of the whole, if the last of
them is not empty. -/
lemma lines_intercalate {parts : List (List Char)} {last : List Char} (hne : last ≠ [])
    (hlast : BreakFree last) (h : ∀ p ∈ parts, BreakFree p) :
    lines (['\n'].intercalate (parts ++ [last])) = parts ++ [last] := by
  induction parts with
  | nil => simpa using lines_single hne hlast
  | cons p rest ih =>
    rw [List.cons_append, List.intercalate_cons_of_ne_nil (by simp), List.append_assoc,
      List.singleton_append, lines_append_newline (h p List.mem_cons_self),
      ih fun q hq => h q (List.mem_cons_of_mem _ hq)]

/-- No line has a break in it. -/
lemma breakFree_of_mem_lines {s line : List Char} (h : line ∈ lines s) : BreakFree line := by
  have hnil : BreakFree [] := fun _ hc => absurd hc List.not_mem_nil
  induction s using lines.induct generalizing line with
  | case1 => exact absurd h List.not_mem_nil
  | case2 rest ih =>
    rw [lines] at h
    rcases List.mem_cons.mp h with rfl | h
    · exact hnil
    · exact ih h
  | case3 c rest hpair hbreak ih =>
    rw [lines.eq_3 _ _ hpair, if_pos hbreak] at h
    rcases List.mem_cons.mp h with rfl | h
    · exact hnil
    · exact ih h
  | case4 c rest hpair hplain hnone ih =>
    rw [lines.eq_3 _ _ hpair, if_neg hplain, hnone, List.mem_singleton] at h
    subst h
    simpa [BreakFree] using hplain
  | case5 c rest hpair hplain line others hrest ih =>
    rw [lines.eq_3 _ _ hpair, if_neg hplain, hrest] at h
    rw [hrest] at ih
    rcases List.mem_cons.mp h with rfl | h
    · exact List.forall_mem_cons.mpr ⟨Bool.not_eq_true _ ▸ hplain, ih List.mem_cons_self⟩
    · exact ih (List.mem_cons_of_mem _ h)

/-! ### Texts that end or begin with breaks -/

/-- A break ends the line before it, unless it is a carriage return before a line feed. -/
lemma lines_break {c : Char} {rest : List Char} (hc : isBreak c = true)
    (h : ∀ tail, c = '\r' → rest ≠ '\n' :: tail) : lines (c :: rest) = [] :: lines rest := by
  rw [lines.eq_3 _ _ h, if_pos hc]

/-- A text without breaks is a line when a break follows it, and what comes after that line are
lines of what follows the break. -/
lemma exists_lines_append_break {line : List Char} (h : BreakFree line) {c : Char}
    (hc : isBreak c = true) (rest : List Char) :
    ∃ more, lines (line ++ c :: rest) = line :: more ∧ more ⊆ lines rest := by
  induction line with
  | nil =>
    by_cases hjoin : c = '\r' ∧ ∃ tail, rest = '\n' :: tail
    · -- a carriage return takes the line feed behind it along
      obtain ⟨rfl, tail, rfl⟩ := hjoin
      rw [lines_newline]
      exact ⟨lines tail, rfl, List.subset_cons_self _ _⟩
    · have hapart : ∀ tail, c = '\r' → rest ≠ '\n' :: tail :=
        fun tail hcr hrest => hjoin ⟨hcr, tail, hrest⟩
      exact ⟨lines rest, lines_break hc hapart, List.Subset.refl _⟩
  | cons d line ih =>
    rw [BreakFree, List.forall_mem_cons] at h
    obtain ⟨more, hlines, hmore⟩ := ih h.2
    refine ⟨more, ?_, hmore⟩
    rw [List.cons_append, lines_cons h.1, hlines]
    rfl

lemma lines_cons_ne_nil (c : Char) (rest : List Char) : lines (c :: rest) ≠ [] := by
  unfold lines
  split
  · next h => cases h
  · simp
  · split
    · simp
    · split <;> simp

/-- Two texts with a line feed between them have the lines of the first, then the lines of the
second.  Between them stands an empty line if the first text is empty, or ends in a break that does
not join the line feed. -/
lemma exists_lines_append_feed (a : List Char) :
    ∃ gap, (gap = [] ∨ gap = [[]]) ∧ ∀ b, lines (a ++ '\n' :: b) = lines a ++ gap ++ lines b := by
  induction a using lines.induct with
  | case1 => exact ⟨[[]], Or.inr rfl, lines_newline⟩
  | case2 rest ih =>
    obtain ⟨gap, hgap, hlines⟩ := ih
    exact ⟨gap, hgap, fun b => by simp only [List.cons_append, lines, hlines]⟩
  | case3 c rest hpair hbreak ih =>
    by_cases hjoin : c = '\r' ∧ rest = []
    · -- the carriage return at the end of the first text joins the line feed
      obtain ⟨rfl, rfl⟩ := hjoin
      exact ⟨[], Or.inl rfl, fun b => rfl⟩
    obtain ⟨gap, hgap, hlines⟩ := ih
    refine ⟨gap, hgap, fun b => ?_⟩
    have hapart : ∀ tail, c = '\r' → rest ++ '\n' :: b ≠ '\n' :: tail := by
      intro tail hc happend
      obtain ⟨d, rest, rfl⟩ := List.exists_cons_of_ne_nil fun hnil => hjoin ⟨hc, hnil⟩
      exact hpair rest hc (congrArg (· :: rest) (List.cons.inj happend).1)
    rw [List.cons_append, lines_break hbreak hapart, lines_break hbreak hpair, hlines]
    rfl
  | case4 c rest _ hplain hnil ih =>
    have hfree : BreakFree [c] := by simpa [BreakFree] using hplain
    rcases rest with _ | ⟨d, rest⟩
    · refine ⟨[], Or.inl rfl, fun b => ?_⟩
      rw [lines_append_newline hfree, lines_single (by simp) hfree]
      rfl
    · exact absurd hnil (lines_cons_ne_nil d rest)
  | case5 c rest _ hplain line others hrest ih =>
    obtain ⟨gap, hgap, hlines⟩ := ih
    refine ⟨gap, hgap, fun b => ?_⟩
    have hc : isBreak c = false := Bool.not_eq_true _ ▸ hplain
    rw [List.cons_append, lines_cons hc, lines_cons hc, hlines, hrest]
    rfl

end PhpCatalog.Text
