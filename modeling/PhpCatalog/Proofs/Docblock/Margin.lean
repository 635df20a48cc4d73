/-
# What stands around a line of a comment

A line of a comment has its content between two margins: in front blanks, perhaps the mark that
opens a docblock, stars and blanks again, and behind it blanks and perhaps the closing mark.
Cleaning the line takes both margins away and nothing else (`Margin.clean_around`), where the
content is a tag; only a content that ends like the closing mark needs a real one behind it.
-/
import PhpCatalog.Proofs.Docblock.Rendering

namespace PhpCatalog.Docblock

open Text (isBlank Solid trim)

/-- What may stand around the content of a line. -/
structure Margin where
  /-- The blanks in front. -/
  indent : List Char := []
  /-- Whether the mark that opens a docblock stands in the line. -/
  opens : Bool := false
  /-- The number of stars in front of the content. -/
  stars : Nat := 0
  /-- The blanks right before the content. -/
  gap : List Char := []
  /-- The blanks right behind the content. -/
  trail : List Char := []
  /-- Whether the closing mark stands in the line. -/
  closes : Bool := false
  /-- The blanks at the end. -/
  rest : List Char := []
  blank : (indent ++ gap ++ trail ++ rest).all isBlank = true := by decide

namespace Margin

variable (m : Margin) {content : List Char}

/-- The content with what follows it up to the closing mark. -/
def closed (content : List Char) : List Char :=
  content ++ if m.closes then m.trail ++ closer else []

/-- The blanks at the end of the line. -/
def ending : List Char :=
  if m.closes then m.rest else m.trail ++ m.rest

/-- A line with some content. -/
def around (content : List Char) : List Char :=
  m.indent ++ ((if m.opens then opener else []) ++
    (List.replicate m.stars '*' ++ m.gap ++ m.closed content)) ++ m.ending

lemma indent_blank : ∀ c ∈ m.indent, isBlank c = true :=
  fun c hc => List.all_eq_true.mp m.blank c (by simp [hc])

lemma gap_blank : ∀ c ∈ m.gap, isBlank c = true :=
  fun c hc => List.all_eq_true.mp m.blank c (by simp [hc])

lemma trail_blank : ∀ c ∈ m.trail, isBlank c = true :=
  fun c hc => List.all_eq_true.mp m.blank c (by simp [hc])

lemma rest_blank : ∀ c ∈ m.rest, isBlank c = true :=
  fun c hc => List.all_eq_true.mp m.blank c (by simp [hc])

/-! ### Behind the content -/

lemma ending_blank : ∀ c ∈ m.ending, isBlank c = true := by
  unfold ending
  split
  · exact m.rest_blank
  · exact List.forall_mem_append.mpr ⟨m.trail_blank, m.rest_blank⟩

lemma solid_closed (h : Solid content) : Solid (m.closed content) := by
  unfold closed
  split
  · rw [← List.append_assoc]
    exact h.append m.trail solid_closer
  · rwa [List.append_nil]

/-- A tag does not end like the closing mark by what stands in front of it. -/
lemma not_closer_append {content : List Char} (hat : content.head? = some '@')
    (h : ¬ closer <:+ content) (a : List Char) : ¬ closer <:+ a ++ content := by
  intro hsuffix
  rcases List.suffix_or_suffix_of_suffix hsuffix (List.suffix_append a content) with hin | hout
  · exact h hin
  · have hmem : '@' ∈ closer := hout.subset (List.mem_of_mem_head? hat)
    exact absurd hmem (by decide)

/-- The closing mark goes, and the blanks in front of it stay. -/
lemma dropCloser_closed (hat : content.head? = some '@')
    (h : m.closes = false → ¬ closer <:+ content) (a : List Char) :
    ∃ b, (∀ c ∈ b, isBlank c = true) ∧ dropCloser (a ++ m.closed content) = a ++ content ++ b := by
  rcases hcloses : m.closes with _ | _
  · refine ⟨[], by simp, ?_⟩
    rw [closed, hcloses, if_neg (by decide), List.append_nil, List.append_nil]
    exact dropCloser_eq_self (not_closer_append hat (h hcloses) a)
  · refine ⟨m.trail, m.trail_blank, ?_⟩
    have hend : a ++ m.closed content = a ++ content ++ m.trail ++ closer := by
      simp [closed, hcloses]
    rw [hend, dropCloser_append_closer]

/-! ### In front of the content -/

lemma dropWhile_star {s : List Char} (h : s.head? ≠ some '*') :
    s.dropWhile (· == '*') = s := by
  cases s with
  | nil => rfl
  | cons c rest =>
    have hc : c ≠ '*' := by simpa using h
    simp [hc]

lemma solid_stars (n : Nat) : Solid (List.replicate (n + 1) '*') := by
  refine Text.solid_of_forall (by simp) fun c hc => ?_
  rw [List.eq_of_mem_replicate hc]
  rfl

/-- The stars go, with the blanks on either side of them. -/
lemma trim_stars (hsolid : Solid content) (hat : content.head? = some '@') (n : Nat)
    {gap b : List Char} (hgap : ∀ c ∈ gap, isBlank c = true) (hb : ∀ c ∈ b, isBlank c = true) :
    trim ((trim (List.replicate n '*' ++ gap ++ content ++ b)).dropWhile (· == '*')) = content := by
  have hnone : ∀ c ∈ ([] : List Char), isBlank c = true := by simp
  cases n with
  | zero =>
    have htrim : trim (List.replicate 0 '*' ++ gap ++ content ++ b) = content :=
      hsolid.trim_between hgap hb
    rw [htrim, dropWhile_star (by simp [hat]), hsolid.trim_eq]
  | succ n =>
    have hall : ∀ c ∈ List.replicate (n + 1) '*', (c == '*') = true := by simp
    have hstars : Solid (List.replicate (n + 1) '*' ++ gap ++ content) :=
      (solid_stars n).append gap hsolid
    have htrim : trim (List.replicate (n + 1) '*' ++ gap ++ content ++ b) =
        List.replicate (n + 1) '*' ++ gap ++ content :=
      hstars.trim_between hnone hb
    have hhead : (gap ++ content).head? ≠ some '*' := by
      cases gap with
      | nil => simp [hat]
      | cons c rest =>
        rintro ⟨⟩
        exact absurd (hgap '*' List.mem_cons_self) (by decide)
    have hcontent : trim (gap ++ content ++ []) = content := hsolid.trim_between hgap hnone
    rw [List.append_nil] at hcontent
    rw [htrim, List.append_assoc, List.dropWhile_append_of_pos hall, dropWhile_star hhead, hcontent]

/-- Without the blanks at its ends and the mark that opens a docblock, a line starts with the stars,
if there are any, or with the content. -/
lemma dropOpener_around (hsolid : Solid content) (hat : content.head? = some '@') :
    ∃ gap, (∀ c ∈ gap, isBlank c = true) ∧
      dropOpener (trim (m.around content)) =
        List.replicate m.stars '*' ++ gap ++ m.closed content := by
  have hclosed := m.solid_closed hsolid
  by_cases hmark : m.opens = true
  · refine ⟨m.gap, m.gap_blank, ?_⟩
    have hopener : Solid opener := by decide
    have hwhole := hopener.append (List.replicate m.stars '*' ++ m.gap) hclosed
    have htrim : trim (m.around content) =
        opener ++ (List.replicate m.stars '*' ++ m.gap) ++ m.closed content := by
      rw [← hwhole.trim_between m.indent_blank m.ending_blank]
      simp [around, hmark]
    rw [htrim, dropOpener, List.append_assoc, if_pos (by simp), List.drop_left]
  rcases hstars : m.stars with _ | n
  · refine ⟨[], by simp, ?_⟩
    have hblank : ∀ c ∈ m.indent ++ m.gap, isBlank c = true :=
      List.forall_mem_append.mpr ⟨m.indent_blank, m.gap_blank⟩
    have htrim : trim (m.around content) = m.closed content := by
      rw [← hclosed.trim_between hblank m.ending_blank]
      simp [around, hmark, hstars]
    obtain ⟨rest, hrest⟩ : ∃ rest, m.closed content = '@' :: rest := by
      obtain ⟨tail, rfl⟩ := List.head?_eq_some_iff.mp hat
      exact ⟨_, rfl⟩
    rw [htrim, hrest]
    simp [dropOpener, opener]
  · refine ⟨m.gap, m.gap_blank, ?_⟩
    have hwhole := (solid_stars n).append m.gap hclosed
    have htrim : trim (m.around content) =
        List.replicate (n + 1) '*' ++ m.gap ++ m.closed content := by
      rw [← hwhole.trim_between m.indent_blank m.ending_blank]
      simp [around, hmark, hstars]
    rw [htrim, List.replicate_succ, List.cons_append, List.cons_append, dropOpener_star]

/-- **Cleaning a line leaves its content.** -/
theorem clean_around (hsolid : Solid content) (hat : content.head? = some '@')
    (h : m.closes = false → ¬ closer <:+ content) : clean (m.around content) = content := by
  obtain ⟨gap, hgap, hopener⟩ := m.dropOpener_around hsolid hat
  obtain ⟨b, hb, hcloser⟩ := m.dropCloser_closed hat h (List.replicate m.stars '*' ++ gap)
  rw [clean, hopener, hcloser]
  exact trim_stars hsolid hat m.stars hgap hb

end Margin

end PhpCatalog.Docblock
