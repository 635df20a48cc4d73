/-
# Docblocks of texts that are put together

A comment is read line by line, and each line says what it says whatever stands around it.  So a
text that is put together from two, with a line feed between them, says what the first says and then
what the second says (`parse_append_feed`): parameters and exceptions in order, the later result,
and the descriptions joined by a space.  It does not matter with which line breaks the first text
ends or the second begins, for an empty line says nothing.
-/
import PhpCatalog.Proofs.Docblock.Shape
import PhpCatalog.Proofs.Text.Lines

namespace PhpCatalog.Docblock

open Text (Solid solid_intercalate)

/-- Two docblocks as one: what the second says stands behind what the first says, and its result
replaces the one of the first. -/
def append (a b : Docblock) : Docblock where
  description := " ".intercalate ([a.description, b.description].filter (· ≠ ""))
  params := a.params ++ b.params
  returns := b.returns.or a.returns
  throws := a.throws ++ b.throws

/-- A docblock that says nothing adds nothing. -/
lemma append_empty (d : Docblock) : d.append {} = d := by
  obtain ⟨description, params, returns, throws⟩ := d
  by_cases h : description = "" <;> simp [append, h]

/-! ### Entries one after the other -/

lemma intercalate_ne_empty {parts : List String} (hne : parts ≠ [])
    (h : ∀ p ∈ parts, Solid p.toList) : " ".intercalate parts ≠ "" := by
  intro hempty
  exact (solid_intercalate " " hne h).ne_nil (by rw [hempty]; rfl)

/-- Joining the parts of two lists is joining what they are joined to, an empty list left out. -/
lemma intercalate_append {a b : List String} (ha : ∀ p ∈ a, Solid p.toList)
    (hb : ∀ p ∈ b, Solid p.toList) :
    " ".intercalate (a ++ b) =
      " ".intercalate ([" ".intercalate a, " ".intercalate b].filter (· ≠ "")) := by
  by_cases hnila : a = [] <;> by_cases hnilb : b = []
  · simp [hnila, hnilb]
  · simp [hnila, intercalate_ne_empty hnilb hb]
  · simp [hnilb, intercalate_ne_empty hnila ha]
  · rw [String.intercalate_append_of_ne_nil hnila hnilb]
    simp [intercalate_ne_empty hnila ha, intercalate_ne_empty hnilb hb]

lemma ofEntries_append {a b : List Entry} (ha : ∀ e ∈ a, e.WellFormed)
    (hb : ∀ e ∈ b, e.WellFormed) : ofEntries (a ++ b) = (ofEntries a).append (ofEntries b) := by
  have hdescription : (ofEntries (a ++ b)).description =
      ((ofEntries a).append (ofEntries b)).description := by
    have htexts : texts (a ++ b) = texts a ++ texts b := List.filterMap_append
    exact (congrArg (" ".intercalate ·) htexts).trans
      (intercalate_append (solid_of_mem_texts ha) (solid_of_mem_texts hb))
  have hreturns :
      (ofEntries (a ++ b)).returns = (ofEntries b).returns.or (ofEntries a).returns := by
    simp only [ofEntries, List.filterMap_append, List.getLast?_append]
  have hparams : (ofEntries (a ++ b)).params = (ofEntries a).params ++ (ofEntries b).params :=
    List.filterMap_append
  have hthrows : (ofEntries (a ++ b)).throws = (ofEntries a).throws ++ (ofEntries b).throws :=
    List.filterMap_append
  calc ofEntries (a ++ b)
      = ⟨(ofEntries (a ++ b)).description, (ofEntries (a ++ b)).params,
          (ofEntries (a ++ b)).returns, (ofEntries (a ++ b)).throws⟩ := rfl
    _ = (ofEntries a).append (ofEntries b) := by
        rw [hdescription, hparams, hreturns, hthrows]
        rfl

/-! ### Texts one after the other -/

/-- A text that is put together from two has the entries of the first, then those of the second, and
between them at most one that says nothing. -/
lemma exists_entries_append_feed (first second : List Char) :
    ∃ gap, (∀ e ∈ gap, e = Entry.nothing) ∧
      entries (first ++ '\n' :: second) = entries first ++ gap ++ entries second := by
  obtain ⟨gap, hgap, hlines⟩ := Text.exists_lines_append_feed first
  refine ⟨gap.map fun line => classify (clean line), ?_, ?_⟩
  · intro e he
    obtain ⟨line, hline, rfl⟩ := List.mem_map.mp he
    rcases hgap with rfl | rfl
    · simp at hline
    · rw [List.mem_singleton.mp hline]
      rfl
  · rw [entries, hlines, List.map_append, List.map_append]
    rfl

lemma ofEntries_nothing {gap : List Entry} (h : ∀ e ∈ gap, e = .nothing) : ofEntries gap = {} := by
  rw [List.eq_replicate_of_mem h]
  simp [ofEntries]

/-- **Reading a docblock is compositional.**  What is read from two texts with a line feed between
them is what is read from the first, followed by what is read from the second, whatever breaks the
texts begin and end with. -/
theorem parse_append_feed (first second : List Char) :
    parse (first ++ '\n' :: second) = (parse first).append (parse second) := by
  obtain ⟨gap, hgap, hentries⟩ := exists_entries_append_feed first second
  have hwf := entries_wellFormed (first ++ '\n' :: second)
  rw [hentries] at hwf
  obtain ⟨hbefore, hsecond⟩ := List.forall_mem_append.mp hwf
  obtain ⟨hfirst, hnothing⟩ := List.forall_mem_append.mp hbefore
  calc parse (first ++ '\n' :: second)
      = ofEntries (entries first ++ gap ++ entries second) := congrArg ofEntries hentries
    _ = ((ofEntries (entries first)).append (ofEntries gap)).append
          (ofEntries (entries second)) := by
        rw [ofEntries_append hbefore hsecond, ofEntries_append hfirst hnothing]
    _ = (parse first).append (parse second) := by
        rw [ofEntries_nothing hgap, append_empty]
        rfl

/-- The carriage return at the end joins the line feed, the vertical tab makes an empty line. -/
example : parse ("@return A\r".toList ++ '\n' :: "\x0b@return B".toList) =
    { returns := some "B" } := by decide +kernel

end PhpCatalog.Docblock
