/-
# Paths of a manifest as they are reported

A path is reported with slashes for backslashes and without one step in place at its start.  That
keeps the directory it means, from whatever root, unless the step in place is followed by one more
slash (`locationOf_fragment_iff`): then what is left starts from the root of the file system, and
the root of the project is lost.

A path that is reported once more changes only where nothing is left of it, or another step in
place (`fragment_fragment_eq_iff_not_stepsAgain`).
-/
import PhpCatalog.Manifest.Insights
import PhpCatalog.Proofs.Path.Normal

namespace PhpCatalog.Manifest

/-! ### What is reported -/

lemma fragment_of_step {raw : String} {rest : List Char}
    (h : (forwardSlashes raw).toList = '.' :: '/' :: rest) : fragment raw = String.ofList rest := by
  have hraw : raw ≠ "" := by
    rintro rfl
    simp [forwardSlashes] at h
  simp [fragment, hraw, h]

lemma fragment_of_no_step {raw : String} (hraw : raw ≠ "")
    (h : ¬ ['.', '/'] <+: (forwardSlashes raw).toList) : fragment raw = forwardSlashes raw := by
  rw [fragment, if_neg hraw]
  split
  · rename_i rest hrest
    exact absurd ⟨rest, hrest.symm⟩ h
  · exact String.ofList_toList

/-- The empty path, a path that starts with a step in place, and any other. -/
lemma fragment_cases (raw : String) :
    (raw = "" ∧ fragment raw = ".") ∨
    (∃ rest, (forwardSlashes raw).toList = '.' :: '/' :: rest ∧
      fragment raw = String.ofList rest) ∨
    raw ≠ "" ∧ ¬ ['.', '/'] <+: (forwardSlashes raw).toList ∧
      fragment raw = forwardSlashes raw := by
  by_cases hraw : raw = ""
  · subst hraw
    exact Or.inl ⟨rfl, rfl⟩
  · by_cases hstep : ['.', '/'] <+: (forwardSlashes raw).toList
    · obtain ⟨rest, hrest⟩ := hstep
      exact Or.inr (Or.inl ⟨rest, hrest.symm, fragment_of_step hrest.symm⟩)
    · exact Or.inr (Or.inr ⟨hraw, hstep, fragment_of_no_step hraw hstep⟩)

/-! ### What is reported again -/

/-- Behind the step in place that a path starts with stands nothing, or another one. -/
def StepsAgain (raw : String) : Prop :=
  (forwardSlashes raw).toList = ['.', '/'] ∨ ['.', '/', '.', '/'] <+: (forwardSlashes raw).toList

instance (raw : String) : Decidable (StepsAgain raw) :=
  inferInstanceAs (Decidable (_ ∨ _))

lemma backslash_notMem_fragment (raw : String) : '\\' ∉ (fragment raw).toList := by
  have hraw := backslash_notMem_forwardSlashes raw
  obtain ⟨-, hfragment⟩ | ⟨rest, hrest, hfragment⟩ | ⟨-, -, hfragment⟩ := fragment_cases raw
  · rw [hfragment]
    decide
  · rw [hrest] at hraw
    rw [hfragment, String.toList_ofList]
    simp_all
  · rwa [hfragment]

/-- What is reported is reported as it stands if it is filled and starts with no step in place. -/
lemma fragment_fragment_eq_iff {raw : String} :
    fragment (fragment raw) = fragment raw ↔
      fragment raw ≠ "" ∧ ¬ ['.', '/'] <+: (fragment raw).toList := by
  have hslashes := forwardSlashes_of_notMem (backslash_notMem_fragment raw)
  obtain ⟨hempty, hagain⟩ | ⟨rest, hrest, hagain⟩ | ⟨hfilled, hstep, hagain⟩ :=
    fragment_cases (fragment raw)
  · rw [hagain, hempty]
    decide
  · rw [hslashes] at hrest
    -- dropping the step in place makes the path shorter
    have hshorter : String.ofList rest ≠ fragment raw := by
      intro h
      have hlength := congrArg (fun path => path.toList.length) h
      simp only [hrest, String.toList_ofList, List.length_cons] at hlength
      omega
    simp [hagain, hshorter, hrest]
  · rw [hslashes] at hstep hagain
    simp [hagain, hfilled, hstep]

/-- The same, said of the path before it is reported. -/
lemma fragment_fragment_eq_iff_not_stepsAgain {raw : String} :
    fragment (fragment raw) = fragment raw ↔ ¬ StepsAgain raw := by
  rw [fragment_fragment_eq_iff]
  obtain ⟨rfl, hfragment⟩ | ⟨rest, hrest, hfragment⟩ | ⟨hraw, hstep, hfragment⟩ :=
    fragment_cases raw
  · decide
  · simp [StepsAgain, hrest, hfragment]
  · have hfilled : forwardSlashes raw ≠ "" := by
      simpa [forwardSlashes] using hraw
    have hagain : ¬ StepsAgain raw := by
      rintro (h | h)
      · exact hstep ⟨[], by simp [h]⟩
      · exact hstep (List.IsPrefix.trans ⟨['.', '/'], rfl⟩ h)
    simp [hfragment, hfilled, hstep, hagain]

/-! ### Where it leads -/

/-- Behind the step in place that a path starts with stands one more slash. -/
def StepsToRoot (raw : String) : Prop :=
  ['.', '/', '/'] <+: (forwardSlashes raw).toList

instance (raw : String) : Decidable (StepsToRoot raw) :=
  inferInstanceAs (Decidable (_ <+: _))

lemma anchor_of_no_slash {rest : List Char} (h : ¬ ['/'] <+: rest) :
    Anchor.ofText rest = .relative := by
  cases rest with
  | nil => rfl
  | cons c cs =>
    have hc : c ≠ '/' := by
      rintro rfl
      exact h ⟨cs, rfl⟩
    simp [Anchor.ofText, hc]

lemma anchor_of_slash (rest : List Char) : Anchor.ofText ('/' :: rest) ≠ .relative := by
  unfold Anchor.ofText
  split <;> simp_all

/-- What is reported reads as the path itself, unless it starts from the root. -/
lemma ofString_fragment {raw : String} (h : ¬ StepsToRoot raw) :
    Path.ofString (fragment raw) = Path.ofString (forwardSlashes raw) := by
  obtain ⟨rfl, hfragment⟩ | ⟨rest, hrest, hfragment⟩ | ⟨-, -, hfragment⟩ := fragment_cases raw
  · rw [hfragment]
    decide
  · have hslash : ¬ ['/'] <+: rest := by
      rintro ⟨cs, rfl⟩
      exact h ⟨cs, hrest.symm⟩
    have hraw : forwardSlashes raw = String.ofList ('.' :: '/' :: rest) := by
      rw [← hrest, String.ofList_toList]
    rw [hfragment, hraw, Path.ofString, Path.ofString, Path.partsOf_step, String.toList_ofList,
      String.toList_ofList, anchor_of_no_slash hslash]
    rfl
  · rw [hfragment]

/-- What is reported starts from the root, although the path itself does not. -/
lemma anchors_of_stepsToRoot {raw : String} (h : StepsToRoot raw) :
    (Path.ofString (fragment raw)).anchor ≠ .relative ∧
      (Path.ofString (forwardSlashes raw)).anchor = .relative := by
  obtain ⟨rest, hrest⟩ := h
  have hraw : (forwardSlashes raw).toList = '.' :: '/' :: '/' :: rest := hrest.symm
  refine ⟨?_, ?_⟩
  · rw [fragment_of_step hraw, Path.ofString, String.toList_ofList]
    exact anchor_of_slash rest
  · rw [Path.ofString, hraw]
    rfl

lemma locationOf_of_stepsToRoot {raw : String} (h : StepsToRoot raw) (root : Path) :
    locationOf root (fragment raw) = (Path.ofString (fragment raw)).normal.text := by
  rw [locationOf, Path.join_of_rooted root (anchors_of_stepsToRoot h).1]

/-- A path that is reported from the root leads there even from the current directory. -/
lemma head_locationOf_of_stepsToRoot {raw : String} (h : StepsToRoot raw) :
    (locationOf .here (fragment raw)).toList.head? = some '/' := by
  rw [locationOf_of_stepsToRoot h]
  exact Path.head_text_of_rooted (anchors_of_stepsToRoot h).1

/-- **Reporting a path keeps the directory it means**, from every root, exactly if no slash follows
the step in place that the path starts with.  Under the same condition a relative path without `..`
is at the root of the project or below it.  Otherwise the root of the project plays no part. -/
theorem locationOf_fragment_iff (raw : String) :
    ((∀ root, locationOf root (fragment raw) = locationOf root (forwardSlashes raw)) ↔
      ¬ StepsToRoot raw) ∧
    ((Path.ofString (forwardSlashes raw)).anchor = .relative →
      ".." ∉ Path.partsOf (forwardSlashes raw) →
      ((∀ root : Path, root.normal.AtOrBelow (locationOf root (fragment raw))) ↔
        ¬ StepsToRoot raw)) ∧
    (StepsToRoot raw → ∀ root : Path,
      locationOf root (fragment raw) = (Path.ofString (fragment raw)).normal.text) := by
  have hkept : ¬ StepsToRoot raw →
      ∀ root, locationOf root (fragment raw) = locationOf root (forwardSlashes raw) := by
    intro h root
    rw [locationOf, locationOf, ofString_fragment h]
  refine ⟨⟨?_, hkept⟩, ?_, locationOf_of_stepsToRoot⟩
  · intro hall h
    have hhere := Path.head_join_here (anchors_of_stepsToRoot h).2
    rw [← locationOf, ← hall .here] at hhere
    exact hhere (head_locationOf_of_stepsToRoot h)
  · intro hrelative hup
    refine ⟨?_, ?_⟩
    · intro hall h
      exact Path.head_of_atOrBelow_here (hall .here) (head_locationOf_of_stepsToRoot h)
    · intro h root
      rw [hkept h root]
      exact Path.atOrBelow_join root hrelative hup

/-- One slash more, and the sources are looked for at the root of the file system. -/
theorem locationOf_doubledSlash :
    ((Path.ofString (forwardSlashes ".\\src")).anchor = .relative ∧
      ".." ∉ Path.partsOf (forwardSlashes ".\\src") ∧ ¬ StepsToRoot ".\\src" ∧
      ∀ root : Path, root.normal.AtOrBelow (locationOf root (fragment ".\\src"))) ∧
    StepsToRoot ".//src" ∧ ∀ root : Path, locationOf root (fragment ".//src") = "/src" := by
  have hrelative : (Path.ofString (forwardSlashes ".\\src")).anchor = .relative := by
    decide +kernel
  have hup : ".." ∉ Path.partsOf (forwardSlashes ".\\src") := by decide +kernel
  have hkept : ¬ StepsToRoot ".\\src" := by decide +kernel
  have hroot : StepsToRoot ".//src" := by decide +kernel
  refine ⟨⟨hrelative, hup, hkept,
    ((locationOf_fragment_iff ".\\src").2.1 hrelative hup).mpr hkept⟩, hroot, fun root => ?_⟩
  rw [(locationOf_fragment_iff ".//src").2.2 hroot root]
  decide +kernel

end PhpCatalog.Manifest
