/-
# Pieces of a path

The pieces of a text between its slashes are those of `List.splitOn`.  So names without slashes that
are joined by slashes come back as the pieces of the whole, and the last piece of a path is the name
of its file.
-/
import Mathlib.Tactic.Lemma
import PhpCatalog.Language
import PhpCatalog.Path

namespace PhpCatalog

lemma splitSlashes_eq_splitOn (text : List Char) : splitSlashes text = text.splitOn '/' := by
  rw [List.splitOn_eq_splitOnP]
  induction text with
  | nil => rfl
  | cons c rest ih =>
    rw [List.splitOnP_cons_eq_if_modifyHead, splitSlashes, ih]
    by_cases hc : c = '/'
    · simp [hc]
    · rcases hpieces : rest.splitOnP (· == '/') with _ | ⟨piece, others⟩
      · exact absurd hpieces (List.splitOnP_ne_nil _ _)
      · simp [hc]

/-- A slash ends the pieces of what is before it. -/
lemma splitSlashes_append_slash (dir rest : List Char) :
    splitSlashes (dir ++ '/' :: rest) = splitSlashes dir ++ splitSlashes rest := by
  simp only [splitSlashes_eq_splitOn, List.splitOn_eq_splitOnP]
  exact List.splitOnP_append_cons dir rest (beq_self_eq_true '/')

lemma splitSlashes_of_notMem {name : List Char} (h : '/' ∉ name) : splitSlashes name = [name] := by
  have hone : ∀ piece ∈ [name], '/' ∉ piece := by simpa using h
  have hsplit := List.splitOn_intercalate '/' hone (by simp)
  rw [splitSlashes_eq_splitOn]
  simpa using hsplit

/-- Names without slashes are the pieces of the text they are joined to. -/
lemma splitSlashes_intercalate {names : List String} (hne : names ≠ [])
    (h : ∀ name ∈ names, '/' ∉ name.toList) :
    splitSlashes (String.intercalate "/" names).toList = names.map String.toList := by
  have hpieces : ∀ piece ∈ names.map String.toList, '/' ∉ piece := by simpa using h
  rw [splitSlashes_eq_splitOn, String.toList_intercalate]
  exact List.splitOn_intercalate '/' hpieces (by simpa using hne)

/-- The pieces hold nothing that is not in the text. -/
lemma subset_of_mem_splitSlashes {text piece : List Char} (h : piece ∈ splitSlashes text) :
    piece ⊆ text := by
  induction text generalizing piece with
  | nil =>
    obtain rfl : piece = [] := by simpa [splitSlashes] using h
    exact List.nil_subset _
  | cons c rest ih =>
    by_cases hc : c = '/'
    · rw [splitSlashes, if_pos hc, List.mem_cons] at h
      rcases h with rfl | h
      · exact List.nil_subset _
      · exact List.subset_cons_of_subset c (ih h)
    · rcases hpieces : splitSlashes rest with _ | ⟨first, others⟩
      · obtain rfl : piece = [c] := by simpa [splitSlashes, hc, hpieces] using h
        simp
      · have hfirst : first ⊆ rest := ih (by simp [hpieces])
        simp only [splitSlashes, if_neg hc, hpieces, List.mem_cons] at h
        rcases h with rfl | h
        · exact List.cons_subset_cons c hfirst
        · exact List.subset_cons_of_subset c (ih (by simp [hpieces, h]))

/-! ### Slashes for backslashes -/

lemma backslash_notMem_forwardSlashes (text : String) : '\\' ∉ (forwardSlashes text).toList := by
  rw [forwardSlashes, String.toList_ofList, List.mem_map]
  rintro ⟨c, -, hc⟩
  split at hc <;> simp_all

lemma forwardSlashes_of_notMem {text : String} (h : '\\' ∉ text.toList) :
    forwardSlashes text = text := by
  have hmap : text.toList.map (fun c => if c = '\\' then '/' else c) = text.toList.map id :=
    List.map_congr_left fun c hc => if_neg (ne_of_mem_of_not_mem hc h)
  rw [forwardSlashes, hmap, List.map_id, String.ofList_toList]

/-! ### The last piece -/

/-- What is read from the end of a text up to a mark is all that stands behind the last mark. -/
lemma takeWhile_reverse_append {mark : Char} {name : List Char} (h : mark ∉ name)
    (rest : List Char) :
    (name.reverse ++ rest).takeWhile (· != mark) =
      name.reverse ++ rest.takeWhile (· != mark) := by
  refine List.takeWhile_append_of_pos fun c hc => ?_
  simpa using ne_of_mem_of_not_mem (List.mem_reverse.mp hc) h

/-- A text without a mark, or with something behind its last one. -/
lemma mark_cases (mark : Char) (text : List Char) :
    mark ∉ text ∨ ∃ before after, mark ∉ after ∧ text = before ++ mark :: after := by
  induction text with
  | nil => exact Or.inl (by simp)
  | cons c rest ih =>
    rcases ih with hrest | ⟨before, after, hafter, rfl⟩
    · by_cases hc : c = mark
      · exact Or.inr ⟨[], rest, hrest, by simp [hc]⟩
      · exact Or.inl (by simp [hrest, Ne.symm hc])
    · exact Or.inr ⟨c :: before, after, hafter, rfl⟩

lemma baseName_of_notMem {name : List Char} (h : '/' ∉ name) : baseName name = name := by
  have htake := takeWhile_reverse_append h []
  simp only [List.append_nil, List.takeWhile_nil] at htake
  rw [baseName, htake, List.reverse_reverse]

lemma baseName_append_slash (dir : List Char) {name : List Char} (h : '/' ∉ name) :
    baseName (dir ++ '/' :: name) = name := by
  rw [baseName, List.reverse_append, List.reverse_cons, List.append_assoc,
    takeWhile_reverse_append h]
  simp

lemma slash_notMem_baseName (text : List Char) : '/' ∉ baseName text := by
  rcases mark_cases '/' text with h | ⟨dir, name, h, rfl⟩
  · rwa [baseName_of_notMem h]
  · rwa [baseName_append_slash dir h]

lemma splitSlashes_eq_concat (text : List Char) :
    ∃ dirs, splitSlashes text = dirs ++ [baseName text] := by
  rcases mark_cases '/' text with h | ⟨dir, name, h, rfl⟩
  · exact ⟨[], by rw [splitSlashes_of_notMem h, baseName_of_notMem h]; rfl⟩
  · refine ⟨splitSlashes dir, ?_⟩
    rw [splitSlashes_append_slash, splitSlashes_of_notMem h, baseName_append_slash dir h]

/-- The last piece of a path is the name of its file. -/
lemma getLastD_splitSlashes (text : List Char) :
    (splitSlashes text).getLastD [] = baseName text := by
  obtain ⟨dirs, hdirs⟩ := splitSlashes_eq_concat text
  rw [hdirs, List.getLastD_concat]

/-- The name of a path that ends in a name without slashes. -/
lemma baseName_intercalate_concat (dirs : List String) {name : String} (h : '/' ∉ name.toList) :
    baseName (String.intercalate "/" (dirs ++ [name])).toList = name.toList := by
  by_cases hdirs : dirs = []
  · subst hdirs
    simpa using baseName_of_notMem h
  · rw [String.intercalate_append_of_ne_nil hdirs (by simp), String.intercalate_singleton]
    simpa using baseName_append_slash (String.intercalate "/" dirs).toList h

end PhpCatalog
