/-
# Reading a listing

A listing is read line by line, so what stands before a line feed and what stands behind it are read
each by itself (`Listing.paths_append_feed`), and whatever else ends a line or counts as a blank is
taken for the same.  Therefore only some paths can come from a listing, those that are tidy, and
these are the ones that come back from a line of their own (`Listing.paths_eq_singleton_iff`).
-/
import PhpCatalog.Discovery.Listing
import PhpCatalog.Proofs.Text.Lines
import PhpCatalog.Proofs.Text.Trim

namespace PhpCatalog

/-- A path that is not empty, with no line break in it and no blank at its ends. -/
structure TidyPath (path : String) : Prop where
  breaks : Text.BreakFree path.toList
  solid : Text.Solid path.toList

instance (path : String) : Decidable (TidyPath path) :=
  decidable_of_iff (Text.BreakFree path.toList ∧ Text.Solid path.toList)
    ⟨fun ⟨breaks, solid⟩ => ⟨breaks, solid⟩, fun h => ⟨h.breaks, h.solid⟩⟩

/-- A file may well have a name that is not tidy. -/
example : TidyPath "a b.php" ∧ ¬ TidyPath " a.php" ∧ ¬ TidyPath "a\u2028b.php" := by
  decide +kernel

namespace Listing

/-- What stands on either side of a line feed is read by itself. -/
lemma paths_append_feed (a b : String) : paths (a ++ "\n" ++ b) = paths a ++ paths b := by
  obtain ⟨gap, hgap, hlines⟩ := Text.exists_lines_append_feed a.toList
  have htext : (a ++ "\n" ++ b).toList = a.toList ++ '\n' :: b.toList := by simp
  rw [paths, paths, paths, htext, hlines, List.map_append, List.map_append, List.filter_append,
    List.filter_append]
  -- the line that may stand between the two is empty and so left out
  rcases hgap with rfl | rfl <;> simp [Text.trim, Text.trimStart, Text.trimEnd]

/-- What is read from a listing is tidy. -/
lemma tidy_of_mem_paths {text path : String} (h : path ∈ paths text) : TidyPath path := by
  obtain ⟨hmem, hne⟩ := List.mem_filter.mp h
  obtain ⟨line, hline, rfl⟩ := List.mem_map.mp hmem
  refine ⟨?_, ?_⟩
  · rw [String.toList_ofList]
    exact fun c hc => Text.breakFree_of_mem_lines hline c (Text.mem_of_mem_trim hc)
  · rw [String.toList_ofList]
    refine (Text.trim_eq_nil_or_solid line).resolve_left fun hnil => ?_
    simp [hnil] at hne

lemma paths_of_tidy {path : String} (h : TidyPath path) : paths path = [path] := by
  have hne : path ≠ "" := (Text.solid_toList_iff.mp h.solid).1
  rw [paths, Text.lines_single h.solid.ne_nil h.breaks]
  simp [h.solid.trim_eq, hne]

/-- A path comes back from a line of its own exactly if it is tidy. -/
lemma paths_eq_singleton_iff {path : String} : paths path = [path] ↔ TidyPath path :=
  ⟨fun h => tidy_of_mem_paths (h ▸ List.mem_singleton_self path), paths_of_tidy⟩

end Listing

end PhpCatalog
