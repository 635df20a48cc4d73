/-
# Listings as they are printed

A listing is printed with one path a line.  Where paths are tidy, reading it is the inverse of that.
Any other path does not come back: it is read as the pieces between its line breaks, each without
the blanks at its ends, and a piece of which nothing is left is no path at all.

So of the files that are printed, and that neither the rules nor the limit of size leave out, those
with tidy paths are found and no others (`tracked_printed_iff`).  A walk has no such limits.
-/
import PhpCatalog.Proofs.Discovery.Keeping

namespace PhpCatalog

/-- Slashes and backslashes are neither breaks nor blanks, so a path is as tidy with slashes for
backslashes. -/
lemma tidyPath_forwardSlashes_iff {path : String} :
    TidyPath (forwardSlashes path) ↔ TidyPath path := by
  have hbreak : ∀ c, Text.isBreak (if c = '\\' then '/' else c) = Text.isBreak c := by
    intro c
    by_cases hc : c = '\\'
    · subst hc
      decide
    · rw [if_neg hc]
  have hblank : ∀ c, Text.isBlank (if c = '\\' then '/' else c) = Text.isBlank c := by
    intro c
    by_cases hc : c = '\\'
    · subst hc
      decide
    · rw [if_neg hc]
  have htext : (forwardSlashes path).toList =
      path.toList.map fun c => if c = '\\' then '/' else c := by
    rw [forwardSlashes, String.toList_ofList]
  constructor
  · rintro ⟨breaks, solid⟩
    rw [htext] at breaks solid
    exact ⟨(Text.breakFree_map_iff hbreak).mp breaks, (Text.solid_map_iff hblank).mp solid⟩
  · rintro ⟨breaks, solid⟩
    refine ⟨?_, ?_⟩
    · exact htext ▸ (Text.breakFree_map_iff hbreak).mpr breaks
    · exact htext ▸ (Text.solid_map_iff hblank).mpr solid

/-- What comes from a listing is tidy, so paths only come back all together if all of them are. -/
lemma paths_printed_eq_self_iff {paths : List String} :
    Listing.paths (printed paths) = paths ↔ ∀ path ∈ paths, TidyPath path := by
  constructor
  · intro hback path hpath
    rw [← hback] at hpath
    exact Listing.tidy_of_mem_paths hpath
  · exact paths_printed_of_tidy

/-- What is found in a listing is tidy. -/
lemma tidy_of_mem_discover {v : Volume} {text : String} {root : Path} {s : Settings}
    {path : String} (h : path ∈ discover v (.output 0 text) root s) : TidyPath path := by
  obtain ⟨hlisted, -⟩ := mem_discover_iff.mp h
  obtain ⟨read, hread, rfl⟩ := List.mem_map.mp hlisted
  exact tidyPath_forwardSlashes_iff.mpr (Listing.tidy_of_mem_paths hread)

lemma mem_listed_printed {paths : List String} {path : String} (h : path ∈ paths)
    (htidy : TidyPath path) (v : Volume) (top : Path) :
    forwardSlashes path ∈ listed v (.output 0 (printed paths)) top := by
  have hread : path ∈ Listing.paths (printed paths) := by
    rw [paths_printed, List.mem_flatMap]
    exact ⟨path, h, by simp [Listing.paths_of_tidy htidy]⟩
  exact List.mem_map_of_mem hread

/-- **Tidy paths come back from a printed listing, and only these.**  Each path is read as if it
were printed alone.  All of them come back, as they are and in their order, exactly if all are tidy;
and of the files that the settings keep, exactly those with tidy paths are found. -/
theorem tracked_printed_iff (paths : List String) :
    (Listing.output 0 (printed paths)).tracked? = some (paths.flatMap Listing.paths) ∧
    ((Listing.output 0 (printed paths)).tracked? = some paths ↔ ∀ path ∈ paths, TidyPath path) ∧
    ∀ (v : Volume) (root : Path) (s : Settings), ∀ path ∈ paths,
      s.Kept v (root.resolve v.here) (forwardSlashes path) →
      (forwardSlashes path ∈ discover v (.output 0 (printed paths)) root s ↔ TidyPath path) := by
  have htracked : (Listing.output 0 (printed paths)).tracked? =
      some (Listing.paths (printed paths)) := by
    rw [Listing.tracked?, if_pos rfl]
  refine ⟨?_, ?_, ?_⟩
  · rw [htracked, paths_printed]
  · rw [htracked, Option.some_inj]
    exact paths_printed_eq_self_iff
  · intro v root s path hpath hkept
    constructor
    · intro hfound
      exact tidyPath_forwardSlashes_iff.mp (tidy_of_mem_discover hfound)
    · intro htidy
      exact mem_discover_iff.mpr ⟨mem_listed_printed hpath htidy v _, keeps_iff.mpr hkept⟩

/-- A directory with two sources, one of which has a name that begins with a blank. -/
def indentedEntries : List (String × Entry) :=
  [(" a.php", .file ⟨#[60, 63]⟩), ("b.php", .file ⟨#[60, 63]⟩)]

/-- The listing has both files and the settings keep both, but the one whose name begins with a
blank is read without it, and so not found.  A walk finds it. -/
theorem tracked_indentedEntries :
    let v := projectWith indentedEntries
    let paths := [" a.php", "b.php"]
    (Listing.output 0 (printed paths)).tracked? = some ["a.php", "b.php"] ∧
    Settings.Kept {} v ⟨.root, ["work"]⟩ " a.php" ∧
    " a.php" ∉ discover v (.output 0 (printed paths)) ⟨.relative, []⟩ {} ∧
    "b.php" ∈ discover v (.output 0 (printed paths)) ⟨.relative, []⟩ {} ∧
    discover v .unavailable ⟨.relative, []⟩ {} = paths := by
  intro v paths
  obtain ⟨hread, -, hfound⟩ := tracked_printed_iff paths
  have hkept : ∀ path ∈ paths,
      Settings.Kept {} v (Path.resolve v.here ⟨.relative, []⟩) (forwardSlashes path) := by
    decide +kernel
  have hiff : ∀ path ∈ paths, (forwardSlashes path ∈
      discover v (.output 0 (printed paths)) ⟨.relative, []⟩ {} ↔ TidyPath path) :=
    fun path hpath => hfound v ⟨.relative, []⟩ {} path hpath (hkept path hpath)
  refine ⟨?_, by decide +kernel, ?_, ?_, ?_⟩
  · rw [hread]
    decide +kernel
  · exact mt (hiff " a.php" (by simp [paths])).mp (by decide +kernel)
  · exact (hiff "b.php" (by simp [paths])).mpr (by decide +kernel)
  · exact discover_eq_of_perm (by decide +kernel) (by decide)

end PhpCatalog
