/-
# What is kept of a listing

A path is kept if no rule of the settings leaves it out and if it leads to something that is not too
large.  Each path is judged by itself, so of a listing it only matters which paths it has and how
often.

* **`discover_counts`**: what is found is in order, and a path that is kept is found as often as it
  is listed, any other path never.
* **`discover_sublist`**: settings that leave out less find what was found before, in the same
  order.
-/
import PhpCatalog.Proofs.Discovery.Discover

namespace PhpCatalog

/-! ### The rules -/

/-- No rule of the settings leaves a path out. -/
structure Settings.Passes (s : Settings) (path : String) : Prop where
  supported : suffix (lower (baseName path.toList)) ∈ phpSuffixes
  unminified : ¬ minifiedSuffix <:+ lower (baseName path.toList)
  template : templateSuffix <:+ lower (baseName path.toList) → s.includeTemplates = true
  vendored : vendorName ∈ (splitSlashes path.toList).dropLast → s.includeVendor = true
  patterns : ∀ pattern ∈ s.exclude, Text.Glob.accepts pattern path = false

/-- A path is kept: it passes the rules, and what it leads to is at most as large as the settings
say. -/
def Settings.Kept (s : Settings) (v : Volume) (top : Path) (path : String) : Prop :=
  s.Passes path ∧
    ∃ size, v.size? (top.join (Path.ofString path)) = some size ∧ (size : Int) ≤ s.maxFileSize

section Rules

variable {s : Settings} {v : Volume} {top : Path} {path : String}

lemma passes_iff : s.skips path = false ↔ s.Passes path := by
  have hrules : s.skips path = false ↔
      suffix (lower (baseName path.toList)) ∈ phpSuffixes ∧
      ¬ minifiedSuffix <:+ lower (baseName path.toList) ∧
      (templateSuffix <:+ lower (baseName path.toList) → s.includeTemplates = true) ∧
      (vendorName ∈ (splitSlashes path.toList).dropLast → s.includeVendor = true) ∧
      ∀ pattern ∈ s.exclude, Text.Glob.accepts pattern path = false := by
    simp only [Settings.skips, Settings.skipsBy, getLastD_splitSlashes]
    simp [← List.isSuffixOf_iff_suffix, and_assoc]
  rw [hrules]
  exact ⟨fun ⟨supported, unminified, template, vendored, patterns⟩ =>
      ⟨supported, unminified, template, vendored, patterns⟩,
    fun h => ⟨h.supported, h.unminified, h.template, h.vendored, h.patterns⟩⟩

lemma keeps_iff : s.keeps v top path = true ↔ s.Kept v top path := by
  rw [Settings.keeps, Bool.and_eq_true, Bool.not_eq_true', passes_iff, Settings.Kept]
  cases v.size? (top.join (Path.ofString path)) <;> simp

instance : Decidable (s.Kept v top path) :=
  decidable_of_iff (s.keeps v top path = true) keeps_iff

/-- Whether a path is kept depends on the volume only for the size of what it leads to. -/
lemma keeps_congr {v' : Volume}
    (h : v'.size? (top.join (Path.ofString path)) = v.size? (top.join (Path.ofString path))) :
    s.keeps v' top path = s.keeps v top path := by
  rw [Settings.keeps, Settings.keeps, h]

end Rules

/-! ### Order and number -/

/-- **Each path is found as often as it is listed, if it is kept**, and else never; and what is
found is in order.  So nothing changes if the paths are listed in another order, also by another
volume where the paths lead to things of the same sizes. -/
theorem discover_counts (v : Volume) (listing : Listing) (root : Path) (s : Settings) :
    (discover v listing root s).Pairwise (· ≤ ·) ∧
    (∀ path, (discover v listing root s).count path =
      if s.Kept v (root.resolve v.here) path then
        (listed v listing (root.resolve v.here)).count path
      else 0) ∧
    ∀ (v' : Volume) (other : Listing), v'.here = v.here →
      (listed v' other (root.resolve v.here)).Perm (listed v listing (root.resolve v.here)) →
      (∀ path ∈ listed v listing (root.resolve v.here),
        v'.size? ((root.resolve v.here).join (Path.ofString path)) =
          v.size? ((root.resolve v.here).join (Path.ofString path))) →
      discover v' other root s = discover v listing root s := by
  refine ⟨Text.pairwise_sortTexts _, fun path => ?_, fun v' other hhere hperm hsize => ?_⟩
  · simp only [count_discover, keeps_iff]
  · have hkeeps : ∀ path ∈ listed v listing (root.resolve v.here),
        s.keeps v' (root.resolve v.here) path = s.keeps v (root.resolve v.here) path :=
      fun path hpath => keeps_congr (hsize path hpath)
    rw [discover, discover, hhere, ← List.filter_congr hkeeps]
    exact Text.sortTexts_congr (hperm.filter _)

/-- A directory with sources of two to five bytes, some of which a rule leaves out, and with a
directory that has the name of a source. -/
def crowdedEntries : List (String × Entry) :=
  [("b.php", .file ⟨#[60, 63, 32]⟩), ("notes.php", .directory []),
    ("page.blade.php", .file ⟨#[60, 63]⟩),
    ("src", .directory
      [("a.php", .file ⟨#[60, 63]⟩), ("big.php", .file ⟨#[60, 63, 112, 104, 112]⟩)]),
    ("vendor", .directory [("v.php", .file ⟨#[60, 63]⟩)])]

/-- A project of the given entries. -/
def projectWith (entries : List (String × Entry)) : Volume where
  root := .directory [("work", .directory entries)]
  here := ["work"]

/-- One file is listed in two spellings and found twice.  Nothing changes when the lines of the
listing stand in reverse, or when the entries of the directory do before a walk. -/
theorem discover_crowdedEntries :
    let v := projectWith crowdedEntries
    let s : Settings := { exclude := ["b.*"], maxFileSize := 3 }
    let paths := ["src\\a.php", "notes.php", "src/big.php", "vendor/v.php", "src/a.php", "lost.php",
      "page.blade.php", "b.php"]
    let found := discover v (.output 0 (printed paths)) ⟨.relative, []⟩ s
    found.count "src/a.php" = 2 ∧
    (∀ path ∈ paths, path ≠ "src/a.php" → found.count path = 0) ∧
    discover v (.output 0 (printed paths.reverse)) ⟨.relative, []⟩ s = found ∧
    discover (projectWith crowdedEntries.reverse) .timedOut ⟨.relative, []⟩ s =
      discover v .unavailable ⟨.relative, []⟩ s := by
  intro v s paths found
  have htidy : ∀ path ∈ paths, TidyPath path := by decide +kernel
  have hlisted := listed_printed_of_tidy htidy v (Path.resolve v.here ⟨.relative, []⟩)
  have hreversed := listed_printed_of_tidy
    (fun path hpath => htidy path (List.mem_reverse.mp hpath)) v
    (Path.resolve v.here ⟨.relative, []⟩)
  obtain ⟨-, hcount, hsame⟩ := discover_counts v (.output 0 (printed paths)) ⟨.relative, []⟩ s
  obtain ⟨-, -, hwalk⟩ := discover_counts v .unavailable ⟨.relative, []⟩ s
  refine ⟨?_, ?_, ?_, ?_⟩
  · rw [hcount, hlisted]
    decide +kernel
  · intro path hpath hother
    have hleft : ∀ path ∈ paths, path ≠ "src/a.php" →
        ¬ s.Kept v (Path.resolve v.here ⟨.relative, []⟩) path := by
      decide +kernel
    rw [hcount, if_neg (hleft path hpath hother)]
  · refine hsame v (.output 0 (printed paths.reverse)) rfl ?_ fun _ _ => rfl
    rw [hlisted, hreversed]
    exact (List.reverse_perm paths).map _
  · exact hwalk (projectWith crowdedEntries.reverse) _ rfl (by decide +kernel) (by decide +kernel)

/-! ### Settings that leave out less -/

/-- The settings `s'` leave out no more than `s` do. -/
structure Settings.Widened (s s' : Settings) : Prop where
  exclude : s'.exclude ⊆ s.exclude
  templates : s.includeTemplates = true → s'.includeTemplates = true
  vendor : s.includeVendor = true → s'.includeVendor = true
  size : s.maxFileSize ≤ s'.maxFileSize

section Widened

variable {s s' : Settings} (h : s.Widened s') {v : Volume} {top : Path} {path : String}

include h

lemma Settings.Passes.widened (hpasses : s.Passes path) : s'.Passes path where
  supported := hpasses.supported
  unminified := hpasses.unminified
  template := fun htemplate => h.templates (hpasses.template htemplate)
  vendored := fun hvendored => h.vendor (hpasses.vendored hvendored)
  patterns := fun pattern hpattern => hpasses.patterns pattern (h.exclude hpattern)

lemma Settings.Kept.widened (hkept : s.Kept v top path) : s'.Kept v top path := by
  obtain ⟨hpasses, size, hsize, hle⟩ := hkept
  exact ⟨hpasses.widened h, size, hsize, hle.trans h.size⟩

/-- **Settings that leave out less find what was found before, in the same order.**  What they find
beyond that is what the stricter settings do not keep. -/
theorem discover_sublist (v : Volume) (listing : Listing) (root : Path) :
    (discover v listing root s).Sublist (discover v listing root s') ∧
    discover v listing root s =
      (discover v listing root s').filter (s.keeps v (root.resolve v.here)) := by
  have hfilter : discover v listing root s =
      (discover v listing root s').filter (s.keeps v (root.resolve v.here)) := by
    rw [discover, discover, Text.filter_sortTexts, List.filter_filter]
    refine congrArg Text.sortTexts (List.filter_congr fun path _ => ?_)
    cases hkeeps : s.keeps v (root.resolve v.here) path with
    | false => simp
    | true =>
      have hwide := keeps_iff.mpr ((keeps_iff.mp hkeeps).widened h)
      simp [hwide]
  refine ⟨?_, hfilter⟩
  rw [hfilter]
  exact List.filter_sublist

end Widened

/-- The wider settings drop a pattern, include templates and vendored packages, and admit the large
file as well as the directory. -/
theorem discover_widenedSettings :
    let v := projectWith crowdedEntries
    let s : Settings := { exclude := ["src/*", "*.inc"], maxFileSize := 3 }
    let s' : Settings :=
      { exclude := ["*.inc"], includeTemplates := true, includeVendor := true, maxFileSize := 4096 }
    let listing : Listing := .output 0 (printed
      ["src/big.php", "vendor/v.php", "b.php", "src/a.php", "notes.php", "page.blade.php"])
    s.Widened s' ∧ discover v listing ⟨.relative, []⟩ s = ["b.php"] ∧
    discover v listing ⟨.relative, []⟩ s' =
      ["b.php", "notes.php", "page.blade.php", "src/a.php", "src/big.php", "vendor/v.php"] ∧
    (discover v listing ⟨.relative, []⟩ s).Sublist (discover v listing ⟨.relative, []⟩ s') := by
  intro v s s' listing
  have hwidened : s.Widened s' := ⟨by decide, by decide, by decide, by decide⟩
  obtain ⟨hsublist, hfilter⟩ := discover_sublist hwidened v listing ⟨.relative, []⟩
  have hwide : discover v listing ⟨.relative, []⟩ s' =
      ["b.php", "notes.php", "page.blade.php", "src/a.php", "src/big.php", "vendor/v.php"] := by
    refine discover_eq_of_perm ?_ (by decide)
    rw [listed_printed_of_tidy (by decide +kernel)]
    decide +kernel
  refine ⟨hwidened, ?_, hwide, hsublist⟩
  rw [hfilter, hwide]
  decide +kernel

end PhpCatalog
