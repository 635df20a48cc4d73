/-
# What discovery finds

Discovery sorts what is listed and leaves some of it out; it does neither add nor merge.  So a path
is found as many times as it is listed, and lists with the same paths are discovered alike.

* **`count_discover`**: how many times a path is found.
* **`discover_eq_filter_tracked`**: a walk finds what a listing of the tree finds, without what lies
  in directories that a walk passes by.
-/
import PhpCatalog.Discovery.Discover
import PhpCatalog.Proofs.Discovery.Reading
import PhpCatalog.Proofs.Discovery.Tree
import PhpCatalog.Proofs.Text.Order

namespace PhpCatalog

/-- A path is found as many times as it is listed, if it is kept at all. -/
lemma count_discover (v : Volume) (listing : Listing) (root : Path) (s : Settings) (path : String) :
    (discover v listing root s).count path =
      if s.keeps v (root.resolve v.here) path then
        (listed v listing (root.resolve v.here)).count path
      else 0 := by
  rw [discover, (Text.perm_sortTexts _).count_eq]
  split
  · rename_i hkept
    exact List.count_filter hkept
  · rename_i hleft
    exact List.count_eq_zero.mpr fun hmem => hleft (List.mem_filter.mp hmem).2

lemma mem_discover_iff {v : Volume} {listing : Listing} {root : Path} {s : Settings}
    {path : String} :
    path ∈ discover v listing root s ↔
      path ∈ listed v listing (root.resolve v.here) ∧
        s.keeps v (root.resolve v.here) path = true := by
  rw [discover, Text.mem_sortTexts, List.mem_filter]

/-- Listings of the same paths, in any order, are discovered alike; paths that one of them lists in
addition are found in addition. -/
lemma discover_eq_filter {v : Volume} {listing other : Listing} {root : Path} {p : String → Bool}
    (h : (listed v listing (root.resolve v.here)).Perm
      ((listed v other (root.resolve v.here)).filter p)) (s : Settings) :
    discover v listing root s = (discover v other root s).filter p := by
  rw [discover, discover, Text.filter_sortTexts, List.filter_comm]
  exact Text.sortTexts_congr (h.filter _)

/-- Discovered are the listed paths that are kept, once they are in order. -/
lemma discover_eq_of_perm {v : Volume} {listing : Listing} {root : Path} {s : Settings}
    {sorted : List String}
    (hperm : sorted.Perm
      ((listed v listing (root.resolve v.here)).filter (s.keeps v (root.resolve v.here))))
    (hsorted : sorted.Pairwise (· ≤ ·)) : discover v listing root s = sorted :=
  (Text.eq_sortTexts hperm hsorted).symm

/-! ### Paths that cannot be asked for -/

lemma hasNul_join_ofString {root : Path} (hroot : root.hasNul = false) {path : String}
    (h : '\x00' ∉ path.toList) : (root.join (Path.ofString path)).hasNul = false := by
  simp only [Path.hasNul, List.any_eq_false, List.contains_iff_mem] at hroot ⊢
  have hparts : ∀ name ∈ (Path.ofString path).parts, '\x00' ∉ name.toList := by
    intro name hname hnul
    obtain ⟨piece, hpiece, rfl⟩ := List.mem_map.mp (List.mem_filter.mp hname).1
    rw [String.toList_ofList] at hnul
    exact h (subset_of_mem_splitSlashes hpiece hnul)
  intro name hname
  rw [Path.join] at hname
  split at hname
  · rcases List.mem_append.mp hname with hbase | hname
    · exact hroot name hbase
    · exact hparts name hname
  · exact hparts name hname

/-- Discovery fails exactly at a listed path with a null character that is not skipped. -/
theorem tryDiscover_eq_ok_iff {v : Volume} {listing : Listing} {root : Path} {s : Settings}
    {found : List String} :
    tryDiscover v listing root s = .ok found ↔
      (∀ path ∈ listed v listing (root.resolve v.here), s.skips path = false →
        ((root.resolve v.here).join (Path.ofString path)).hasNul = false) ∧
      discover v listing root s = found := by
  by_cases h :
      (listed v listing (root.resolve v.here)).any (s.stumbles (root.resolve v.here)) = true
  · have hstop : tryDiscover v listing root s = .error .nul := if_pos h
    simp only [List.any_eq_true, Settings.stumbles, Bool.and_eq_true, Bool.not_eq_true'] at h
    obtain ⟨path, hmem, hkept, hnul⟩ := h
    rw [hstop]
    constructor
    · rintro ⟨⟩
    · rintro ⟨hclear, -⟩
      simp [hclear path hmem hkept] at hnul
  · have hgo : tryDiscover v listing root s = .ok (discover v listing root s) := if_neg h
    simp only [List.any_eq_true, Settings.stumbles, Bool.and_eq_true, Bool.not_eq_true',
      not_exists, not_and, Bool.not_eq_true] at h
    rw [hgo, Except.ok.injEq]
    exact (and_iff_right h).symm

/-- Without null characters, neither in the directory nor in what is listed, discovery succeeds. -/
theorem tryDiscover_of_no_nul {v : Volume} {listing : Listing} {root : Path}
    (hroot : (root.resolve v.here).hasNul = false)
    (h : ∀ path ∈ listed v listing (root.resolve v.here), '\x00' ∉ path.toList) (s : Settings) :
    tryDiscover v listing root s = .ok (discover v listing root s) :=
  tryDiscover_eq_ok_iff.mpr ⟨fun path hpath _ => hasNul_join_ofString hroot (h path hpath), rfl⟩

/-! ### A path that is listed several times -/

/-- **A file is discovered once if it is listed once.**  Each line of a listing counts, so a path
that is kept is found as many times as there are lines that, without blanks at their ends and with
slashes for backslashes, are this path. -/
theorem nodup_discover_iff (v : Volume) (text : String) (root : Path) (s : Settings) :
    (∀ path, (discover v (.output 0 text) root s).count path =
      if s.keeps v (root.resolve v.here) path then
        ((Listing.paths text).map forwardSlashes).count path
      else 0) ∧
    ((discover v (.output 0 text) root s).Nodup ↔
      ∀ path, s.keeps v (root.resolve v.here) path = true →
        ((Listing.paths text).map forwardSlashes).count path ≤ 1) := by
  have hcount := count_discover v (.output 0 text) root s
  refine ⟨hcount, ?_⟩
  rw [List.nodup_iff_count_le_one]
  refine forall_congr' fun path => ?_
  rw [hcount path]
  by_cases hkept : s.keeps v (root.resolve v.here) path = true
  · simp [hkept, listed, Listing.tracked?]
  · simp [hkept]

/-- A project with one source. -/
def singleProject : Volume where
  root := .directory [("work", .directory [("a.php", .file ⟨#[60, 63, 112, 104, 112]⟩)])]
  here := []

/-- While a merge waits, a listing has a path once for each version of the file: the one source is
discovered three times. -/
theorem discover_unmerged :
    discover singleProject (.output 0 "a.php\na.php\na.php\n") ⟨.root, ["work"]⟩ {} =
      ["a.php", "a.php", "a.php"] ∧
    ¬ (discover singleProject (.output 0 "a.php\na.php\na.php\n") ⟨.root, ["work"]⟩ {}).Nodup := by
  obtain ⟨-, hnodup⟩ :=
    nodup_discover_iff singleProject "a.php\na.php\na.php\n" ⟨.root, ["work"]⟩ {}
  refine ⟨discover_eq_of_perm (by decide +kernel) (by decide), fun h => ?_⟩
  have hcount := hnodup.mp h "a.php" (by decide +kernel)
  revert hcount
  decide +kernel

/-! ### Listings of a tree -/

/-- A path that comes back from a listing as it is: without backslashes and line breaks, and without
blanks at its ends. -/
structure PlainPath (path : String) : Prop where
  backslash : '\\' ∉ path.toList
  breaks : Text.BreakFree path.toList
  first : ∀ c ∈ path.toList.head?, Text.isBlank c = false
  last : ∀ c ∈ path.toList.getLast?, Text.isBlank c = false

instance (path : String) : Decidable (PlainPath path) :=
  decidable_of_iff
    ('\\' ∉ path.toList ∧ Text.BreakFree path.toList ∧
      path.toList.head?.all (!Text.isBlank ·) = true ∧
      path.toList.getLast?.all (!Text.isBlank ·) = true)
    (by
      simp only [Option.all_eq_true, Bool.not_eq_true']
      exact ⟨fun ⟨backslash, breaks, first, last⟩ => ⟨backslash, breaks, first, last⟩,
        fun h => ⟨h.backslash, h.breaks, h.first, h.last⟩⟩)

lemma PlainPath.forwardSlashes_eq {path : String} (h : PlainPath path) :
    forwardSlashes path = path :=
  forwardSlashes_of_notMem h.backslash

lemma PlainPath.tidy {path : String} (h : PlainPath path) (hne : path ≠ "") : TidyPath path :=
  ⟨h.breaks, fun hnil => hne (String.toList_eq_nil_iff.mp hnil), h.first, h.last⟩

/-- Paths as a listing prints them, one a line. -/
def printed (paths : List String) : String :=
  String.join (paths.map (· ++ "\n"))

/-- A printed path is read as if it were printed alone. -/
lemma paths_printed (paths : List String) :
    Listing.paths (printed paths) = paths.flatMap Listing.paths := by
  induction paths with
  | nil => rfl
  | cons path rest ih =>
    have htext : printed (path :: rest) = path ++ "\n" ++ printed rest := by
      simp [printed, String.join_cons]
    rw [htext, Listing.paths_append_feed, ih, List.flatMap_cons]

/-- Tidy paths come back from the text they are printed as. -/
lemma paths_printed_of_tidy {paths : List String} (h : ∀ path ∈ paths, TidyPath path) :
    Listing.paths (printed paths) = paths := by
  rw [paths_printed, List.flatMap_congr fun path hpath => Listing.paths_of_tidy (h path hpath)]
  exact List.flatMap_singleton' paths

lemma listed_printed_of_tidy {paths : List String} (h : ∀ path ∈ paths, TidyPath path) (v : Volume)
    (root : Path) : listed v (.output 0 (printed paths)) root = paths.map forwardSlashes := by
  rw [listed, Listing.tracked?, if_pos rfl, Option.getD_some, paths_printed_of_tidy h]

/-- A list of paths is a listing of a tree: it has files of the tree only, none twice, and all those
that no directory to be passed by leads to. -/
structure Lists (paths : List String) (entries : List (String × Entry)) : Prop where
  distinct : paths.Nodup
  below (path : String) (h : path ∈ paths) : FileBelow entries path
  complete (path : String) (h : FileBelow entries path) (hopen : underBypassed path = false) :
    path ∈ paths

section Listed

variable {v : Volume} {root : Path} {entries : List (String × Entry)} {paths : List String}

lemma listed_printed (htree : (Entry.directory entries).Proper)
    (hplain : ∀ path, FileBelow entries path → PlainPath path) (hlists : Lists paths entries) :
    listed v (.output 0 (printed paths)) root = paths := by
  have htidy : ∀ path ∈ paths, TidyPath path := fun path hpath =>
    (hplain path (hlists.below path hpath)).tidy
      (ne_empty_of_fileBelow htree (hlists.below path hpath))
  have hslashes : paths.map forwardSlashes = paths.map id :=
    List.map_congr_left fun path hpath => (hplain path (hlists.below path hpath)).forwardSlashes_eq
  rw [listed_printed_of_tidy htidy, hslashes, List.map_id]

variable (hroot : v.locate root = .ok (.directory entries))
  (htree : (Entry.directory entries).Proper)

include hroot htree

lemma listed_walk (hplain : ∀ path, FileBelow entries path → PlainPath path) {fallback : Listing}
    (hfallback : fallback.tracked? = none) : listed v fallback root = v.walk root := by
  have hslashes : (v.walk root).map forwardSlashes = (v.walk root).map id := by
    refine List.map_congr_left fun path hpath => ?_
    exact (hplain path ((mem_walk_iff htree hroot).mp hpath).1).forwardSlashes_eq
  rw [listed, hfallback, Option.getD_none, hslashes, List.map_id]

/-- A walk lists what a listing of the tree does, but for the directories it passes by. -/
lemma walk_perm_filter (hlists : Lists paths entries) :
    (v.walk root).Perm (paths.filter fun path => !underBypassed path) := by
  refine (List.perm_ext_iff_of_nodup (nodup_walk htree hroot) (hlists.distinct.filter _)).mpr ?_
  intro path
  rw [mem_walk_iff htree hroot, List.mem_filter, Bool.not_eq_true']
  constructor
  · rintro ⟨hbelow, hopen⟩
    exact ⟨hlists.complete path hbelow hopen, hopen⟩
  · rintro ⟨hmem, hopen⟩
    exact ⟨hlists.below path hmem, hopen⟩

end Listed

/-- **A walk and a listing of the tree discover the same files**, but for those in directories that
a walk passes by.  The listing may have its paths in any order, and may or may not have such
files. -/
theorem discover_eq_filter_tracked {v : Volume} {root : Path} {entries : List (String × Entry)}
    (hroot : v.locate (root.resolve v.here) = .ok (.directory entries))
    (htree : (Entry.directory entries).Proper)
    (hplain : ∀ path, FileBelow entries path → PlainPath path)
    {paths : List String} (hlists : Lists paths entries)
    {fallback : Listing} (hfallback : fallback.tracked? = none) (s : Settings) :
    discover v fallback root s =
      (discover v (.output 0 (printed paths)) root s).filter fun path => !underBypassed path := by
  refine discover_eq_filter ?_ s
  rw [listed_walk hroot htree hplain hfallback, listed_printed htree hplain hlists]
  exact walk_perm_filter hroot htree hlists

/-- A directory with sources at the top, in a directory, and in one that a walk passes by, whose
name is also that of a file. -/
def mixedEntries : List (String × Entry) :=
  [("src", .directory [("a.php", .file ⟨#[60]⟩), ("env", .file ⟨#[]⟩)]),
    ("env", .directory [("hook.php", .file ⟨#[]⟩)]),
    ("b.php", .file ⟨#[]⟩)]

lemma proper_mixedEntries : (Entry.directory mixedEntries).Proper := by
  have hflat : ∀ entries : List (String × Entry), (entries.map Prod.fst).Nodup →
      (∀ named ∈ entries, IsEntryName named.1 ∧ '/' ∉ named.1.toList) →
      (∀ named ∈ entries, ∃ bytes, named.2 = .file bytes) → (Entry.directory entries).Proper := by
    intro entries hdistinct hnames hfiles
    refine .directory hdistinct hnames fun named hmem => ?_
    obtain ⟨bytes, heq⟩ := hfiles named hmem
    exact heq ▸ .file bytes
  refine .directory (by decide) (by simp [mixedEntries, IsEntryName]) ?_
  intro named hmem
  simp only [mixedEntries, List.mem_cons, List.not_mem_nil, or_false] at hmem
  rcases hmem with rfl | rfl | rfl
  · exact hflat _ (by decide) (by simp [IsEntryName]) (by simp)
  · exact hflat _ (by decide) (by simp [IsEntryName]) (by simp)
  · exact .file _

lemma fileBelow_mixedEntries {path : String} :
    FileBelow mixedEntries path ↔ path ∈ ["src/a.php", "src/env", "env/hook.php", "b.php"] := by
  constructor
  · rintro ⟨_ | ⟨name, rest⟩, hfile, rfl⟩
    · exact absurd hfile (Entry.not_isFileAt_nil _)
    obtain ⟨e, hmem, hrest⟩ := (Entry.isFileAt_cons (by decide)).mp hfile
    simp only [mixedEntries, List.mem_cons, Prod.mk.injEq, List.not_mem_nil, or_false] at hmem
    rcases hmem with ⟨rfl, rfl⟩ | ⟨rfl, rfl⟩ | ⟨rfl, rfl⟩
    · rcases rest with _ | ⟨inner, more⟩
      · exact absurd hrest (Entry.not_isFileAt_nil _)
      obtain ⟨e, hmem, hmore⟩ := (Entry.isFileAt_cons (by decide)).mp hrest
      simp only [List.mem_cons, Prod.mk.injEq, List.not_mem_nil, or_false] at hmem
      rcases hmem with ⟨rfl, rfl⟩ | ⟨rfl, rfl⟩
      · obtain rfl := Entry.isFileAt_file.mp hmore
        decide
      · obtain rfl := Entry.isFileAt_file.mp hmore
        decide
    · rcases rest with _ | ⟨inner, more⟩
      · exact absurd hrest (Entry.not_isFileAt_nil _)
      obtain ⟨e, hmem, hmore⟩ := (Entry.isFileAt_cons (by decide)).mp hrest
      simp only [List.mem_cons, Prod.mk.injEq, List.not_mem_nil, or_false] at hmem
      obtain ⟨rfl, rfl⟩ := hmem
      obtain rfl := Entry.isFileAt_file.mp hmore
      decide
    · obtain rfl := Entry.isFileAt_file.mp hrest
      decide
  · intro hmem
    simp only [List.mem_cons, List.not_mem_nil, or_false] at hmem
    rcases hmem with rfl | rfl | rfl | rfl
    · exact ⟨["src", "a.php"], ⟨_, rfl⟩, rfl⟩
    · exact ⟨["src", "env"], ⟨_, rfl⟩, rfl⟩
    · exact ⟨["env", "hook.php"], ⟨_, rfl⟩, rfl⟩
    · exact ⟨["b.php"], ⟨_, rfl⟩, rfl⟩

/-- A walk finds `b.php` and `src/a.php`, and a listing has `env/hook.php` beside them. -/
theorem discover_mixedProject :
    let v : Volume :=
      { root := .directory [("work", .directory mixedEntries)], here := ["work"] }
    let tracked : Listing := .output 0 "env/hook.php\nsrc/env\nsrc/a.php\nb.php\n"
    discover v tracked ⟨.relative, []⟩ {} = ["b.php", "env/hook.php", "src/a.php"] ∧
    discover v .timedOut ⟨.relative, []⟩ {} = ["b.php", "src/a.php"] := by
  intro v tracked
  have hroot : v.locate (Path.resolve v.here ⟨.relative, []⟩) = .ok (.directory mixedEntries) := rfl
  have hplain : ∀ path, FileBelow mixedEntries path → PlainPath path := by
    have hall : ∀ path ∈ ["src/a.php", "src/env", "env/hook.php", "b.php"], PlainPath path := by
      decide
    exact fun path hpath => hall path (fileBelow_mixedEntries.mp hpath)
  have hlists : Lists ["env/hook.php", "src/env", "src/a.php", "b.php"] mixedEntries := by
    refine ⟨by decide, fun path hpath => fileBelow_mixedEntries.mpr ?_, fun path hpath _ => ?_⟩
    · simp only [List.mem_cons] at hpath ⊢
      tauto
    · have hmem := fileBelow_mixedEntries.mp hpath
      simp only [List.mem_cons] at hmem ⊢
      tauto
  have htracked : discover v tracked ⟨.relative, []⟩ {} = ["b.php", "env/hook.php", "src/a.php"] :=
    discover_eq_of_perm (by decide +kernel) (by decide)
  have htext : tracked = .output 0 (printed ["env/hook.php", "src/env", "src/a.php", "b.php"]) := by
    decide
  have hwalk := discover_eq_filter_tracked hroot proper_mixedEntries hplain hlists
    (show Listing.timedOut.tracked? = none from rfl) {}
  rw [← htext, htracked] at hwalk
  exact ⟨htracked, hwalk.trans (by decide)⟩

end PhpCatalog
