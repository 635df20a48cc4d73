/-
# Files do not touch each other

A path that is extracted below a root has a result that is a function of the path and of what
reading it brings (`FileExtraction.ofContent`).  So the results of a list are those of its paths,
one by one and in their order, whatever other paths there are and whatever they lead to
(`extractFiles_isolated`).

That there is a result at all needs an argument in one place.  A file is refused if the name it is
recorded under has no known suffix, and a path that leads back to the root itself is recorded as a
dot.  But where a relative path can be read, the root is a directory, so the path does not lead back
to it (`ofPath?_nameBelow`).
-/
import PhpCatalog.Proofs.Catalog.Walk
import PhpCatalog.Proofs.Discovery.Supported
import PhpCatalog.Proofs.Extraction.Concepts
import PhpCatalog.Php.Outline

namespace PhpCatalog

/-- A path that can be extracted below a root: a relative one, with a known suffix, that does not
leave the root.  If there is a file, then in its tree no node ends on an earlier row than it starts
on. -/
structure Extractable (read : ByteArray → Node) (v : Volume) (root : Path) (path : String) :
    Prop where
  relative : (Path.ofString path).anchor = .relative
  supported : Language.ofPath? path = some .php
  below : (root.resolve v.here).parts <+: ((root.join (Path.ofString path)).resolve v.here).parts
  rows : ∀ source, v.read (root.join (Path.ofString path)) = .ok source →
    ∀ n ∈ (read source).nodes, n.startPoint.row ≤ n.stopPoint.row

/-- The name of a file from the root on, in the directory `here`. -/
def nameBelow (here : List String) (root : Path) (path : String) : String :=
  Path.text ⟨.relative, ((root.join (Path.ofString path)).resolve here).parts.drop
    (root.resolve here).parts.length⟩

/-- The result of a path, from what reading it brings.  A file has what each site of its tree
contributes; a refused access is the only error of its path. -/
def FileExtraction.ofContent (read : ByteArray → Node) (here : List String) (root : Path)
    (path : String) : Except AccessFault ByteArray → FileExtraction
  | .error f => { filePath := path, errors := [path ++ ": " ++ f.message] }
  | .ok source =>
    let name := nameBelow here root path
    let found := Catalog.ofSites source name ((read source).preorder [])
    { filePath := name, concepts := found.concepts, errors := found.errors.map NodeFault.message }

/-! ### The name of a file that can be read -/

section OneFile

variable {read : ByteArray → Node} {v : Volume} {root : Path} {path : String} {source : ByteArray}

/-- A relative path that leads to a file leads through the root. -/
lemma isDirectory_of_read (hrelative : (Path.ofString path).anchor = .relative)
    (hname : IsEntryName (lastName path))
    (h : v.read (root.join (Path.ofString path)) = .ok source) :
    ∃ entries, v.locate root = .ok (.directory entries) := by
  have hlocate := Volume.read_eq_ok_iff.mp h
  have hne : (Path.ofString path).parts ≠ [] := by
    obtain ⟨dirs, hparts⟩ := parts_ofString hname
    simp [hparts]
  obtain ⟨first, rest, hparts⟩ := List.exists_cons_of_ne_nil hne
  rw [Volume.locate_eq_descend, Volume.names_join_relative v root hrelative, hparts] at hlocate
  rw [Volume.locate_eq_descend]
  exact Entry.isDirectory_of_descend_append hlocate

lemma recordedPath_eq_nameBelow
    (h : (root.resolve v.here).parts <+: ((root.join (Path.ofString path)).resolve v.here).parts) :
    recordedPath v (root.join (Path.ofString path)) (some root) =
      .ok (nameBelow v.here root path) := by
  have hbelow :
      ((root.join (Path.ofString path)).resolve v.here).relativeTo? (root.resolve v.here) =
        some ⟨.relative, ((root.join (Path.ofString path)).resolve v.here).parts.drop
          (root.resolve v.here).parts.length⟩ := by
    rw [Path.relativeTo?, if_pos]
    simpa [Volume.resolve_eq] using h
  simp [recordedPath, hbelow, nameBelow]

/-- The name of a file that can be read has the language of its path. -/
lemma ofPath?_nameBelow (h : Extractable read v root path)
    (hread : v.read (root.join (Path.ofString path)) = .ok source) :
    Language.ofPath? (nameBelow v.here root path) = some .php := by
  have hname := isEntryName_lastName h.supported
  rcases recordedPath_cases hname (recordedPath_eq_nameBelow h.below) with hbase | hresolve
  · rw [ofPath?_congr hbase, h.supported]
  · -- the path leads back to the root, which is a directory and no file
    obtain ⟨entries, hroot⟩ := isDirectory_of_read h.relative hname hread
    cases Volume.locate_unique (Volume.read_eq_ok_iff.mp hread) hroot hresolve

/-! ### One file and many -/

/-- A source with a known suffix is cataloged to its end. -/
lemma extractSource_eq {name : String} (hlanguage : Language.ofPath? name = some .php)
    (rows : ∀ n ∈ (read source).nodes, n.startPoint.row ≤ n.stopPoint.row) :
    ∃ log, extractSource read source name none =
      .ok (⟨name, (Catalog.ofSites source name ((read source).preorder [])).concepts,
        (Catalog.ofSites source name ((read source).preorder [])).errors.map NodeFault.message⟩,
        log) := by
  obtain ⟨hwalk, -⟩ := Catalog.walkOnto_eq_preorder source name [] (read source) rows
  simp only [extractSource, sourceLanguage_of_ofPath? hlanguage, Catalog.walk, hwalk]
  exact ⟨_, rfl⟩

lemma extractListed_eq (h : Extractable read v root path) :
    ∃ log, extractListed read v root path =
      .ok (.ofContent read v.here root path (v.read (root.join (Path.ofString path))), log) := by
  have hrecord := recordedPath_eq_nameBelow h.below
  rcases hread : v.read (root.join (Path.ofString path)) with f | source
  · simp only [extractListed, extractFile, hrecord, hread]
    exact ⟨_, rfl⟩
  · obtain ⟨log, hsource⟩ := extractSource_eq (ofPath?_nameBelow h hread) (h.rows source hread)
    simp only [extractListed, extractFile, hrecord, hread, hsource, Except.mapError]
    exact ⟨log, rfl⟩

end OneFile

/-- Where each path has a result, the results come back in order. -/
lemma extractInTurn_eq_map {one : String → Except Abort (FileExtraction × List Record)}
    {result : String → FileExtraction} {paths : List String}
    (h : ∀ path ∈ paths, ∃ log, one path = .ok (result path, log)) :
    (extractInTurn one paths).value = .ok (paths.map result) := by
  induction paths with
  | nil => rfl
  | cons path rest ih =>
    obtain ⟨⟨log, hfirst⟩, hrest⟩ := List.forall_mem_cons.mp h
    simp [extractInTurn, hfirst, ih hrest, Except.map]

lemma extractFiles_eq_map {read : ByteArray → Node} {v : Volume} {root : Path} {paths : List String}
    (h : ∀ path ∈ paths, Extractable read v root path) :
    (extractFiles read v root paths).value = .ok (paths.map fun path =>
      .ofContent read v.here root path (v.read (root.join (Path.ofString path)))) := by
  rw [value_extractFiles, extractEach]
  exact extractInTurn_eq_map fun path hpath => extractListed_eq (h path hpath)

/-- A path that leads to no file has one error and nothing else. -/
lemma ofContent_of_not_isFile (read : ByteArray → Node) (here : List String) (root : Path)
    (path : String) {v : Volume} {p : Path} (h : v.isFile p = false) :
    ∃ message, FileExtraction.ofContent read here root path (v.read p) =
      ⟨path, [], [path ++ ": " ++ message]⟩ := by
  rcases hread : v.read p with f | source
  · exact ⟨f.message, rfl⟩
  · simp [Volume.isFile, Volume.read_eq_ok_iff.mp hread] at h

/-- **Files are extracted in isolation.**  Extraction returns one result for each path, in their
order.

* The result of a path is `ofContent` of what reading it brings.
* Two lists behind each other have the results of both, one behind the other.
* A path that leads to no file has no concepts and one error.
* Wherever a path stands in a list, and whatever else changes on the volume, its result stays the
  same as long as reading it brings the same. -/
theorem extractFiles_isolated {read : ByteArray → Node} {v : Volume} {root : Path}
    {paths : List String} (h : ∀ path ∈ paths, Extractable read v root path) :
    ∃ files, (extractFiles read v root paths).value = .ok files ∧
      files = paths.map (fun path =>
        .ofContent read v.here root path (v.read (root.join (Path.ofString path)))) ∧
      (∀ ps qs, paths = ps ++ qs → ∃ as bs, (extractFiles read v root ps).value = .ok as ∧
        (extractFiles read v root qs).value = .ok bs ∧ files = as ++ bs) ∧
      (∀ (i : Nat) path, paths[i]? = some path →
        v.isFile (root.join (Path.ofString path)) = false →
        ∃ message, files[i]? = some ⟨path, [], [path ++ ": " ++ message]⟩) ∧
      ∀ (v' : Volume) others, v'.here = v.here →
        (∀ path ∈ others, Extractable read v' root path) →
        ∃ files', (extractFiles read v' root others).value = .ok files' ∧
          files'.length = others.length ∧
          ∀ (i j : Nat) path, paths[i]? = some path → others[j]? = some path →
            v'.read (root.join (Path.ofString path)) = v.read (root.join (Path.ofString path)) →
            files'[j]? = files[i]? := by
  refine ⟨_, extractFiles_eq_map h, rfl, ?_, ?_, ?_⟩
  · rintro ps qs rfl
    obtain ⟨hps, hqs⟩ := List.forall_mem_append.mp h
    exact ⟨_, _, extractFiles_eq_map hps, extractFiles_eq_map hqs, List.map_append⟩
  · intro i path hpath hfile
    obtain ⟨message, hcontent⟩ := ofContent_of_not_isFile read v.here root path hfile
    exact ⟨message, by simp [hpath, hcontent]⟩
  · intro v' others hhere hothers
    refine ⟨_, extractFiles_eq_map hothers, List.length_map _, ?_⟩
    intro i j path hi hj hread
    simp [hi, hj, hread, hhere]

/-- The bytes of `<?php function f() {}`. -/
def functionSource : ByteArray :=
  ⟨#[60, 63, 112, 104, 112, 32, 102, 117, 110, 99, 116, 105, 111, 110, 32, 102, 40, 41, 32, 123,
    125]⟩

/-- A project with a source, and with some entry whose name is that of a source. -/
def workshop (second : Entry) : Volume where
  root := .directory [("work", .directory [("a.php", .file functionSource), ("b.php", second)])]
  here := ["work"]

lemma extractable_workshop {second : Entry} {path : String}
    (hsecond : second = .directory [] ∨ second = .file functionSource)
    (hpath : path ∈ ["../work/a.php", "b.php", "c.php"]) :
    Extractable Php.outline (workshop second) (Path.ofString ".") path := by
  have hform : ∀ path ∈ ["../work/a.php", "b.php", "c.php"],
      (Path.ofString path).anchor = .relative ∧ Language.ofPath? path = some .php ∧
        ((Path.ofString ".").resolve ["work"]).parts <+:
          (((Path.ofString ".").join (Path.ofString path)).resolve ["work"]).parts := by
    decide +kernel
  have hrows : ∀ n ∈ (Php.outline functionSource).nodes, n.startPoint.row ≤ n.stopPoint.row := by
    decide +kernel
  obtain ⟨hrelative, hsupported, hbelow⟩ := hform path hpath
  refine ⟨hrelative, hsupported, hbelow, fun source hread => ?_⟩
  -- there is no other file than the source
  obtain rfl : functionSource = source := by
    simp only [List.mem_cons, List.not_mem_nil, or_false] at hpath
    rcases hpath with rfl | rfl | rfl
    · exact Except.ok.inj hread
    · rcases hsecond with rfl | rfl
      · cases (show Except.error _ = Except.ok source from hread)
      · exact Except.ok.inj hread
    · cases (show Except.error _ = Except.ok source from hread)
  exact hrows

/-- The source is found on a way out of the project and back.  The directory and the missing file
have an error each, and when the directory gives way to a file, nothing changes for the others. -/
theorem extractFiles_workshop :
    ∃ a b c, (extractFiles Php.outline (workshop (.directory [])) (Path.ofString ".")
        ["../work/a.php", "b.php", "c.php"]).value = .ok [a, b, c] ∧
      a.filePath = "a.php" ∧ a.concepts.map Concept.name = ["f"] ∧ a.errors = [] ∧
      b.concepts = [] ∧ b.errors.length = 1 ∧ c.concepts = [] ∧ c.errors.length = 1 ∧
      ∃ b', (extractFiles Php.outline (workshop (.file functionSource)) (Path.ofString ".")
        ["c.php", "b.php", "../work/a.php"]).value = .ok [c, b', a] := by
  have hbefore : ∀ path ∈ ["../work/a.php", "b.php", "c.php"],
      Extractable Php.outline (workshop (.directory [])) (Path.ofString ".") path :=
    fun _ hpath => extractable_workshop (Or.inl rfl) hpath
  have hafter : ∀ path ∈ ["c.php", "b.php", "../work/a.php"],
      Extractable Php.outline (workshop (.file functionSource)) (Path.ofString ".") path :=
    fun _ hpath => extractable_workshop (Or.inr rfl) (List.mem_reverse.mp hpath)
  obtain ⟨_, hvalue, rfl, -, hrefused, hsame⟩ := extractFiles_isolated hbefore
  obtain ⟨messageB, hsecond⟩ := hrefused 1 "b.php" rfl rfl
  obtain ⟨messageC, hthird⟩ := hrefused 2 "c.php" rfl rfl
  have hb := Option.some.inj hsecond
  have hc := Option.some.inj hthird
  obtain ⟨files, hvalue', hlength, hfiles⟩ :=
    hsame (workshop (.file functionSource)) _ rfl hafter
  obtain ⟨c, b', a, rfl⟩ := List.length_eq_three.mp hlength
  obtain rfl := Option.some.inj (hfiles 0 2 "../work/a.php" rfl rfl rfl)
  obtain rfl := Option.some.inj (hfiles 2 0 "c.php" rfl rfl rfl)
  refine ⟨_, _, _, hvalue, by decide +kernel, by decide +kernel, by decide +kernel, ?_⟩
  exact ⟨congrArg (·.concepts) hb, congrArg (·.errors.length) hb, congrArg (·.concepts) hc,
    congrArg (·.errors.length) hc, b', hvalue'⟩

end PhpCatalog
