/-
# The files of a directory

A walk through a proper tree, one whose directories name each entry once and name it well, finds
each file that no directory to be passed by leads to, and finds it once.

* **`Entry.mem_files_iff`**, **`Entry.nodup_files`**: as names that lead to a file, by induction
  over the tree.
* **`mem_walk_iff`**, **`nodup_walk`**: as paths, which have these names for their pieces.
-/
import Mathlib.Data.List.Nodup
import Mathlib.Tactic.Lemma
import PhpCatalog.Discovery.Listing
import PhpCatalog.Proofs.Path.Pieces
import PhpCatalog.Proofs.Volume.Writing

namespace PhpCatalog

namespace Entry

/-- The trees of a file system: the entries of a directory have different names, and a name is not
empty, does not stay in place, does not lead up and has no slash. -/
inductive Proper : Entry → Prop where
  | file (bytes : ByteArray) : Proper (.file bytes)
  | directory {entries : List (String × Entry)} (distinct : (entries.map Prod.fst).Nodup)
      (names : ∀ named ∈ entries, IsEntryName named.1 ∧ '/' ∉ named.1.toList)
      (each : ∀ named ∈ entries, Proper named.2) : Proper (.directory entries)

/-- Names lead to a file. -/
def IsFileAt (e : Entry) (names : List String) : Prop :=
  ∃ bytes, at? names e = some (.file bytes)

/-- No directory on the way is one to be passed by. -/
def Unbypassed (names : List String) : Prop :=
  ∀ dir ∈ names.dropLast, dir ∉ bypassed

/-! ### One directory -/

lemma find?_eq_some_iff {entries : List (String × Entry)}
    (h : (entries.map Prod.fst).Nodup) {name : String} {e : Entry} :
    find? name entries = some e ↔ (name, e) ∈ entries := by
  induction entries with
  | nil => simp [find?]
  | cons first rest ih =>
    obtain ⟨k, inner⟩ := first
    rw [List.map_cons, List.nodup_cons] at h
    by_cases hk : k = name
    · subst hk
      have hnot : (k, e) ∉ rest := fun hmem => h.1 (List.mem_map.mpr ⟨_, hmem, rfl⟩)
      simp [find?, hnot, eq_comm]
    · simp [find?, hk, Ne.symm hk, ih h.2]

lemma isFileAt_cons {entries : List (String × Entry)} (h : (entries.map Prod.fst).Nodup)
    {name : String} {rest : List String} :
    IsFileAt (.directory entries) (name :: rest) ↔
      ∃ e, (name, e) ∈ entries ∧ IsFileAt e rest := by
  constructor
  · rintro ⟨bytes, hat⟩
    obtain ⟨e, hfind, he⟩ := Option.bind_eq_some_iff.mp hat
    exact ⟨e, (find?_eq_some_iff h).mp hfind, bytes, he⟩
  · rintro ⟨e, hmem, bytes, he⟩
    exact ⟨bytes, by simp [at?, (find?_eq_some_iff h).mpr hmem, he]⟩

lemma not_isFileAt_nil (entries : List (String × Entry)) : ¬ IsFileAt (.directory entries) [] := by
  rintro ⟨bytes, hat⟩
  simp [at?] at hat

@[simp]
lemma isFileAt_file {bytes : ByteArray} {names : List String} :
    IsFileAt (.file bytes) names ↔ names = [] := by
  cases names <;> simp [IsFileAt, at?]

lemma filesAmong_eq_flatMap (entries : List (String × Entry)) :
    filesAmong entries = entries.flatMap filesUnder := by
  induction entries with
  | nil => rfl
  | cons named rest ih => rw [filesAmong, ih, List.flatMap_cons]

lemma mem_filesUnder {name : String} {e : Entry} {names : List String} :
    names ∈ filesUnder (name, e) ↔
      isBypassed name e = false ∧ ∃ rest ∈ e.files, names = name :: rest := by
  rw [filesUnder]
  cases isBypassed name e <;> simp [eq_comm]

/-- A name on the way to a file is passed by only if it is that of a directory. -/
lemma unbypassed_cons {e : Entry} {name : String} {rest : List String} (h : IsFileAt e rest) :
    Unbypassed (name :: rest) ↔ isBypassed name e = false ∧ Unbypassed rest := by
  cases e with
  | file bytes =>
    rw [isFileAt_file] at h
    simp [h, Unbypassed, isBypassed]
  | directory entries =>
    cases rest with
    | nil => exact absurd h (not_isFileAt_nil entries)
    | cons next more => simp [Unbypassed, isBypassed]

/-! ### The whole tree -/

/-- A walk finds the files that no directory to be passed by leads to. -/
theorem mem_files_iff {e : Entry} (h : Proper e) {names : List String} :
    names ∈ e.files ↔ IsFileAt e names ∧ Unbypassed names := by
  induction h generalizing names with
  | file bytes =>
    rw [files, isFileAt_file, List.mem_singleton]
    constructor
    · rintro rfl
      exact ⟨rfl, by simp [Unbypassed]⟩
    · exact And.left
  | @directory entries distinct named each ih =>
    rw [files, filesAmong_eq_flatMap, List.mem_flatMap]
    cases names with
    | nil =>
      constructor
      · rintro ⟨⟨name, e⟩, -, hunder⟩
        obtain ⟨-, rest, -, heq⟩ := mem_filesUnder.mp hunder
        cases heq
      · rintro ⟨hfile, -⟩
        exact absurd hfile (not_isFileAt_nil entries)
    | cons name rest =>
      rw [isFileAt_cons distinct]
      constructor
      · rintro ⟨⟨_, e⟩, hmem, hunder⟩
        obtain ⟨hpassed, _, hrest, ⟨⟩⟩ := mem_filesUnder.mp hunder
        obtain ⟨hfile, hopen⟩ := (ih _ hmem).mp hrest
        exact ⟨⟨e, hmem, hfile⟩, (unbypassed_cons hfile).mpr ⟨hpassed, hopen⟩⟩
      · rintro ⟨⟨e, hmem, hfile⟩, hopen⟩
        obtain ⟨hpassed, hrest⟩ := (unbypassed_cons hfile).mp hopen
        refine ⟨(name, e), hmem, mem_filesUnder.mpr ⟨hpassed, rest, ?_, rfl⟩⟩
        exact (ih _ hmem).mpr ⟨hfile, hrest⟩

/-- A walk finds no file twice. -/
theorem nodup_files {e : Entry} (h : Proper e) : e.files.Nodup := by
  induction h with
  | file bytes => simp [files]
  | @directory entries distinct named each ih =>
    -- paths below one entry differ behind its name, and those of different entries in the name
    rw [files, filesAmong_eq_flatMap, List.nodup_flatMap]
    constructor
    · rintro ⟨name, e⟩ hmem
      rw [filesUnder]
      split
      · exact List.nodup_nil
      · exact (ih _ hmem).map (List.cons_injective)
    · refine (List.pairwise_map.mp distinct).imp ?_
      rintro ⟨name, e⟩ ⟨other, e'⟩ hne names hunder hunder'
      obtain ⟨-, rest, -, rfl⟩ := mem_filesUnder.mp hunder
      obtain ⟨-, rest', -, heq⟩ := mem_filesUnder.mp hunder'
      exact hne (List.cons.inj heq).1

/-- What leads to a file of a proper tree are names of entries, without slashes. -/
lemma Proper.name_of_isFileAt {e : Entry} (h : Proper e) {names : List String}
    (hfile : IsFileAt e names) : ∀ name ∈ names, IsEntryName name ∧ '/' ∉ name.toList := by
  induction h generalizing names with
  | file bytes =>
    rw [isFileAt_file] at hfile
    simp [hfile]
  | @directory entries distinct named each ih =>
    cases names with
    | nil => simp
    | cons name rest =>
      obtain ⟨e, hmem, hrest⟩ := (isFileAt_cons distinct).mp hfile
      exact List.forall_mem_cons.mpr ⟨named _ hmem, ih _ hmem hrest⟩

end Entry

/-! ### Paths of files -/

/-- A path leads to a file below a directory. -/
def FileBelow (entries : List (String × Entry)) (path : String) : Prop :=
  ∃ names, (Entry.directory entries).IsFileAt names ∧ path = String.intercalate "/" names

/-- Whether a path goes through a directory to be passed by. -/
def underBypassed (path : String) : Bool :=
  ((splitSlashes path.toList).map String.ofList).dropLast.any bypassed.contains

lemma walk_eq {v : Volume} {root : Path} {entries : List (String × Entry)}
    (h : v.locate root = .ok (.directory entries)) :
    v.walk root = (Entry.directory entries).files.map (String.intercalate "/") := by
  simp [Volume.walk, h, Entry.files]

section Below

variable {entries : List (String × Entry)} (htree : (Entry.directory entries).Proper)

include htree

/-- The path of a file has the names that lead to it for its pieces. -/
lemma splitSlashes_of_isFileAt {names : List String}
    (hfile : (Entry.directory entries).IsFileAt names) :
    (splitSlashes (String.intercalate "/" names).toList).map String.ofList = names := by
  have hne : names ≠ [] := by
    rintro rfl
    exact Entry.not_isFileAt_nil entries hfile
  rw [splitSlashes_intercalate hne fun name hname => (htree.name_of_isFileAt hfile name hname).2]
  simp

lemma underBypassed_eq_false_iff {names : List String}
    (hfile : (Entry.directory entries).IsFileAt names) :
    underBypassed (String.intercalate "/" names) = false ↔ Entry.Unbypassed names := by
  rw [underBypassed, splitSlashes_of_isFileAt htree hfile]
  simp [Entry.Unbypassed]

lemma ne_empty_of_fileBelow {path : String} (h : FileBelow entries path) : path ≠ "" := by
  obtain ⟨names, hfile, rfl⟩ := h
  intro hempty
  have hpieces := splitSlashes_of_isFileAt htree hfile
  rw [hempty] at hpieces
  obtain rfl : [""] = names := hpieces
  exact (htree.name_of_isFileAt hfile "" List.mem_cons_self).1.1 rfl

variable {v : Volume} {root : Path} (hroot : v.locate root = .ok (.directory entries))

include hroot

/-- The walk through a directory lists its files that no directory to be passed by leads to. -/
theorem mem_walk_iff {path : String} :
    path ∈ v.walk root ↔ FileBelow entries path ∧ underBypassed path = false := by
  rw [walk_eq hroot, List.mem_map]
  constructor
  · rintro ⟨names, hnames, rfl⟩
    obtain ⟨hfile, hopen⟩ := (Entry.mem_files_iff htree).mp hnames
    exact ⟨⟨names, hfile, rfl⟩, (underBypassed_eq_false_iff htree hfile).mpr hopen⟩
  · rintro ⟨⟨names, hfile, rfl⟩, hopen⟩
    have hnames := (underBypassed_eq_false_iff htree hfile).mp hopen
    exact ⟨names, (Entry.mem_files_iff htree).mpr ⟨hfile, hnames⟩, rfl⟩

/-- The walk through a directory lists no file twice. -/
theorem nodup_walk : (v.walk root).Nodup := by
  rw [walk_eq hroot]
  -- names come back from the path they are joined to, so different names make different paths
  refine (Entry.nodup_files htree).map_on fun names hnames others hothers heq => ?_
  have hfile := ((Entry.mem_files_iff htree).mp hnames).1
  have hother := ((Entry.mem_files_iff htree).mp hothers).1
  rw [← splitSlashes_of_isFileAt htree hfile, heq, splitSlashes_of_isFileAt htree hother]

end Below

end PhpCatalog
