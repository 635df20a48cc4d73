/-
# What extraction returns

Extraction goes through the files in order and stops at the first that ends it; where it returns,
there is one result for each file, in their order (`extractInTurn_eq_ok`).  All concepts in the
results are well formed, since each was found by a walk.
-/
import Mathlib.Data.List.Forall2
import PhpCatalog.Command.Extract
import PhpCatalog.Proofs.Catalog.WellFormed

namespace PhpCatalog

/-- The concepts of a file are well formed. -/
def FileExtraction.Sound (f : FileExtraction) : Prop :=
  ∀ c ∈ f.concepts, ∃ s, c.WellFormed s f.filePath

/-- Only well-formed concepts are found by a walk that comes to its end. -/
lemma Catalog.wellFormed_of_walk {root : Node} {source : ByteArray} {filePath : String}
    {found : Catalog} (h : walk root source filePath = .ok found) :
    ∀ c ∈ found.concepts, ∃ s, c.WellFormed s filePath := by
  have hfound : found = (walkOnto [] root source filePath).found := by
    rw [walk] at h
    split at h
    · cases h
    · exact (Except.ok.inj h).symm
  intro c hc
  rw [hfound, walkOnto_eq] at hc
  obtain ⟨s, -, hcs⟩ := List.mem_flatMap.mp hc
  exact ⟨s, Site.emitted_wellFormed hcs⟩

section Files

variable {read : ByteArray → Node} {v : Volume} {f : FileExtraction} {log : List Record}

lemma sound_of_extractSource {source : ByteArray} {filePath : String} {language : Option String}
    (h : extractSource read source filePath language = .ok (f, log)) : f.Sound := by
  rw [extractSource] at h
  split at h
  · cases h
  · rcases hwalk : Catalog.walk (read source) source filePath with e | found
    · simp [hwalk] at h
    · simp only [hwalk, Except.ok.injEq, Prod.mk.injEq] at h
      obtain ⟨rfl, -⟩ := h
      exact Catalog.wellFormed_of_walk hwalk

lemma sound_of_extractFile {path : Path} {root : Option Path}
    (h : extractFile read v path root = .ok (f, log)) : f.Sound := by
  rcases hrecord : recordedPath v path root with e | filePath
  · simp [extractFile, hrecord] at h
  rcases hread : v.read path with e | source
  · simp [extractFile, hrecord, hread] at h
  rcases hsource : extractSource read source filePath none with e | result
  · simp [extractFile, hrecord, hread, hsource, Except.mapError] at h
  · simp only [extractFile, hrecord, hread, hsource, Except.mapError, Except.ok.injEq] at h
    exact sound_of_extractSource (h ▸ hsource)

lemma sound_of_extractListed {root : Path} {path : String}
    (h : extractListed read v root path = .ok (f, log)) : f.Sound := by
  rw [extractListed] at h
  split at h
  · -- a file that cannot be read has no concepts
    obtain ⟨rfl, -⟩ := Prod.mk.inj (Except.ok.inj h)
    simp [FileExtraction.Sound]
  · exact sound_of_extractFile h

variable (read v) in
lemma value_extractFiles (root : Path) (paths : List String) :
    (extractFiles read v root paths).value = (extractEach read v root paths).value := by
  rcases heach : (extractEach read v root paths).value with e | files <;>
    simp [extractFiles, heach]

/-- Where extraction returns, it has one result for each path. -/
lemma extractInTurn_eq_ok {one : String → Except Abort (FileExtraction × List Record)}
    {paths : List String} {files : List FileExtraction}
    (h : (extractInTurn one paths).value = .ok files) :
    List.Forall₂ (fun path f => ∃ log, one path = .ok (f, log)) paths files := by
  induction paths generalizing files with
  | nil =>
    obtain rfl : [] = files := Except.ok.inj h
    exact .nil
  | cons path rest ih =>
    rcases hfirst : one path with e | ⟨first, log⟩
    · simp [extractInTurn, hfirst] at h
    rcases hrest : (extractInTurn one rest).value with e | others
    · simp [extractInTurn, hfirst, hrest, Except.map] at h
    · obtain rfl : first :: others = files := by
        simpa [extractInTurn, hfirst, hrest, Except.map] using h
      exact .cons ⟨log, hfirst⟩ (ih hrest)

/-- Extraction ends in what one of the files ends it with. -/
lemma extractInTurn_eq_error {one : String → Except Abort (FileExtraction × List Record)}
    {paths : List String} {e : Abort} (h : (extractInTurn one paths).value = .error e) :
    ∃ path ∈ paths, one path = .error e := by
  induction paths with
  | nil => cases h
  | cons path rest ih =>
    rcases hfirst : one path with e' | ⟨first, log⟩
    · obtain rfl : e' = e := by simpa [extractInTurn, hfirst] using h
      exact ⟨path, List.mem_cons_self, hfirst⟩
    rcases hrest : (extractInTurn one rest).value with e' | others
    · obtain rfl : e' = e := by simpa [extractInTurn, hfirst, hrest, Except.map] using h
      obtain ⟨other, hother, herror⟩ := ih hrest
      exact ⟨other, List.mem_cons_of_mem _ hother, herror⟩
    · simp [extractInTurn, hfirst, hrest, Except.map] at h

lemma sound_of_extractInTurn {one : String → Except Abort (FileExtraction × List Record)}
    (hone : ∀ path f log, one path = .ok (f, log) → f.Sound) {paths : List String}
    {files : List FileExtraction} (h : (extractInTurn one paths).value = .ok files) :
    ∀ f ∈ files, f.Sound := by
  have hsound : List.Forall₂ (fun _ f => f.Sound) paths files :=
    (extractInTurn_eq_ok h).imp fun path f ⟨log, hpath⟩ => hone path f log hpath
  clear h
  induction hsound with
  | nil => simp
  | cons hfirst _ ih => exact List.forall_mem_cons.mpr ⟨hfirst, ih⟩

end Files

end PhpCatalog
