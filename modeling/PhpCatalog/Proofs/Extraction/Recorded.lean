/-
# The name a file is recorded under

A file below a root is recorded under its path from there, after every `..` has taken a name away.
What is left still ends in the name that the path was given with, so the record and the path have
one suffix and one language (`recordedPath_cases`).  The one exception is a path that leads back to
the root itself; that is a directory, and there is nothing to read.
-/
import Mathlib.Tactic.Lemma
import PhpCatalog.Extraction
import PhpCatalog.Proofs.Path.Normal

namespace PhpCatalog

/-! ### Where a path leads -/

namespace Volume

variable {v : Volume}

lemma resolve_eq (v : Volume) (p : Path) :
    p.resolve v.here = ⟨.root, Path.collapse true (v.names p)⟩ := rfl

lemma names_join_relative (v : Volume) (root : Path) {p : Path} (h : p.anchor = .relative) :
    v.names (root.join p) = v.names root ++ p.parts := by
  by_cases hroot : root.anchor = .relative <;> simp [names, Path.join, h, hroot]

/-- Paths that are the same from the root on lead to one entry, where they lead anywhere. -/
lemma locate_unique {p q : Path} {e e' : Entry} (hp : v.locate p = .ok e)
    (hq : v.locate q = .ok e') (h : p.resolve v.here = q.resolve v.here) : e = e' := by
  have hat : ∀ {p : Path} {e : Entry}, v.locate p = .ok e →
      Entry.at? (p.resolve v.here).parts v.root = some e := by
    intro p e hlocate
    rw [locate_eq_descend] at hlocate
    obtain ⟨above, htrail⟩ := Entry.Trail.start.descend hlocate
    exact htrail.at?_eq
  have heq := hat hp
  rw [h, hat hq] at heq
  exact (Option.some.inj heq).symm

end Volume

/-! ### The last name of a path -/

/-- The name of the file that a path leads to, as the path has it. -/
def lastName (path : String) : String :=
  String.ofList (baseName path.toList)

lemma slash_notMem_lastName (path : String) : '/' ∉ (lastName path).toList := by
  rw [lastName, String.toList_ofList]
  exact slash_notMem_baseName path.toList

section Below

variable {v : Volume} {root : Path} {path : String}

lemma parts_ofString (h : IsEntryName (lastName path)) :
    ∃ dirs, (Path.ofString path).parts = dirs ++ [lastName path] := by
  obtain ⟨dirs, hdirs⟩ := splitSlashes_eq_concat path.toList
  have hkept : (lastName path != "" && lastName path != ".") = true := by
    simp [h.1, h.2.1]
  refine ⟨(dirs.map String.ofList).filter fun part => part != "" && part != ".", ?_⟩
  change ((splitSlashes path.toList).map String.ofList).filter _ = _
  rw [hdirs, List.map_append, List.filter_append]
  congr 1
  exact List.filter_cons_of_pos hkept

lemma names_join (v : Volume) (root : Path) (h : IsEntryName (lastName path)) :
    ∃ front, v.names (root.join (Path.ofString path)) = front ++ [lastName path] := by
  obtain ⟨dirs, hdirs⟩ := parts_ofString h
  by_cases hanchor : (Path.ofString path).anchor = .relative
  · refine ⟨v.names root ++ dirs, ?_⟩
    rw [Volume.names_join_relative v root hanchor, hdirs, List.append_assoc]
  · exact ⟨dirs, by simp [Volume.names, Path.join, hanchor, hdirs]⟩

/-- The record of a file has the name that its path has, unless the path leads to the root. -/
lemma recordedPath_cases (h : IsEntryName (lastName path)) {record : String}
    (hrecord : recordedPath v (root.join (Path.ofString path)) (some root) = .ok record) :
    baseName record.toList = baseName path.toList ∨
      (root.join (Path.ofString path)).resolve v.here = root.resolve v.here := by
  obtain ⟨front, hfront⟩ := names_join v root h
  have hpath := Volume.resolve_eq v (root.join (Path.ofString path))
  have hroot := Volume.resolve_eq v root
  rw [hfront, Path.collapse_append front (List.forall_mem_singleton.mpr h)] at hpath
  generalize Path.collapse true front = left at hpath
  generalize Path.collapse true (v.names root) = top at hroot
  simp only [recordedPath, hpath, hroot] at hrecord ⊢
  by_cases htop : top <+: left ++ [lastName path]
  · rcases List.prefix_concat_iff.mp htop with rfl | ⟨below, rfl⟩
    · exact Or.inr rfl
    · have hbelow : Path.relativeTo? ⟨.root, top ++ below ++ [lastName path]⟩ ⟨.root, top⟩ =
          some ⟨.relative, below ++ [lastName path]⟩ := by
        simp [Path.relativeTo?]
      rw [hbelow] at hrecord
      have htext : String.intercalate "/" (below ++ [lastName path]) = record := by
        simpa [Path.text, Anchor.text] using hrecord
      refine Or.inl ?_
      rw [← htext, baseName_intercalate_concat below (slash_notMem_lastName path), lastName,
        String.toList_ofList]
  · simp [Path.relativeTo?, htop] at hrecord

/-- A record is missing only where a path leads out of the root. -/
lemma recordedPath_error {p : Path} {e : Abort} (h : recordedPath v p (some root) = .error e) :
    e = .crash .outside := by
  rcases hbelow : (p.resolve v.here).relativeTo? (root.resolve v.here) with _ | below
  · simpa [recordedPath, hbelow, eq_comm] using h
  · simp [recordedPath, hbelow] at h

end Below

end PhpCatalog
