/-
# The directory whose settings hold

The settings that hold for a place are those of the nearest directory that has a settings file.  The
search for it looks at the place, then at its parent, and so on.  It ends where it finds a file, and
it gives up at the root, the only directory that is its own parent.

Every look that goes on takes a name off the path, so an induction over parents
(`Path.parent_induction`) carries all the statements of this file.  The search ends whatever the
volume holds, and has then looked once at each directory from the place up to the one that it found,
or up to the root (`search_iff`).  What it finds is the nearest directory with a settings file, and
it finds nothing only if no directory around the place has one (`findRoot_nearest`).
-/
import PhpCatalog.Proofs.Volume.Writing
import PhpCatalog.Settings

namespace PhpCatalog

namespace Path

/-- A directory is the place itself, or the place is below it. -/
def Encloses (dir place : Path) : Prop :=
  dir.anchor = place.anchor ∧ dir.parts <+: place.parts

variable {p dir other : Path}

/-! ### Parents -/

lemma parent_eq_self_iff : p.parent = p ↔ p.parts = [] := by
  constructor
  · intro h
    have hlength := congrArg (fun q : Path => q.parts.length) h
    simp only [parent, List.length_dropLast] at hlength
    exact List.eq_nil_of_length_eq_zero (by omega)
  · intro h
    obtain ⟨anchor, parts⟩ := p
    subst h
    rfl

/-- A path with a parent of its own is one name below it. -/
lemma length_parent (h : p.parent ≠ p) : p.parent.parts.length + 1 = p.parts.length := by
  have hpos := List.length_pos_iff.mpr (mt parent_eq_self_iff.mpr h)
  simp only [parent, List.length_dropLast]
  omega

/-- What holds of the top, and of a path whenever it holds of its parent, holds of every path. -/
@[elab_as_elim]
theorem parent_induction {motive : Path → Prop} (top : ∀ p : Path, p.parent = p → motive p)
    (below : ∀ p : Path, p.parent ≠ p → motive p.parent → motive p) (p : Path) : motive p :=
  if h : p.parent = p then top p h else below p h (parent_induction top below p.parent)
termination_by p.parts.length
decreasing_by exact Nat.lt_of_succ_le (Nat.le_of_eq (length_parent h))

/-! ### Enclosing directories -/

lemma eq_of_parts (hanchor : dir.anchor = other.anchor) (hparts : dir.parts = other.parts) :
    dir = other := by
  cases dir
  cases other
  rw [mk.injEq]
  exact ⟨hanchor, hparts⟩

lemma encloses_rfl : p.Encloses p := ⟨rfl, List.prefix_rfl⟩

lemma Encloses.antisymm (h : dir.Encloses other) (h' : other.Encloses dir) : dir = other :=
  eq_of_parts h.1 (h.2.eq_of_length_le h'.2.length_le)

lemma encloses_top_iff (h : p.parent = p) : dir.Encloses p ↔ dir = p := by
  constructor
  · intro henc
    refine henc.antisymm ⟨henc.1.symm, ?_⟩
    rw [parent_eq_self_iff.mp h]
    exact List.nil_prefix
  · rintro rfl
    exact encloses_rfl

/-- The directories around a path are the path and those around its parent. -/
lemma encloses_iff (h : p.parent ≠ p) : dir.Encloses p ↔ dir = p ∨ dir.Encloses p.parent := by
  have hparts := List.dropLast_concat_getLast (mt parent_eq_self_iff.mpr h)
  constructor
  · rintro ⟨hanchor, hprefix⟩
    rw [← hparts, List.prefix_concat_iff, hparts] at hprefix
    rcases hprefix with heq | hprefix
    · exact Or.inl (eq_of_parts hanchor heq)
    · exact Or.inr ⟨hanchor, hprefix⟩
  · rintro (rfl | ⟨hanchor, hprefix⟩)
    · exact encloses_rfl
    · exact ⟨hanchor, hprefix.trans (List.dropLast_prefix _)⟩

lemma ancestors_of_top (h : p.parent = p) : p.ancestors = [p] := by
  obtain ⟨anchor, parts⟩ := p
  obtain rfl : parts = [] := parent_eq_self_iff.mp h
  rfl

lemma ancestors_of_below (h : p.parent ≠ p) : p.ancestors = p :: p.parent.ancestors := by
  have hparts := List.dropLast_concat_getLast (mt parent_eq_self_iff.mpr h)
  rw [ancestors, ← hparts, List.reverse_concat, tails, List.map_cons, ← List.reverse_concat, hparts,
    List.reverse_reverse]
  rfl

lemma mem_ancestors_iff : dir ∈ p.ancestors ↔ dir.Encloses p := by
  induction p using parent_induction with
  | top p h => rw [ancestors_of_top h, List.mem_singleton, encloses_top_iff h]
  | below p h ih => rw [ancestors_of_below h, List.mem_cons, ih, encloses_iff h]

end Path

namespace Settings

variable {v : Volume} {place dir : Path}

/-! ### The search, look by look -/

/-- The search for a settings file from a directory upwards, with the number of directories that it
looks at and its answer. -/
inductive Search (v : Volume) : Path → Nat → Option Path → Prop where
  /-- The directory has a settings file. -/
  | found {dir : Path} (has : v.has (file dir) = true) : Search v dir 1 (some dir)
  /-- It has none, and there is no other directory above it. -/
  | missing {dir : Path} (hasNot : v.has (file dir) = false) (top : dir.parent = dir) :
      Search v dir 1 none
  /-- It has none, and the search goes on with the parent. -/
  | up {dir : Path} {looks : Nat} {answer : Option Path} (hasNot : v.has (file dir) = false)
      (below : dir.parent ≠ dir) (above : Search v dir.parent looks answer) :
      Search v dir (looks + 1) answer

/-- The nearest directory with a settings file, the place itself included. -/
def nearest (v : Volume) (place : Path) : Option Path :=
  place.ancestors.find? fun dir => v.has (file dir)

/-- How many directories there are from a place up to an answer, or up to the root. -/
def distance (place : Path) (answer : Option Path) : Nat :=
  place.parts.length + 1 - answer.elim 0 (·.parts.length)

lemma nearest_of_has (h : v.has (file place) = true) : nearest v place = some place := by
  by_cases htop : place.parent = place
  · simp [nearest, Path.ancestors_of_top htop, h]
  · simp [nearest, Path.ancestors_of_below htop, h]

lemma nearest_of_top (h : v.has (file place) = false) (htop : place.parent = place) :
    nearest v place = none := by
  simp [nearest, Path.ancestors_of_top htop, h]

lemma nearest_of_below (h : v.has (file place) = false) (hbelow : place.parent ≠ place) :
    nearest v place = nearest v place.parent := by
  simp [nearest, Path.ancestors_of_below hbelow, h]

lemma nearest_eq_none_iff :
    nearest v place = none ↔ ∀ dir, dir.Encloses place → v.has (file dir) = false := by
  simp [nearest, Path.mem_ancestors_iff]

lemma of_nearest (h : nearest v place = some dir) :
    dir.Encloses place ∧ v.has (file dir) = true :=
  ⟨Path.mem_ancestors_iff.mp (List.mem_of_find?_eq_some h), by simpa using List.find?_some h⟩

lemma length_nearest_le (v : Volume) (place : Path) :
    (nearest v place).elim 0 (·.parts.length) ≤ place.parts.length := by
  rcases h : nearest v place with _ | dir
  · exact Nat.zero_le _
  · exact (of_nearest h).1.2.length_le

lemma distance_self (place : Path) : distance place (some place) = 1 :=
  Nat.add_sub_cancel_left _ 1

lemma distance_none (htop : place.parent = place) : distance place none = 1 := by
  rw [distance, Path.parent_eq_self_iff.mp htop]
  rfl

lemma distance_of_below (hbelow : place.parent ≠ place) :
    distance place (nearest v place.parent) =
      distance place.parent (nearest v place.parent) + 1 := by
  have hle := length_nearest_le v place.parent
  have hlength := Path.length_parent hbelow
  unfold distance
  omega

/-- The search ends, with the nearest directory that has a settings file if there is one. -/
lemma search_nearest (v : Volume) (place : Path) :
    Search v place (distance place (nearest v place)) (nearest v place) := by
  induction place using Path.parent_induction with
  | top place htop =>
    rcases hhas : v.has (file place) with _ | _
    · rw [nearest_of_top hhas htop, distance_none htop]
      exact .missing hhas htop
    · rw [nearest_of_has hhas, distance_self]
      exact .found hhas
  | below place hbelow ih =>
    rcases hhas : v.has (file place) with _ | _
    · rw [nearest_of_below hhas hbelow, distance_of_below hbelow]
      exact .up hhas hbelow ih
    · rw [nearest_of_has hhas, distance_self]
      exact .found hhas

/-- The search can end in one way only. -/
lemma Search.eq {looks : Nat} {answer : Option Path} (h : Search v place looks answer) :
    answer = nearest v place ∧ looks = distance place answer := by
  induction h with
  | found hhas => exact ⟨(nearest_of_has hhas).symm, (distance_self _).symm⟩
  | missing hhas htop => exact ⟨(nearest_of_top hhas htop).symm, (distance_none htop).symm⟩
  | up hhas hbelow _ ih =>
    obtain ⟨rfl, rfl⟩ := ih
    exact ⟨(nearest_of_below hhas hbelow).symm, (distance_of_below hbelow).symm⟩

theorem search_iff {looks : Nat} {answer : Option Path} :
    Search v place looks answer ↔ answer = nearest v place ∧ looks = distance place answer := by
  constructor
  · exact Search.eq
  · rintro ⟨rfl, rfl⟩
    exact search_nearest v place

/-! ### The nearest directory -/

/-- A directory around a place has a settings file, and it is the nearest: every directory around
the place that has one is around it as well. -/
structure IsNearest (v : Volume) (place dir : Path) : Prop where
  encloses : dir.Encloses place
  directory : ∃ entries, v.locate dir = .ok (.directory entries)
  has : v.has (file dir) = true
  nearest : ∀ other, other.Encloses place → v.has (file other) = true → other.Encloses dir

/-- What has a settings file is a directory. -/
lemma isDirectory_of_has (h : v.has (file dir) = true) :
    ∃ entries, v.locate dir = .ok (.directory entries) := by
  rcases hlocate : v.locate (file dir) with cause | e
  · simp [Volume.has, hlocate] at h
  · rw [file, Volume.locate_eq_descend, Volume.names_child] at hlocate
    rw [Volume.locate_eq_descend]
    exact Entry.isDirectory_of_descend_append hlocate

/-- The search passes by no directory that has a settings file. -/
lemma encloses_nearest (h : nearest v place = some dir) :
    ∀ other, other.Encloses place → v.has (file other) = true → other.Encloses dir := by
  intro other henc hother
  induction place using Path.parent_induction with
  | top place htop =>
    obtain rfl := (Path.encloses_top_iff htop).mp henc
    rw [nearest_of_has hother] at h
    exact Option.some.inj h ▸ Path.encloses_rfl
  | below place hbelow ih =>
    rcases hhas : v.has (file place) with _ | _
    · rw [nearest_of_below hhas hbelow] at h
      rcases (Path.encloses_iff hbelow).mp henc with rfl | habove
      · rw [hhas] at hother
        cases hother
      · exact ih h habove
    · rw [nearest_of_has hhas] at h
      exact Option.some.inj h ▸ henc

lemma nearest_eq_some_iff : nearest v place = some dir ↔ IsNearest v place dir := by
  constructor
  · intro h
    obtain ⟨hencloses, hhas⟩ := of_nearest h
    exact ⟨hencloses, isDirectory_of_has hhas, hhas, encloses_nearest h⟩
  · intro h
    rcases hfound : nearest v place with _ | found
    · have hnone := nearest_eq_none_iff.mp hfound dir h.encloses
      rw [h.has] at hnone
      cases hnone
    · obtain ⟨hencloses, hhas⟩ := of_nearest hfound
      have hsame : found = dir :=
        (h.nearest found hencloses hhas).antisymm (encloses_nearest hfound dir h.encloses h.has)
      rw [hsame]

/-- **The search finds the nearest settings.**  Whatever the volume and the path, the search from
the place that the path stands for ends, and in one way only.  It ends at a directory exactly if
that is the nearest one with a settings file, and without one exactly if neither the place nor any
directory above it, the root included, has a settings file.  It looks once at each directory on its
way.
-/
theorem findRoot_nearest (v : Volume) (start : Path) :
    (∀ looks answer, Search v (start.resolve v.here) looks answer ↔
      answer = findRoot v start ∧ looks = distance (start.resolve v.here) answer) ∧
    (∀ dir, findRoot v start = some dir ↔ IsNearest v (start.resolve v.here) dir) ∧
    (findRoot v start = none ↔
      ∀ dir, dir.Encloses (start.resolve v.here) → v.has (file dir) = false) :=
  ⟨fun _ _ => search_iff, fun _ => nearest_eq_some_iff, nearest_eq_none_iff⟩

/-- Of two settings files above a place, the nearer one counts. -/
example :
    let settings : String × Entry := (settingsName, .file ⟨#[]⟩)
    let inner : Entry := .directory [settings, ("b", .directory [("c", .directory [])])]
    let v : Volume := { root := .directory [settings, ("a", inner)], here := ["a", "b"] }
    findRoot v (Path.ofString "../b/c") = some ⟨.root, ["a"]⟩ := by
  decide +kernel

end Settings

end PhpCatalog
