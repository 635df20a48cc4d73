/-
# Priority paths against namespaces

The priority paths of a manifest are collected beside its namespaces, and tell other things apart: a
namespace has each path once, however many of them lead to one directory, while the priority paths
have each directory of a namespace once.  Then they are put in an order of their own.

The two still agree (`priorityPaths_agree`): every path of a namespace has one priority path, which
is spelled as the first path of the namespace that leads to its directory, and there are no others.
-/
import PhpCatalog.Proofs.Manifest.Declared

namespace PhpCatalog

/-- What tells priority paths apart: the namespace and the directory. -/
def PriorityPath.key (p : PriorityPath) : String × String :=
  (p.owner, p.absolute)

/-- A priority path stands before another one: by its namespace, then by its path. -/
def PriorityPath.Before (a b : PriorityPath) : Prop :=
  a.owner < b.owner ∨ a.owner = b.owner ∧ a.relative < b.relative

lemma PriorityPath.le_iff {a b : PriorityPath} :
    a.le b = true ↔ a.owner < b.owner ∨ a.owner = b.owner ∧ a.relative ≤ b.relative := by
  simp [PriorityPath.le]

lemma PriorityPath.le_trans {a b c : PriorityPath} (hab : a.le b = true) (hbc : b.le c = true) :
    a.le c = true := by
  rw [PriorityPath.le_iff] at hab hbc ⊢
  rcases hab with hab | ⟨hab, hpath⟩ <;> rcases hbc with hbc | ⟨hbc, hpath'⟩
  · exact Or.inl (String.lt_trans hab hbc)
  · exact Or.inl (hbc ▸ hab)
  · exact Or.inl (hab ▸ hbc)
  · exact Or.inr ⟨hab.trans hbc, String.le_trans hpath hpath'⟩

lemma PriorityPath.le_total (a b : PriorityPath) : a.le b = true ∨ b.le a = true := by
  rw [PriorityPath.le_iff, PriorityPath.le_iff]
  by_cases hlt : a.owner < b.owner
  · exact Or.inl (Or.inl hlt)
  · by_cases hgt : b.owner < a.owner
    · exact Or.inr (Or.inl hgt)
    · have heq : a.owner = b.owner :=
        String.le_antisymm (String.not_lt.mp hgt) (String.not_lt.mp hlt)
      exact (String.le_total a.relative b.relative).imp (Or.inr ⟨heq, ·⟩) (Or.inr ⟨heq.symm, ·⟩)

namespace Manifest

/-! ### One entry for each directory -/

lemma addPriority_eq (acc : List PriorityPath) (p : PriorityPath) :
    addPriority acc p = if p.key ∈ acc.map PriorityPath.key then acc else acc ++ [p] := by
  have hany : (acc.any fun q => q.owner = p.owner && q.absolute = p.absolute) = true ↔
      p.key ∈ acc.map PriorityPath.key := by
    simp [PriorityPath.key]
  simp only [addPriority, hany]

lemma nodup_keys_foldl_addPriority {all acc : List PriorityPath}
    (h : (acc.map PriorityPath.key).Nodup) :
    ((all.foldl addPriority acc).map PriorityPath.key).Nodup := by
  induction all generalizing acc with
  | nil => exact h
  | cons p rest ih =>
    apply ih
    rw [addPriority_eq]
    split
    · exact h
    · rename_i hnew
      rw [List.map_append, List.map_singleton]
      exact h.append (List.nodup_singleton _) (by simpa using hnew)

/-- Of the entries for one directory the first is kept. -/
lemma mem_foldl_addPriority {all acc : List PriorityPath} {p : PriorityPath} :
    p ∈ all.foldl addPriority acc ↔
      p ∈ acc ∨ p.key ∉ acc.map PriorityPath.key ∧ all.find? (·.key = p.key) = some p := by
  induction all generalizing acc with
  | nil => simp
  | cons first rest ih =>
    rw [List.foldl_cons, ih, addPriority_eq]
    by_cases hkey : first.key = p.key
    · -- nothing after this entry counts, whether or not it is kept itself
      rw [List.find?_cons_of_pos (by simpa using hkey), hkey]
      by_cases hknown : p.key ∈ acc.map PriorityPath.key
      · simp [hknown]
      · rw [if_neg hknown]
        simp [hknown, hkey, eq_comm]
    · have hne : p ≠ first := fun h => hkey (h ▸ rfl)
      rw [List.find?_cons_of_neg (by simpa using hkey)]
      by_cases hknown : first.key ∈ acc.map PriorityPath.key
      · rw [if_pos hknown]
      · rw [if_neg hknown]
        simp [hne, Ne.symm hkey]

/-! ### Entries from mentions -/

/-- The directories of some mentions, one entry for each path that is listed. -/
def listedPaths (root : Path) (found : List (String × List String)) : List PriorityPath :=
  found.flatMap fun e => e.2.map (priorityPath root e.1)

lemma filter_listedPaths (root : Path) (name : String) (found : List (String × List String)) :
    (listedPaths root found).filter (·.owner = name) =
      (pathsUnder name found).map fun path => ⟨name, path, locationOf root path⟩ := by
  induction found with
  | nil => rfl
  | cons e rest ih =>
    have hcons : listedPaths root (e :: rest) =
        e.2.map (priorityPath root e.1) ++ listedPaths root rest := rfl
    rw [hcons, List.filter_append, ih, pathsUnder_cons, List.map_append]
    congr 1
    by_cases hname : e.1 = name
    · have hall : (e.2.map (priorityPath root e.1)).filter (·.owner = name) =
          e.2.map (priorityPath root e.1) := by
        rw [List.filter_eq_self]
        simpa [priorityPath] using fun _ _ => hname
      rw [hall, if_pos hname, List.map_map, hname]
      rfl
    · rw [if_neg hname, List.map_nil, List.filter_eq_nil_iff]
      simpa [priorityPath] using fun _ _ => hname

lemma find?_listedPaths (root : Path) (name place : String) (found : List (String × List String)) :
    (listedPaths root found).find? (·.key = (name, place)) =
      ((pathsUnder name found).find? (locationOf root · = place)).map
        fun path => ⟨name, path, locationOf root path⟩ := by
  have hkey : (fun p : PriorityPath => decide (p.key = (name, place))) =
      fun p => decide (decide (p.owner = name) = true ∧ decide (p.absolute = place) = true) := by
    funext p
    simp [PriorityPath.key]
  rw [hkey, ← List.find?_filter, filter_listedPaths, List.find?_map]
  rfl

/-- The priority paths of a namespace are those of its directories, each spelled as the first path
that leads there. -/
lemma mem_priorityPaths_iff {root : Path} {found : List (String × List String)} {p : PriorityPath} :
    p ∈ priorityPaths root found ↔
      (pathsUnder p.owner found).eraseDups.find? (locationOf root · = p.absolute) =
        some p.relative := by
  obtain ⟨name, path, place⟩ := p
  have hsorted : ⟨name, path, place⟩ ∈ priorityPaths root found ↔
      ⟨name, path, place⟩ ∈ (listedPaths root found).foldl addPriority [] := List.mem_mergeSort
  rw [hsorted, mem_foldl_addPriority, PriorityPath.key, find?_listedPaths, Text.find?_eraseDups]
  simp only [List.not_mem_nil, List.map_nil, not_false_eq_true, true_and, false_or,
    Option.map_eq_some_iff, PriorityPath.mk.injEq]
  constructor
  · rintro ⟨_, hfind, rfl, -⟩
    exact hfind
  · intro hfind
    have hplace : locationOf root path = place := by simpa using List.find?_some hfind
    exact ⟨path, hfind, rfl, hplace⟩

section Members

variable {root : Path} {found : List (String × List String)} {p q : PriorityPath}

lemma absolute_of_mem (h : p ∈ priorityPaths root found) :
    p.absolute = locationOf root p.relative := by
  have hplace := List.find?_some (mem_priorityPaths_iff.mp h)
  exact (of_decide_eq_true hplace).symm

lemma relative_mem (h : p ∈ priorityPaths root found) :
    p.relative ∈ (pathsUnder p.owner found).eraseDups :=
  List.mem_of_find?_eq_some (mem_priorityPaths_iff.mp h)

lemma owner_mem (h : p ∈ priorityPaths root found) : p.owner ∈ found.map Prod.fst := by
  by_contra hnone
  have hmem := relative_mem h
  rw [pathsUnder_of_notMem hnone] at hmem
  exact List.not_mem_nil hmem

/-- The spelling of a directory is decided by the namespace and the directory. -/
lemma eq_of_key_eq (hp : p ∈ priorityPaths root found) (hq : q ∈ priorityPaths root found)
    (howner : p.owner = q.owner) (hplace : p.absolute = q.absolute) : p = q := by
  have hfirst := mem_priorityPaths_iff.mp hp
  rw [howner, hplace, mem_priorityPaths_iff.mp hq] at hfirst
  have hspelled : p.relative = q.relative := (Option.some.inj hfirst).symm
  cases p
  cases q
  simp_all

end Members

/-- Every path of a namespace leads to the directory of a priority path. -/
lemma exists_priorityPath (root : Path) {found : List (String × List String)} {name path : String}
    (h : path ∈ (pathsUnder name found).eraseDups) :
    ∃ first, ⟨name, first, locationOf root path⟩ ∈ priorityPaths root found := by
  have hsome : ((pathsUnder name found).eraseDups.find?
      (locationOf root · = locationOf root path)).isSome := by
    rw [List.find?_isSome]
    exact ⟨path, h, decide_eq_true rfl⟩
  obtain ⟨first, hfirst⟩ := Option.isSome_iff_exists.mp hsome
  exact ⟨first, mem_priorityPaths_iff.mpr hfirst⟩

/-! ### Insights -/

lemma priorityPaths_of_insights {root : Path} {config : Json} {i : Insights}
    (h : insights root config = .ok i) :
    i.priorityPaths = priorityPaths root (mentions config) := by
  obtain ⟨hempty, rfl⟩ | ⟨members, found, hints, rfl, hentries, -, rfl⟩ := insights_cases h
  · simp [mentions_of_not_truthy hempty, priorityPaths]
  · rw [← eq_mentions_of_entries hentries]

lemma nodup_keys_priorityPaths (root : Path) (found : List (String × List String)) :
    ((priorityPaths root found).map PriorityPath.key).Nodup := by
  have hperm : (priorityPaths root found).Perm ((listedPaths root found).foldl addPriority []) :=
    List.mergeSort_perm _ _
  rw [(hperm.map PriorityPath.key).nodup_iff]
  exact nodup_keys_foldl_addPriority List.nodup_nil

lemma pairwise_priorityPaths (root : Path) (found : List (String × List String)) :
    (priorityPaths root found).Pairwise fun a b => a.le b = true := by
  refine List.pairwise_mergeSort ?_ ?_ _
  · intro a b c
    exact PriorityPath.le_trans
  · intro a b
    rw [Bool.or_eq_true]
    exact PriorityPath.le_total a b

/-- What comes before by its namespace and its path, repetitions aside. -/
lemma before_of_le {root : Path} {found : List (String × List String)} {a b : PriorityPath}
    (ha : a ∈ priorityPaths root found) (hb : b ∈ priorityPaths root found) (hne : a.key ≠ b.key)
    (hle : a.le b = true) : a.Before b := by
  rcases PriorityPath.le_iff.mp hle with hlt | ⟨howner, hpath⟩
  · exact Or.inl hlt
  · refine Or.inr ⟨howner, Decidable.byContradiction fun hlt => hne ?_⟩
    -- one path leads to one directory
    have hsame : a.relative = b.relative := String.le_antisymm hpath (String.not_lt.mp hlt)
    rw [PriorityPath.key, PriorityPath.key, absolute_of_mem ha, absolute_of_mem hb, howner, hsame]

/-- **Priority paths and namespaces agree.**  Every path of a namespace has exactly one priority
path, and each priority path of a namespace is spelled as the first of its paths that leads there.
There are no others, no directory of a namespace stands there twice, and they ascend strictly by
namespace and path. -/
theorem priorityPaths_agree {root : Path} {config : Json} {i : Insights}
    (h : insights root config = .ok i) :
    (∀ n ∈ i.namespaces,
      (∀ path ∈ n.2, ∃! p, p ∈ i.priorityPaths ∧ p.owner = n.1 ∧
        p.absolute = locationOf root path) ∧
      ∀ p ∈ i.priorityPaths, p.owner = n.1 →
        n.2.find? (locationOf root · = p.absolute) = some p.relative) ∧
    (∀ p ∈ i.priorityPaths, ∃ n ∈ i.namespaces, n.1 = p.owner ∧ p.relative ∈ n.2 ∧
      p.absolute = locationOf root p.relative) ∧
    (i.priorityPaths.Pairwise fun p q => (p.owner, p.absolute) ≠ (q.owner, q.absolute)) ∧
    i.priorityPaths.Pairwise PriorityPath.Before := by
  rw [namespaces_of_insights h, priorityPaths_of_insights h]
  generalize mentions config = found
  have hkeys := List.pairwise_map.mp (nodup_keys_priorityPaths root found)
  refine ⟨?_, ?_, hkeys, ?_⟩
  · rintro ⟨name, paths⟩ hn
    obtain ⟨-, rfl⟩ := mem_declared_iff.mp hn
    refine ⟨?_, ?_⟩
    · intro path hpath
      obtain ⟨first, hfirst⟩ := exists_priorityPath root hpath
      refine ⟨⟨name, first, locationOf root path⟩, ⟨hfirst, rfl, rfl⟩, ?_⟩
      rintro q ⟨hq, howner, hplace⟩
      exact eq_of_key_eq hq hfirst howner hplace
    · rintro p hp rfl
      exact mem_priorityPaths_iff.mp hp
  · intro p hp
    exact ⟨_, mem_declared_iff.mpr ⟨owner_mem hp, rfl⟩, rfl, relative_mem hp, absolute_of_mem hp⟩
  · refine ((pairwise_priorityPaths root found).and hkeys).imp_of_mem ?_
    rintro a b ha hb ⟨hle, hne⟩
    exact before_of_le ha hb hne hle

/-- A manifest that spells one directory in three ways, for a namespace that is not the first. -/
def respelledManifest : Json :=
  .obj [("autoload", .obj [("psr-4", .obj
    [("Lib\\", .arr [.str "src/", .str "a/../src", .str "./lib", .str "src", .str "."]),
      ("App\\", .arr [.str "src"])])])]

/-- The directory is there for its second spelling as well, and under the first. -/
theorem priorityPaths_respelledManifest :
    ∃ i, insights ⟨.root, ["project"]⟩ respelledManifest = .ok i ∧
      ("Lib\\", ["src/", "a/../src", "lib", "src", "."]) ∈ i.namespaces ∧
      ⟨"Lib\\", "src/", "/project/src"⟩ ∈ i.priorityPaths ∧
      i.priorityPaths.Pairwise PriorityPath.Before := by
  obtain ⟨i, hi⟩ : ∃ i, insights ⟨.root, ["project"]⟩ respelledManifest = .ok i := ⟨_, rfl⟩
  have hlib : ("Lib\\", ["src/", "a/../src", "lib", "src", "."]) ∈ i.namespaces := by
    rw [namespaces_of_insights hi]
    decide +kernel
  obtain ⟨hpaths, -, -, hordered⟩ := priorityPaths_agree hi
  obtain ⟨hone, hspelled⟩ := hpaths _ hlib
  obtain ⟨⟨owner, relative, absolute⟩, ⟨hp, howner, hplace⟩, -⟩ :=
    hone "a/../src" (by decide +kernel)
  obtain rfl : owner = "Lib\\" := howner
  obtain rfl : absolute = "/project/src" := hplace.trans (by decide +kernel)
  have hsrc : ["src/", "a/../src", "lib", "src", "."].find?
      (locationOf ⟨.root, ["project"]⟩ · = "/project/src") = some "src/" := by decide +kernel
  obtain rfl : "src/" = relative := Option.some.inj (hsrc.symm.trans (hspelled _ hp rfl))
  exact ⟨i, hi, hlib, hp, hordered⟩

end Manifest

end PhpCatalog
