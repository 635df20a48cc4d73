/-
# The namespaces that a manifest declares

The namespaces of a manifest are collected in one pass over its maps, which adds to what it has
found so far.  What comes out can be said without the pass (`namespaces_eq_declared`): the
namespaces stand in the order in which they are first mentioned, those without paths included, and
each has the paths of all its mentions in their order, the first of equal ones.

So no declared path is lost and none is repeated (`insights_declared`).
-/
import Mathlib.Data.List.Induction
import PhpCatalog.Proofs.Manifest.Namespaces
import PhpCatalog.Proofs.Text.Order

namespace PhpCatalog.Manifest

/-! ### What a manifest declares -/

/-- The members of the map for a standard in a section of a manifest.  Where the section is no
object, or the map is none, there are none. -/
def mapAt (config : Json) (purpose standard : String) : List (String × Json) :=
  match (config.get? purpose).bind (·.get? standard) with
  | some (.obj members) => members
  | _ => []

/-- The paths that a value lists: a string itself, an array its strings, an object its names. -/
def listed : Json → List String
  | .str s => [s]
  | .arr items => items.filterMap Json.str?
  | .obj members => members.map Prod.fst
  | _ => []

/-- Every mention of a namespace with the paths it lists, in the order of the four maps. -/
def mentions (config : Json) : List (String × List String) :=
  (mapAt config "autoload" "psr-4" ++ mapAt config "autoload-dev" "psr-4" ++
    mapAt config "autoload" "psr-0" ++ mapAt config "autoload-dev" "psr-0").map
    fun m => (m.1, listed m.2)

/-- The paths of all mentions of a namespace, as they are reported. -/
def pathsUnder (name : String) (found : List (String × List String)) : List String :=
  ((found.filter (·.1 = name)).flatMap Prod.snd).map fragment

/-- The namespaces of some mentions, in the order of their first mention, each with its paths in the
order of their first mention. -/
def declared (found : List (String × List String)) : List (String × List String) :=
  (found.map Prod.fst).eraseDups.map fun name => (name, (pathsUnder name found).eraseDups)

/-! ### One more mention -/

/-- Adding paths to different ones keeps the first of equal ones. -/
lemma addPaths_eraseDups (known new : List String) :
    addPaths known.eraseDups new = (known ++ new).eraseDups := by
  induction new generalizing known with
  | nil => simp [addPaths]
  | cons p rest ih =>
    have hstep : (if known.eraseDups.contains p then known.eraseDups else known.eraseDups ++ [p]) =
        (known ++ [p]).eraseDups := by
      simp only [Text.eraseDups_concat, List.contains_iff_mem, List.mem_eraseDups]
    calc addPaths known.eraseDups (p :: rest)
        = addPaths (known ++ [p]).eraseDups rest := by rw [← hstep]; rfl
      _ = (known ++ p :: rest).eraseDups := by rw [ih, List.append_assoc, List.singleton_append]

section Keys

variable {name : String} {keys : List String} (f : String → List String) (new : List String)

lemma addNamespace_of_notMem (h : name ∉ keys) :
    addNamespace name new (keys.map fun k => (k, f k)) =
      (keys.map fun k => (k, f k)) ++ [(name, addPaths [] new)] := by
  induction keys with
  | nil => rfl
  | cons k rest ih =>
    rw [List.mem_cons, not_or] at h
    simp [addNamespace, Ne.symm h.1, ih h.2]

lemma addNamespace_of_mem (h : name ∈ keys) (hnodup : keys.Nodup) :
    addNamespace name new (keys.map fun k => (k, f k)) =
      keys.map fun k => (k, if k = name then addPaths (f k) new else f k) := by
  induction keys with
  | nil => simp at h
  | cons k rest ih =>
    obtain ⟨hk, hrest⟩ := List.nodup_cons.mp hnodup
    by_cases hkey : k = name
    · subst hkey
      -- the name does not come again, so the rest stays
      have hsame : ∀ other ∈ rest, (other, f other) =
          (other, if other = k then addPaths (f other) new else f other) := by
        intro other hother
        rw [if_neg (ne_of_mem_of_not_mem hother hk)]
      simp [addNamespace, List.map_congr_left hsame]
    · have hmem : name ∈ rest := (List.mem_cons.mp h).resolve_left (Ne.symm hkey)
      simp [addNamespace, hkey, ih hmem hrest]

end Keys

lemma pathsUnder_cons (name : String) (e : String × List String)
    (found : List (String × List String)) :
    pathsUnder name (e :: found) =
      (if e.1 = name then e.2.map fragment else []) ++ pathsUnder name found := by
  by_cases h : e.1 = name <;> simp [pathsUnder, h]

lemma pathsUnder_concat (name : String) (found : List (String × List String))
    (e : String × List String) :
    pathsUnder name (found ++ [e]) =
      pathsUnder name found ++ if e.1 = name then e.2.map fragment else [] := by
  by_cases h : e.1 = name <;> simp [pathsUnder, List.filter_append, h]

lemma pathsUnder_of_notMem {name : String} {found : List (String × List String)}
    (h : name ∉ found.map Prod.fst) : pathsUnder name found = [] := by
  have hnone : found.filter (·.1 = name) = [] := by
    rw [List.filter_eq_nil_iff]
    rintro e he hname
    exact h (List.mem_map.mpr ⟨e, he, of_decide_eq_true hname⟩)
  simp [pathsUnder, hnone]

/-- One more mention adds its paths, and its namespace if that is new. -/
lemma declared_concat (found : List (String × List String)) (e : String × List String) :
    declared (found ++ [e]) = addNamespace e.1 (e.2.map fragment) (declared found) := by
  obtain ⟨name, paths⟩ := e
  have hpaths : ∀ k, (pathsUnder k (found ++ [(name, paths)])).eraseDups =
      if k = name then addPaths (pathsUnder k found).eraseDups (paths.map fragment)
      else (pathsUnder k found).eraseDups := by
    intro k
    by_cases hk : k = name
    · simp [pathsUnder_concat, addPaths_eraseDups, hk]
    · simp [pathsUnder_concat, hk, Ne.symm hk]
  have hkeys : ((found ++ [(name, paths)]).map Prod.fst).eraseDups =
      if name ∈ found.map Prod.fst then (found.map Prod.fst).eraseDups
      else (found.map Prod.fst).eraseDups ++ [name] := by
    rw [List.map_append, List.map_singleton, Text.eraseDups_concat]
  by_cases hname : name ∈ found.map Prod.fst
  · rw [declared, declared, hkeys, if_pos hname,
      addNamespace_of_mem _ _ (List.mem_eraseDups.mpr hname) (Text.nodup_eraseDups _)]
    simp only [hpaths]
  · have hnew : name ∉ (found.map Prod.fst).eraseDups := mt List.mem_eraseDups.mp hname
    have hold : ∀ k ∈ (found.map Prod.fst).eraseDups,
        (k, (pathsUnder k (found ++ [(name, paths)])).eraseDups) =
          (k, (pathsUnder k found).eraseDups) := by
      intro k hk
      rw [hpaths, if_neg (ne_of_mem_of_not_mem hk hnew)]
    rw [declared, declared, hkeys, if_neg hname, addNamespace_of_notMem _ _ hnew, List.map_append,
      List.map_congr_left hold, List.map_singleton, hpaths, if_pos rfl,
      pathsUnder_of_notMem hname]
    rfl

/-- **The pass collects what is declared.** -/
theorem namespaces_eq_declared (found : List (String × List String)) :
    namespaces found = declared found := by
  induction found using List.reverseRecOn with
  | nil => rfl
  | append_singleton found e ih =>
    calc namespaces (found ++ [e])
        = addNamespace e.1 (e.2.map fragment) (namespaces found) := by
          rw [namespaces, List.foldl_append]
          rfl
      _ = declared (found ++ [e]) := by rw [ih, declared_concat]

/-! ### Reading the mentions -/

lemma eq_listed_of_pathsOf {value : Json} {paths : List String} (h : pathsOf value = .ok paths) :
    paths = listed value := by
  cases value <;> simp_all [pathsOf, listed]

lemma eq_map_of_mapEntries {members : List (String × Json)} {found : List (String × List String)}
    (h : mapEntries members = .ok found) : found = members.map fun m => (m.1, listed m.2) := by
  induction members generalizing found with
  | nil => simpa [mapEntries] using h.symm
  | cons m rest ih =>
    obtain ⟨name, value⟩ := m
    rcases hpaths : pathsOf value with e | paths
    · simp [mapEntries, hpaths] at h
    rcases hrest : mapEntries rest with e | others
    · simp [mapEntries, hpaths, hrest] at h
    obtain rfl : (name, paths) :: others = found := by simpa [mapEntries, hpaths, hrest] using h
    rw [eq_listed_of_pathsOf hpaths, ih hrest, List.map_cons]

lemma membersOf_lookup (config : List (String × Json)) (purpose standard : String) :
    membersOf (Json.lookup standard (membersOf (Json.lookup purpose config))) =
      mapAt (.obj config) purpose standard := by
  rcases hpurpose : Json.lookup purpose config with _ | j
  · simp [mapAt, Json.get?, hpurpose, membersOf, Json.lookup]
  · cases j with
    | obj members =>
      rw [mapAt, Json.get?, hpurpose, membersOf]
      rfl
    | _ => simp [mapAt, Json.get?, hpurpose, membersOf, Json.lookup]

/-- Entries that can be read are the mentions. -/
lemma eq_mentions_of_entries {config : List (String × Json)} {found : List (String × List String)}
    (h : entries config = .ok found) : found = mentions (.obj config) := by
  rw [eq_map_of_mapEntries h]
  simp [mapMembers, standards, sections, membersOf_lookup, mentions]

lemma mentions_of_not_truthy {config : Json} (h : config.isTruthy = false) :
    mentions config = [] := by
  cases config with
  | obj members =>
    obtain rfl : members = [] := by simpa [Json.isTruthy] using h
    rfl
  | _ => rfl

lemma namespaces_of_insights {root : Path} {config : Json} {i : Insights}
    (h : insights root config = .ok i) : i.namespaces = declared (mentions config) := by
  obtain ⟨hempty, rfl⟩ | ⟨members, found, hints, rfl, hentries, -, rfl⟩ := insights_cases h
  · rw [mentions_of_not_truthy hempty]
    rfl
  · rw [← eq_mentions_of_entries hentries]
    exact namespaces_eq_declared found

lemma mem_declared_iff {name : String} {paths : List String} {found : List (String × List String)} :
    (name, paths) ∈ declared found ↔
      name ∈ found.map Prod.fst ∧ paths = (pathsUnder name found).eraseDups := by
  simp only [declared, List.mem_map, List.mem_eraseDups, Prod.mk.injEq]
  constructor
  · rintro ⟨_, hmem, rfl, rfl⟩
    exact ⟨hmem, rfl⟩
  · rintro ⟨hmem, rfl⟩
    exact ⟨name, hmem, rfl, rfl⟩

/-- What is mentioned is declared. -/
lemma exists_declared_of_mem {name : String} {paths : List String}
    {found : List (String × List String)} (h : (name, paths) ∈ found) :
    ∃ kept, (name, kept) ∈ declared found ∧ ∀ p ∈ paths, fragment p ∈ kept := by
  have hname : name ∈ (found.map Prod.fst).eraseDups :=
    List.mem_eraseDups.mpr (List.mem_map_of_mem h)
  refine ⟨_, List.mem_map_of_mem hname, fun p hp => ?_⟩
  rw [List.mem_eraseDups]
  refine List.mem_map_of_mem (List.mem_flatMap.mpr ⟨(name, paths), ?_, hp⟩)
  simpa using h

/-- **The namespaces of a manifest are those it declares.**  Where a manifest tells anything, its
namespaces are those of the four maps in the order of their first mention, each with the paths of
all its mentions; every path that is declared is there, and no namespace or path stands there twice.
-/
theorem insights_declared {root : Path} {config : Json} {i : Insights}
    (h : insights root config = .ok i) :
    i.namespaces = declared (mentions config) ∧
    (∀ name paths, (name, paths) ∈ mentions config →
      ∃ kept, (name, kept) ∈ i.namespaces ∧ ∀ p ∈ paths, fragment p ∈ kept) ∧
    (i.namespaces.map Prod.fst).Nodup ∧ ∀ n ∈ i.namespaces, n.2.Nodup := by
  have hdeclared := namespaces_of_insights h
  refine ⟨hdeclared, ?_, nodup_namespaces_of_insights h, ?_⟩
  · intro name paths hmention
    rw [hdeclared]
    exact exists_declared_of_mem hmention
  · intro n hn
    rw [hdeclared] at hn
    obtain ⟨name, -, rfl⟩ := List.mem_map.mp hn
    exact Text.nodup_eraseDups _

/-- A manifest that mentions a namespace three times, lists paths in all three ways, and has parts
that count for nothing. -/
def scatteredManifest : Json :=
  .obj [("autoload-dev", .obj [("psr-4", .obj [("App\\", .str "tests"), ("Bare\\", .arr [])])]),
    ("autoload", .obj
      [("psr-0", .obj [("Old_", .obj [("lib", .null)]), ("App\\", .arr [.str "tests", .str ""])]),
        ("psr-4", .obj [("App\\", .arr [.str "./src", .int 3, .str "src", .str "lib\\App"])]),
        ("files", .str "boot.php")])]

/-- The order of the maps decides, not that of the members. -/
theorem insights_scatteredManifest :
    ∃ i, insights ⟨.root, ["project"]⟩ scatteredManifest = .ok i ∧
      i.namespaces = [("App\\", ["src", "lib/App", "tests", "."]), ("Bare\\", []),
        ("Old_", ["lib"])] := by
  obtain ⟨i, hi⟩ : ∃ i, insights ⟨.root, ["project"]⟩ scatteredManifest = .ok i := ⟨_, rfl⟩
  refine ⟨i, hi, (insights_declared hi).1.trans ?_⟩
  decide +kernel

end PhpCatalog.Manifest
