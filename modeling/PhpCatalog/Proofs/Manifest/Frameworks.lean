/-
# The frameworks of a manifest

A package that stands for a framework by its full name hints at that one alone, whatever its vendor
stands for.  Any other package hints at what its vendor stands for.

The frameworks of a manifest are those its packages hint at (`frameworks_hinted`).  Which packages
there are is all that counts, and not where, in which order or how often they are required; and a
manifest that requires more loses no framework.
-/
import PhpCatalog.Proofs.Manifest.Faults

namespace PhpCatalog.Manifest

/-! ### Packages -/

/-- A package hints at a framework. -/
inductive HintsAt (package hint : String) : Prop where
  /-- The full name of the package stands for the framework. -/
  | named (h : (package, hint) ∈ frameworkPackages)
  /-- The full name stands for no framework, and the vendor does. -/
  | vendor {start : String} (hname : package ∉ frameworkPackages.map Prod.fst)
      (hvendor : (start, hint) ∈ frameworkVendors) (hstart : start.toList <+: package.toList)

lemma nodup_frameworkPackages : (frameworkPackages.map Prod.fst).Nodup := by
  decide

/-- Looking up a name finds the one entry it has. -/
lemma lookup_of_mem {table : List (String × String)} (h : (table.map Prod.fst).Nodup)
    {name hint : String} (hmem : (name, hint) ∈ table) : table.lookup name = some hint := by
  induction table with
  | nil => cases hmem
  | cons entry rest ih =>
    obtain ⟨hfirst, hrest⟩ := List.nodup_cons.mp h
    rcases List.mem_cons.mp hmem with rfl | hmem
    · exact List.lookup_cons_self
    · have hother : (name == entry.1) = false :=
        beq_false_of_ne fun hname => hfirst (hname ▸ List.mem_map_of_mem hmem)
      rw [List.lookup_cons, hother]
      exact ih hrest hmem

lemma hintsOf_of_mem {package hint : String} (h : (package, hint) ∈ frameworkPackages) :
    hintsOf package = [hint] := by
  rw [hintsOf, lookup_of_mem nodup_frameworkPackages h]

lemma hintsOf_of_notMem {package : String} (h : package ∉ frameworkPackages.map Prod.fst) :
    hintsOf package =
      (frameworkVendors.filter fun vendor => vendor.1.toList.isPrefixOf package.toList).map
        Prod.snd := by
  have hnone : frameworkPackages.lookup package = none := by
    refine List.lookup_eq_none_iff.mpr fun entry hentry => ?_
    exact bne_iff_ne.mpr fun hname => h (hname ▸ List.mem_map_of_mem hentry)
  rw [hintsOf, hnone]

lemma mem_hintsOf {package hint : String} : hint ∈ hintsOf package ↔ HintsAt package hint := by
  by_cases hname : package ∈ frameworkPackages.map Prod.fst
  · obtain ⟨⟨_, known⟩, hknown, rfl⟩ := List.mem_map.mp hname
    rw [hintsOf_of_mem hknown, List.mem_singleton]
    constructor
    · rintro rfl
      exact .named hknown
    · rintro (hnamed | ⟨hother, -, -⟩)
      · rw [← List.mem_singleton, ← hintsOf_of_mem hknown, hintsOf_of_mem hnamed]
        exact List.mem_singleton_self hint
      · exact absurd hname hother
  · rw [hintsOf_of_notMem hname]
    constructor
    · intro hmem
      obtain ⟨⟨start, _⟩, hvendor, rfl⟩ := List.mem_map.mp hmem
      obtain ⟨hvendor, hstart⟩ := List.mem_filter.mp hvendor
      exact .vendor hname hvendor (List.isPrefixOf_iff_prefix.mp hstart)
    · rintro (hnamed | ⟨-, hvendor, hstart⟩)
      · exact absurd (List.mem_map_of_mem hnamed) hname
      · have hstarts := List.isPrefixOf_iff_prefix.mpr hstart
        exact List.mem_map.mpr ⟨_, List.mem_filter.mpr ⟨hvendor, hstarts⟩, rfl⟩

instance (package hint : String) : Decidable (HintsAt package hint) :=
  decidable_of_iff (hint ∈ hintsOf package) mem_hintsOf

/-- The full name comes before the vendor. -/
example : HintsAt "laravel/lumen-framework" "lumen" ∧
    ¬ HintsAt "laravel/lumen-framework" "laravel" ∧ HintsAt "laravel/pint" "laravel" := by
  decide

/-! ### Manifests -/

/-- Each of the two requirements names its packages: it is an object, empty in some form, or
missing. -/
def NamesPackages (config : Json) : Prop :=
  ∀ purpose ∈ ["require", "require-dev"], ∀ value,
    config.get? purpose = some value → ¬ Unnamed value

/-- The frameworks that some packages hint at, in order. -/
def hints (packages : List String) : List String :=
  Text.sortDistinct (packages.flatMap hintsOf)

lemma frameworks_eq {members : List (String × Json)} (h : NamesPackages (.obj members)) :
    frameworks (.obj members) = .ok (hints (packages (.obj members))) := by
  rcases frameworksOf_cases members with
    ⟨⟨purpose, hpurpose, value, hvalue, hunnamed⟩, -⟩ | ⟨-, hread⟩
  · exact absurd hunnamed (h purpose hpurpose value hvalue)
  · exact hread

lemma mem_hints_iff {packages : List String} {hint : String} :
    hint ∈ hints packages ↔ ∃ package ∈ packages, HintsAt package hint := by
  simp only [hints, Text.mem_sortDistinct, List.mem_flatMap, mem_hintsOf]

lemma hints_sublist {few many : List String} (h : few ⊆ many) :
    (hints few).Sublist (hints many) := by
  refine Text.sortDistinct_sublist fun hint hhint => ?_
  obtain ⟨package, hpackage, hhint⟩ := List.mem_flatMap.mp hhint
  exact List.mem_flatMap.mpr ⟨package, h hpackage, hhint⟩

lemma hints_congr {packages others : List String}
    (h : ∀ package, package ∈ packages ↔ package ∈ others) : hints packages = hints others := by
  refine Text.sortDistinct_congr fun hint => ?_
  simp only [List.mem_flatMap, h]

/-- **The frameworks of a manifest are those its packages hint at**, each once and in order.  A
manifest with the same packages has the same frameworks, and one with more packages has these, in
their order, and maybe others between them. -/
theorem frameworks_hinted {members : List (String × Json)} (h : NamesPackages (.obj members)) :
    ∃ found, frameworks (.obj members) = .ok found ∧ found.Pairwise (· < ·) ∧
      (∀ hint, hint ∈ found ↔ ∃ package ∈ packages (.obj members), HintsAt package hint) ∧
      ∀ others, NamesPackages (.obj others) →
        ∃ more, frameworks (.obj others) = .ok more ∧
          (packages (.obj members) ⊆ packages (.obj others) → found.Sublist more) ∧
          ((∀ package, package ∈ packages (.obj members) ↔ package ∈ packages (.obj others)) →
            found = more) := by
  refine ⟨_, frameworks_eq h, Text.pairwise_sortDistinct _, fun hint => mem_hints_iff, ?_⟩
  intro others hothers
  exact ⟨_, frameworks_eq hothers, hints_sublist, hints_congr⟩

/-- A manifest with a package whose vendor stands for another framework than its full name. -/
def lumenMembers : List (String × Json) :=
  [("require", .obj [("php", .str ">=8.1"), ("laravel/lumen-framework", .str "^10")]),
    ("require-dev", .obj [("symfony/yaml", .str "^6")])]

/-- The same packages, all of them in one requirement, in another order and with other values. -/
def mergedMembers : List (String × Json) :=
  [("require-dev", .obj [("symfony/yaml", .null), ("laravel/lumen-framework", .str "*"),
    ("php", .str "*")]), ("require", .arr [])]

/-- The same packages, and one that has only its vendor to go by. -/
def grownMembers : List (String × Json) :=
  [("require", .obj [("laravel/pint", .str "^1"), ("symfony/yaml", .str "^6")]),
    ("require-dev", .obj [("php", .str "*"), ("laravel/lumen-framework", .str "^10")])]

/-- The full name keeps the vendor from being looked at, until another package has only that. -/
theorem frameworks_lumenMembers :
    ∃ found more, frameworks (.obj lumenMembers) = .ok found ∧ "lumen" ∈ found ∧
      "laravel" ∉ found ∧ frameworks (.obj mergedMembers) = .ok found ∧
      frameworks (.obj grownMembers) = .ok more ∧ found.Sublist more ∧ "laravel" ∈ more := by
  obtain ⟨hlumen, hmerged, hgrown⟩ : NamesPackages (.obj lumenMembers) ∧
      NamesPackages (.obj mergedMembers) ∧ NamesPackages (.obj grownMembers) := by
    simp [NamesPackages, Unnamed, lumenMembers, mergedMembers, grownMembers, Json.get?, Json.lookup,
      Json.isTruthy]
  obtain ⟨found, hfound, -, hexact, hothers⟩ := frameworks_hinted hlumen
  obtain ⟨same, hsame, -, hequal⟩ := hothers _ hmerged
  obtain ⟨more, hmore, hsublist, -⟩ := hothers _ hgrown
  obtain ⟨again, hagain, -, hexact', -⟩ := frameworks_hinted hgrown
  obtain rfl : more = again := Except.ok.inj (hmore.symm.trans hagain)
  have hpackages : packages (.obj lumenMembers) ⊆ packages (.obj mergedMembers) ∧
      packages (.obj mergedMembers) ⊆ packages (.obj lumenMembers) := by
    decide
  obtain rfl := hequal fun package => ⟨@hpackages.1 package, @hpackages.2 package⟩
  refine ⟨found, more, hfound, (hexact _).mpr (by decide), mt (hexact _).mp (by decide), hsame,
    hmore, hsublist (by decide), (hexact' _).mpr (by decide)⟩

end PhpCatalog.Manifest
