/-
# Manifests that cannot be summarized

A manifest may hold any value at any place.  Two places end its reading: a namespace whose value is
neither a string nor an array nor an object, in a map that counts, and a requirement that is filled
but no object.  Any other part that is not of the form it should have counts for nothing
(`insights_eq_error_iff`).
-/
import PhpCatalog.Proofs.Manifest.Declared

namespace PhpCatalog.Manifest

/-! ### What ends the reading -/

/-- A value that lists no paths in any way: a number, a truth value or null. -/
def Unlisted (value : Json) : Prop :=
  (∀ s, value ≠ .str s) ∧ (∀ items, value ≠ .arr items) ∧ ∀ members, value ≠ .obj members

/-- A value that is filled, and yet names no packages. -/
def Unnamed (value : Json) : Prop :=
  value.isTruthy = true ∧ ∀ members, value ≠ .obj members

/-- The manifest has a part that ends its reading. -/
inductive Faulty (config : Json) : Prop where
  /-- In one of the four maps a namespace has a value that lists no paths. -/
  | listing {purpose standard name : String} {value : Json}
      (hpurpose : purpose ∈ ["autoload", "autoload-dev"])
      (hstandard : standard ∈ ["psr-4", "psr-0"])
      (hmember : (name, value) ∈ mapAt config purpose standard) (hvalue : Unlisted value)
  /-- One of the two requirements names no packages. -/
  | requirement {purpose : String} {value : Json} (hpurpose : purpose ∈ ["require", "require-dev"])
      (hmember : config.get? purpose = some value) (hvalue : Unnamed value)

/-- The packages that a requirement of a manifest names.  One that is no object names none. -/
def packagesAt (config : Json) (purpose : String) : List String :=
  match config.get? purpose with
  | some (.obj members) => members.map Prod.fst
  | _ => []

/-- The packages that a manifest names. -/
def packages (config : Json) : List String :=
  packagesAt config "require" ++ packagesAt config "require-dev"

/-! ### Each part -/

lemma pathsOf_cases (value : Json) :
    (Unlisted value ∧ pathsOf value = .error .noEntries) ∨
      ¬ Unlisted value ∧ pathsOf value = .ok (listed value) := by
  cases value <;> simp [Unlisted, pathsOf, listed]

lemma mapEntries_cases (members : List (String × Json)) :
    ((∃ m ∈ members, Unlisted m.2) ∧ mapEntries members = .error .noEntries) ∨
      (∀ m ∈ members, ¬ Unlisted m.2) ∧
        mapEntries members = .ok (members.map fun m => (m.1, listed m.2)) := by
  induction members with
  | nil => exact Or.inr ⟨by simp, rfl⟩
  | cons m rest ih =>
    obtain ⟨name, value⟩ := m
    rcases pathsOf_cases value with ⟨hvalue, hpaths⟩ | ⟨hvalue, hpaths⟩
    · exact Or.inl ⟨⟨_, List.mem_cons_self, hvalue⟩, by rw [mapEntries, hpaths]⟩
    · rcases ih with ⟨⟨m, hm, hfault⟩, hrest⟩ | ⟨hnone, hrest⟩
      · exact Or.inl ⟨⟨m, List.mem_cons_of_mem _ hm, hfault⟩, by rw [mapEntries, hpaths, hrest]⟩
      · refine Or.inr ⟨?_, by rw [mapEntries, hpaths, hrest]; rfl⟩
        rintro m hm
        rcases List.mem_cons.mp hm with rfl | hm
        · exact hvalue
        · exact hnone m hm

lemma packagesOf_cases (members : List (String × Json)) (purpose : String) :
    (∃ value, Json.get? (.obj members) purpose = some value ∧ Unnamed value ∧
      packagesOf members purpose = .error .noEntries) ∨
    (∀ value, Json.get? (.obj members) purpose = some value → ¬ Unnamed value) ∧
      packagesOf members purpose = .ok (packagesAt (.obj members) purpose) := by
  rcases hvalue : Json.lookup purpose members with _ | value
  · exact Or.inr ⟨by simp [Json.get?, hvalue], by simp [packagesOf, packagesAt, Json.get?, hvalue]⟩
  · by_cases hunnamed : Unnamed value
    · refine Or.inl ⟨value, hvalue, hunnamed, ?_⟩
      obtain ⟨htruthy, hobject⟩ := hunnamed
      cases value with
      | obj inner => exact absurd rfl (hobject inner)
      | _ => simp [packagesOf, hvalue, htruthy]
    · refine Or.inr ⟨by simpa [Json.get?, hvalue] using hunnamed, ?_⟩
      cases value with
      | obj inner => simp [packagesOf, packagesAt, Json.get?, hvalue]
      | _ => simp_all [packagesOf, packagesAt, Json.get?, Unnamed]

lemma mem_mapMembers_iff {m : String × Json} {members : List (String × Json)} :
    m ∈ mapMembers members ↔ ∃ standard ∈ ["psr-4", "psr-0"],
      ∃ purpose ∈ ["autoload", "autoload-dev"], m ∈ mapAt (.obj members) purpose standard := by
  simp only [mapMembers, List.mem_flatMap, membersOf_lookup]
  rfl

lemma map_mapMembers (members : List (String × Json)) :
    ((mapMembers members).map fun m => (m.1, listed m.2)) = mentions (.obj members) := by
  simp [mapMembers, standards, sections, membersOf_lookup, mentions]

lemma entries_cases (members : List (String × Json)) :
    ((∃ m ∈ mapMembers members, Unlisted m.2) ∧ entries members = .error .noEntries) ∨
      (∀ m ∈ mapMembers members, ¬ Unlisted m.2) ∧
        entries members = .ok (mentions (.obj members)) := by
  rw [← map_mapMembers]
  exact mapEntries_cases (mapMembers members)

lemma frameworksOf_cases (members : List (String × Json)) :
    ((∃ purpose ∈ ["require", "require-dev"], ∃ value,
        Json.get? (.obj members) purpose = some value ∧ Unnamed value) ∧
      frameworksOf members = .error .noEntries) ∨
    (∀ purpose ∈ ["require", "require-dev"], ∀ value,
        Json.get? (.obj members) purpose = some value → ¬ Unnamed value) ∧
      frameworksOf members =
        .ok (Text.sortDistinct ((packages (.obj members)).flatMap hintsOf)) := by
  rcases packagesOf_cases members "require" with ⟨value, hmember, hvalue, huse⟩ | ⟨huse, huseful⟩
  · exact Or.inl ⟨⟨_, by simp, value, hmember, hvalue⟩, by rw [frameworksOf, huse]⟩
  · rcases packagesOf_cases members "require-dev" with
      ⟨value, hmember, hvalue, hdev⟩ | ⟨hdev, hdevelopers⟩
    · exact Or.inl ⟨⟨_, by simp, value, hmember, hvalue⟩, by rw [frameworksOf, huseful, hdev]⟩
    · refine Or.inr ⟨by simpa using ⟨huse, hdev⟩, ?_⟩
      rw [frameworksOf, huseful, hdevelopers]
      rfl

/-! ### The whole -/

/-- What a manifest tells if no part of it ends the reading. -/
def reading (root : Path) (config : Json) : Insights :=
  ⟨declared (mentions config), Text.sortDistinct ((packages config).flatMap hintsOf),
    priorityPaths root (mentions config)⟩

/-- An empty object is read like any other. -/
lemma insights_obj (root : Path) (members : List (String × Json)) :
    insights root (.obj members) =
      match entries members, frameworksOf members with
      | .error e, _ => .error e
      | .ok _, .error e => .error e
      | .ok found, .ok hints => .ok ⟨namespaces found, hints, priorityPaths root found⟩ := by
  cases members with
  | nil =>
    have hentries : entries [] = .ok [] := rfl
    have hhints : frameworksOf [] = .ok [] := by
      simp [frameworksOf, packagesOf, Json.lookup, Text.sortDistinct, Text.sortTexts]
    have hpaths : priorityPaths root [] = [] := by simp [priorityPaths]
    simp only [hentries, hhints, hpaths]
    rfl
  | cons m rest =>
    rw [insights, if_neg (by simp [Json.isTruthy])]
    rcases entries (m :: rest) with e | found
    · rfl
    · rcases frameworksOf (m :: rest) with e | hints <;> rfl

lemma insights_obj_cases (root : Path) (members : List (String × Json)) :
    (Faulty (.obj members) ∧ insights root (.obj members) = .error .noEntries) ∨
      ¬ Faulty (.obj members) ∧
        insights root (.obj members) = .ok (reading root (.obj members)) := by
  rw [insights_obj]
  rcases entries_cases members with ⟨⟨m, hm, hvalue⟩, hentries⟩ | ⟨hlisted, hentries⟩
  · obtain ⟨standard, hstandard, purpose, hpurpose, hmember⟩ := mem_mapMembers_iff.mp hm
    exact Or.inl ⟨.listing hpurpose hstandard hmember hvalue, by rw [hentries]⟩
  · rcases frameworksOf_cases members with
      ⟨⟨purpose, hpurpose, value, hmember, hvalue⟩, hhints⟩ | ⟨hnamed, hhints⟩
    · exact Or.inl ⟨.requirement hpurpose hmember hvalue, by rw [hentries, hhints]⟩
    · refine Or.inr ⟨?_, by rw [hentries, hhints, reading, ← namespaces_eq_declared]⟩
      rintro (⟨hpurpose, hstandard, hmember, hvalue⟩ | ⟨hpurpose, hmember, hvalue⟩)
      · exact hlisted _ (mem_mapMembers_iff.mpr ⟨_, hstandard, _, hpurpose, hmember⟩) hvalue
      · exact hnamed _ hpurpose _ hmember hvalue

/-- **What cannot be summarized, and what counts for nothing.**  Reading a manifest ends in a fault
exactly if a namespace in one of the four maps lists no paths, or a requirement that is filled names
no packages, and the fault is always the same.  Otherwise the manifest tells what its well-formed
parts say, whatever stands at the other places. -/
theorem insights_eq_error_iff (root : Path) (members : List (String × Json)) :
    (∀ fault, insights root (.obj members) = .error fault ↔
      fault = .noEntries ∧ Faulty (.obj members)) ∧
    (insights root (.obj members) = .ok (reading root (.obj members)) ↔
      ¬ Faulty (.obj members)) := by
  rcases insights_obj_cases root members with ⟨hfaulty, hread⟩ | ⟨hsound, hread⟩
  · rw [hread]
    exact ⟨fun fault => by simp [hfaulty, eq_comm], by simp [hfaulty]⟩
  · rw [hread]
    exact ⟨fun fault => by simp [hsound], by simp [hsound]⟩

example : insights ⟨.root, ["project"]⟩
    (.obj [("autoload", .obj [("psr-4", .str "src"), ("psr-0", .obj [("Old_", .null)])])]) =
      .error .noEntries := rfl

end PhpCatalog.Manifest
