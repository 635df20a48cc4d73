/-
# Namespaces are told apart

A namespace that is mentioned again adds its paths to those it has.  So the namespaces of a manifest
have different names, and insights are a JSON object with each of them once.
-/
import Mathlib.Tactic.Lemma
import PhpCatalog.Manifest.Insights

namespace PhpCatalog.Manifest

/-- A mention adds a name only if it is new. -/
lemma mem_keys_addNamespace {name other : String} {paths : List String}
    {known : List (String × List String)} :
    other ∈ (addNamespace name paths known).map Prod.fst ↔
      other = name ∨ other ∈ known.map Prod.fst := by
  induction known with
  | nil => simp [addNamespace]
  | cons first rest ih =>
    obtain ⟨k, old⟩ := first
    by_cases hk : k = name
    · simp [addNamespace, hk]
    · simp only [addNamespace, hk, if_false, List.map_cons, List.mem_cons, ih]
      exact or_left_comm

lemma nodup_addNamespace (name : String) (paths : List String) {known : List (String × List String)}
    (h : (known.map Prod.fst).Nodup) : ((addNamespace name paths known).map Prod.fst).Nodup := by
  induction known with
  | nil => simp [addNamespace]
  | cons first rest ih =>
    obtain ⟨k, old⟩ := first
    rw [List.map_cons, List.nodup_cons] at h
    by_cases hk : k = name
    · simpa [addNamespace, hk] using h
    · simp only [addNamespace, hk, if_false, List.map_cons, List.nodup_cons]
      refine ⟨?_, ih h.2⟩
      rw [mem_keys_addNamespace, not_or]
      exact ⟨hk, h.1⟩

/-- The namespaces of some entries have different names. -/
theorem nodup_namespaces (entries : List (String × List String)) :
    ((namespaces entries).map Prod.fst).Nodup := by
  have hfold : ∀ known : List (String × List String), (known.map Prod.fst).Nodup →
      ((entries.foldl (fun acc e => addNamespace e.1 (e.2.map fragment) acc) known).map
        Prod.fst).Nodup := by
    induction entries with
    | nil => exact fun known h => h
    | cons e rest ih => exact fun known h => ih _ (nodup_addNamespace _ _ h)
  exact hfold [] List.nodup_nil

/-- Insights are those of an empty value, which tells nothing, or of an object whose entries and
packages can be read. -/
lemma insights_cases {root : Path} {config : Json} {i : Insights}
    (h : insights root config = .ok i) :
    (config.isTruthy = false ∧ i = {}) ∨
      ∃ members found hints, config = .obj members ∧ entries members = .ok found ∧
        frameworksOf members = .ok hints ∧
        i = ⟨namespaces found, hints, priorityPaths root found⟩ := by
  by_cases htruthy : config.isTruthy = true
  · cases config with
    | obj members =>
      rcases hentries : entries members with e | found
      · simp [insights, htruthy, hentries] at h
      rcases hhints : frameworksOf members with e | hints
      · simp [insights, htruthy, hentries, hhints] at h
      refine Or.inr ⟨members, found, hints, rfl, hentries, hhints, ?_⟩
      simpa [insights, htruthy, hentries, hhints] using h.symm
    | _ => simp [insights, htruthy] at h
  · exact Or.inl ⟨Bool.not_eq_true _ ▸ htruthy, by simpa [insights, htruthy] using h.symm⟩

lemma nodup_namespaces_of_insights {root : Path} {config : Json} {i : Insights}
    (h : insights root config = .ok i) : (i.namespaces.map Prod.fst).Nodup := by
  obtain ⟨-, rfl⟩ | ⟨members, found, hints, -, -, -, rfl⟩ := insights_cases h
  · exact List.nodup_nil
  · exact nodup_namespaces found

end PhpCatalog.Manifest
