/-
# Reading the namespaces of a manifest again

The namespaces that a manifest tells are themselves a manifest.  Reading that again keeps every
namespace and reports every path once more, so it tells the same exactly if every path is reported
as it stands (`insights_again`).  That fails for a path of which nothing is left, or another step in
place, when its step in place has been dropped.
-/
import PhpCatalog.Proofs.Manifest.Faults
import PhpCatalog.Proofs.Manifest.Fragment

namespace PhpCatalog.Manifest

/-! ### Texts that are their own images -/

lemma map_eq_self_iff {α : Type} {f : α → α} {l : List α} : l.map f = l ↔ ∀ a ∈ l, f a = a := by
  have hid := List.map_inj_left (l := l) (f := f) (g := id)
  rwa [List.map_id] at hid

/-- Different texts are what is left of their images exactly if each is its own image. -/
lemma eraseDups_map_eq_self_iff {f : String → String} {texts : List String} (h : texts.Nodup) :
    (texts.map f).eraseDups = texts ↔ ∀ text ∈ texts, f text = text := by
  rw [← map_eq_self_iff]
  constructor
  · intro heq
    have hlength : (texts.map f).eraseDups.length = (texts.map f).length := by
      rw [heq, List.length_map]
    rw [← (Text.eraseDups_sublist _).eq_of_length hlength, heq]
  · intro hfixed
    rw [hfixed, Text.eraseDups_of_nodup h]

/-! ### Namespaces as a manifest -/

/-- The manifest that maps some namespaces to their paths, and says nothing else. -/
def ofNamespaces (found : List (String × List String)) : Json :=
  .obj [("autoload", .obj [("psr-4", .obj (found.map fun n => (n.1, .arr (n.2.map .str))))])]

lemma mentions_ofNamespaces (found : List (String × List String)) :
    mentions (ofNamespaces found) = found := by
  have hmap : mentions (ofNamespaces found) =
      found.map fun n => (n.1, listed (.arr (n.2.map .str))) := by
    simp [mentions, mapAt, ofNamespaces, Json.get?, Json.lookup]
  have hlisted : ∀ n ∈ found, (n.1, listed (.arr (n.2.map .str))) = id n := by
    intro n _
    simp [listed, List.filterMap_map, Function.comp_def, Json.str?]
  rw [hmap, List.map_congr_left hlisted, List.map_id]

lemma exists_arr_of_mem_mapAt {found : List (String × List String)} {purpose standard name : String}
    {value : Json} (h : (name, value) ∈ mapAt (ofNamespaces found) purpose standard) :
    ∃ items, value = .arr items := by
  by_cases hpurpose : "autoload" = purpose
  · by_cases hstandard : "psr-4" = standard
    · subst hpurpose hstandard
      obtain ⟨n, -, hn⟩ := List.mem_map.mp h
      exact ⟨_, (congrArg Prod.snd hn).symm⟩
    · simp [mapAt, ofNamespaces, Json.get?, Json.lookup, hpurpose, hstandard] at h
  · simp [mapAt, ofNamespaces, Json.get?, Json.lookup, hpurpose] at h

lemma not_faulty_ofNamespaces (found : List (String × List String)) :
    ¬ Faulty (ofNamespaces found) := by
  rintro (⟨-, -, hmember, hvalue⟩ | ⟨hpurpose, hmember, -⟩)
  · obtain ⟨items, hitems⟩ := exists_arr_of_mem_mapAt hmember
    exact hvalue.2.1 items hitems
  · rw [List.mem_cons, List.mem_singleton] at hpurpose
    rcases hpurpose with rfl | rfl <;> simp [ofNamespaces, Json.get?, Json.lookup] at hmember

/-- Of namespaces that are told apart each is mentioned once. -/
lemma pathsUnder_of_mem {found : List (String × List String)} (h : (found.map Prod.fst).Nodup)
    {n : String × List String} (hn : n ∈ found) : pathsUnder n.1 found = n.2.map fragment := by
  induction found with
  | nil => simp at hn
  | cons first rest ih =>
    obtain ⟨hfirst, hrest⟩ := List.nodup_cons.mp h
    rw [pathsUnder_cons]
    rcases List.mem_cons.mp hn with rfl | hn
    · rw [if_pos rfl, pathsUnder_of_notMem hfirst, List.append_nil]
    · have hother : first.1 ≠ n.1 := fun heq => hfirst (heq ▸ List.mem_map_of_mem hn)
      rw [if_neg hother, ih hrest hn, List.nil_append]

lemma declared_of_nodup {found : List (String × List String)} (h : (found.map Prod.fst).Nodup) :
    declared found = found.map fun n => (n.1, (n.2.map fragment).eraseDups) := by
  rw [declared, Text.eraseDups_of_nodup h, List.map_map]
  refine List.map_congr_left fun n hn => ?_
  simp only [Function.comp_apply, pathsUnder_of_mem h hn]

lemma exists_insights_ofNamespaces (root : Path) {found : List (String × List String)}
    (h : (found.map Prod.fst).Nodup) :
    ∃ again, insights root (ofNamespaces found) = .ok again ∧
      again.namespaces = found.map fun n => (n.1, (n.2.map fragment).eraseDups) := by
  rcases insights_obj_cases root _ with ⟨hfaulty, -⟩ | ⟨-, hread⟩
  · exact absurd hfaulty (not_faulty_ofNamespaces found)
  · refine ⟨_, hread, ?_⟩
    rw [namespaces_of_insights hread]
    exact (congrArg declared (mentions_ofNamespaces found)).trans (declared_of_nodup h)

/-- What holds of the reported paths, said of the mentions. -/
lemma forall_declared_iff {found : List (String × List String)} {P : String → Prop} :
    (∀ n ∈ declared found, ∀ path ∈ n.2, P path) ↔
      ∀ m ∈ found, ∀ raw ∈ m.2, P (fragment raw) := by
  constructor
  · intro h m hm raw hraw
    obtain ⟨kept, hkept, hpaths⟩ := exists_declared_of_mem hm
    exact h _ hkept _ (hpaths raw hraw)
  · intro h n hn path hpath
    obtain ⟨name, -, rfl⟩ := List.mem_map.mp hn
    obtain ⟨raw, hraw, rfl⟩ := List.mem_map.mp (List.mem_eraseDups.mp hpath)
    obtain ⟨m, hm, hlisted⟩ := List.mem_flatMap.mp hraw
    exact h m (List.mem_filter.mp hm).1 raw hlisted

/-- **Reading the namespaces again** always succeeds and reports each of their paths once more.  It
tells the same exactly if every reported path is filled and starts with no step in place, which is
to say that no mentioned path has nothing or another step in place behind the one it starts with. -/
theorem insights_again {root : Path} {config : Json} {i : Insights}
    (h : insights root config = .ok i) :
    ∃ again, insights root (ofNamespaces i.namespaces) = .ok again ∧
      again.namespaces = i.namespaces.map (fun n => (n.1, (n.2.map fragment).eraseDups)) ∧
      (again.namespaces = i.namespaces ↔
        ∀ n ∈ i.namespaces, ∀ path ∈ n.2, path ≠ "" ∧ ¬ ['.', '/'] <+: path.toList) ∧
      (again.namespaces = i.namespaces ↔ ∀ m ∈ mentions config, ∀ raw ∈ m.2, ¬ StepsAgain raw) := by
  have hnames := nodup_namespaces_of_insights h
  have hdeclared := namespaces_of_insights h
  have hdistinct : ∀ n ∈ i.namespaces, n.2.Nodup := by
    rintro ⟨name, paths⟩ hn
    rw [hdeclared] at hn
    obtain ⟨-, rfl⟩ := mem_declared_iff.mp hn
    exact Text.nodup_eraseDups _
  obtain ⟨again, hagain, hreported⟩ := exists_insights_ofNamespaces root hnames
  have hfixed : again.namespaces = i.namespaces ↔
      ∀ m ∈ mentions config, ∀ raw ∈ m.2, fragment (fragment raw) = fragment raw := by
    rw [← forall_declared_iff (P := fun path => fragment path = path), ← hdeclared, hreported,
      map_eq_self_iff]
    refine forall₂_congr fun n hn => ?_
    rw [← eraseDups_map_eq_self_iff (hdistinct n hn), Prod.ext_iff]
    exact and_iff_right rfl
  refine ⟨again, hagain, hreported, ?_, ?_⟩
  · rw [hfixed, hdeclared, forall_declared_iff]
    simp only [fragment_fragment_eq_iff]
  · rw [hfixed]
    simp only [fragment_fragment_eq_iff_not_stepsAgain]

/-- A manifest that spells the root of its project as a step in place, and steps twice. -/
def steppingManifest : Json :=
  .obj [("autoload", .obj [("psr-4", .obj
    [("App\\", .arr [.str "./", .str "././src", .str "."])])])]

/-- The root of the project is an empty path at first and a dot the second time. -/
theorem insights_steppingManifest :
    ∃ i again, insights ⟨.root, ["project"]⟩ steppingManifest = .ok i ∧
      i.namespaces = [("App\\", ["", "./src", "."])] ∧
      insights ⟨.root, ["project"]⟩ (ofNamespaces i.namespaces) = .ok again ∧
      again.namespaces = [("App\\", [".", "src"])] := by
  obtain ⟨i, hi⟩ : ∃ i, insights ⟨.root, ["project"]⟩ steppingManifest = .ok i := ⟨_, rfl⟩
  have hfirst : i.namespaces = [("App\\", ["", "./src", "."])] := by
    rw [namespaces_of_insights hi]
    decide +kernel
  obtain ⟨again, hagain, hreported, -⟩ := insights_again hi
  refine ⟨i, again, hi, hfirst, hagain, ?_⟩
  rw [hreported, hfirst]
  decide +kernel

end PhpCatalog.Manifest
