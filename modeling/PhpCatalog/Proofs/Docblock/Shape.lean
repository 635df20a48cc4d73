/-
# The shape of what a docblock says

Whatever a comment contains, the entries read from its lines are well formed: types are not empty
and hold no blank, names are made of word characters, and a line of the description is solid and
does not start with `@` (`entries_wellFormed`).  So every value that a docblock adds to the metadata
is solid (`solid_of_mem_toMetadata`), and its keys are among the four that begin with `docblock.`.
-/
import PhpCatalog.Docblock
import PhpCatalog.Proofs.Text.Trim

namespace PhpCatalog.Docblock

open Text (isBlank isWord isBlank_of_isWord Solid solid_of_forall solid_intercalate trim trimStart
  trim_eq_nil_or_solid)

/-- A text that is not empty and holds no blank. -/
def IsType (s : List Char) : Prop :=
  s ≠ [] ∧ ∀ c ∈ s, isBlank c = false

/-- A text that is not empty and holds word characters only. -/
def IsName (s : List Char) : Prop :=
  s ≠ [] ∧ ∀ c ∈ s, isWord c = true

/-- A type and a name, with a space and a dollar sign between them. -/
def IsParam (p : String) : Prop :=
  ∃ type name, IsType type ∧ IsName name ∧ p.toList = type ++ [' ', '$'] ++ name

instance (s : List Char) : Decidable (IsType s) :=
  decidable_of_iff (s ≠ [] ∧ s.all (!isBlank ·) = true) (by simp [IsType])

instance (s : List Char) : Decidable (IsName s) :=
  decidable_of_iff (s ≠ [] ∧ s.all isWord = true) (by simp [IsName])

namespace Entry

/-- The parts of an entry are of the kind the entry needs. -/
def WellFormed : Entry → Prop
  | param type name => IsType type ∧ IsName name
  | returns type => IsType type
  | throws type => IsType type
  | text words => Solid words ∧ words.head? ≠ some '@'
  | nothing => True

end Entry

lemma IsType.solid {s : List Char} (h : IsType s) : Solid s :=
  solid_of_forall h.1 h.2

lemma IsName.solid {s : List Char} (h : IsName s) : Solid s :=
  solid_of_forall h.1 fun c hc => isBlank_of_isWord (h.2 c hc)

lemma IsParam.solid {p : String} (h : IsParam p) : Solid p.toList := by
  obtain ⟨type, name, htype, hname, htext⟩ := h
  rw [htext]
  exact htype.solid.append _ hname.solid

/-! ### One line -/

lemma isBlank_of_mem_word {s : List Char} : ∀ c ∈ (word s).1, isBlank c = false := by
  intro c hc
  have := List.mem_takeWhile_imp hc
  simpa using this

lemma param?_wellFormed {line type name : List Char} (h : param? line = some (type, name)) :
    IsType type ∧ IsName name := by
  simp only [param?, Option.bind_eq_bind, Option.bind_eq_some_iff] at h
  obtain ⟨rest, -, h⟩ := h
  split at h
  · simp at h
  · next hne =>
    simp only [Bool.or_eq_true, List.isEmpty_iff, not_or] at hne
    obtain ⟨rfl, rfl⟩ := Prod.mk.inj (Option.some.inj h)
    exact ⟨⟨hne.1, isBlank_of_mem_word⟩, hne.2, fun c hc => List.mem_takeWhile_imp hc⟩

lemma typeAfter?_wellFormed {tag line type : List Char} (h : typeAfter? tag line = some type) :
    IsType type := by
  simp only [typeAfter?, Option.bind_eq_bind, Option.bind_eq_some_iff] at h
  obtain ⟨rest, -, h⟩ := h
  split at h
  · simp at h
  · next hne =>
    obtain rfl := Option.some.inj h
    exact ⟨by simpa using hne, isBlank_of_mem_word⟩

lemma classify_wellFormed {line : List Char} (h : line = [] ∨ Solid line) :
    (classify line).WellFormed := by
  unfold classify
  split
  · trivial
  · split
    · next hparam => exact param?_wellFormed hparam
    · split
      · next hreturn => exact typeAfter?_wellFormed hreturn
      · split
        · next hthrows => exact typeAfter?_wellFormed hthrows
        · trivial
  · next hnil hat =>
    refine ⟨h.resolve_left hnil, ?_⟩
    intro hhead
    obtain ⟨rest, rfl⟩ := List.head?_eq_some_iff.mp hhead
    exact hat rest rfl

lemma clean_eq_nil_or_solid (line : List Char) : clean line = [] ∨ Solid (clean line) := by
  rw [clean]
  exact trim_eq_nil_or_solid _

/-- The entries of any lines are well formed. -/
lemma wellFormed_of_lines (lines : List (List Char)) :
    ∀ e ∈ lines.map (fun line => classify (clean line)), e.WellFormed := by
  intro e he
  obtain ⟨line, -, rfl⟩ := List.mem_map.mp he
  have hclean := clean_eq_nil_or_solid line
  -- from here on only the clean line matters
  generalize clean line = content at hclean
  exact classify_wellFormed hclean

/-- The entries of any text are well formed. -/
lemma entries_wellFormed (raw : List Char) : ∀ e ∈ entries raw, e.WellFormed :=
  wellFormed_of_lines (Text.lines raw)

/-! ### The metadata -/

section Metadata

variable {es : List Entry}

lemma isParam_of_mem_params (h : ∀ e ∈ es, e.WellFormed) :
    ∀ p ∈ (ofEntries es).params, IsParam p := by
  intro p hp
  obtain ⟨e, he, hep⟩ := List.mem_filterMap.mp hp
  have hwf := h e he
  cases e <;> simp only [Option.some.injEq, reduceCtorEq] at hep
  subst hep
  exact ⟨_, _, hwf.1, hwf.2, String.toList_ofList⟩

lemma mem_of_returns {r : String} (h : (ofEntries es).returns = some r) :
    .returns r.toList ∈ es := by
  obtain ⟨e, he, her⟩ := List.mem_filterMap.mp (List.mem_of_getLast? h)
  cases e <;> simp only [Option.some.injEq, reduceCtorEq] at her
  subst her
  rwa [String.toList_ofList]

lemma mem_of_mem_throws {t : String} (h : t ∈ (ofEntries es).throws) : .throws t.toList ∈ es := by
  obtain ⟨e, he, het⟩ := List.mem_filterMap.mp h
  cases e <;> simp only [Option.some.injEq, reduceCtorEq] at het
  subst het
  rwa [String.toList_ofList]

lemma isType_of_returns (h : ∀ e ∈ es, e.WellFormed) {r : String}
    (hr : (ofEntries es).returns = some r) : IsType r.toList :=
  h _ (mem_of_returns hr)

lemma isType_of_mem_throws (h : ∀ e ∈ es, e.WellFormed) :
    ∀ t ∈ (ofEntries es).throws, IsType t.toList :=
  fun _ ht => h _ (mem_of_mem_throws ht)

/-- The lines of the description among some entries. -/
def texts (es : List Entry) : List String :=
  es.filterMap fun
    | .text words => some (String.ofList words)
    | _ => none

lemma mem_of_mem_texts {w : String} (h : w ∈ texts es) : .text w.toList ∈ es := by
  obtain ⟨e, he, hew⟩ := List.mem_filterMap.mp h
  cases e <;> simp only [Option.some.injEq, reduceCtorEq] at hew
  subst hew
  rwa [String.toList_ofList]

lemma solid_of_mem_texts (h : ∀ e ∈ es, e.WellFormed) : ∀ w ∈ texts es, Solid w.toList :=
  fun _ hw => (h _ (mem_of_mem_texts hw)).1

lemma untagged_of_mem_texts (h : ∀ e ∈ es, e.WellFormed) :
    ∀ w ∈ texts es, w.toList.head? ≠ some '@' :=
  fun _ hw => (h _ (mem_of_mem_texts hw)).2

lemma solid_description (h : ∀ e ∈ es, e.WellFormed) (hne : (ofEntries es).description ≠ "") :
    Solid (ofEntries es).description.toList := by
  refine solid_intercalate " " ?_ (solid_of_mem_texts h)
  intro hnil
  exact hne (congrArg (" ".intercalate ·) hnil)

/-- Every value that a parsed docblock adds to the metadata is solid. -/
lemma solid_of_mem_toMetadata (raw : List Char) :
    ∀ e ∈ (parse raw).toMetadata, Solid e.2.toList := by
  have hwf := entries_wellFormed raw
  intro e he
  simp only [toMetadata, List.mem_append] at he
  rcases he with ((he | he) | he) | he
  · split at he
    · simp at he
    · next hne =>
      rw [List.mem_singleton.mp he]
      exact solid_description hwf hne
  · split at he
    · simp at he
    · next hne =>
      rw [List.mem_singleton.mp he]
      exact solid_intercalate "|" (by simpa using hne) fun p hp =>
        (isParam_of_mem_params hwf p hp).solid
  · split at he
    · next hr =>
      rw [List.mem_singleton.mp he]
      exact (isType_of_returns hwf hr).solid
    · simp at he
  · split at he
    · simp at he
    · next hne =>
      rw [List.mem_singleton.mp he]
      exact solid_intercalate "|" (by simpa using hne) fun t ht =>
        (isType_of_mem_throws hwf t ht).solid

end Metadata

/-- The keys of a docblock's metadata, in their order and each at most once. -/
lemma keys_toMetadata (d : Docblock) :
    (d.toMetadata.map Prod.fst).Sublist
      ["docblock.description", "docblock.params", "docblock.return", "docblock.throws"] := by
  rw [show ["docblock.description", "docblock.params", "docblock.return", "docblock.throws"] =
    ["docblock.description"] ++ ["docblock.params"] ++ ["docblock.return"] ++
      ["docblock.throws"] from rfl]
  simp only [toMetadata, List.map_append]
  refine List.Sublist.append (List.Sublist.append (List.Sublist.append ?_ ?_) ?_) ?_
  all_goals split <;> simp

end PhpCatalog.Docblock
