/-
# The metadata of a declaration

An entry of the metadata of a declaration is one of seven things: a fixed entry, the visibility, a
modifier, a type (of the result or of the declaration itself), a part of the docblock, or the traits
of a class.  `Node.mem_metadata` says so once.  From it follow what the keys can be, that each key
stands once, and that every value is solid: not empty and without blanks at its ends.
-/
import PhpCatalog.Proofs.Docblock.Search
import PhpCatalog.Proofs.Docblock.Shape
import PhpCatalog.Declaration.Build

namespace PhpCatalog

open Text (Solid solid_of_forall solid_intercalate solid_toList_iff trim_eq_nil_or_solid)

/-- The keys that metadata may have, in the order in which they are entered. -/
def metadataKeys : List String :=
  ["language", "kind", "start_column", "end_column", "visibility", "static", "abstract", "final",
    "return_type", "type", "docblock.description", "docblock.params", "docblock.return",
    "docblock.throws", "traits"]

lemma Metadata.mem_entry {key : String} {value : Option String} {e : String × String} :
    e ∈ Metadata.entry key value ↔ e.1 = key ∧ value = some e.2 ∧ e.2 ≠ "" := by
  obtain ⟨k, v⟩ := e
  cases value with
  | none => simp [Metadata.entry]
  | some w =>
    by_cases hw : w = ""
    · subst hw
      simp only [Metadata.entry, ↓reduceIte, List.not_mem_nil, Option.some.injEq, false_iff]
      rintro ⟨-, rfl, hne⟩
      exact hne rfl
    · simp only [Metadata.entry, if_neg hw, List.mem_singleton, Prod.mk.injEq, Option.some.injEq]
      constructor
      · rintro ⟨rfl, rfl⟩
        exact ⟨rfl, rfl, hw⟩
      · rintro ⟨rfl, rfl, -⟩
        exact ⟨rfl, rfl⟩

lemma Metadata.keys_entry (key : String) (value : Option String) :
    ((Metadata.entry key value).map Prod.fst).Sublist [key] := by
  cases value with
  | none => simp [Metadata.entry]
  | some w => by_cases hw : w = "" <;> simp [Metadata.entry, hw]

namespace Node

variable {n : Node} {owner : Site} {source : ByteArray} {conceptType : String}

/-! ### The values that are read off the source -/

lemma trimmedText_solid {c : Node} (h : c.trimmedText source ≠ "") :
    Solid (c.trimmedText source).toList := by
  rw [trimmedText, String.toList_ofList]
  refine (trim_eq_nil_or_solid _).resolve_left ?_
  intro hnil
  exact h (by rw [trimmedText, hnil])

lemma visibility_solid {v : String} (h : n.visibility source = some v) : Solid v.toList := by
  obtain ⟨c, -, hc⟩ := List.exists_of_findSome?_eq_some h
  have hkeywords : ∀ k ∈ visibilityKeywords, k ≠ "" ∧ Text.trimmed k = k := by decide +kernel
  unfold statedVisibility at hc
  split at hc
  · -- the text of a modifier
    by_cases hne : c.trimmedText source = ""
    · simp [hne] at hc
    · simp only [if_neg hne, Option.some.injEq] at hc
      exact hc ▸ trimmedText_solid hne
  · -- a keyword
    split at hc
    · next hmem =>
      obtain rfl := Option.some.inj hc
      exact solid_toList_iff.mpr (hkeywords _ (by simpa using hmem))
    · simp at hc

end Node

/-! ### The names of traits -/

namespace TraitUse

open Text (isBlank isBlank_of_isWord isWord)

lemma isBlank_of_isNameChar {c : Char} (h : isNameChar c = true) : isBlank c = false := by
  by_cases hc : c = '\\'
  · subst hc
    decide
  · apply isBlank_of_isWord
    simp only [isNameChar, isNameStart, Bool.or_eq_true, beq_iff_eq, hc, or_false] at h
    simp only [isWord, Char.isAlphanum, Bool.or_eq_true, beq_iff_eq]
    tauto

lemma solid_of_head? {s name after : List Char} (h : head? s = some (name, after)) :
    Solid name := by
  unfold head? at h
  split at h
  · split at h
    · dsimp only at h
      split at h
      · next hname _ =>
        split at h
        · obtain ⟨rfl, -⟩ := Prod.mk.inj (Option.some.inj h)
          refine solid_of_forall (by rw [hname]; simp) ?_
          intro c hc
          exact isBlank_of_isNameChar (List.mem_takeWhile_imp hc)
        · simp at h
      · simp at h
    · simp at h
  · simp at h

lemma solid_of_mem_scan (steps : Nat) (atStart : Bool) (s : List Char) :
    ∀ name ∈ scan steps atStart s, Solid name := by
  fun_induction scan steps atStart s with
  | case1 => simp
  | case2 => simp
  | case3 steps atStart c rest name after hfound ih =>
    intro m hm
    rcases List.mem_cons.mp hm with rfl | hm
    · -- a clause is only looked for at the start of a line
      cases atStart with
      | false => simp at hfound
      | true => exact solid_of_head? (by simpa using hfound)
    · exact ih m hm
  | case4 steps atStart c rest hfound ih => exact ih

end TraitUse

namespace Node

variable {n : Node} {owner : Site} {source : ByteArray} {conceptType : String}

lemma names_solid {v : String} (h : v ∈ n.names source) : Solid v.toList := by
  obtain ⟨hmem, hne⟩ := List.mem_filter.mp h
  obtain ⟨c, -, rfl⟩ := List.mem_map.mp hmem
  exact trimmedText_solid (by simpa using hne)

lemma inClauses_solid {nodes : List Node} {v : String} (h : v ∈ TraitUse.inClauses source nodes) :
    Solid v.toList := by
  obtain ⟨c, -, hv⟩ := List.mem_flatMap.mp h
  exact names_solid hv

lemma traits_solid {v : String} (h : v ∈ n.traits source) : Solid v.toList := by
  simp only [traits, Text.sortDistinct, Text.sortTexts, List.mem_mergeSort,
    List.mem_eraseDups] at h
  -- without a clause in the tree, the traits are scanned for in the text
  split at h
  · obtain ⟨name, hname, rfl⟩ := List.mem_map.mp h
    rw [String.toList_ofList]
    exact TraitUse.solid_of_mem_scan _ _ _ name hname
  · rcases List.mem_append.mp h with h | h
    · exact inClauses_solid h
    · exact inClauses_solid h

lemma joined_traits_solid (h : ",".intercalate (n.traits source) ≠ "") :
    Solid (",".intercalate (n.traits source)).toList := by
  refine solid_intercalate "," ?_ fun v hv => traits_solid hv
  intro hnil
  exact h (by simp [hnil])

/-! ### The entries -/

/-- What an entry of the metadata of a declaration can be. -/
lemma mem_metadata {e : String × String} (h : e ∈ n.metadata owner source conceptType) :
    (e = ("language", languageName) ∨ e = ("kind", conceptType) ∨
      e = ("start_column", toString (n.startPoint.column + 1)) ∨
      e = ("end_column", toString (n.stopPoint.column + 1))) ∨
    (e.1 = "visibility" ∧ owner.node.visibility source = some e.2) ∨
    (e.1 ∈ flagModifiers ∧ e.2 = "true") ∨
    (e.1 = "return_type" ∧ owner.node.returnType source = some e.2 ∧ e.2 ≠ "") ∨
    (e.1 = "type" ∧ owner.node.typeAnnotation source = some e.2 ∧ e.2 ≠ "") ∨
    (∃ raw, e ∈ (Docblock.parse raw).toMetadata) ∨
    (conceptType = "class" ∧ e.1 = "traits" ∧ e.2 = ",".intercalate (n.traits source) ∧
      e.2 ≠ "") := by
  simp only [metadata, position, Site.shared, List.mem_append, Metadata.mem_entry] at h
  rcases h with (h | ((((h | h) | h) | h) | h)) | h
  · left
    simpa using h
  · exact Or.inr (Or.inl ⟨h.1, h.2.1⟩)
  · obtain ⟨m, hm, rfl⟩ := List.mem_map.mp h
    exact Or.inr (Or.inr (Or.inl ⟨(List.mem_filter.mp hm).1, rfl⟩))
  · exact Or.inr (Or.inr (Or.inr (Or.inl h)))
  · exact Or.inr (Or.inr (Or.inr (Or.inr (Or.inl h))))
  · split at h
    · next hfind =>
      obtain ⟨comment, -, rfl⟩ := Docblock.documents_of_find? hfind
      exact Or.inr (Or.inr (Or.inr (Or.inr (Or.inr (Or.inl ⟨comment.chars source, h⟩)))))
    · simp at h
  · split at h
    · next hclass =>
      obtain ⟨hkey, hvalue, hne⟩ := Metadata.mem_entry.mp h
      exact Or.inr (Or.inr (Or.inr (Or.inr (Or.inr (Or.inr
        ⟨hclass, hkey, (Option.some.inj hvalue).symm, hne⟩)))))
    · simp at h

/-- The keys stand in the order of the vocabulary, each at most once. -/
lemma keys_metadata :
    ((n.metadata owner source conceptType).map Prod.fst).Sublist metadataKeys := by
  have hflags : (((flagModifiers.filter owner.node.hasModifier).map (·, "true")).map
      Prod.fst).Sublist flagModifiers := by
    simp [List.map_map, Function.comp_def]
  have htraits : (List.map Prod.fst (if conceptType = "class" then
      Metadata.entry "traits" (some (",".intercalate (n.traits source))) else [])).Sublist
        ["traits"] := by
    split
    · exact Metadata.keys_entry _ _
    · simp
  rw [show metadataKeys = ["language", "kind", "start_column", "end_column"] ++
    (["visibility"] ++ flagModifiers ++ ["return_type"] ++ ["type"] ++
      ["docblock.description", "docblock.params", "docblock.return", "docblock.throws"]) ++
    ["traits"] from rfl]
  simp only [metadata, position, Site.shared, List.map_append]
  refine List.Sublist.append (List.Sublist.append (List.Sublist.refl _) ?_) htraits
  refine ((((Metadata.keys_entry _ _).append hflags).append (Metadata.keys_entry _ _)).append
    (Metadata.keys_entry _ _)).append ?_
  -- the docblock comes last among what the owner says, if there is one
  split
  · exact Docblock.keys_toMetadata _
  · simp

/-- Every value is solid, if the type of the concept is. -/
lemma metadata_solid (htype : Solid conceptType.toList) {e : String × String}
    (h : e ∈ n.metadata owner source conceptType) : Solid e.2.toList := by
  rcases mem_metadata h with (rfl | rfl | rfl | rfl) | ⟨-, hvis⟩ | ⟨-, htrue⟩ | ⟨-, hret, hne⟩ |
    ⟨-, hann, hne⟩ | ⟨raw, hdoc⟩ | ⟨-, -, htraits, hne⟩
  · exact solid_toList_iff.mpr (by decide +kernel)
  · exact htype
  · exact Text.solid_toString _
  · exact Text.solid_toString _
  · exact visibility_solid hvis
  · rw [htrue]
    exact solid_toList_iff.mpr (by decide +kernel)
  · obtain ⟨c, -, hc⟩ := Option.map_eq_some_iff.mp hret
    rw [← hc] at hne ⊢
    exact trimmedText_solid hne
  · obtain ⟨c, -, hc⟩ := Option.map_eq_some_iff.mp hann
    rw [← hc] at hne ⊢
    exact trimmedText_solid hne
  · exact Docblock.solid_of_mem_toMetadata raw e hdoc
  · rw [htraits] at hne ⊢
    exact joined_traits_solid hne

/-- The keys that belong neither to a modifier nor to traits. -/
def ordinaryKeys : List String :=
  ["language", "kind", "start_column", "end_column", "visibility", "return_type", "type",
    "docblock.description", "docblock.params", "docblock.return", "docblock.throws"]

lemma docblock_key {raw : List Char} {e : String × String}
    (h : e ∈ (Docblock.parse raw).toMetadata) : e.1 ∈ ordinaryKeys := by
  have hmem := (Docblock.keys_toMetadata _).subset (List.mem_map_of_mem h)
  have hsub : ∀ k ∈ ["docblock.description", "docblock.params", "docblock.return",
      "docblock.throws"], k ∈ ordinaryKeys := by decide
  exact hsub _ hmem

lemma key_cases {e : String × String} (h : e ∈ n.metadata owner source conceptType) :
    e.1 ∈ ordinaryKeys ∨ (e.1 ∈ flagModifiers ∧ e.2 = "true") ∨
      (e.1 = "traits" ∧ conceptType = "class") := by
  rcases mem_metadata h with (rfl | rfl | rfl | rfl) | ⟨hkey, -⟩ | hflag | ⟨hkey, -⟩ |
    ⟨hkey, -⟩ | ⟨raw, hdoc⟩ | ⟨hclass, hkey, -⟩
  · left; simp [ordinaryKeys]
  · left; simp [ordinaryKeys]
  · left; simp [ordinaryKeys]
  · left; simp [ordinaryKeys]
  · left; simp [ordinaryKeys, hkey]
  · exact Or.inr (Or.inl hflag)
  · left; simp [ordinaryKeys, hkey]
  · left; simp [ordinaryKeys, hkey]
  · exact Or.inl (docblock_key hdoc)
  · exact Or.inr (Or.inr ⟨hkey, hclass⟩)

/-- A modifier is recorded as true. -/
lemma flag_value {e : String × String} (h : e ∈ n.metadata owner source conceptType)
    (hflag : e.1 ∈ flagModifiers) : e.2 = "true" := by
  have hdisjoint : ∀ k ∈ flagModifiers, k ∉ ordinaryKeys ∧ k ≠ "traits" := by decide
  rcases key_cases h with hkey | ⟨-, htrue⟩ | ⟨hkey, -⟩
  · exact absurd hkey (hdisjoint _ hflag).1
  · exact htrue
  · exact absurd hkey (hdisjoint _ hflag).2

/-- Only a class has traits. -/
lemma class_of_traits {e : String × String} (h : e ∈ n.metadata owner source conceptType)
    (htraits : e.1 = "traits") : conceptType = "class" := by
  rcases key_cases h with hkey | ⟨hkey, -⟩ | ⟨-, hclass⟩
  · exact absurd hkey (by rw [htraits]; decide)
  · exact absurd hkey (by rw [htraits]; decide)
  · exact hclass

end Node

end PhpCatalog
