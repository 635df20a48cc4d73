/-
# What metadata says under a key

The metadata of a declaration is put together from parts that never share a key.  So what it says
under a key is what the part that has the key says, and the other parts do not matter:

* the visibility, the modifiers, the types and the docblock come from the owner of the declaration
  (`Site.inherits_shared`), and a declaration that is no class says nothing else but its language,
  its type and its columns (`Node.get?_metadata`);
* the traits come from the class itself (`Node.get?_traits`).
-/
import PhpCatalog.Proofs.Declaration.Metadata

namespace PhpCatalog

namespace Metadata

lemma get?_append (a b : Metadata) (key : String) :
    get? (a ++ b) key = (get? a key).or (get? b key) :=
  List.lookup_append

lemma get?_nil (key : String) : get? [] key = none := rfl

lemma get?_cons (name value key : String) (rest : Metadata) :
    get? ((name, value) :: rest) key = if key = name then some value else get? rest key := by
  rw [get?, List.lookup_cons]
  by_cases h : key = name
  · rw [if_pos h, beq_iff_eq.mpr h]
  · rw [if_neg h, beq_eq_false_iff_ne.mpr h]
    rfl

lemma get?_eq_none {m : Metadata} {key : String} (h : key ∉ m.map Prod.fst) :
    m.get? key = none := by
  rw [get?, List.lookup_eq_none_iff]
  intro e he
  rw [bne_iff_ne]
  rintro rfl
  exact h (List.mem_map_of_mem he)

/-- An entry says its value, unless that is empty. -/
lemma get?_entry (name key : String) (value : Option String) :
    get? (entry name value) key = if key = name then value.filter (· ≠ "") else none := by
  rcases value with _ | v
  · simp [entry, get?_nil]
  · by_cases hv : v = "" <;> simp [entry, get?_cons, get?_nil, hv, Option.filter]

/-- The modifiers that are present are recorded as true. -/
lemma get?_flags (present : String → Bool) (flags : List String) (key : String) :
    get? ((flags.filter present).map (·, "true")) key =
      if key ∈ flags ∧ present key then some "true" else none := by
  induction flags with
  | nil => simp [get?_nil]
  | cons flag rest ih =>
    by_cases hflag : present flag
    · rw [List.filter_cons_of_pos hflag, List.map_cons, get?_cons, ih]
      by_cases h : key = flag <;> simp [h, hflag]
    · rw [List.filter_cons_of_neg hflag, ih]
      by_cases h : key = flag <;> simp [h, hflag]

end Metadata

namespace Docblock

/-- The keys under which a docblock enters metadata. -/
def keys : List String :=
  ["docblock.description", "docblock.params", "docblock.return", "docblock.throws"]

/-- What a docblock that may have been found says under a key. -/
def said (found : Option Docblock) (key : String) : Option String :=
  found.bind fun d => Metadata.get? d.toMetadata key

lemma said_eq_none {found : Option Docblock} {key : String} (h : key ∉ keys) :
    said found key = none := by
  rw [said, Option.bind_eq_none_iff]
  intro d _
  exact Metadata.get?_eq_none fun hmem => h ((keys_toMetadata d).subset hmem)

end Docblock

/-! ### What the owner says -/

/-- Metadata that says of visibility, modifiers, types and docblock what a node and the siblings
before it say. -/
structure Metadata.Inherits (m : Metadata) (owner : Site) (source : ByteArray) : Prop where
  visibility : m.get? "visibility" = owner.node.visibility source
  modifiers : ∀ flag ∈ flagModifiers,
    m.get? flag = if owner.node.hasModifier flag then some "true" else none
  returnType : m.get? "return_type" = (owner.node.returnType source).filter (· ≠ "")
  type : m.get? "type" = (owner.node.typeAnnotation source).filter (· ≠ "")
  docblock : ∀ key ∈ Docblock.keys,
    m.get? key = Docblock.said (Docblock.find? source owner.before) key

namespace Site

variable (s : Site) (source : ByteArray)

/-- Under every key, the parts of what an owner says, one after the other. -/
lemma get?_shared (key : String) :
    Metadata.get? (s.shared source) key =
      ((((if key = "visibility" then (s.node.visibility source).filter (· ≠ "") else none).or
        (if key ∈ flagModifiers ∧ s.node.hasModifier key then some "true" else none)).or
        (if key = "return_type" then (s.node.returnType source).filter (· ≠ "") else none)).or
        (if key = "type" then (s.node.typeAnnotation source).filter (· ≠ "") else none)).or
        (Docblock.said (Docblock.find? source s.before) key) := by
  simp only [shared, Metadata.get?_append, Metadata.get?_entry, Metadata.get?_flags]
  cases Docblock.find? source s.before <;> rfl

/-- A visibility that is stated is not empty. -/
lemma filter_visibility :
    (s.node.visibility source).filter (· ≠ "") = s.node.visibility source := by
  rcases hv : s.node.visibility source with _ | v
  · rfl
  · have hne : v ≠ "" := (Text.solid_toList_iff.mp (Node.visibility_solid hv)).1
    simp [Option.filter, hne]

/-- What an owner says is said by its own children and by the comment before it. -/
lemma inherits_shared : (s.shared source).Inherits s source where
  visibility := by
    rw [get?_shared, filter_visibility, Docblock.said_eq_none (by decide)]
    simp [flagModifiers]
  modifiers := by
    intro flag hflag
    have hother : ∀ k ∈ flagModifiers,
        k ≠ "visibility" ∧ k ≠ "return_type" ∧ k ≠ "type" ∧ k ∉ Docblock.keys := by decide
    obtain ⟨hvisibility, hreturn, htype, hdocblock⟩ := hother flag hflag
    rw [get?_shared, Docblock.said_eq_none hdocblock]
    simp [hvisibility, hflag, hreturn, htype]
  returnType := by
    rw [get?_shared, Docblock.said_eq_none (by decide)]
    simp [flagModifiers]
  type := by
    rw [get?_shared, Docblock.said_eq_none (by decide)]
    simp [flagModifiers]
  docblock := by
    intro key hkey
    have hother : ∀ k ∈ Docblock.keys,
        k ≠ "visibility" ∧ k ∉ flagModifiers ∧ k ≠ "return_type" ∧ k ≠ "type" := by decide
    obtain ⟨hvisibility, hflag, hreturn, htype⟩ := hother key hkey
    simp [get?_shared, hvisibility, hflag, hreturn, htype]

end Site

/-! ### What the declaration itself says -/

namespace Node

variable {n : Node} {owner : Site} {source : ByteArray} {conceptType : String}

/-- The keys under which a declaration says something of itself. -/
def ownKeys : List String :=
  ["language", "kind", "start_column", "end_column", "traits"]

/-- Under every other key speaks the owner. -/
lemma get?_metadata {key : String} (h : key ∉ ownKeys) :
    (n.metadata owner source conceptType).get? key = Metadata.get? (owner.shared source) key := by
  simp only [ownKeys, List.mem_cons, List.not_mem_nil, or_false, not_or] at h
  obtain ⟨hlanguage, hkind, hstart, hstop, htraits⟩ := h
  have hclass : Metadata.get? (if conceptType = "class" then
      Metadata.entry "traits" (some (",".intercalate (n.traits source))) else []) key = none := by
    split
    · rw [Metadata.get?_entry, if_neg htraits]
    · rfl
  simp only [metadata, position, Metadata.get?_append, hclass, Metadata.get?_cons,
    Metadata.get?_nil, if_neg hlanguage, if_neg hkind, if_neg hstart, if_neg hstop,
    Option.none_or, Option.or_none]

lemma inherits_metadata : (n.metadata owner source conceptType).Inherits owner source := by
  have hshared := owner.inherits_shared source
  have hflags : ∀ flag ∈ flagModifiers, flag ∉ ownKeys := by decide
  have hdocblock : ∀ key ∈ Docblock.keys, key ∉ ownKeys := by decide
  exact
    { visibility := (get?_metadata (by decide)).trans hshared.visibility
      modifiers := fun flag hflag =>
        (get?_metadata (hflags flag hflag)).trans (hshared.modifiers flag hflag)
      returnType := (get?_metadata (by decide)).trans hshared.returnType
      type := (get?_metadata (by decide)).trans hshared.type
      docblock := fun key hkey =>
        (get?_metadata (hdocblock key hkey)).trans (hshared.docblock key hkey) }

/-- Two declarations of one type that is no class, with one owner, say the same except for their
columns. -/
lemma get?_metadata_eq {m : Node} (hclass : conceptType ≠ "class") {key : String}
    (hstart : key ≠ "start_column") (hstop : key ≠ "end_column") :
    (n.metadata owner source conceptType).get? key =
      (m.metadata owner source conceptType).get? key := by
  simp only [metadata, position, if_neg hclass, Metadata.get?_append, Metadata.get?_cons,
    if_neg hstart, if_neg hstop]

/-- A class says the names of its traits, if it has any. -/
lemma get?_traits :
    (n.metadata owner source "class").get? "traits" =
      (some (",".intercalate (n.traits source))).filter (· ≠ "") := by
  have hshared : Metadata.get? (owner.shared source) "traits" = none := by
    rw [Site.get?_shared, Docblock.said_eq_none (by decide)]
    simp [flagModifiers]
  simp only [metadata, position, Metadata.get?_append, hshared]
  simp [Metadata.get?_cons, Metadata.get?_nil, Metadata.get?_entry]

/-- Any other declaration says nothing of traits. -/
lemma get?_traits_of_ne (hclass : conceptType ≠ "class") :
    (n.metadata owner source conceptType).get? "traits" = none := by
  refine Metadata.get?_eq_none fun hmem => ?_
  obtain ⟨e, he, hkey⟩ := List.mem_map.mp hmem
  exact hclass (class_of_traits he hkey)

end Node

end PhpCatalog
