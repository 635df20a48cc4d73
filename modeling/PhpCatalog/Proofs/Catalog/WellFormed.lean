/-
# Cataloged concepts are well formed

Every concept that a walk adds is well formed, whatever the tree, the source and the spans in it:
its name, type and identifier are those of the node that declares it, its metadata stays inside the
vocabulary with each key at most once, and no value is empty or has blanks at its ends.  This holds
of a walk that ended early too, for the concepts it had added until then.
-/
import PhpCatalog.Proofs.Catalog.Walk
import PhpCatalog.Proofs.Declaration.Metadata

namespace PhpCatalog

open Text (Solid solid_toList_iff)

/-- What holds of a concept that was declared at a site of a file. -/
structure Concept.WellFormed (c : Concept) (s : Site) (filePath : String) : Prop where
  name_ne : c.name ≠ ""
  type_mem : c.conceptType ∈ conceptTypes
  id_eq : ∃ rule, declarationRule? s.node.kind = some rule ∧
    c.id = "php::" ++ rule.label ++ "::" ++ filePath ++ "::" ++ c.name
  lines_of : ∃ n ∈ s.declarators, c.lines.start = (n.startPoint.row + 1 : Nat) ∧
    c.lines.stop = (n.stopPoint.row + 1 : Nat) ∧ c.lines.start ≤ c.lines.stop
  no_relationships : c.relationships = []
  keys_mem : ∀ e ∈ c.metadata, e.1 ∈ metadataKeys
  keys_nodup : (c.metadata.map Prod.fst).Nodup
  language_eq : c.metadata.get? "language" = some "php"
  kind_eq : c.metadata.get? "kind" = some c.conceptType
  flags_true : ∀ e ∈ c.metadata, e.1 ∈ ["static", "abstract", "final"] → e.2 = "true"
  traits_class : ∀ e ∈ c.metadata, e.1 = "traits" → c.conceptType = "class"
  values_trimmed : ∀ e ∈ c.metadata, e.2 ≠ "" ∧ Text.trimmed e.2 = e.2

/-- Each label of a declaration stands for a type of concept. -/
lemma normalizeType_mem {kind : String} {rule : DeclarationRule}
    (h : declarationRule? kind = some rule) : normalizeType rule.label ∈ conceptTypes := by
  unfold declarationRule? at h
  split at h <;> cases h
  all_goals decide

lemma conceptType_solid {t : String} (h : t ∈ conceptTypes) : Solid t.toList := by
  have htypes : ∀ t ∈ conceptTypes, t ≠ "" ∧ Text.trimmed t = t := by decide +kernel
  exact solid_toList_iff.mpr (htypes t h)

/-- The concept built from a declarator of a site is well formed. -/
lemma Node.built_wellFormed {n : Node} {s : Site} {source : ByteArray} {filePath name : String}
    {lines : LineRange} {rule : DeclarationRule} (hrule : declarationRule? s.node.kind = some rule)
    (hmem : n ∈ s.declarators) (hnamed : n.Named source filePath name)
    (hstart : lines.start = (n.startPoint.row + 1 : Nat))
    (hstop : lines.stop = (n.stopPoint.row + 1 : Nat)) :
    (n.built s source filePath rule.label name lines).WellFormed s filePath := by
  have htype := normalizeType_mem hrule
  have hnodup : metadataKeys.Nodup := by decide
  exact
    { name_ne := hnamed.2
      type_mem := htype
      id_eq := ⟨rule, hrule, rfl⟩
      lines_of := ⟨n, hmem, hstart, hstop, lines.ordered⟩
      no_relationships := rfl
      keys_mem := fun e he => keys_metadata.subset (List.mem_map_of_mem he)
      keys_nodup := hnodup.sublist keys_metadata
      language_eq := rfl
      kind_eq := rfl
      flags_true := fun e he => flag_value he
      traits_class := fun e he => class_of_traits he
      values_trimmed := fun e he =>
        solid_toList_iff.mp (metadata_solid (conceptType_solid htype) he) }

/-- What a site emits is well formed. -/
lemma Site.emitted_wellFormed {s : Site} {source : ByteArray} {filePath : String} {c : Concept}
    (h : c ∈ s.emitted source filePath) : c.WellFormed s filePath := by
  obtain ⟨n, rule, hrule, hn, hconcept⟩ := exists_declares_of_emitted h
  obtain ⟨name, lines, hnamed, hstart, hstop, rfl⟩ := Node.built_of_concept hconcept
  exact Node.built_wellFormed hrule hn hnamed hstart hstop

namespace Catalog

variable (source : ByteArray) (filePath : String)

/-- **Every concept that a walk adds is well formed.**  The concepts that were there stay in front,
and each one behind them belongs to a site of the tree, also if the walk ended early. -/
theorem walkOnto_concepts_wellFormed (initial : List Concept) (root : Node) :
    ∃ new, (walkOnto initial root source filePath).found.concepts = initial ++ new ∧
      ∀ c ∈ new, ∃ s ∈ root.preorder [],
        c ∈ s.emitted source filePath ∧ c.WellFormed s filePath := by
  refine ⟨(upToWrong source filePath (root.preorder [])).flatMap (·.emitted source filePath),
    ?_, ?_⟩
  · rw [walkOnto_eq]
    rfl
  · intro c hc
    obtain ⟨s, hs, hcs⟩ := List.mem_flatMap.mp hc
    exact ⟨s, (upToWrong_sublist source filePath _).subset hs, hcs, Site.emitted_wellFormed hcs⟩

/-- The abstract class `A` with a docblock before it and the trait `T` in it. -/
def documentedClass : Node where
  kind := "program"
  start := 0
  stop := 11
  startPoint := ⟨0, 0⟩
  stopPoint := ⟨0, 11⟩
  children := [{
    kind := "comment", start := 0, stop := 8, startPoint := ⟨0, 0⟩, stopPoint := ⟨0, 8⟩,
    extra := true }, {
    kind := "class_declaration", start := 8, stop := 11, startPoint := ⟨0, 8⟩,
    stopPoint := ⟨0, 11⟩,
    children := [
      { kind := "abstract_modifier", start := 8, stop := 8, startPoint := ⟨0, 8⟩,
        stopPoint := ⟨0, 8⟩ },
      { kind := "name", start := 8, stop := 9, startPoint := ⟨0, 8⟩, stopPoint := ⟨0, 9⟩,
        field := some "name" },
      { kind := "use_declaration", start := 10, stop := 11, startPoint := ⟨0, 10⟩,
        stopPoint := ⟨0, 11⟩,
        children := [{
          kind := "name", start := 10, stop := 11, startPoint := ⟨0, 10⟩,
          stopPoint := ⟨0, 11⟩ }] }] }]

/-- The class is cataloged with its docblock, its modifier and its trait, and it is well formed. -/
theorem walkOnto_documentedClass :
    -- the bytes of `/** d */A T`
    let source : ByteArray := ⟨#[47, 42, 42, 32, 100, 32, 42, 47, 65, 32, 84]⟩
    let concepts := (walkOnto [] documentedClass source "a.php").found.concepts
    (concepts.map fun c => (c.name, c.metadata.get? "docblock.description",
      c.metadata.get? "abstract", c.metadata.get? "traits")) =
        [("A", some "d", some "true", some "T")] ∧
    ∀ c ∈ concepts, ∃ s ∈ documentedClass.preorder [],
      c ∈ s.emitted source "a.php" ∧ c.WellFormed s "a.php" := by
  intro source concepts
  obtain ⟨new, hnew, hwf⟩ := walkOnto_concepts_wellFormed source "a.php" [] documentedClass
  refine ⟨?_, fun c hc => hwf c ?_⟩
  · rw [show concepts = _ from congrArg (·.found.concepts) (walkOnto_eq source "a.php" [] _)]
    decide +kernel
  · rwa [show concepts = new from hnew] at hc

end Catalog

end PhpCatalog
