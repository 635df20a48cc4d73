/-
# Bundles of declarators

A property or a constant declaration bundles declarators.  When it is read, each declarator with a
name becomes one concept, in order; the name and the place are the declarator's own, and everything
else comes from the declaration, which all of them share (`Site.read_bundle`).  Declarators are no
declarations themselves: a walk that comes to one only goes on to its children.
-/
import PhpCatalog.Proofs.Declaration.Lookup
import PhpCatalog.Proofs.Declaration.Unreadable

namespace PhpCatalog

/-- The kinds of nodes that bundle declarators, with the type of the concepts and the kinds of the
declarators. -/
def bundles : List (String × String × List String) :=
  [("property_declaration", "property", ["property_element"]),
    ("const_declaration", "constant", ["const_element", "constant_declarator"])]

/-- A concept that has the name of a node and stands where the node stands. -/
structure Concept.DeclaredBy (c : Concept) (n : Node) (source : ByteArray) (filePath : String) :
    Prop where
  filePath_eq : c.filePath = filePath
  name_eq : n.name? source filePath = some c.name
  start_line : c.lines.start = (n.startPoint.row + 1 : Nat)
  stop_line : c.lines.stop = (n.stopPoint.row + 1 : Nat)
  start_column : c.metadata.get? "start_column" = some (toString (n.startPoint.column + 1))
  stop_column : c.metadata.get? "end_column" = some (toString (n.stopPoint.column + 1))

variable {s : Site} {n : Node} {source : ByteArray} {filePath label : String}

/-- What a declaration with a concept says of itself. -/
lemma Node.declaredBy_of_concept {c : Concept}
    (h : n.concept s source filePath label = .ok (some c)) :
    c.DeclaredBy n source filePath ∧ c.conceptType = normalizeType label ∧
      c.metadata = n.metadata s source (normalizeType label) := by
  obtain ⟨name, lines, hnamed, hstart, hstop, rfl⟩ := Node.built_of_concept h
  exact ⟨⟨rfl, Node.name?_eq_some_iff.mpr hnamed, hstart, hstop, rfl, rfl⟩, rfl, rfl⟩

namespace Site

/-- A bundle of properties or constants makes concepts of its type, which is not the type of a
class, and its declarators are no declarations. -/
lemma bundle_cases {kind type : String} {kinds : List String}
    (h : (kind, type, kinds) ∈ bundles) :
    declarationRule? kind = some ⟨type, some kinds⟩ ∧ normalizeType type = type ∧
      type ≠ "class" ∧ ∀ k ∈ kinds, declarationRule? k = none := by
  simp only [bundles, List.mem_cons, Prod.mk.injEq, List.not_mem_nil, or_false] at h
  rcases h with ⟨rfl, rfl, rfl⟩ | ⟨rfl, rfl, rfl⟩ <;> exact ⟨rfl, rfl, by decide, by decide⟩

/-- A walk that comes to a node that declares nothing goes on to its children. -/
lemma walkFrom_of_no_rule {t : Site} (h : declarationRule? t.node.kind = none) (found : Catalog)
    (rest : List Site) :
    Catalog.walkFrom source filePath found (t :: rest) =
      Catalog.walkFrom source filePath found (t.node.childSites ++ rest) := by
  have hvisit : Catalog.visit t source filePath = ⟨{}, none⟩ := by
    rw [Catalog.visit, read_of_no_rule h]
  rw [Catalog.walkFrom, hvisit]
  simp [Catalog.append]

/-- **Declarators share what the bundle says.**  Where a bundle is read, the names of all its
declarators are, and each declarator with a name becomes one concept, in order, with the name and
the place of the declarator.  The concepts have one type, and what they say of visibility,
modifiers, types and docblock is what the bundle and the siblings before it say; under any key but
the two columns all of them say the same.  A walk that comes to a declarator adds nothing for it. -/
theorem read_bundle {type : String} {kinds : List String} {cs : List Concept}
    (bundle : (s.node.kind, type, kinds) ∈ bundles)
    (read : (s.read source filePath).result = .ok cs) :
    (∀ n ∈ s.node.children, n.kind ∈ kinds →
      ∃ name, n.declaredName source (some filePath) = .ok name) ∧
    List.Forall₂ (fun n c => c.DeclaredBy n source filePath)
      (s.node.children.filter fun n => n.kind ∈ kinds ∧ (n.name? source filePath).isSome) cs ∧
    (∀ c ∈ cs, c.conceptType = type ∧ c.metadata.Inherits s source) ∧
    (∀ c ∈ cs, ∀ d ∈ cs, ∀ key, key ≠ "start_column" → key ≠ "end_column" →
      c.metadata.get? key = d.metadata.get? key) ∧
    ∀ t ∈ s.node.childSites, t.node.kind ∈ kinds → ∀ found rest,
      Catalog.walkFrom source filePath found (t :: rest) =
        Catalog.walkFrom source filePath found (t.node.childSites ++ rest) := by
  obtain ⟨hrule, htype, hclass, hdeclarators⟩ := bundle_cases bundle
  have hread := read
  rw [read_of_rule hrule] at hread
  have hself : s.declarators = s.node.children.filter fun n => kinds.contains n.kind := by
    simp only [declarators, hrule]
  -- every concept is built from a declarator, and the bundle is the owner
  have hbuilt : ∀ c ∈ cs, ∃ n : Node, c.conceptType = type ∧
      c.metadata = n.metadata s source type := by
    intro c hc
    obtain ⟨n, -, hn⟩ := exists_declarator hread c hc
    obtain ⟨-, hctype, hmetadata⟩ := Node.declaredBy_of_concept hn
    exact ⟨n, hctype.trans htype, hmetadata.trans (by rw [htype])⟩
  refine ⟨?_, ?_, ?_, ?_, ?_⟩
  · intro n hn hkind
    have hreadable := not_unreadable_of_read read n (by simp [hself, hn, hkind])
    rcases hname : n.declaredName source (some filePath) with f | name
    · exact absurd (Node.declaredName_isError_iff.mp ⟨f, hname⟩) hreadable
    · exact ⟨name, rfl⟩
  · have heach := forall₂_readDeclarators hread
    rw [hself, List.filter_filter] at heach
    have hfilter : (s.node.children.filter fun n =>
        n.kind ∈ kinds ∧ (n.name? source filePath).isSome) =
        s.node.children.filter fun n =>
          (n.name? source filePath).isSome && kinds.contains n.kind := by
      apply List.filter_congr
      intro n _
      simp [Bool.and_comm]
    rw [hfilter]
    exact heach.imp fun n c hn => (Node.declaredBy_of_concept hn).1
  · intro c hc
    obtain ⟨n, hctype, hmetadata⟩ := hbuilt c hc
    exact ⟨hctype, hmetadata ▸ Node.inherits_metadata⟩
  · intro c hc d hd key hstart hstop
    obtain ⟨n, -, hn⟩ := hbuilt c hc
    obtain ⟨m, -, hm⟩ := hbuilt d hd
    rw [hn, hm, Node.get?_metadata_eq hclass hstart hstop]
  · intro t _ hkind found rest
    exact walkFrom_of_no_rule (hdeclarators _ hkind) found rest

/-- The bundle `private T $a, , $b`.  Its first element has a modifier of its own and a docblock
right before it, and its second has no name. -/
def sharedBundle : Node where
  kind := "property_declaration"
  start := 8
  stop := 21
  startPoint := ⟨0, 8⟩
  stopPoint := ⟨0, 21⟩
  children := [
    { kind := "private", start := 8, stop := 8, startPoint := ⟨0, 8⟩, stopPoint := ⟨0, 8⟩ },
    { kind := "named_type", start := 8, stop := 9, startPoint := ⟨0, 8⟩, stopPoint := ⟨0, 9⟩,
      field := some "type" },
    { kind := "comment", start := 9, stop := 17, startPoint := ⟨0, 9⟩, stopPoint := ⟨0, 17⟩,
      extra := true },
    { kind := "property_element", start := 17, stop := 19, startPoint := ⟨0, 17⟩,
      stopPoint := ⟨0, 19⟩,
      children := [
        { kind := "static_modifier", start := 17, stop := 17, startPoint := ⟨0, 17⟩,
          stopPoint := ⟨0, 17⟩ },
        { kind := "variable_name", start := 17, stop := 19, startPoint := ⟨0, 17⟩,
          stopPoint := ⟨0, 19⟩ }] },
    { kind := "property_element", start := 19, stop := 19, startPoint := ⟨0, 19⟩,
      stopPoint := ⟨0, 19⟩ },
    { kind := "property_element", start := 19, stop := 21, startPoint := ⟨0, 19⟩,
      stopPoint := ⟨0, 21⟩,
      children := [{
        kind := "variable_name", start := 19, stop := 21, startPoint := ⟨0, 19⟩,
        stopPoint := ⟨0, 21⟩ }] }]

/-- Both properties are private, of type `T` and documented by the comment before the bundle, and
neither is static. -/
theorem read_sharedBundle :
    -- the bytes of `/** d */T/** e */$a$b`
    let source : ByteArray :=
      ⟨#[47, 42, 42, 32, 100, 32, 42, 47, 84, 47, 42, 42, 32, 101, 32, 42, 47, 36, 97, 36, 98]⟩
    let comment : Node :=
      { kind := "comment", start := 0, stop := 8, startPoint := ⟨0, 0⟩, stopPoint := ⟨0, 8⟩,
        extra := true }
    let s : Site := ⟨sharedBundle, [comment]⟩
    (s.node.kind, "property", ["property_element"]) ∈ bundles ∧
    ∃ cs, (s.read source "a.php").result = .ok cs ∧
      (cs.map fun c => (c.name, c.metadata.get? "start_column")) =
        [("a", some "18"), ("b", some "20")] ∧
      ∀ c ∈ cs, c.metadata.get? "visibility" = some "private" ∧ c.metadata.get? "type" = some "T" ∧
        c.metadata.get? "docblock.description" = some "d" ∧ c.metadata.get? "static" = none := by
  intro source comment s
  have bundle : (s.node.kind, "property", ["property_element"]) ∈ bundles := by decide
  have hplaces : ((s.read source "a.php").result.toOption.map fun cs =>
      cs.map fun c => (c.name, c.metadata.get? "start_column")) =
        some [("a", some "18"), ("b", some "20")] := by decide +kernel
  rcases hread : (s.read source "a.php").result with stop | cs
  · rw [hread] at hplaces
    cases hplaces
  rw [hread] at hplaces
  obtain ⟨-, -, hshared, -, -⟩ := read_bundle bundle hread
  refine ⟨bundle, cs, rfl, Option.some.inj hplaces, fun c hc => ?_⟩
  obtain ⟨-, hinherits⟩ := hshared c hc
  exact ⟨hinherits.visibility.trans (by decide +kernel),
    hinherits.type.trans (by decide +kernel),
    (hinherits.docblock _ (by decide)).trans (by decide +kernel),
    (hinherits.modifiers _ (by decide)).trans (by decide +kernel)⟩

end Site

end PhpCatalog
