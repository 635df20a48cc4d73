/-
# Declarations that cannot be read

The name of a declaration is looked for in its field `name` first, and the spans of the declaration
and of its first identifier are checked only if there is no text.  So a declaration is `Unreadable`
exactly if it has no text in that field and one of the two spans is malformed
(`declaredName_isError_iff`).

A bundle is read as a whole.  One declarator that is unreadable makes the node fail, and then
nothing is added to what was found, even if the declarators before it could be read
(`visit_all_or_nothing`).
-/
import PhpCatalog.Catalog.Walk
import PhpCatalog.Proofs.Declaration.Reading

namespace PhpCatalog

namespace Node

/-- A node whose span is inverted or runs past the source. -/
def Malformed (n : Node) (source : ByteArray) : Prop :=
  n.stop < n.start ∨ source.size < n.stop

/-- A node without text in its field `name`, the dollar signs of a variable aside. -/
def FieldEmpty (n : Node) (source : ByteArray) : Prop :=
  ∀ c, n.child? "name" = some c →
    (if c.kind = "variable_name" then dropSigils (c.chars source) else c.chars source) = []

/-- The first child that is an identifier. -/
def firstIdentifier? (n : Node) : Option Node :=
  n.children.find? fun c => identifierKinds.contains c.kind

/-- A declaration whose name cannot be read. -/
def Unreadable (n : Node) (source : ByteArray) : Prop :=
  n.FieldEmpty source ∧
    (n.Malformed source ∨ ∃ c, n.firstIdentifier? = some c ∧ c.Malformed source)

variable {n : Node} {source : ByteArray} {filePath : Option String}

/-! ### The name -/

lemma inside_iff : n.inside source = true ↔ ¬ n.Malformed source := by
  simp only [inside, Malformed, Bool.and_eq_true, decide_eq_true_eq]
  omega

lemma checkInside_of_malformed (h : n.Malformed source) :
    n.checkInside source filePath =
      .error ⟨.span n.start n.stop source.size, filePath, some n.kind⟩ := by
  have hinside : n.inside source ≠ true := by
    rw [Ne, inside_iff]
    exact not_not_intro h
  rw [checkInside, if_neg hinside]

lemma checkInside_of_not_malformed (h : ¬ n.Malformed source) :
    n.checkInside source filePath = .ok () := by
  rw [checkInside, if_pos (inside_iff.mpr h)]

lemma fieldName_eq_empty_iff : n.fieldName source = "" ↔ n.FieldEmpty source := by
  rcases hc : n.child? "name" with _ | c
  · simp [fieldName, FieldEmpty, hc]
  · by_cases hkind : c.kind = "variable_name" <;>
      simp [fieldName, FieldEmpty, hc, hkind, text]

/-- The search for an identifier checks the node, and then the identifier it finds. -/
lemma identifier_isError_iff :
    (∃ f, n.identifier source filePath = .error f) ↔
      n.Malformed source ∨ ∃ c, n.firstIdentifier? = some c ∧ c.Malformed source := by
  by_cases hn : n.Malformed source
  · have hfails : n.identifier source filePath =
        .error ⟨.span n.start n.stop source.size, filePath, some n.kind⟩ := by
      simp only [identifier, checkInside_of_malformed hn, bind, Except.bind]
    simp [hfails, hn]
  have hchecked := @checkInside_of_not_malformed n source filePath hn
  rcases hc : n.firstIdentifier? with _ | c
  · have hempty : n.identifier source filePath = .ok "" := by
      rw [firstIdentifier?] at hc
      simp only [identifier, hchecked, bind, Except.bind, hc, pure, Except.pure]
    simp [hempty, hn]
  have hchild : n.identifier source filePath =
      (c.checkInside source filePath).map fun _ => c.trimmedText source := by
    rw [firstIdentifier?] at hc
    simp only [identifier, hchecked, bind, Except.bind, hc]
    rfl
  by_cases hm : c.Malformed source
  · simp [hchild, checkInside_of_malformed hm, Except.map, hm]
  · simp [hchild, checkInside_of_not_malformed hm, Except.map, hn, hm]

/-- The name of a declaration cannot be read exactly if the declaration is unreadable. -/
lemma declaredName_isError_iff :
    (∃ f, n.declaredName source filePath = .error f) ↔ n.Unreadable source := by
  rw [Unreadable, ← fieldName_eq_empty_iff, ← @identifier_isError_iff n source filePath]
  by_cases hfield : n.fieldName source = ""
  · rcases hid : n.identifier source filePath with f | name <;>
      simp [declaredName, hfield, hid]
  · simp [declaredName, hfield]

lemma concept_eq_fault_iff {owner : Site} {filePath label : String} :
    (∃ f, n.concept owner source filePath label = .error (.fault f)) ↔ n.Unreadable source := by
  rw [← @declaredName_isError_iff n source (some filePath)]
  rcases concept_cases n owner source filePath label with
    ⟨f, hf, h⟩ | ⟨hempty, h⟩ | ⟨hrev, h⟩ | ⟨name, lines, hnamed, -, -, h⟩
  · simp [h, hf]
  · simp [h, hempty]
  · obtain ⟨⟨name, hname, -⟩, -⟩ := hrev
    simp [h, hname]
  · simp [h, hnamed.1]

end Node

/-! ### The declarators of a node -/

namespace Site

variable {s : Site} {source : ByteArray} {filePath : String}

/-- A node that is read has no unreadable declarator. -/
lemma not_unreadable_of_read {cs : List Concept} (h : (s.read source filePath).result = .ok cs) :
    ∀ n ∈ s.declarators, ¬ n.Unreadable source := by
  intro n hn hunreadable
  rcases hrule : declarationRule? s.node.kind with _ | rule
  · simp only [declarators, hrule, List.not_mem_nil] at hn
  rw [read_of_rule hrule] at h
  obtain ⟨each, heach, -⟩ := readDeclarators_eq_ok h
  have hmem : n.concept s source filePath rule.label ∈ each.map .ok := by
    rw [← heach]
    exact List.mem_map_of_mem hn
  obtain ⟨r, -, hr⟩ := List.mem_map.mp hmem
  obtain ⟨f, hf⟩ := Node.concept_eq_fault_iff.mpr hunreadable
  rw [hf] at hr
  cases hr

/-- A node that fails has an unreadable declarator. -/
lemma unreadable_of_read {f : NodeFault} (h : (s.read source filePath).result = .error (.fault f)) :
    ∃ n ∈ s.declarators, n.Unreadable source := by
  rcases hrule : declarationRule? s.node.kind with _ | rule
  · simp [read_of_no_rule hrule] at h
  rw [read_of_rule hrule, readDeclarators_eq_error_iff] at h
  obtain ⟨pre, n, post, hsplit, -, hn⟩ := h
  exact ⟨n, by simp [hsplit], Node.concept_eq_fault_iff.mp ⟨f, hn⟩⟩

/-- A node whose rows, and those of its children, are in order does not fail for its lines. -/
lemma read_ne_lines (rows : s.node.startPoint.row ≤ s.node.stopPoint.row)
    (childRows : ∀ c ∈ s.node.children, c.startPoint.row ≤ c.stopPoint.row)
    (e : InvalidLineRange) : (s.read source filePath).result ≠ .error (.lines e) := by
  intro h
  obtain ⟨n, ⟨pre, post, hsplit, -, -, hlt⟩, -⟩ := read_eq_lines_iff.mp h
  have hn : n ∈ s.declarators := by simp [hsplit]
  rcases mem_declarators hn with rfl | hchild
  · omega
  · have hle := childRows n hchild
    omega

/-- The unreadable declarators of a node, by the way it declares. -/
lemma exists_unreadable_iff :
    (∃ n ∈ s.declarators, n.Unreadable source) ↔
      (∃ label, declarationRule? s.node.kind = some ⟨label, none⟩ ∧ s.node.Unreadable source) ∨
      ∃ label kinds, declarationRule? s.node.kind = some ⟨label, some kinds⟩ ∧
        ∃ c ∈ s.node.children, c.kind ∈ kinds ∧ c.Unreadable source := by
  rcases hrule : declarationRule? s.node.kind with _ | ⟨label, _ | kinds⟩
  · simp [declarators, hrule]
  · simp [declarators, hrule]
  · simp [declarators, hrule, and_assoc]

end Site

namespace Catalog

/-- **A node is cataloged as a whole or not at all.**  If the rows of a node and of its children are
in order, the node fails exactly if it is a declaration that is unreadable, or bundles a declarator
that is.  When it fails, the concepts found so far are left as they are; when it does not, its
concepts come behind them. -/
theorem visit_all_or_nothing (s : Site) (source : ByteArray) (filePath : String)
    (rows : s.node.startPoint.row ≤ s.node.stopPoint.row)
    (childRows : ∀ c ∈ s.node.children, c.startPoint.row ≤ c.stopPoint.row) (found : Catalog) :
    ((∃ f, (s.read source filePath).result = .error (.fault f)) ↔
      (∃ label, declarationRule? s.node.kind = some ⟨label, none⟩ ∧ s.node.Unreadable source) ∨
      ∃ label kinds, declarationRule? s.node.kind = some ⟨label, some kinds⟩ ∧
        ∃ c ∈ s.node.children, c.kind ∈ kinds ∧ c.Unreadable source) ∧
    (∀ stop, (s.read source filePath).result = .error stop →
      ∃ f, stop = .fault f ∧
        (found.append (visit s source filePath).found).concepts = found.concepts ∧
        (found.append (visit s source filePath).found).errors = found.errors ++ [f]) ∧
    ∀ new, (s.read source filePath).result = .ok new →
      (found.append (visit s source filePath).found).concepts = found.concepts ++ new ∧
      (found.append (visit s source filePath).found).errors = found.errors := by
  refine ⟨?_, ?_, ?_⟩
  · rw [← Site.exists_unreadable_iff]
    constructor
    · rintro ⟨f, hf⟩
      exact Site.unreadable_of_read hf
    · rintro ⟨n, hn, hunreadable⟩
      -- the node is not read, and not for its lines
      rcases hresult : (s.read source filePath).result with (f | e) | cs
      · exact ⟨f, rfl⟩
      · exact absurd hresult (Site.read_ne_lines rows childRows e)
      · exact absurd hunreadable (Site.not_unreadable_of_read hresult n hn)
  · rintro (f | e) hresult
    · exact ⟨f, rfl, by simp [append, visit, hresult], by simp [append, visit, hresult]⟩
    · exact absurd hresult (Site.read_ne_lines rows childRows e)
  · intro new hresult
    exact ⟨by simp [append, visit, hresult], by simp [append, visit, hresult]⟩

/-- The property `a` of a bundle. -/
def soundElement : Node where
  kind := "property_element"
  start := 0
  stop := 1
  startPoint := ⟨0, 0⟩
  stopPoint := ⟨0, 1⟩
  children := [{
    kind := "name", start := 0, stop := 1, startPoint := ⟨0, 0⟩, stopPoint := ⟨0, 1⟩,
    field := some "name" }]

/-- An element of a bundle that ends before it starts. -/
def tornElement : Node where
  kind := "property_element"
  start := 2
  stop := 1
  startPoint := ⟨0, 2⟩
  stopPoint := ⟨0, 1⟩

/-- A bundle of both elements. -/
def tornBundle : Node where
  kind := "property_declaration"
  start := 0
  stop := 2
  startPoint := ⟨0, 0⟩
  stopPoint := ⟨0, 2⟩
  children := [soundElement, tornElement]

/-- The bundle fails at its second element; the first one, which has a name, is not added. -/
theorem visit_tornBundle :
    let source : ByteArray := ⟨#[97, 98]⟩
    let first : Concept := ⟨"id", "first", "class", "a.php", ⟨1, 1, by decide⟩, [], []⟩
    let after := append { concepts := [first] } (visit ⟨tornBundle, []⟩ source "a.php").found
    soundElement.fieldName source = "a" ∧ after.concepts = [first] ∧
    ∃ f, after.errors = [f] := by
  intro source first after
  have hempty : tornElement.FieldEmpty source := by simp [Node.FieldEmpty, Node.child?, tornElement]
  have hmalformed : tornElement.Malformed source := Or.inl (by decide)
  obtain ⟨hfails, herror, -⟩ := visit_all_or_nothing ⟨tornBundle, []⟩ source "a.php" (by decide)
    (by decide) { concepts := [first] }
  obtain ⟨f, hf⟩ := hfails.mpr (Or.inr ⟨"property", ["property_element"], rfl, tornElement,
    by simp [tornBundle], by decide, hempty, Or.inl hmalformed⟩)
  obtain ⟨g, -, hconcepts, herrors⟩ := herror _ hf
  exact ⟨by decide +kernel, hconcepts, g, herrors⟩

end Catalog

end PhpCatalog
