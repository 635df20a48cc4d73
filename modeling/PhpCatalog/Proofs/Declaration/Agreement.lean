/-
# What a declaration reads of the source

A declaration reads the text of few nodes: of its name, of identifiers and variables among its
children, of its modifiers and types, of the comment before it, and of the names in its trait-use
clauses.  Only a class without such names is read as a whole.  `Node.Relevant` collects these nodes.
Two sources of one size with the same bytes in all relevant nodes of a tree `Agree` on it, and then
every part of a declaration comes out the same from both.
-/
import Mathlib.Data.List.Basic
import PhpCatalog.Proofs.Declaration.Reading
import PhpCatalog.Proofs.Syntax.Preorder

namespace PhpCatalog

namespace Node

/-- The kinds of nodes whose text a declaration may read. -/
def readKinds : List String :=
  identifierKinds ++ ["qualified_name", "variable_name", "visibility_modifier"] ++
    Docblock.commentKinds

/-- The fields whose text a declaration may read. -/
def readFields : List String :=
  ["name", "type", "type_declaration", "return_type"]

/-- A class that names no trait, neither in a clause of its own nor in one of its body. -/
def Traitless (n : Node) (source : ByteArray) : Prop :=
  n.kind = "class_declaration" ∧ n.clauseTraits source = []

/-- A node whose text a catalog may depend on. -/
def Relevant (n : Node) (source : ByteArray) : Prop :=
  n.kind ∈ readKinds ∨ (∃ f ∈ readFields, n.field = some f) ∨ n.Traitless source

/-- Two sources have the same bytes inside the span of a node. -/
def SameBytes (n : Node) (a b : ByteArray) : Prop :=
  ∀ i < n.stop, n.start ≤ i → a[i]? = b[i]?

instance (n : Node) (source : ByteArray) : Decidable (n.Traitless source) :=
  inferInstanceAs (Decidable (_ ∧ _))

instance (n : Node) (source : ByteArray) : Decidable (n.Relevant source) :=
  inferInstanceAs (Decidable (_ ∨ _ ∨ _))

instance (n : Node) (a b : ByteArray) : Decidable (n.SameBytes a b) :=
  inferInstanceAs (Decidable (∀ i < n.stop, _))

end Node

/-- Two sources of one size that have the same bytes in every relevant node of a tree. -/
structure Agree (root : Node) (a b : ByteArray) : Prop where
  size_eq : a.size = b.size
  sameBytes : ∀ n ∈ root.nodes, n.Relevant a → n.SameBytes a b

variable {root n : Node} {a b : ByteArray}

/-! ### The text of a node -/

namespace Node

lemma SameBytes.bytes_eq (hsize : a.size = b.size) (h : n.SameBytes a b) :
    n.bytes a = n.bytes b := by
  have hextract : a.data.extract n.start n.stop = b.data.extract n.start n.stop := by
    apply Array.ext_getElem?
    intro i
    rw [Array.getElem?_extract, Array.getElem?_extract]
    have hdata : a.data.size = b.data.size := hsize
    by_cases hi : i < min n.stop a.data.size - n.start
    · have hsame : a.data[n.start + i]? = b.data[n.start + i]? :=
        h (n.start + i) (by omega) (by omega)
      rw [if_pos hi, if_pos (hdata ▸ hi), hsame]
    · rw [if_neg hi, if_neg (hdata ▸ hi)]
  rw [bytes, bytes, ByteArray.data_extract, ByteArray.data_extract, hextract]

lemma SameBytes.chars_eq (hsize : a.size = b.size) (h : n.SameBytes a b) :
    n.chars a = n.chars b := by
  rw [chars, chars, h.bytes_eq hsize]

/-! ### Children that were looked for -/

lemma of_child? {c : Node} {f : String} (h : n.child? f = some c) :
    c ∈ n.children ∧ c.field = some f := by
  rw [child?] at h
  have hfield := List.find?_some h
  exact ⟨List.mem_of_find?_eq_some h, beq_iff_eq.mp hfield⟩

lemma of_childOfKind? {c : Node} {kind : String} (h : n.childOfKind? kind = some c) :
    c ∈ n.children ∧ c.kind = kind := by
  rw [childOfKind?] at h
  have hkind := List.find?_some h
  exact ⟨List.mem_of_find?_eq_some h, beq_iff_eq.mp hkind⟩

end Node

lemma findSome?_congr {α β : Type} {f g : α → Option β} {l : List α}
    (h : ∀ x ∈ l, f x = g x) : l.findSome? f = l.findSome? g := by
  induction l with
  | nil => rfl
  | cons x rest ih =>
    rw [List.findSome?_cons, List.findSome?_cons, h x List.mem_cons_self,
      ih fun y hy => h y (List.mem_cons_of_mem _ hy)]

namespace Agree

variable (h : Agree root a b)

include h

lemma chars_of_kind (hn : n ∈ root.nodes) (hkind : n.kind ∈ Node.readKinds) :
    n.chars a = n.chars b :=
  (h.sameBytes n hn (Or.inl hkind)).chars_eq h.size_eq

lemma chars_of_field {f : String} (hn : n ∈ root.nodes) (hfield : n.field = some f)
    (hf : f ∈ Node.readFields) : n.chars a = n.chars b :=
  (h.sameBytes n hn (Or.inr (Or.inl ⟨f, hf, hfield⟩))).chars_eq h.size_eq

lemma trimmedText_of_kind (hn : n ∈ root.nodes) (hkind : n.kind ∈ Node.readKinds) :
    n.trimmedText a = n.trimmedText b := by
  rw [Node.trimmedText, Node.trimmedText, h.chars_of_kind hn hkind]

/-- The text of the child that fills a field. -/
lemma child?_chars {f : String} {c : Node} (hn : n ∈ root.nodes) (hf : f ∈ Node.readFields)
    (hc : n.child? f = some c) : c.chars a = c.chars b := by
  obtain ⟨hchild, hfield⟩ := Node.of_child? hc
  exact h.chars_of_field (Node.mem_nodes_trans hn hchild) hfield hf

/-! ### Names -/

lemma checkInside_eq (filePath : Option String) :
    n.checkInside a filePath = n.checkInside b filePath := by
  rw [Node.checkInside, Node.checkInside, Node.inside, Node.inside, h.size_eq]

lemma fieldName_eq (hn : n ∈ root.nodes) : n.fieldName a = n.fieldName b := by
  rcases hc : n.child? "name" with _ | c
  · simp only [Node.fieldName, hc]
  · have hchars : c.chars a = c.chars b := h.child?_chars hn (by decide) hc
    simp only [Node.fieldName, hc, Node.text, hchars]

lemma variableName_eq (hn : n ∈ root.nodes) : n.variableName a = n.variableName b := by
  rcases hc : n.childOfKind? "variable_name" with _ | c
  · simp only [Node.variableName, hc]
  · obtain ⟨hchild, hkind⟩ := Node.of_childOfKind? hc
    have hchars : c.chars a = c.chars b :=
      h.chars_of_kind (Node.mem_nodes_trans hn hchild) (by rw [hkind]; decide)
    simp only [Node.variableName, hc, hchars]

lemma identifier_eq (hn : n ∈ root.nodes) (filePath : Option String) :
    n.identifier a filePath = n.identifier b filePath := by
  rcases hc : n.children.find? fun c => identifierKinds.contains c.kind with _ | c
  · simp only [Node.identifier, h.checkInside_eq, hc]
  · have hkind := List.find?_some hc
    have htext : c.trimmedText a = c.trimmedText b := by
      apply h.trimmedText_of_kind (Node.mem_nodes_trans hn (List.mem_of_find?_eq_some hc))
      simp [Node.readKinds, List.contains_iff_mem.mp hkind]
    simp only [Node.identifier, h.checkInside_eq, hc, htext]

lemma declaredName_eq (hn : n ∈ root.nodes) (filePath : Option String) :
    n.declaredName a filePath = n.declaredName b filePath := by
  simp only [Node.declaredName, h.fieldName_eq hn, h.identifier_eq hn, h.variableName_eq hn]

/-! ### What the owner says -/

lemma visibility_eq (hn : n ∈ root.nodes) : n.visibility a = n.visibility b := by
  apply findSome?_congr
  intro c hc
  by_cases hkind : c.kind = "visibility_modifier"
  · have htext : c.trimmedText a = c.trimmedText b :=
      h.trimmedText_of_kind (Node.mem_nodes_trans hn hc) (by rw [hkind]; decide)
    simp only [Node.statedVisibility, htext]
  · simp [Node.statedVisibility, hkind]

lemma returnType_eq (hn : n ∈ root.nodes) : n.returnType a = n.returnType b := by
  apply Option.map_congr
  intro c hc
  rw [Node.trimmedText, Node.trimmedText, h.child?_chars hn (by decide) hc]

lemma typeAnnotation_eq (hn : n ∈ root.nodes) : n.typeAnnotation a = n.typeAnnotation b := by
  apply Option.map_congr
  intro c hc
  have hchars : c.chars a = c.chars b := by
    rcases Option.or_eq_some_iff.mp hc with htype | ⟨-, hdecl⟩
    · exact h.child?_chars hn (by decide) htype
    · exact h.child?_chars hn (by decide) hdecl
  rw [Node.trimmedText, Node.trimmedText, hchars]

/-- The first comment decides, and its text is relevant. -/
lemma docblock_eq {before : List Node} (hbefore : ∀ m ∈ before, m ∈ root.nodes) :
    Docblock.find? a before = Docblock.find? b before := by
  induction before with
  | nil => rfl
  | cons m rest ih =>
    have hrest := ih fun k hk => hbefore k (List.mem_cons_of_mem _ hk)
    by_cases hkind : m.kind ∈ Docblock.commentKinds
    · have hchars : m.chars a = m.chars b := by
        apply h.chars_of_kind (hbefore m List.mem_cons_self)
        simp [Node.readKinds, hkind]
      simp only [Docblock.find?, hchars, hrest]
    · have hcontains : Docblock.commentKinds.contains m.kind = false := by simpa using hkind
      simp only [Docblock.find?, hcontains, hrest]
      rfl

/-! ### Traits -/

lemma names_eq (hn : n ∈ root.nodes) : n.names a = n.names b := by
  have htext : ∀ c ∈ n.children.filter (fun c => identifierKinds.contains c.kind ||
      c.kind == "qualified_name"), c.trimmedText a = c.trimmedText b := by
    intro c hc
    obtain ⟨hchild, hkind⟩ := List.mem_filter.mp hc
    apply h.trimmedText_of_kind (Node.mem_nodes_trans hn hchild)
    rcases Bool.or_eq_true_iff.mp hkind with hid | hqualified
    · simp [Node.readKinds, List.contains_iff_mem.mp hid]
    · simp [Node.readKinds, beq_iff_eq.mp hqualified]
  simp only [Node.names, List.map_congr_left htext]

lemma inClauses_eq {nodes : List Node} (hnodes : ∀ m ∈ nodes, m ∈ root.nodes) :
    TraitUse.inClauses a nodes = TraitUse.inClauses b nodes := by
  apply List.flatMap_congr
  intro c hc
  exact h.names_eq (hnodes c (List.mem_filter.mp hc).1)

lemma clauseTraits_eq (hn : n ∈ root.nodes) : n.clauseTraits a = n.clauseTraits b := by
  have hbody : ∀ m ∈ n.bodyChildren, m ∈ root.nodes := by
    intro m hm
    unfold Node.bodyChildren at hm
    split at hm
    · next c hc =>
      exact Node.mem_nodes_trans (Node.mem_nodes_trans hn (Node.of_child? hc).1) hm
    · simp at hm
  rw [Node.clauseTraits, Node.clauseTraits, h.inClauses_eq hbody,
    h.inClauses_eq fun m hm => Node.mem_nodes_trans hn hm]

/-- The text of a class is searched only if its clauses name no trait, and then it is relevant. -/
lemma traits_eq (hn : n ∈ root.nodes) (hkind : n.kind = "class_declaration") :
    n.traits a = n.traits b := by
  have hclauses := h.clauseTraits_eq hn
  by_cases hnil : n.clauseTraits a = []
  · have hchars : n.chars a = n.chars b :=
      (h.sameBytes n hn (Or.inr (Or.inr ⟨hkind, hnil⟩))).chars_eq h.size_eq
    simp only [Node.traits, hclauses, hchars]
  · have hnil' : n.clauseTraits b ≠ [] := hclauses ▸ hnil
    simp [Node.traits, hclauses, hnil']

/-! ### The declaration as a whole -/

lemma shared_eq {s : Site} (hs : s ∈ root.preorder []) : s.shared a = s.shared b := by
  have hn := Node.mem_nodes_of_site hs
  simp only [Site.shared, h.visibility_eq hn, h.returnType_eq hn, h.typeAnnotation_eq hn,
    h.docblock_eq fun m hm => Node.mem_nodes_of_before hs hm]

lemma metadata_eq {s : Site} {conceptType : String} (hs : s ∈ root.preorder [])
    (hn : n ∈ root.nodes) (hclass : conceptType = "class" → n.kind = "class_declaration") :
    n.metadata s a conceptType = n.metadata s b conceptType := by
  by_cases htype : conceptType = "class"
  · simp only [Node.metadata, h.shared_eq hs, h.traits_eq hn (hclass htype)]
  · simp only [Node.metadata, h.shared_eq hs, if_neg htype]

lemma concept_eq {s : Site} {filePath label : String} (hs : s ∈ root.preorder [])
    (hn : n ∈ root.nodes) (hclass : normalizeType label = "class" → n.kind = "class_declaration") :
    n.concept s a filePath label = n.concept s b filePath label := by
  simp only [Node.concept, h.declaredName_eq hn, h.metadata_eq hs hn hclass]

end Agree

/-- Only the label of a class stands for the type of a class. -/
lemma kind_of_class {kind : String} {rule : DeclarationRule}
    (hrule : declarationRule? kind = some rule) (hclass : normalizeType rule.label = "class") :
    kind = "class_declaration" ∧ rule.declarators = none := by
  unfold declarationRule? at hrule
  split at hrule <;> cases hrule
  · exact ⟨rfl, rfl⟩
  all_goals exact absurd hclass (by decide)

lemma readDeclarators_congr {s : Site} {filePath label : String} {nodes : List Node}
    (h : ∀ n ∈ nodes, n.concept s a filePath label = n.concept s b filePath label) :
    readDeclarators s a filePath label nodes = readDeclarators s b filePath label nodes := by
  induction nodes with
  | nil => rfl
  | cons n rest ih =>
    rw [readDeclarators, readDeclarators, h n List.mem_cons_self,
      ih fun m hm => h m (List.mem_cons_of_mem _ hm)]

/-- Sources that agree on a tree give the same reading of each of its sites. -/
lemma Agree.read_eq {s : Site} (h : Agree root a b) (hs : s ∈ root.preorder [])
    (filePath : String) : s.read a filePath = s.read b filePath := by
  rcases hrule : declarationRule? s.node.kind with _ | rule
  · rw [Site.read_of_no_rule hrule, Site.read_of_no_rule hrule]
  rw [Site.read_of_rule hrule, Site.read_of_rule hrule]
  apply readDeclarators_congr
  intro n hn
  have hmem : n ∈ root.nodes := by
    rcases Site.mem_declarators hn with rfl | hchild
    · exact Node.mem_nodes_of_site hs
    · exact Node.mem_nodes_of_child hs hchild
  apply h.concept_eq hs hmem
  intro hclass
  -- a class is its own declarator
  obtain ⟨hkind, hown⟩ := kind_of_class hrule hclass
  obtain ⟨label, declarators⟩ := rule
  obtain rfl : declarators = none := hown
  have hself : n = s.node := by simpa [Site.declarators, hrule] using hn
  rw [hself, hkind]

end PhpCatalog
