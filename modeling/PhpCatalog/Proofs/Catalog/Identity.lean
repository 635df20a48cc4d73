/-
# What an identifier identifies

The identifier of a concept is its language, the label of its declaration, its file and its name,
joined by two colons, and none of them is escaped.  A file or a name may hold colons of its own, but
a label holds none.  So the label ends at the first colon behind the language, whatever follows it.
The name takes all that is left behind the file, so colons in it do no harm; colons in a file do,
unless both files are the same (`conceptId_eq_iff`).

Concepts carry no label, but the type of a concept determines it (`label_inj`).  So concepts that
walks add to a catalog have one label each, and their identifiers are equal exactly if their labels,
files and names are (`id_eq_iff_of_adds`).
-/
import PhpCatalog.Proofs.Catalog.WellFormed

namespace PhpCatalog

/-! ### Joining with colons -/

section Join

variable {label label' path path' name name' : String}

/-- Texts up to the first mark behind them, where the mark is the same. -/
lemma append_mark_inj {mark : Char} {a b s t : List Char} (ha : mark ∉ a) (hb : mark ∉ b) :
    a ++ mark :: s = b ++ mark :: t ↔ a = b ∧ s = t := by
  have hfront : ∀ {front rest : List Char}, mark ∉ front →
      (front ++ mark :: rest).takeWhile (· != mark) = front := by
    intro front rest hmark
    rw [List.takeWhile_append_of_pos fun c hc => by simpa using ne_of_mem_of_not_mem hc hmark]
    simp
  constructor
  · intro h
    have heq : a = b := by
      rw [← hfront ha, h, hfront hb]
    subst heq
    exact ⟨rfl, (List.cons.inj (List.append_cancel_left h)).2⟩
  · rintro ⟨rfl, rfl⟩
    rfl

lemma toList_conceptId (label path name : String) : (conceptId label path name).toList =
    "php::".toList ++
      (label.toList ++ ':' :: ':' :: (path.toList ++ ':' :: ':' :: name.toList)) := by
  simp [conceptId, languageName]

/-- Identifiers tell labels, files and names apart, if the files are the same or hold no colon. -/
lemma conceptId_eq_iff (hlabel : ':' ∉ label.toList) (hlabel' : ':' ∉ label'.toList)
    (hpath : path = path' ∨ ':' ∉ path.toList ∧ ':' ∉ path'.toList) :
    conceptId label path name = conceptId label' path' name' ↔
      label = label' ∧ path = path' ∧ name = name' := by
  rw [← String.toList_inj, toList_conceptId, toList_conceptId, List.append_cancel_left_eq,
    append_mark_inj hlabel hlabel', List.cons_inj_right, String.toList_inj]
  refine and_congr_right fun _ => ?_
  rcases hpath with rfl | ⟨hfree, hfree'⟩
  · simp [String.toList_inj]
  · rw [append_mark_inj hfree hfree', List.cons_inj_right, String.toList_inj, String.toList_inj]

/-- A colon in the file may as well stand in the name. -/
example : conceptId "function" "a" "b::c" = conceptId "function" "a::b" "c" := by decide

end Join

/-! ### Labels -/

/-- The labels of declarations. -/
def declarationLabels : List String :=
  ["class_declaration", "interface_declaration", "trait_declaration", "enum_declaration",
    "function", "method", "property", "namespace", "constant"]

lemma label_mem {kind : String} {rule : DeclarationRule}
    (h : declarationRule? kind = some rule) : rule.label ∈ declarationLabels := by
  unfold declarationRule? at h
  split at h <;> cases h
  all_goals decide

lemma colon_notMem_label {label : String} (h : label ∈ declarationLabels) :
    ':' ∉ label.toList := by
  have hlabels : ∀ label ∈ declarationLabels, ':' ∉ label.toList := by decide
  exact hlabels label h

/-- The type of a concept determines the label. -/
lemma label_inj {label label' : String} (h : label ∈ declarationLabels)
    (h' : label' ∈ declarationLabels) (heq : normalizeType label = normalizeType label') :
    label = label' := by
  have hlabels : ∀ label ∈ declarationLabels, ∀ label' ∈ declarationLabels,
      normalizeType label = normalizeType label' → label = label' := by decide
  exact hlabels label h label' h' heq

namespace Catalog

/-- A walk of a file adds a concept to those that are there. -/
def Adds (root : Node) (source : ByteArray) (filePath : String) (c : Concept) : Prop :=
  ∃ initial new, (walkOnto initial root source filePath).found.concepts = initial ++ new ∧ c ∈ new

/-- A concept is what becomes of a declarator in a tree, and the declaration has a label. -/
def Labelled (root : Node) (source : ByteArray) (filePath : String) (c : Concept)
    (label : String) : Prop :=
  ∃ s ∈ root.preorder [], ∃ n ∈ s.declarators, ∃ rule, declarationRule? s.node.kind = some rule ∧
    rule.label = label ∧ n.concept s source filePath label = .ok (some c)

variable {root root' : Node} {source source' : ByteArray} {path path' : String} {c c' : Concept}
  {label label' : String}

/-- What a declaration with a label becomes. -/
lemma Labelled.built (h : Labelled root source path c label) :
    label ∈ declarationLabels ∧ c.filePath = path ∧ c.id = conceptId label path c.name ∧
      c.conceptType = normalizeType label := by
  obtain ⟨s, -, n, -, rule, hrule, rfl, hconcept⟩ := h
  obtain ⟨name, lines, -, -, -, rfl⟩ := Node.built_of_concept hconcept
  exact ⟨label_mem hrule, rfl, rfl, rfl⟩

/-- A concept has at most one label, in whatever tree it is found. -/
lemma Labelled.unique (h : Labelled root source path c label)
    (h' : Labelled root' source' path' c label') : label = label' := by
  obtain ⟨hmem, -, -, htype⟩ := h.built
  obtain ⟨hmem', -, -, htype'⟩ := h'.built
  exact label_inj hmem hmem' (htype.symm.trans htype')

lemma Adds.exists_labelled (h : Adds root source path c) :
    ∃ label, Labelled root source path c label := by
  obtain ⟨initial, new, hnew, hc⟩ := h
  have hconcepts := congrArg (·.found.concepts) (walkOnto_eq source path initial root)
  have hemitted : new = (upToWrong source path (root.preorder [])).flatMap
      (·.emitted source path) :=
    List.append_cancel_left (hnew.symm.trans hconcepts)
  obtain ⟨s, hs, hcs⟩ := List.mem_flatMap.mp (hemitted ▸ hc)
  obtain ⟨n, rule, hrule, hn, hconcept⟩ := Site.exists_declares_of_emitted hcs
  exact ⟨rule.label, s, (upToWrong_sublist source path _).subset hs, n, hn, rule, hrule, rfl,
    hconcept⟩

/-- **Identifiers identify.**  Let walks, of whatever trees and sources, add two concepts whose
files are the same or hold no colon.  Each of them has exactly one label, and their identifiers are
equal exactly if their labels, files and names are.  So two concepts of one file with the same
identifier have the same type and name. -/
theorem id_eq_iff_of_adds (h : Adds root source path c) (h' : Adds root' source' path' c')
    (hpath : c.filePath = c'.filePath ∨ ':' ∉ c.filePath.toList ∧ ':' ∉ c'.filePath.toList) :
    ∃ label label', (∀ l, Labelled root source path c l ↔ l = label) ∧
      (∀ l, Labelled root' source' path' c' l ↔ l = label') ∧
      (c.id = c'.id ↔ label = label' ∧ c.filePath = c'.filePath ∧ c.name = c'.name) ∧
      (c.filePath = c'.filePath → c.id = c'.id →
        c.conceptType = c'.conceptType ∧ c.name = c'.name) := by
  obtain ⟨label, hlabel⟩ := h.exists_labelled
  obtain ⟨label', hlabel'⟩ := h'.exists_labelled
  obtain ⟨hmem, rfl, hid, htype⟩ := hlabel.built
  obtain ⟨hmem', rfl, hid', htype'⟩ := hlabel'.built
  have hiff : c.id = c'.id ↔ label = label' ∧ c.filePath = c'.filePath ∧ c.name = c'.name := by
    rw [hid, hid', conceptId_eq_iff (colon_notMem_label hmem) (colon_notMem_label hmem') hpath]
  refine ⟨label, label', fun l => ⟨fun hl => hl.unique hlabel, fun hl => hl ▸ hlabel⟩,
    fun l => ⟨fun hl => hl.unique hlabel', fun hl => hl ▸ hlabel'⟩, hiff, fun _ hsame => ?_⟩
  obtain ⟨heq, -, hname⟩ := hiff.mp hsame
  exact ⟨by rw [htype, htype', heq], hname⟩

/-- A declaration of the name in the first two bytes of a source, on a row of its own. -/
def namesake (kind : String) (row : Nat) : Node where
  kind := kind
  start := 0
  stop := 2
  startPoint := ⟨row, 0⟩
  stopPoint := ⟨row, 2⟩
  children := [{
    kind := "name", start := 0, stop := 2, startPoint := ⟨row, 0⟩, stopPoint := ⟨row, 2⟩,
    field := some "name" }]

/-- The concept of a namesake of `:f` in the file `a::b`. -/
def namesakeConcept (label type : String) (line : Int) : Concept where
  id := "php::" ++ label ++ "::a::b:::f"
  name := ":f"
  conceptType := type
  filePath := "a::b"
  lines := ⟨line, line, Int.le_refl line⟩
  metadata := [("language", "php"), ("kind", type), ("start_column", "1"), ("end_column", "3")]

/-- Two functions of one name have the same identifier, and a class of that name has another one,
although the file and the name hold colons. -/
theorem id_namesakes :
    let source : ByteArray := ⟨#[58, 102]⟩
    let f := namesakeConcept "function" "function" 1
    let g := namesakeConcept "function" "function" 8
    let c := namesakeConcept "class_declaration" "class" 1
    Adds (namesake "function_definition" 0) source "a::b" f ∧
    Adds (namesake "function_definition" 7) source "a::b" g ∧
    Adds (namesake "class_declaration" 0) source "a::b" c ∧
    f ≠ g ∧ f.id = g.id ∧ f.id ≠ c.id := by
  intro source f g c
  have hadds : ∀ {root : Node} {d : Concept},
      d ∈ (upToWrong source "a::b" (root.preorder [])).flatMap (·.emitted source "a::b") →
        Adds root source "a::b" d := by
    intro root d hd
    exact ⟨[], _, congrArg (·.found.concepts) (walkOnto_eq source "a::b" [] root), hd⟩
  have hf : Adds (namesake "function_definition" 0) source "a::b" f := hadds (by decide +kernel)
  have hg : Adds (namesake "function_definition" 7) source "a::b" g := hadds (by decide +kernel)
  have hc : Adds (namesake "class_declaration" 0) source "a::b" c := hadds (by decide +kernel)
  refine ⟨hf, hg, hc, by decide, rfl, fun hsame => ?_⟩
  obtain ⟨-, -, -, -, -, htype⟩ := id_eq_iff_of_adds hf hc (Or.inl rfl)
  exact absurd (htype rfl hsame).1 (by decide)

end Catalog

end PhpCatalog
