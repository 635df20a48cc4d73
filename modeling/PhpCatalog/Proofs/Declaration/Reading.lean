/-
# What comes of a declaration

A declaration ends in one of four ways: its name cannot be read; it has no name; it has a name and
its lines are in the wrong order; or it becomes a concept.  `Node.concept_cases` says so once, and
the other statements of this file follow from it.  The declarators of a node are read one after the
other until one of them cannot be, so a node fails as its first failing declarator does.
-/
import Mathlib.Data.List.Forall2
import Mathlib.Tactic.Lemma
import PhpCatalog.Declaration.Build

namespace PhpCatalog

namespace Node

/-- The name of a declaration has been read and is not empty. -/
def Named (n : Node) (source : ByteArray) (filePath name : String) : Prop :=
  n.declaredName source (some filePath) = .ok name ∧ name ≠ ""

/-- The name of a declaration, if it can be read and is not empty. -/
def name? (n : Node) (source : ByteArray) (filePath : String) : Option String :=
  match n.declaredName source (some filePath) with
  | .ok name => if name = "" then none else some name
  | .error _ => none

/-- A declaration with a name that ends on an earlier row than it starts on. -/
def Reversed (n : Node) (source : ByteArray) (filePath : String) : Prop :=
  (∃ name, n.Named source filePath name) ∧ n.stopPoint.row < n.startPoint.row

/-- The rows of a node as lines in the wrong order. -/
def reversedLines (n : Node) : InvalidLineRange :=
  ⟨(n.startPoint.row + 1 : Nat), (n.stopPoint.row + 1 : Nat)⟩

/-- The concept of a declaration with a name and lines. -/
def built (n : Node) (owner : Site) (source : ByteArray) (filePath label name : String)
    (lines : LineRange) : Concept where
  id := conceptId label filePath name
  name := name
  conceptType := normalizeType label
  filePath := filePath
  lines := lines
  metadata := n.metadata owner source (normalizeType label)

variable {n : Node} {owner : Site} {source : ByteArray} {filePath label : String}

lemma name?_eq_some_iff {name : String} :
    n.name? source filePath = some name ↔ n.Named source filePath name := by
  rcases h : n.declaredName source (some filePath) with f | other
  · simp [name?, Named, h]
  · by_cases hempty : other = ""
    · simp [name?, Named, h, hempty, eq_comm]
    · simp only [name?, h, if_neg hempty, Option.some.injEq, Named, Except.ok.injEq]
      constructor
      · rintro rfl
        exact ⟨rfl, hempty⟩
      · rintro ⟨rfl, -⟩
        rfl

/-- The four ways a declaration can end. -/
lemma concept_cases (n : Node) (owner : Site) (source : ByteArray) (filePath label : String) :
    (∃ f, n.declaredName source (some filePath) = .error f ∧
      n.concept owner source filePath label = .error (.fault f)) ∨
    (n.declaredName source (some filePath) = .ok "" ∧
      n.concept owner source filePath label = .ok none) ∨
    (n.Reversed source filePath ∧
      n.concept owner source filePath label = .error (.lines n.reversedLines)) ∨
    (∃ (name : String) (lines : LineRange), n.Named source filePath name ∧
      lines.start = (n.startPoint.row + 1 : Nat) ∧ lines.stop = (n.stopPoint.row + 1 : Nat) ∧
      n.concept owner source filePath label =
        .ok (some (n.built owner source filePath label name lines))) := by
  rcases hname : n.declaredName source (some filePath) with f | name
  · exact Or.inl ⟨f, rfl, by rw [concept, hname]⟩
  right
  by_cases hempty : name = ""
  · left
    subst hempty
    exact ⟨rfl, by rw [concept, hname]; rfl⟩
  right
  have hnamed : n.Named source filePath name := ⟨hname, hempty⟩
  -- with a name, the rows alone decide
  by_cases hrows : n.startPoint.row ≤ n.stopPoint.row
  · right
    have hle : ((n.startPoint.row + 1 : Nat) : Int) ≤ (n.stopPoint.row + 1 : Nat) := by omega
    have hof : LineRange.of _ _ = .ok ⟨_, _, hle⟩ := dif_pos hle
    refine ⟨name, ⟨_, _, hle⟩, hnamed, rfl, rfl, ?_⟩
    simp only [concept, hname, if_neg hempty, position, hof]
    rfl
  · left
    have hlt : ¬ ((n.startPoint.row + 1 : Nat) : Int) ≤ (n.stopPoint.row + 1 : Nat) := by omega
    have hof : LineRange.of _ _ = .error n.reversedLines := dif_neg hlt
    refine ⟨⟨⟨name, hnamed⟩, by omega⟩, ?_⟩
    simp only [concept, hname, if_neg hempty, position, hof]

lemma concept_eq_lines_iff {e : InvalidLineRange} :
    n.concept owner source filePath label = .error (.lines e) ↔
      n.Reversed source filePath ∧ e = n.reversedLines := by
  rcases concept_cases n owner source filePath label with
    ⟨f, hf, h⟩ | ⟨hempty, h⟩ | ⟨hrev, h⟩ | ⟨name, lines, hnamed, hstart, hstop, h⟩
  · -- a name that cannot be read rules a name out
    refine ⟨fun h' => by simp [h] at h', ?_⟩
    rintro ⟨⟨⟨name, hok, -⟩, -⟩, -⟩
    simp [hf] at hok
  · refine ⟨fun h' => by simp [h] at h', ?_⟩
    rintro ⟨⟨⟨name, hok, hne⟩, -⟩, -⟩
    rw [hempty] at hok
    exact absurd (Except.ok.inj hok).symm hne
  · rw [h]
    simp [hrev, eq_comm]
  · refine ⟨fun h' => by simp [h] at h', ?_⟩
    rintro ⟨⟨-, hlt⟩, -⟩
    have := lines.ordered
    omega

lemma not_reversed_of_concept {r : Option Concept}
    (h : n.concept owner source filePath label = .ok r) : ¬ n.Reversed source filePath := by
  intro hrev
  have hlines : n.concept owner source filePath label = .error (.lines n.reversedLines) :=
    concept_eq_lines_iff.mpr ⟨hrev, rfl⟩
  simp [h] at hlines

/-- A declaration is read unless its name cannot be, or its lines are in the wrong order. -/
lemma concept_isOk_iff :
    (∃ r, n.concept owner source filePath label = .ok r) ↔
      (∃ name, n.declaredName source (some filePath) = .ok name) ∧
        ¬ n.Reversed source filePath := by
  rcases concept_cases n owner source filePath label with
    ⟨f, hf, h⟩ | ⟨hempty, h⟩ | ⟨hrev, h⟩ | ⟨name, lines, hnamed, hstart, hstop, h⟩
  · simp [h, hf]
  · have hnot := not_reversed_of_concept h
    simp [h, hempty, hnot]
  · simp [h, hrev]
  · have hnot := not_reversed_of_concept h
    simp [h, hnamed.1, hnot]

/-- A concept comes from a declaration with a name. -/
lemma built_of_concept {c : Concept}
    (h : n.concept owner source filePath label = .ok (some c)) :
    ∃ (name : String) (lines : LineRange), n.Named source filePath name ∧
      lines.start = (n.startPoint.row + 1 : Nat) ∧ lines.stop = (n.stopPoint.row + 1 : Nat) ∧
      c = n.built owner source filePath label name lines := by
  rcases concept_cases n owner source filePath label with
    ⟨f, hf, h'⟩ | ⟨hempty, h'⟩ | ⟨hrev, h'⟩ | ⟨name, lines, hnamed, hstart, hstop, h'⟩
  · simp [h'] at h
  · simp [h'] at h
  · simp [h'] at h
  · rw [h'] at h
    exact ⟨name, lines, hnamed, hstart, hstop, (Option.some.inj (Except.ok.inj h)).symm⟩

/-- A declaration that is read becomes a concept exactly if it has a name. -/
lemma isSome_of_concept {r : Option Concept}
    (h : n.concept owner source filePath label = .ok r) :
    r.isSome = (n.name? source filePath).isSome := by
  rcases concept_cases n owner source filePath label with
    ⟨f, -, h'⟩ | ⟨hempty, h'⟩ | ⟨-, h'⟩ | ⟨name, lines, hnamed, -, -, h'⟩
  · simp [h'] at h
  · obtain rfl : none = r := by simpa [h'] using h
    simp [name?, hempty]
  · simp [h'] at h
  · obtain rfl : some _ = r := by simpa [h'] using h
    rw [name?_eq_some_iff.mpr hnamed]
    rfl

end Node

/-! ### The declarators of a node -/

section Declarators

variable {owner : Site} {source : ByteArray} {filePath label : String}

/-- Reading declarators fails as the first one that cannot be read. -/
lemma readDeclarators_eq_error_iff {nodes : List Node} {stop : Stop} :
    (readDeclarators owner source filePath label nodes).result = .error stop ↔
      ∃ pre n post, nodes = pre ++ n :: post ∧
        (∀ m ∈ pre, ∃ r, m.concept owner source filePath label = .ok r) ∧
        n.concept owner source filePath label = .error stop := by
  induction nodes with
  | nil => simp [readDeclarators]
  | cons n rest ih =>
    rcases hn : n.concept owner source filePath label with e | r
    · constructor
      · intro h
        refine ⟨[], n, rest, rfl, by simp, ?_⟩
        simpa [readDeclarators, hn] using h
      · rintro ⟨pre, m, post, hsplit, hpre, hm⟩
        cases pre with
        | nil =>
          obtain ⟨rfl, -⟩ := List.cons.inj hsplit
          simpa [readDeclarators, hn] using hm
        | cons a pre =>
          -- the first declarator fails, so it cannot stand before the failing one
          obtain ⟨rfl, -⟩ := List.cons.inj hsplit
          obtain ⟨r, hr⟩ := hpre n List.mem_cons_self
          simp [hn] at hr
    · have hresult :
          (readDeclarators owner source filePath label (n :: rest)).result = .error stop ↔
            (readDeclarators owner source filePath label rest).result = .error stop := by
        rcases r with _ | c <;> simp only [readDeclarators, hn]
        rcases (readDeclarators owner source filePath label rest).result with e | cs <;>
          simp [Except.map]
      rw [hresult, ih]
      constructor
      · rintro ⟨pre, m, post, rfl, hpre, hm⟩
        refine ⟨n :: pre, m, post, rfl, ?_, hm⟩
        intro a ha
        rcases List.mem_cons.mp ha with rfl | ha
        · exact ⟨r, hn⟩
        · exact hpre a ha
      · rintro ⟨pre, m, post, hsplit, hpre, hm⟩
        cases pre with
        | nil =>
          obtain ⟨rfl, -⟩ := List.cons.inj hsplit
          simp [hn] at hm
        | cons a pre =>
          obtain ⟨-, rfl⟩ := List.cons.inj hsplit
          exact ⟨pre, m, post, rfl, fun b hb => hpre b (List.mem_cons_of_mem _ hb), hm⟩

/-- Where declarators are read, each of them is, and those with a concept are the result. -/
lemma readDeclarators_eq_ok {nodes : List Node} {cs : List Concept}
    (h : (readDeclarators owner source filePath label nodes).result = .ok cs) :
    ∃ each : List (Option Concept),
      nodes.map (fun n => n.concept owner source filePath label) = each.map .ok ∧
      cs = each.filterMap id := by
  induction nodes generalizing cs with
  | nil =>
    obtain rfl : [] = cs := Except.ok.inj h
    exact ⟨[], rfl, rfl⟩
  | cons n rest ih =>
    rcases hn : n.concept owner source filePath label with e | r
    · simp [readDeclarators, hn] at h
    rcases hrest : (readDeclarators owner source filePath label rest).result with e | others
    · rcases r with _ | c <;> simp [readDeclarators, hn, hrest, Except.map] at h
    obtain ⟨each, heach, rfl⟩ := ih hrest
    refine ⟨r :: each, by rw [List.map_cons, hn, heach, List.map_cons], ?_⟩
    rcases r with _ | c <;> simpa [readDeclarators, hn, hrest, Except.map, eq_comm] using h

/-- Of declarators that are read, those with a name become concepts, one each and in order. -/
lemma forall₂_readDeclarators {nodes : List Node} {cs : List Concept}
    (h : (readDeclarators owner source filePath label nodes).result = .ok cs) :
    List.Forall₂ (fun n c => n.concept owner source filePath label = .ok (some c))
      (nodes.filter fun n => (n.name? source filePath).isSome) cs := by
  obtain ⟨each, heach, rfl⟩ := readDeclarators_eq_ok h
  clear h
  induction nodes generalizing each with
  | nil =>
    obtain rfl : each = [] := by simpa [eq_comm] using heach
    exact List.Forall₂.nil
  | cons n rest ih =>
    obtain ⟨r, others, rfl⟩ : ∃ r others, each = r :: others :=
      List.exists_cons_of_ne_nil (by rintro rfl; simp at heach)
    obtain ⟨hn, hrest⟩ := List.cons.inj heach
    have hsome := Node.isSome_of_concept hn
    rcases r with _ | c
    · rw [List.filter_cons_of_neg (by simp [← hsome])]
      exact ih others hrest
    · rw [List.filter_cons_of_pos (by simp [← hsome])]
      exact List.Forall₂.cons hn (ih others hrest)

/-- Every concept that was read is the concept of one of the declarators. -/
lemma exists_declarator {nodes : List Node} {cs : List Concept}
    (h : (readDeclarators owner source filePath label nodes).result = .ok cs) :
    ∀ c ∈ cs, ∃ n ∈ nodes, n.concept owner source filePath label = .ok (some c) := by
  intro c hc
  obtain ⟨each, heach, rfl⟩ := readDeclarators_eq_ok h
  have hmem : Except.ok (some c) ∈ nodes.map fun n => n.concept owner source filePath label := by
    rw [heach]
    exact List.mem_map_of_mem (by simpa using hc)
  exact List.mem_map.mp hmem

end Declarators

namespace Site

/-- The declarations that a node stands for: itself, or the declarators it bundles. -/
def declarators (s : Site) : List Node :=
  match declarationRule? s.node.kind with
  | none => []
  | some ⟨_, none⟩ => [s.node]
  | some ⟨_, some kinds⟩ => s.node.children.filter fun c => kinds.contains c.kind

variable {s : Site} {source : ByteArray} {filePath : String}

lemma read_of_rule {rule : DeclarationRule} (h : declarationRule? s.node.kind = some rule) :
    s.read source filePath = readDeclarators s source filePath rule.label s.declarators := by
  obtain ⟨label, _ | kinds⟩ := rule <;> simp only [read, declarators, h]

lemma read_of_no_rule (h : declarationRule? s.node.kind = none) :
    s.read source filePath = ⟨.ok [], []⟩ := by
  simp only [read, h]

lemma mem_declarators {n : Node} (h : n ∈ s.declarators) : n = s.node ∨ n ∈ s.node.children := by
  rcases hrule : declarationRule? s.node.kind with _ | ⟨label, _ | kinds⟩ <;>
    simp only [declarators, hrule] at h
  · simp at h
  · exact Or.inl (List.mem_singleton.mp h)
  · exact Or.inr (List.mem_filter.mp h).1

/-- The declarator at which reading a node meets lines in the wrong order: it is reversed, and
those before it can be read. -/
def ReversedAt (s : Site) (source : ByteArray) (filePath : String) (n : Node) : Prop :=
  ∃ pre post, s.declarators = pre ++ n :: post ∧
    (∀ m ∈ pre, (∃ name, m.declaredName source (some filePath) = .ok name) ∧
      ¬ m.Reversed source filePath) ∧
    n.Reversed source filePath

/-- Reading a node ends in lines in the wrong order exactly at a reversed declarator. -/
lemma read_eq_lines_iff {e : InvalidLineRange} :
    (s.read source filePath).result = .error (.lines e) ↔
      ∃ n, s.ReversedAt source filePath n ∧ e = n.reversedLines := by
  rcases hrule : declarationRule? s.node.kind with _ | rule
  · have hnil : s.declarators = [] := by simp only [declarators, hrule]
    simp [read_of_no_rule hrule, ReversedAt, hnil]
  · rw [read_of_rule hrule, readDeclarators_eq_error_iff]
    simp only [Node.concept_isOk_iff, Node.concept_eq_lines_iff, ReversedAt]
    constructor
    · rintro ⟨pre, n, post, hsplit, hpre, hrev, rfl⟩
      exact ⟨n, ⟨pre, post, hsplit, hpre, hrev⟩, rfl⟩
    · rintro ⟨n, ⟨pre, post, hsplit, hpre, hrev⟩, rfl⟩
      exact ⟨pre, n, post, hsplit, hpre, hrev, rfl⟩

end Site

end PhpCatalog
