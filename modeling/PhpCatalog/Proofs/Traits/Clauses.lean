/-
# The traits of a class, from its clauses

A class names its traits in trait-use clauses, which are children of the class or of its body.  If
they name any trait, the traits of the class are exactly those they name, in strictly ascending
order, and the text of the class does not matter (`Node.mem_traits_iff`).  So it does not matter
either how the names are spread over clauses: clauses that are reordered, split, merged or repeated
give the same traits and the same metadata (`Node.traits_canonical`).
-/
import PhpCatalog.Proofs.Declaration.Lookup
import PhpCatalog.Proofs.Text.Order

namespace PhpCatalog

namespace Node

/-- A name-like child of a node has a text, the blanks at its ends aside. -/
def HasName (n : Node) (source : ByteArray) (name : String) : Prop :=
  name ≠ "" ∧ ∃ c ∈ n.children, (c.kind ∈ identifierKinds ∨ c.kind = "qualified_name") ∧
    c.trimmedText source = name

/-- The trait-use clauses of a class: those among its children and those among the children of its
body. -/
def clauses (n : Node) : List Node :=
  (n.children ++ n.bodyChildren).filter fun c => TraitUse.clauseKinds.contains c.kind

/-- A class names a trait in a clause of its own. -/
def Uses (n : Node) (source : ByteArray) (name : String) : Prop :=
  ∃ clause, (clause ∈ n.children ∨ ∃ body, n.child? "body" = some body ∧ clause ∈ body.children) ∧
    clause.kind ∈ TraitUse.clauseKinds ∧ clause.HasName source name

variable {n : Node} {source : ByteArray} {name : String}

lemma mem_names_iff : name ∈ n.names source ↔ n.HasName source name := by
  simp only [names, HasName, List.mem_filter, List.mem_map, Bool.or_eq_true, beq_iff_eq,
    List.contains_iff_mem, decide_eq_true_eq]
  constructor
  · rintro ⟨⟨c, ⟨hc, hkind⟩, htext⟩, hne⟩
    exact ⟨hne, c, hc, hkind, htext⟩
  · rintro ⟨hne, c, hc, hkind, htext⟩
    exact ⟨⟨c, ⟨hc, hkind⟩, htext⟩, hne⟩

lemma mem_bodyChildren_iff {c : Node} :
    c ∈ n.bodyChildren ↔ ∃ body, n.child? "body" = some body ∧ c ∈ body.children := by
  unfold bodyChildren
  rcases n.child? "body" with _ | body <;> simp

lemma clauseTraits_eq_flatMap : n.clauseTraits source = n.clauses.flatMap (·.names source) := by
  rw [clauseTraits, TraitUse.inClauses, TraitUse.inClauses, clauses, List.filter_append,
    List.flatMap_append]

lemma mem_inClauses_iff {nodes : List Node} : name ∈ TraitUse.inClauses source nodes ↔
    ∃ clause ∈ nodes, clause.kind ∈ TraitUse.clauseKinds ∧ clause.HasName source name := by
  simp only [TraitUse.inClauses, List.mem_flatMap, List.mem_filter, mem_names_iff,
    List.contains_iff_mem, and_assoc]

lemma mem_clauseTraits_iff : name ∈ n.clauseTraits source ↔ n.Uses source name := by
  simp only [clauseTraits, List.mem_append, mem_inClauses_iff, mem_bodyChildren_iff, Uses,
    or_and_right, exists_or]

lemma clauseTraits_eq_nil_iff : n.clauseTraits source = [] ↔ ∀ other, ¬ n.Uses source other := by
  simp only [List.eq_nil_iff_forall_not_mem, mem_clauseTraits_iff]

/-- The names in the clauses of a class, clause by clause. -/
def clauseNames (n : Node) (source : ByteArray) : List (List String) :=
  n.clauses.map (·.names source)

lemma clauseTraits_eq_flatten : n.clauseTraits source = (n.clauseNames source).flatten := by
  rw [clauseTraits_eq_flatMap, clauseNames, List.flatMap_def]

/-! ### The two ways to find traits -/

/-- If a clause names a trait, the clauses decide. -/
lemma traits_of_uses (h : ∃ other, n.Uses source other) :
    n.traits source = Text.sortDistinct (n.clauseTraits source) := by
  obtain ⟨other, hother⟩ := h
  have hne : n.clauseTraits source ≠ [] := List.ne_nil_of_mem (mem_clauseTraits_iff.mpr hother)
  simp [traits, hne]

/-- If no clause names a trait, the text decides. -/
lemma traits_of_no_use (h : ∀ other, ¬ n.Uses source other) :
    n.traits source = Text.sortDistinct (TraitUse.inText (n.chars source)) := by
  have hnil : n.clauseTraits source = [] := clauseTraits_eq_nil_iff.mpr h
  simp [traits, hnil]

/-- The traits of a class are those that its clauses name, or, if they name none, those that are
used in its text. -/
lemma mem_traits_iff :
    name ∈ n.traits source ↔ n.Uses source name ∨
      (∀ other, ¬ n.Uses source other) ∧ name ∈ TraitUse.inText (n.chars source) := by
  by_cases h : ∃ other, n.Uses source other
  · rw [traits_of_uses h, Text.mem_sortDistinct, mem_clauseTraits_iff]
    constructor
    · exact Or.inl
    · rintro (huses | ⟨hnone, -⟩)
      · exact huses
      · obtain ⟨other, hother⟩ := h
        exact absurd hother (hnone other)
  · have hnone : ∀ other, ¬ n.Uses source other := not_exists.mp h
    rw [traits_of_no_use hnone, Text.mem_sortDistinct]
    simp [hnone]

end Node

/-! ### Clauses that are written differently -/

namespace TraitUse

/-- Lists of clauses, each given by its names, that say the same in another arrangement: clauses in
another order, a clause split in two, a clause repeated, and all of these backwards. -/
inductive Rearranged : List (List String) → List (List String) → Prop where
  | perm {a b} : a.Perm b → Rearranged a b
  | split (front back rest) : Rearranged ((front ++ back) :: rest) (front :: back :: rest)
  | repeated (clause rest) : Rearranged (clause :: rest) (clause :: clause :: rest)
  | symm {a b} : Rearranged a b → Rearranged b a
  | trans {a b c} : Rearranged a b → Rearranged b c → Rearranged a c

/-- Rearranged clauses have the same names. -/
lemma Rearranged.mem_flatten_iff {a b : List (List String)} (h : Rearranged a b) (name : String) :
    name ∈ a.flatten ↔ name ∈ b.flatten := by
  induction h with
  | perm hperm => exact hperm.flatten.mem_iff
  | split front back rest => simp
  | repeated clause rest => simp
  | symm _ ih => exact ih.symm
  | trans _ _ ih ih' => exact ih.trans ih'

end TraitUse

namespace Node

/-- **The traits of a class are canonical.**  They are strictly ascending.  If the clauses of the
class name any trait, its traits are exactly those that they name, and otherwise exactly those that
its text uses.  A class whose clauses are an arrangement of those of another class that name a trait
has the same traits, and says the same of them in its metadata. -/
theorem traits_canonical (n : Node) (source : ByteArray) :
    (n.traits source).Pairwise (· < ·) ∧
    ((∃ other, n.Uses source other) → ∀ name, name ∈ n.traits source ↔ n.Uses source name) ∧
    ((∀ other, ¬ n.Uses source other) →
      ∀ name, name ∈ n.traits source ↔ name ∈ TraitUse.inText (n.chars source)) ∧
    ∀ (m : Node) (edited : ByteArray), (∃ other, n.Uses source other) →
      TraitUse.Rearranged (n.clauseNames source) (m.clauseNames edited) →
      m.traits edited = n.traits source ∧
      ∀ s t, (m.metadata t edited "class").get? "traits" =
        (n.metadata s source "class").get? "traits" := by
  refine ⟨Text.pairwise_sortDistinct _, ?_, ?_, ?_⟩
  · intro huses name
    rw [traits_of_uses huses, Text.mem_sortDistinct, mem_clauseTraits_iff]
  · intro hnone name
    rw [traits_of_no_use hnone, Text.mem_sortDistinct]
  · intro m edited huses hrearranged
    have hmem : ∀ name, name ∈ m.clauseTraits edited ↔ name ∈ n.clauseTraits source := by
      intro name
      rw [clauseTraits_eq_flatten, clauseTraits_eq_flatten, hrearranged.mem_flatten_iff]
    have huses' : ∃ other, m.Uses edited other := by
      obtain ⟨other, hother⟩ := huses
      exact ⟨other, mem_clauseTraits_iff.mp ((hmem other).mpr (mem_clauseTraits_iff.mpr hother))⟩
    have htraits : m.traits edited = n.traits source := by
      rw [traits_of_uses huses, traits_of_uses huses', Text.sortDistinct_congr hmem]
    refine ⟨htraits, fun s t => ?_⟩
    rw [get?_traits, get?_traits, htraits]

/-- A class with the clauses `use B, A;` and `use A;` among its children. -/
def twoClauses : Node where
  kind := "class_declaration"
  start := 0
  stop := 2
  startPoint := ⟨0, 0⟩
  stopPoint := ⟨0, 2⟩
  children := [
    { kind := "use_declaration", start := 0, stop := 2, startPoint := ⟨0, 0⟩, stopPoint := ⟨0, 2⟩,
      children := [
        { kind := "name", start := 0, stop := 1, startPoint := ⟨0, 0⟩, stopPoint := ⟨0, 1⟩ },
        { kind := "name", start := 1, stop := 2, startPoint := ⟨0, 1⟩, stopPoint := ⟨0, 2⟩ }] },
    { kind := "use_declaration", start := 1, stop := 2, startPoint := ⟨0, 1⟩, stopPoint := ⟨0, 2⟩,
      children := [
        { kind := "name", start := 1, stop := 2, startPoint := ⟨0, 1⟩, stopPoint := ⟨0, 2⟩ }] }]

/-- A class with the clauses `use A;` and `use B;` in its body. -/
def bodyClauses : Node where
  kind := "class_declaration"
  start := 0
  stop := 2
  startPoint := ⟨0, 0⟩
  stopPoint := ⟨0, 2⟩
  children := [{
    kind := "declaration_list", start := 0, stop := 2, startPoint := ⟨0, 0⟩, stopPoint := ⟨0, 2⟩,
    field := some "body",
    children := [
      { kind := "use_declaration", start := 0, stop := 1, startPoint := ⟨0, 0⟩,
        stopPoint := ⟨0, 1⟩,
        children := [
          { kind := "name", start := 0, stop := 1, startPoint := ⟨0, 0⟩, stopPoint := ⟨0, 1⟩ }] },
      { kind := "use_declaration", start := 1, stop := 2, startPoint := ⟨0, 1⟩,
        stopPoint := ⟨0, 2⟩,
        children := [
          { kind := "name", start := 1, stop := 2, startPoint := ⟨0, 1⟩,
            stopPoint := ⟨0, 2⟩ }] }] }]

/-- The first class over `BA` and the second over `AB` have the same traits. -/
theorem traits_twoClauses :
    let source : ByteArray := ⟨#[66, 65]⟩
    let edited : ByteArray := ⟨#[65, 66]⟩
    TraitUse.Rearranged (twoClauses.clauseNames source) (bodyClauses.clauseNames edited) ∧
    twoClauses.Uses source "A" ∧ twoClauses.traits source = ["A", "B"] ∧
    bodyClauses.traits edited = ["A", "B"] := by
  intro source edited
  have hfirst : twoClauses.clauseNames source = [["B"] ++ ["A"], ["A"]] := by decide +kernel
  have hsecond : bodyClauses.clauseNames edited = [["A"], ["B"]] := by decide +kernel
  have hrearranged :
      TraitUse.Rearranged (twoClauses.clauseNames source) (bodyClauses.clauseNames edited) := by
    rw [hfirst, hsecond]
    -- the first clause is split, the order changed, and the repeated clause left out
    refine (TraitUse.Rearranged.split ["B"] ["A"] [["A"]]).trans ?_
    refine (TraitUse.Rearranged.perm (b := [["A"], ["A"], ["B"]]) (by decide)).trans ?_
    exact (TraitUse.Rearranged.repeated ["A"] [["B"]]).symm
  have hnames : twoClauses.clauseTraits source = ["B", "A", "A"] := by decide +kernel
  have huses : twoClauses.Uses source "A" := by
    rw [← mem_clauseTraits_iff, hnames]
    decide
  have htraits : twoClauses.traits source = ["A", "B"] := by
    rw [traits_of_uses ⟨"A", huses⟩, hnames]
    exact (Text.eq_sortTexts (by decide) (by decide)).symm
  obtain ⟨-, -, -, hcanonical⟩ := traits_canonical twoClauses source
  obtain ⟨hsame, -⟩ := hcanonical bodyClauses edited ⟨"A", huses⟩ hrearranged
  exact ⟨hrearranged, huses, htraits, hsame.trans htraits⟩

end Node

end PhpCatalog
