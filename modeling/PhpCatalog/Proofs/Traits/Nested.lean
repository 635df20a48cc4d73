/-
# Traits of the classes inside a class

A class can hold another one, such as an anonymous class that one of its methods returns.  A trait
that only the inner class uses belongs to the inner class.  As long as the outer class names traits
of its own, it takes none over.  But if it names none, its whole text is searched, the text of the
inner class with it, and then the layout decides: the outer class takes over what the inner class
uses exactly if the clause stands at the start of a line (`Node.traits_of_onlyInside`).
-/
import PhpCatalog.Proofs.Syntax.Preorder
import PhpCatalog.Proofs.Traits.Clauses
import PhpCatalog.Proofs.Traits.Search

namespace PhpCatalog.Node

/-- A trait-use clause somewhere inside a class names a trait. -/
def UsesInside (n : Node) (source : ByteArray) (name : String) : Prop :=
  ∃ clause ∈ n.inner, clause.kind ∈ TraitUse.clauseKinds ∧ clause.HasName source name

/-- A trait is named inside a class, but in no clause of the class itself. -/
def OnlyInside (n : Node) (source : ByteArray) (name : String) : Prop :=
  n.UsesInside source name ∧ ¬ n.Uses source name

variable {n : Node} {source : ByteArray} {name : String}

lemma usesInside_iff :
    n.UsesInside source name ↔ name ∈ TraitUse.inClauses source n.inner :=
  mem_inClauses_iff.symm

/-- A node that has a clause with a name among its children has the trait. -/
lemma mem_traits_of_child {clause : Node} (hclause : clause ∈ n.children)
    (hkind : clause.kind ∈ TraitUse.clauseKinds) (hname : clause.HasName source name) :
    name ∈ n.traits source :=
  mem_traits_iff.mpr (Or.inl ⟨clause, Or.inl hclause, hkind, hname⟩)

/-- **When the trait of an inner class is taken over.**  A trait that is named only inside a class
is a trait of a node inside.  It is among the traits of the class as well exactly if the class names
no trait of its own and a clause with the name stands at the start of a line in its text. -/
theorem traits_of_onlyInside (h : n.OnlyInside source name) :
    (∃ m ∈ n.inner, name ∈ m.traits source) ∧
    (name ∈ n.traits source ↔
      (∀ other, ¬ n.Uses source other) ∧ TraitUse.UsedIn true (n.chars source) name.toList) := by
  obtain ⟨⟨clause, hinside, hkind, hname⟩, hnot⟩ := h
  constructor
  · rcases mem_inner_cases hinside with hown | ⟨m, hm, hclause⟩
    · exact absurd ⟨clause, Or.inl hown, hkind, hname⟩ hnot
    · exact ⟨m, hm, mem_traits_of_child hclause hkind hname⟩
  · rw [mem_traits_iff, TraitUse.mem_inText_iff]
    exact or_iff_right hnot

/-- A class with a method whose body is that of an anonymous class with the clause `use T;`. -/
def nestedUse : Node where
  kind := "class_declaration"
  start := 0
  stop := 9
  startPoint := ⟨0, 0⟩
  stopPoint := ⟨0, 9⟩
  children := [{
    kind := "declaration_list", start := 0, stop := 9, startPoint := ⟨0, 0⟩, stopPoint := ⟨0, 9⟩,
    field := some "body",
    children := [{
      kind := "method_declaration", start := 0, stop := 9, startPoint := ⟨0, 0⟩,
      stopPoint := ⟨0, 9⟩,
      children := [{
        kind := "declaration_list", start := 0, stop := 9, startPoint := ⟨0, 0⟩,
        stopPoint := ⟨0, 9⟩,
        children := [{
          kind := "use_declaration", start := 2, stop := 8, startPoint := ⟨0, 2⟩,
          stopPoint := ⟨0, 8⟩,
          children := [
            { kind := "name", start := 6, stop := 7, startPoint := ⟨0, 6⟩,
              stopPoint := ⟨0, 7⟩ }] }] }] }] }]

/-- Over `{ use T;}` the outer class has no trait.  Over the same text with a line break for the
first blank it takes over `T`. -/
theorem traits_nestedUse :
    let oneLine : ByteArray := ⟨#[123, 32, 117, 115, 101, 32, 84, 59, 125]⟩
    let ownLine : ByteArray := ⟨#[123, 10, 117, 115, 101, 32, 84, 59, 125]⟩
    (nestedUse.OnlyInside oneLine "T" ∧ "T" ∉ nestedUse.traits oneLine) ∧
    (nestedUse.OnlyInside ownLine "T" ∧ "T" ∈ nestedUse.traits ownLine) := by
  intro oneLine ownLine
  have honeLine : nestedUse.OnlyInside oneLine "T" := by
    refine ⟨usesInside_iff.mpr (by decide +kernel), ?_⟩
    exact clauseTraits_eq_nil_iff.mp (by decide +kernel) "T"
  have hownLine : nestedUse.OnlyInside ownLine "T" := by
    refine ⟨usesInside_iff.mpr (by decide +kernel), ?_⟩
    exact clauseTraits_eq_nil_iff.mp (by decide +kernel) "T"
  refine ⟨⟨honeLine, ?_⟩, hownLine, ?_⟩
  · rw [(traits_of_onlyInside honeLine).2, ← TraitUse.mem_inText_iff]
    rintro ⟨-, hused⟩
    exact absurd hused (by decide +kernel)
  · rw [(traits_of_onlyInside hownLine).2, ← TraitUse.mem_inText_iff]
    exact ⟨clauseTraits_eq_nil_iff.mp (by decide +kernel), by decide +kernel⟩

end PhpCatalog.Node
