/-
# Texts that do not matter to a catalog

A catalog depends on its source only through the size of the source and the bytes in the relevant
nodes of the tree.  So a change to bodies, literals and expressions that moves no span leaves every
concept, every error and the log as they were.

One visit reads relevant nodes only (`Agree.visit_eq`), and a walk is the same for two sources if
every visit of the pre-order is (`walkFrom_congr`).
-/
import PhpCatalog.Proofs.Declaration.Agreement
import PhpCatalog.Proofs.Catalog.Walk

namespace PhpCatalog

variable {root : Node} {source other : ByteArray}

/-- Sources that agree on a tree give the same visit of each of its sites. -/
lemma Agree.visit_eq {s : Site} (h : Agree root source other) (hs : s ∈ root.preorder [])
    (filePath : String) : Catalog.visit s source filePath = Catalog.visit s other filePath := by
  rw [Catalog.visit, Catalog.visit, h.read_eq hs]

namespace Catalog

/-- If every visit that is still to come is the same, so is the walk. -/
lemma walkFrom_congr {filePath : String} {found : Catalog} {sites : List Site}
    (h : ∀ s ∈ sites.flatMap Site.preorder, visit s source filePath = visit s other filePath) :
    walkFrom source filePath found sites = walkFrom other filePath found sites := by
  induction found, sites using walkFrom.induct source filePath with
  | case1 found => rw [walkFrom, walkFrom]
  | case2 found s rest new e hstop =>
    rw [Site.preorder_pending] at h
    have hvisit := h s List.mem_cons_self
    have hstop' : (visit s source filePath).stop = some e := hstop
    rw [walkFrom, walkFrom, ← hvisit, hstop']
  | case3 found s rest new hstop ih =>
    rw [Site.preorder_pending] at h
    have hvisit := h s List.mem_cons_self
    have hstop' : (visit s source filePath).stop = none := hstop
    have hrest := ih fun t ht => h t (List.mem_cons_of_mem _ ht)
    rw [walkFrom, walkFrom, ← hvisit, hstop']
    exact hrest

/-- **Only relevant texts matter.**  Two sources of one size that have the same bytes inside every
relevant node of a tree give the same walk: the same concepts, errors and log, and the same end. -/
theorem walkOnto_eq_of_agree (initial : List Concept) (root : Node) (filePath : String)
    (size_eq : source.size = other.size)
    (sameBytes : ∀ n ∈ root.nodes, n.Relevant source → n.SameBytes source other) :
    walkOnto initial root source filePath = walkOnto initial root other filePath := by
  have hagree : Agree root source other := ⟨size_eq, sameBytes⟩
  rw [walkOnto, walkOnto]
  apply walkFrom_congr
  intro s hs
  exact hagree.visit_eq (by simpa [Site.preorder] using hs) filePath

/-- The class `A` with the trait `T`, and in its body a method `f` with a body of one byte. -/
def classWithMethod : Node where
  kind := "class_declaration"
  start := 0
  stop := 7
  startPoint := ⟨0, 0⟩
  stopPoint := ⟨0, 7⟩
  children := [
    { kind := "name", start := 0, stop := 1, startPoint := ⟨0, 0⟩, stopPoint := ⟨0, 1⟩,
      field := some "name" },
    { kind := "use_declaration", start := 2, stop := 3, startPoint := ⟨0, 2⟩,
      stopPoint := ⟨0, 3⟩,
      children := [{
        kind := "name", start := 2, stop := 3, startPoint := ⟨0, 2⟩, stopPoint := ⟨0, 3⟩ }] },
    { kind := "declaration_list", start := 3, stop := 7, startPoint := ⟨0, 3⟩,
      stopPoint := ⟨0, 7⟩, field := some "body",
      children := [{
        kind := "method_declaration", start := 4, stop := 6, startPoint := ⟨0, 4⟩,
        stopPoint := ⟨0, 6⟩,
        children := [
          { kind := "name", start := 4, stop := 5, startPoint := ⟨0, 4⟩, stopPoint := ⟨0, 5⟩,
            field := some "name" },
          { kind := "compound_statement", start := 5, stop := 6, startPoint := ⟨0, 5⟩,
            stopPoint := ⟨0, 6⟩, field := some "body" }] }] }]

/-- Another body of the method changes the text of the class, which names its trait in a clause,
and nothing in the catalog. -/
theorem walkOnto_editedMethod :
    -- the bytes of `A T{f1}` and `A T{f2}`
    let source : ByteArray := ⟨#[65, 32, 84, 123, 102, 49, 125]⟩
    let other : ByteArray := ⟨#[65, 32, 84, 123, 102, 50, 125]⟩
    classWithMethod.chars source ≠ classWithMethod.chars other ∧ source.size = other.size ∧
    (∀ n ∈ classWithMethod.nodes, n.Relevant source → n.SameBytes source other) ∧
    walkOnto [] classWithMethod source "a.php" = walkOnto [] classWithMethod other "a.php" ∧
    ((classWithMethod.preorder []).flatMap (·.emitted source "a.php")).map
      (fun c => (c.name, c.metadata.get? "traits")) = [("A", some "T"), ("f", none)] := by
  intro source other
  have size_eq : source.size = other.size := by decide
  have sameBytes : ∀ n ∈ classWithMethod.nodes,
      n.Relevant source → n.SameBytes source other := by decide +kernel
  exact ⟨by decide +kernel, size_eq, sameBytes,
    walkOnto_eq_of_agree [] classWithMethod "a.php" size_eq sameBytes, by decide +kernel⟩

end Catalog

end PhpCatalog
