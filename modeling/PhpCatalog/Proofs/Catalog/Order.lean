/-
# Concepts come in source order

If the nodes of a tree start in the order of its pre-order, so do the concepts of its catalog.  The
declarators of a bundle are cataloged when the bundle is visited, before the nodes inside it are.
They still come in order, because nothing else inside a bundle declares anything: over a whole tree,
the declarators in the order in which they are read are a part of the pre-order
(`Site.declarators_sublist`).  A declaration without a name, one that cannot be read, or lines that
end the walk only leave entries out.
-/
import Mathlib.Data.List.Flatten
import Mathlib.Data.Prod.Lex
import PhpCatalog.Proofs.Catalog.Walk
import Std.Data.String.ToNat

namespace PhpCatalog

/-- The place of a point in the order of a source: by row, then by column. -/
def Point.place (p : Point) : ℕ ×ₗ ℕ :=
  toLex (p.row, p.column)

/-- The line and the column of a point, both counted from one. -/
def Point.shown (p : Point) : ℤ ×ₗ ℕ :=
  toLex (((p.row + 1 : ℕ) : ℤ), p.column + 1)

/-- The line and the column where a concept starts; the column is the number in its metadata. -/
def Concept.start? (c : Concept) : Option (ℤ ×ₗ ℕ) :=
  ((c.metadata.get? "start_column").bind String.toNat?).map fun column =>
    toLex (c.lines.start, column)

lemma Point.shown_le_shown {p q : Point} (h : p.place ≤ q.place) : p.shown ≤ q.shown := by
  rw [place, place, Prod.Lex.toLex_le_toLex] at h
  rw [shown, shown, Prod.Lex.toLex_le_toLex]
  dsimp only at h ⊢
  omega

/-! ### Where the concepts of a site start -/

variable {source : ByteArray} {filePath : String}

lemma Node.start?_of_concept {n : Node} {s : Site} {label : String} {c : Concept}
    (h : n.concept s source filePath label = .ok (some c)) :
    c.start? = some n.startPoint.shown := by
  obtain ⟨name, lines, -, hstart, -, rfl⟩ := Node.built_of_concept h
  have hcolumn : (n.built s source filePath label name lines).metadata.get? "start_column" =
      some (toString (n.startPoint.column + 1)) := rfl
  have hnumber : (toString (n.startPoint.column + 1)).toNat? = some (n.startPoint.column + 1) :=
    Nat.toNat?_repr _
  rw [Concept.start?, hcolumn, Option.bind_some, hnumber, Option.map_some]
  rw [show (n.built s source filePath label name lines).lines.start = _ from hstart]
  rfl

/-- The concepts of some declarators start where some of the declarators do, in order. -/
lemma starts_readDeclarators {s : Site} {label : String} {nodes : List Node} {cs : List Concept}
    (h : (readDeclarators s source filePath label nodes).result = .ok cs) :
    ∃ ns : List Node, ns.Sublist nodes ∧
      cs.map Concept.start? = ns.map fun n => some n.startPoint.shown := by
  refine ⟨nodes.filter fun n => (n.name? source filePath).isSome, List.filter_sublist, ?_⟩
  have hstarts := (forall₂_readDeclarators h).imp fun n c hc => Node.start?_of_concept hc
  rw [← List.forall₂_eq_eq_eq, List.forall₂_map_left_iff, List.forall₂_map_right_iff]
  exact hstarts.flip

namespace Site

variable (source filePath)

lemma starts_emitted (s : Site) :
    ∃ ns : List Node, ns.Sublist s.declarators ∧
      (s.emitted source filePath).map Concept.start? = ns.map fun n => some n.startPoint.shown := by
  rcases hresult : (s.read source filePath).result with e | cs
  · exact ⟨[], List.nil_sublist _, by simp [emitted, hresult]⟩
  have hcs : s.emitted source filePath = cs := by simp [emitted, hresult]
  rw [hcs]
  rcases hrule : declarationRule? s.node.kind with _ | rule
  · rw [read_of_no_rule hrule] at hresult
    obtain rfl := Except.ok.inj hresult
    exact ⟨[], List.nil_sublist _, rfl⟩
  · rw [read_of_rule hrule] at hresult
    exact starts_readDeclarators hresult

lemma starts_flatMap_emitted (sites : List Site) :
    ∃ ns : List Node, ns.Sublist (sites.flatMap declarators) ∧
      (sites.flatMap (·.emitted source filePath)).map Concept.start? =
        ns.map fun n => some n.startPoint.shown := by
  induction sites with
  | nil => exact ⟨[], List.Sublist.refl _, rfl⟩
  | cons s rest ih =>
    obtain ⟨first, hfirst, hstarts⟩ := starts_emitted source filePath s
    obtain ⟨others, hothers, hrest⟩ := ih
    refine ⟨first ++ others, hfirst.append hothers, ?_⟩
    rw [List.flatMap_cons, List.map_append, List.map_append, hstarts, hrest]

/-! ### Declarators in the pre-order -/

/-- The kinds of nodes that bundle declarators. -/
def bundleKinds : List String := ["property_declaration", "const_declaration"]

lemma kind_of_bundle {kind label : String} {kinds : List String}
    (h : declarationRule? kind = some ⟨label, some kinds⟩) : kind ∈ bundleKinds := by
  unfold declarationRule? at h
  split at h <;> first | decide | simp at h

lemma declarators_eq_nil {s : Site} (h : declarationRule? s.node.kind = none) :
    s.declarators = [] := by
  simp only [declarators, h]

/-- In a tree whose bundles hold no declarations but their declarators, the declarators come in
pre-order, each at most once. -/
lemma declarators_sublist (s : Site)
    (h : ∀ t ∈ s.preorder, t.node.kind ∈ bundleKinds →
      ∀ m ∈ t.node.inner, declarationRule? m.kind = none) :
    (s.preorder.flatMap declarators).Sublist (s.preorder.map Site.node) := by
  induction s using induction_children with
  | step s ih =>
    have hbelow : ((s.node.childSites.flatMap preorder).flatMap declarators).Sublist
        s.node.inner := by
      rw [Node.inner, List.flatMap_assoc, List.map_flatMap]
      apply List.Sublist.flatMap_right
      intro c hc
      exact ih c hc fun t ht => h t (mem_preorder_iff.mpr (Or.inr ⟨c, hc, ht⟩))
    rw [preorder_eq, List.flatMap_cons, List.map_cons]
    rcases hrule : declarationRule? s.node.kind with _ | ⟨label, _ | kinds⟩
    · rw [declarators_eq_nil hrule]
      exact hbelow.cons s.node
    · -- the node is its own declarator
      have hself : s.declarators = [s.node] := by simp only [declarators, hrule]
      rw [hself]
      exact hbelow.cons_cons s.node
    · -- a bundle: its declarators are children, and the nodes inside it declare nothing
      have hinner := h s (mem_preorder_self s) (kind_of_bundle hrule)
      have hnone : (s.node.childSites.flatMap preorder).flatMap declarators = [] := by
        rw [List.flatMap_eq_nil_iff]
        intro t ht
        exact declarators_eq_nil (hinner t.node (List.mem_map_of_mem ht))
      have hself : s.declarators = s.node.children.filter fun c => kinds.contains c.kind := by
        simp only [declarators, hrule]
      rw [hnone, hself, List.append_nil]
      exact (List.filter_sublist.trans s.node.children_sublist_inner).cons s.node

end Site

namespace Catalog

/-- **Concepts come in source order.**  A walk adds what the sites of a tree emit in pre-order, up
to the first with lines in the wrong order.  If the nodes of the tree, in pre-order, start one after
the other, and no node strictly inside a bundle is a declaration of its own, these concepts start
one after the other too, by line and then by column. -/
theorem walkOnto_concepts_ordered (source : ByteArray) (filePath : String)
    (initial : List Concept) (root : Node)
    (ordered : (root.nodes.map fun n => n.startPoint.place).Pairwise (· ≤ ·))
    (bundles : ∀ n ∈ root.nodes, n.kind ∈ ["property_declaration", "const_declaration"] →
      ∀ m ∈ n.inner, declarationRule? m.kind = none) :
    let new := (upToWrong source filePath (root.preorder [])).flatMap (·.emitted source filePath)
    (walkOnto initial root source filePath).found.concepts = initial ++ new ∧
      ∃ starts : List (ℤ ×ₗ ℕ),
        new.map Concept.start? = starts.map some ∧ starts.Pairwise (· ≤ ·) := by
  intro new
  obtain ⟨ns, hns, hstarts⟩ := Site.starts_flatMap_emitted source filePath
    (upToWrong source filePath (root.preorder []))
  refine ⟨congrArg (·.found.concepts) (walkOnto_eq source filePath initial root),
    ns.map fun n => n.startPoint.shown, ?_, ?_⟩
  · rw [List.map_map]
    exact hstarts
  -- the declarators that became concepts are some of the nodes, in pre-order
  have hsub : ns.Sublist root.nodes := by
    refine hns.trans (List.Sublist.trans ?_ (Site.declarators_sublist ⟨root, []⟩ ?_))
    · exact (upToWrong_sublist source filePath _).flatMap _
    · intro t ht
      exact bundles t.node (Node.mem_nodes_of_site ht)
  have hplaces : (ns.map fun n => n.startPoint.place).Pairwise (· ≤ ·) :=
    ordered.sublist (hsub.map _)
  rw [List.pairwise_map] at hplaces ⊢
  exact hplaces.imp Point.shown_le_shown

/-- The function `f`, a bundle of the properties `a` and `b` on the next row, a class that cannot be
read, and inside it the function `g`. -/
def bundleProgram : Node where
  kind := "program"
  start := 0
  stop := 7
  startPoint := ⟨0, 0⟩
  stopPoint := ⟨2, 1⟩
  children := [
    { kind := "function_definition", start := 0, stop := 1, startPoint := ⟨0, 0⟩,
      stopPoint := ⟨0, 1⟩,
      children := [{
        kind := "name", start := 0, stop := 1, startPoint := ⟨0, 0⟩, stopPoint := ⟨0, 1⟩,
        field := some "name" }] },
    { kind := "property_declaration", start := 2, stop := 5, startPoint := ⟨1, 0⟩,
      stopPoint := ⟨1, 3⟩,
      children := [
        { kind := "property_element", start := 2, stop := 3, startPoint := ⟨1, 0⟩,
          stopPoint := ⟨1, 1⟩,
          children := [{
            kind := "variable_name", start := 2, stop := 3, startPoint := ⟨1, 0⟩,
            stopPoint := ⟨1, 1⟩ }] },
        { kind := "property_element", start := 4, stop := 5, startPoint := ⟨1, 2⟩,
          stopPoint := ⟨1, 3⟩,
          children := [{
            kind := "variable_name", start := 4, stop := 5, startPoint := ⟨1, 2⟩,
            stopPoint := ⟨1, 3⟩ }] }] },
    { kind := "class_declaration", start := 6, stop := 9, startPoint := ⟨2, 0⟩,
      stopPoint := ⟨2, 3⟩,
      children := [{
        kind := "function_definition", start := 6, stop := 7, startPoint := ⟨2, 0⟩,
        stopPoint := ⟨2, 1⟩,
        children := [{
          kind := "name", start := 6, stop := 7, startPoint := ⟨2, 0⟩, stopPoint := ⟨2, 1⟩,
          field := some "name" }] }] }]

/-- The walk adds the four concepts of the program, and they start in order. -/
theorem walkOnto_bundleProgram :
    -- the rows `f`, `a b` and `g`
    let source : ByteArray := ⟨#[102, 10, 97, 32, 98, 10, 103]⟩
    (bundleProgram.nodes.map fun n => n.startPoint.place).Pairwise (· ≤ ·) ∧
    (∀ n ∈ bundleProgram.nodes, n.kind ∈ ["property_declaration", "const_declaration"] →
      ∀ m ∈ n.inner, declarationRule? m.kind = none) ∧
    (∃ starts : List (ℤ ×ₗ ℕ),
      (walkOnto [] bundleProgram source "a.php").found.concepts.map Concept.start? =
        starts.map some ∧ starts.Pairwise (· ≤ ·)) ∧
    (walkOnto [] bundleProgram source "a.php").found.concepts.map
      (fun c => (c.name, c.lines.start, c.metadata.get? "start_column")) =
        [("f", 1, some "1"), ("a", 2, some "1"), ("b", 2, some "3"), ("g", 3, some "1")] := by
  intro source
  have ordered : (bundleProgram.nodes.map fun n => n.startPoint.place).Pairwise (· ≤ ·) := by
    decide +kernel
  have bundles : ∀ n ∈ bundleProgram.nodes,
      n.kind ∈ ["property_declaration", "const_declaration"] →
      ∀ m ∈ n.inner, declarationRule? m.kind = none := by decide +kernel
  obtain ⟨hwalk, hstarts⟩ :=
    walkOnto_concepts_ordered source "a.php" [] bundleProgram ordered bundles
  rw [List.nil_append] at hwalk
  rw [hwalk]
  exact ⟨ordered, bundles, hstarts, by decide +kernel⟩

end Catalog

end PhpCatalog
