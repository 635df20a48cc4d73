/-
# The pre-order of a tree

The sites of a tree in pre-order: the root, and then, from the first child to the last, the sites
of the child's own tree.  The definition follows the tree and knows nothing of how it is walked.
It comes with an induction on sites, from the children of a node to the node itself.
-/
import Mathlib.Tactic.Lemma
import PhpCatalog.Catalog.Walk

namespace PhpCatalog

mutual

/-- The sites of a tree in pre-order, given the siblings before its root. -/
def Node.preorder (before : List Node) : Node → List Site
  | ⟨kind, start, stop, startPoint, stopPoint, extra, field, children⟩ =>
    ⟨⟨kind, start, stop, startPoint, stopPoint, extra, field, children⟩, before⟩ ::
      preorderAll [] children

/-- The sites of some sibling trees, one tree after the other. -/
def Node.preorderAll (before : List Node) : List Node → List Site
  | [] => []
  | n :: rest => n.preorder before ++ preorderAll (n :: before) rest

end

/-- The nodes of a tree in pre-order. -/
def Node.nodes (root : Node) : List Node :=
  (root.preorder []).map Site.node

namespace Site

/-- The sites of the tree below a site, the site itself first. -/
def preorder (s : Site) : List Site :=
  s.node.preorder s.before

lemma preorderAll_eq_flatMap (before nodes : List Node) :
    Node.preorderAll before nodes = (ofSiblings before nodes).flatMap preorder := by
  induction nodes generalizing before with
  | nil => rfl
  | cons n rest ih => rw [Node.preorderAll, ofSiblings, List.flatMap_cons, ih]; rfl

/-- A site comes first, and then the trees of its children in order. -/
lemma preorder_eq (s : Site) : s.preorder = s :: s.node.childSites.flatMap preorder := by
  obtain ⟨⟨kind, start, stop, startPoint, stopPoint, extra, field, children⟩, before⟩ := s
  rw [preorder, Node.preorder, preorderAll_eq_flatMap]
  rfl

/-- Among sites that wait, putting the children of the first in its place takes the first entry off
the pre-order that is still to come. -/
lemma preorder_pending (s : Site) (rest : List Site) :
    (s :: rest).flatMap preorder = s :: (s.node.childSites ++ rest).flatMap preorder := by
  rw [List.flatMap_cons, preorder_eq, List.flatMap_append, List.cons_append]

lemma mem_ofSiblings_node {before nodes : List Node} {c : Site} (h : c ∈ ofSiblings before nodes) :
    c.node ∈ nodes := by
  have := List.mem_map_of_mem (f := Site.node) h
  rwa [Catalog.map_node_ofSiblings] at this

lemma exists_childSite {n c : Node} (h : c ∈ n.children) : ∃ s ∈ n.childSites, s.node = c := by
  rw [← Catalog.map_node_ofSiblings [] n.children] at h
  exact List.mem_map.mp h

/-! ### Induction from the children to the node -/

lemma size_le_sizeAll {c : Node} {nodes : List Node} (h : c ∈ nodes) :
    c.size ≤ Node.sizeAll nodes := by
  induction nodes with
  | nil => simp at h
  | cons n rest ih =>
    rw [Node.sizeAll]
    rcases List.mem_cons.mp h with rfl | h
    · omega
    · have := ih h
      omega

lemma size_childSite_lt {s c : Site} (h : c ∈ s.node.childSites) : c.node.size < s.node.size := by
  have hle := size_le_sizeAll (mem_ofSiblings_node h)
  rw [Node.size_eq s.node]
  omega

/-- What passes from the children of every site to the site itself holds of every site. -/
theorem induction_children {motive : Site → Prop}
    (step : ∀ s : Site, (∀ c ∈ s.node.childSites, motive c) → motive s) (s : Site) : motive s :=
  step s fun c _ => induction_children step c
termination_by s.node.size
decreasing_by exact size_childSite_lt ‹_›

/-! ### The pre-order reaches every node -/

lemma mem_preorder_self (s : Site) : s ∈ s.preorder := by
  rw [preorder_eq]
  exact List.mem_cons_self

lemma mem_preorder_iff {s t : Site} :
    t ∈ s.preorder ↔ t = s ∨ ∃ c ∈ s.node.childSites, t ∈ c.preorder := by
  rw [preorder_eq, List.mem_cons, List.mem_flatMap]

/-- With a site, its children are in the pre-order. -/
lemma childSites_subset_preorder {s t : Site} (h : t ∈ s.preorder) :
    ∀ c ∈ t.node.childSites, c ∈ s.preorder := by
  induction s using induction_children with
  | step s ih =>
    intro c hc
    rcases mem_preorder_iff.mp h with rfl | ⟨d, hd, ht⟩
    · exact mem_preorder_iff.mpr (Or.inr ⟨c, hc, mem_preorder_self c⟩)
    · exact mem_preorder_iff.mpr (Or.inr ⟨d, hd, ih d hd ht c hc⟩)

/-- Every site below another one is the child of a site of its pre-order. -/
lemma eq_or_childSite_of_mem_preorder {s t : Site} (h : t ∈ s.preorder) :
    t = s ∨ ∃ u ∈ s.preorder, t ∈ u.node.childSites := by
  induction s using induction_children with
  | step s ih =>
    rcases mem_preorder_iff.mp h with rfl | ⟨c, hc, ht⟩
    · exact Or.inl rfl
    right
    rcases ih c hc ht with rfl | ⟨u, hu, htu⟩
    · exact ⟨s, mem_preorder_self s, hc⟩
    · exact ⟨u, mem_preorder_iff.mpr (Or.inr ⟨c, hc, hu⟩), htu⟩

/-- What stands before one of some siblings is a sibling too. -/
lemma mem_before_ofSiblings {before nodes : List Node} {c : Site} {m : Node}
    (h : c ∈ ofSiblings before nodes) (hm : m ∈ c.before) : m ∈ before ∨ m ∈ nodes := by
  induction nodes generalizing before with
  | nil => simp [ofSiblings] at h
  | cons n rest ih =>
    rcases List.mem_cons.mp h with rfl | h
    · exact Or.inl hm
    · rcases ih h with hbefore | hrest
      · rcases List.mem_cons.mp hbefore with rfl | hbefore
        · exact Or.inr List.mem_cons_self
        · exact Or.inl hbefore
      · exact Or.inr (List.mem_cons_of_mem _ hrest)

lemma length_flatMap_preorder {sites : List Site}
    (h : ∀ c ∈ sites, c.preorder.length = c.node.size) :
    (sites.flatMap preorder).length = Node.sizeAll (sites.map Site.node) := by
  induction sites with
  | nil => rfl
  | cons c rest ih =>
    rw [List.flatMap_cons, List.length_append, List.map_cons, Node.sizeAll,
      h c List.mem_cons_self, ih fun d hd => h d (List.mem_cons_of_mem _ hd)]

/-- The pre-order has one entry for each node. -/
lemma length_preorder (s : Site) : s.preorder.length = s.node.size := by
  induction s using induction_children with
  | step s ih =>
    rw [preorder_eq, List.length_cons, length_flatMap_preorder ih, Node.childSites,
      Catalog.map_node_ofSiblings, Node.size_eq]
    omega

end Site

namespace Node

/-- The nodes strictly inside a node, in pre-order. -/
def inner (n : Node) : List Node :=
  (n.childSites.flatMap Site.preorder).map Site.node

/-- The children of a node stand among the nodes inside it, in their order. -/
lemma children_sublist_inner (n : Node) : n.children.Sublist n.inner := by
  have hchild : ∀ sites : List Site,
      (sites.map Site.node).Sublist ((sites.flatMap Site.preorder).map Site.node) := by
    intro sites
    induction sites with
    | nil => exact List.Sublist.refl _
    | cons c rest ih =>
      rw [List.flatMap_cons, Site.preorder_eq, List.map_append, List.map_cons, List.map_cons]
      exact (ih.trans (List.sublist_append_right _ _)).cons_cons c.node
  have h := hchild n.childSites
  rwa [childSites, Catalog.map_node_ofSiblings] at h

/-- A node inside another one is a child of it or of a node inside it. -/
lemma mem_inner_cases {n c : Node} (h : c ∈ n.inner) :
    c ∈ n.children ∨ ∃ m ∈ n.inner, c ∈ m.children := by
  obtain ⟨s, hs, rfl⟩ := List.mem_map.mp h
  obtain ⟨t, ht, hst⟩ := List.mem_flatMap.mp hs
  rcases Site.eq_or_childSite_of_mem_preorder hst with rfl | ⟨u, hu, hsu⟩
  · exact Or.inl (Site.mem_ofSiblings_node ht)
  · have hinner : u.node ∈ n.inner := List.mem_map_of_mem (List.mem_flatMap.mpr ⟨t, ht, hu⟩)
    exact Or.inr ⟨u.node, hinner, Site.mem_ofSiblings_node hsu⟩

lemma mem_nodes_of_site {root : Node} {s : Site} (h : s ∈ root.preorder []) :
    s.node ∈ root.nodes :=
  List.mem_map_of_mem h

/-- The children of the node at a site are nodes of the tree. -/
lemma mem_nodes_of_child {root c : Node} {s : Site} (h : s ∈ root.preorder [])
    (hc : c ∈ s.node.children) : c ∈ root.nodes := by
  obtain ⟨t, ht, rfl⟩ := Site.exists_childSite hc
  exact mem_nodes_of_site (Site.childSites_subset_preorder (s := ⟨root, []⟩) h t ht)

/-- The nodes of a tree are closed under taking children. -/
lemma mem_nodes_trans {root n c : Node} (h : n ∈ root.nodes) (hc : c ∈ n.children) :
    c ∈ root.nodes := by
  obtain ⟨s, hs, rfl⟩ := List.mem_map.mp h
  exact mem_nodes_of_child hs hc

/-- What stands before a site are nodes of the tree. -/
lemma mem_nodes_of_before {root m : Node} {s : Site} (h : s ∈ root.preorder [])
    (hm : m ∈ s.before) : m ∈ root.nodes := by
  rcases Site.eq_or_childSite_of_mem_preorder (s := ⟨root, []⟩) h with rfl | ⟨u, hu, hs⟩
  · simp at hm
  · rcases Site.mem_before_ofSiblings hs hm with hnil | hchild
    · simp at hnil
    · exact mem_nodes_of_child hu hchild

end Node

end PhpCatalog
