/-
# The walk follows the pre-order

A walk keeps a list of sites that wait.  The trees below them, one after the other, are exactly the
part of the pre-order that is still to come: taking a site and putting its children in its place
takes the first entry off that part.  So the walk visits the pre-order from its start, up to the
first site that declares lines in the wrong order, and adds up what these sites contribute
(`walkFrom_eq`).

* Without such a site the walk is the sum over the whole pre-order, and a site that cannot be
  interpreted adds its fault and takes nothing from the sites below it (`walkOnto_eq_preorder`).
* A walk ends early exactly if there is such a site, and then keeps what came before it
  (`walkOnto_ends_at_first_reversed`).
-/
import PhpCatalog.Proofs.Declaration.Reading
import PhpCatalog.Proofs.Syntax.Preorder

namespace PhpCatalog

namespace Site

variable (s : Site) (source : ByteArray) (filePath : String)

/-- The concepts of a site; a site that cannot be read has none. -/
def emitted : List Concept :=
  match (s.read source filePath).result with
  | .ok concepts => concepts
  | .error _ => []

/-- The fault of a site that cannot be interpreted. -/
def fault? : Option NodeFault :=
  match (s.read source filePath).result with
  | .error (.fault f) => some f
  | _ => none

/-- The lines in the wrong order that a site declares. -/
def wrongLines? : Option InvalidLineRange :=
  match (s.read source filePath).result with
  | .error (.lines e) => some e
  | _ => none

/-- What the log says about a site. -/
def records : List Record :=
  (s.read source filePath).log ++
    ((s.fault? source filePath).map (Catalog.failedRecord s.node filePath)).toList

lemma visit_eq :
    Catalog.visit s source filePath =
      ⟨⟨s.emitted source filePath, (s.fault? source filePath).toList, s.records source filePath⟩,
        s.wrongLines? source filePath⟩ := by
  rcases h : (s.read source filePath).result with (f | e) | concepts <;>
    simp [Catalog.visit, emitted, fault?, wrongLines?, records, h]

/-- A concept is what a site makes of one of its declarators. -/
def Declares (n : Node) (c : Concept) : Prop :=
  ∃ rule, declarationRule? s.node.kind = some rule ∧ n ∈ s.declarators ∧
    n.concept s source filePath rule.label = .ok (some c)

variable {s source filePath} in
/-- A site emits what it makes of its declarators. -/
lemma exists_declares_of_emitted {c : Concept} (h : c ∈ s.emitted source filePath) :
    ∃ n, s.Declares source filePath n c := by
  rcases hresult : (s.read source filePath).result with e | cs
  · simp [emitted, hresult] at h
  have hc : c ∈ cs := by simpa [emitted, hresult] using h
  rcases hrule : declarationRule? s.node.kind with _ | rule
  · rw [read_of_no_rule hrule] at hresult
    obtain rfl := Except.ok.inj hresult
    simp at hc
  · rw [read_of_rule hrule] at hresult
    obtain ⟨n, hn, hconcept⟩ := exists_declarator hresult c hc
    exact ⟨n, rule, hrule, hn, hconcept⟩

lemma wrongLines?_eq_some_iff {e : InvalidLineRange} :
    s.wrongLines? source filePath = some e ↔
      ∃ n, s.ReversedAt source filePath n ∧ e = n.reversedLines := by
  rw [← read_eq_lines_iff]
  rcases h : (s.read source filePath).result with (f | e') | concepts <;>
    simp [wrongLines?, h]

lemma wrongLines?_eq_none_iff :
    s.wrongLines? source filePath = none ↔ ∀ n, ¬ s.ReversedAt source filePath n := by
  constructor
  · intro h n hn
    have := (wrongLines?_eq_some_iff s source filePath).mpr ⟨n, hn, rfl⟩
    simp [h] at this
  · intro h
    rcases hs : s.wrongLines? source filePath with _ | e
    · rfl
    · obtain ⟨n, hn, -⟩ := (wrongLines?_eq_some_iff s source filePath).mp hs
      exact absurd hn (h n)

end Site

namespace Catalog

variable (source : ByteArray) (filePath : String)

/-- What some sites contribute, added up in order. -/
def ofSites (sites : List Site) : Catalog :=
  ⟨sites.flatMap (·.emitted source filePath), sites.filterMap (·.fault? source filePath),
    sites.flatMap (·.records source filePath)⟩

/-- The sites up to the first one that declares lines in the wrong order, that one included. -/
def upToWrong : List Site → List Site
  | [] => []
  | s :: rest => if (s.wrongLines? source filePath).isSome then [s] else s :: upToWrong rest

lemma append_assoc (a b c : Catalog) : (a.append b).append c = a.append (b.append c) := by
  simp [append, List.append_assoc]

@[simp] lemma append_ofSites_nil (found : Catalog) :
    found.append (ofSites source filePath []) = found := by
  simp [append, ofSites]

lemma ofSites_cons (s : Site) (rest : List Site) :
    ofSites source filePath (s :: rest) =
      (visit s source filePath).found.append (ofSites source filePath rest) := by
  rw [Site.visit_eq]
  rcases h : s.fault? source filePath with _ | f <;> simp [ofSites, append, h]

lemma upToWrong_eq_self {sites : List Site}
    (h : ∀ s ∈ sites, s.wrongLines? source filePath = none) :
    upToWrong source filePath sites = sites := by
  induction sites with
  | nil => rfl
  | cons s rest ih =>
    have hs := h s List.mem_cons_self
    rw [upToWrong, hs, ih fun t ht => h t (List.mem_cons_of_mem _ ht)]
    rfl

lemma upToWrong_append {done rest : List Site} {s : Site}
    (h : ∀ t ∈ done, t.wrongLines? source filePath = none)
    (hs : s.wrongLines? source filePath ≠ none) :
    upToWrong source filePath (done ++ s :: rest) = done ++ [s] := by
  induction done with
  | nil => simp [upToWrong, Option.isSome_iff_ne_none.mpr hs]
  | cons t done ih =>
    have ht := h t List.mem_cons_self
    rw [List.cons_append, upToWrong, ht, ih fun u hu => h u (List.mem_cons_of_mem _ hu)]
    rfl

lemma upToWrong_sublist (sites : List Site) : (upToWrong source filePath sites).Sublist sites := by
  induction sites with
  | nil => simp [upToWrong]
  | cons s rest ih =>
    unfold upToWrong
    split
    · exact (List.nil_sublist rest).cons_cons s
    · exact ih.cons_cons s

/-- **The stack invariant.**  Whatever has been found and whichever sites wait, the walk goes on
to visit the trees below those sites in pre-order, up to the first lines in the wrong order. -/
theorem walkFrom_eq (found : Catalog) (sites : List Site) :
    walkFrom source filePath found sites =
      ⟨found.append (ofSites source filePath
          (upToWrong source filePath (sites.flatMap Site.preorder))),
        (sites.flatMap Site.preorder).findSome? (·.wrongLines? source filePath)⟩ := by
  induction found, sites using walkFrom.induct source filePath with
  | case1 found => simp [walkFrom, upToWrong]
  | case2 found s rest new e hstop =>
    -- the site in front ends the walk, and cuts the pre-order behind itself
    have hwrong : s.wrongLines? source filePath = some e := by
      rw [← hstop, show new = visit s source filePath from rfl, Site.visit_eq]
    rw [walkFrom, Site.preorder_pending]
    simp [upToWrong, hwrong, ofSites_cons, Site.visit_eq]
  | case3 found s rest new hstop ih =>
    -- the children of the site take its place, and the rest of the pre-order stays the same
    have hwrong : s.wrongLines? source filePath = none := by
      rw [← hstop, show new = visit s source filePath from rfl, Site.visit_eq]
    rw [walkFrom, Site.preorder_pending]
    simp only [show (visit s source filePath).stop = none from hstop]
    rw [ih, upToWrong, List.findSome?_cons, hwrong, append_assoc, if_neg (by simp), ofSites_cons]

/-- A walk of one tree. -/
lemma walkOnto_eq (initial : List Concept) (root : Node) :
    walkOnto initial root source filePath =
      ⟨append { concepts := initial }
          (ofSites source filePath (upToWrong source filePath (root.preorder []))),
        (root.preorder []).findSome? (·.wrongLines? source filePath)⟩ := by
  rw [walkOnto, walkFrom_eq]
  simp [Site.preorder]

lemma walkOnto_of_forall_none (initial : List Concept) {root : Node}
    (h : ∀ s ∈ root.preorder [], s.wrongLines? source filePath = none) :
    walkOnto initial root source filePath =
      ⟨⟨initial ++ (root.preorder []).flatMap (·.emitted source filePath),
        (root.preorder []).filterMap (·.fault? source filePath),
        (root.preorder []).flatMap (·.records source filePath)⟩, none⟩ := by
  rw [walkOnto_eq, upToWrong_eq_self source filePath h, List.findSome?_eq_none_iff.mpr h]
  simp [append, ofSites]

variable {source filePath}

/-- Where every node ends on the row it starts on or a later one, no site has lines in the wrong
order. -/
lemma not_reversedAt_of_rows {root : Node}
    (rows : ∀ n ∈ root.nodes, n.startPoint.row ≤ n.stopPoint.row) :
    ∀ s ∈ root.preorder [], ∀ n, ¬ s.ReversedAt source filePath n := by
  rintro s hs n ⟨pre, post, hsplit, -, hrev⟩
  have hn : n ∈ s.declarators := by simp [hsplit]
  have hmem : n ∈ root.nodes := by
    rcases Site.mem_declarators hn with rfl | hchild
    · exact Node.mem_nodes_of_site hs
    · exact Node.mem_nodes_of_child hs hchild
  have hlt := hrev.2
  have hle := rows n hmem
  omega

variable (source filePath)

/-- **The walk is the recursive pre-order.**  If no node ends on an earlier row than it starts on,
the walk ends on its own.  It adds to the concepts that are there what each site of the pre-order
emits, and its errors are the faults of the sites that cannot be interpreted; each node has one
entry in the pre-order. -/
theorem walkOnto_eq_preorder (initial : List Concept) (root : Node)
    (rows : ∀ n ∈ root.nodes, n.startPoint.row ≤ n.stopPoint.row) :
    walkOnto initial root source filePath =
      ⟨⟨initial ++ (root.preorder []).flatMap (·.emitted source filePath),
        (root.preorder []).filterMap (·.fault? source filePath),
        (root.preorder []).flatMap (·.records source filePath)⟩, none⟩ ∧
    (root.preorder []).length = root.size := by
  refine ⟨walkOnto_of_forall_none source filePath initial ?_, Site.length_preorder ⟨root, []⟩⟩
  intro s hs
  rw [Site.wrongLines?_eq_none_iff]
  exact not_reversedAt_of_rows rows s hs

/-- A class whose bytes lie outside the source, with a method in it. -/
def malformedClass : Node where
  kind := "class_declaration"
  start := 0
  stop := 9
  startPoint := ⟨0, 0⟩
  stopPoint := ⟨0, 9⟩
  children := [{
    kind := "method_declaration", start := 0, stop := 1, startPoint := ⟨0, 0⟩, stopPoint := ⟨0, 1⟩,
    children := [{
      kind := "name", start := 0, stop := 1, startPoint := ⟨0, 0⟩, stopPoint := ⟨0, 1⟩,
      field := some "name" }] }]

/-- The class is recorded as a fault and its method is cataloged behind the concept that was there
before. -/
theorem walkOnto_malformedClass :
    let source : ByteArray := ⟨#[109]⟩
    let first : Concept := ⟨"id", "first", "class", "a.php", ⟨1, 1, by decide⟩, [], []⟩
    let w := walkOnto [first] malformedClass source "a.php"
    (∀ n ∈ malformedClass.nodes, n.startPoint.row ≤ n.stopPoint.row) ∧
    w.stop = none ∧ w.found.concepts.map Concept.name = ["first", "m"] ∧
    w.found.errors = [⟨.span 0 9 1, some "a.php", some "class_declaration"⟩] := by
  intro source first w
  have rows : ∀ n ∈ malformedClass.nodes, n.startPoint.row ≤ n.stopPoint.row := by decide
  obtain ⟨hwalk, -⟩ := walkOnto_eq_preorder source "a.php" [first] malformedClass rows
  refine ⟨rows, ?_⟩
  rw [show w = _ from hwalk]
  exact ⟨rfl, by decide +kernel, by decide +kernel⟩

/-! ### Walks that end early -/

lemma wrongLines?_of_reversedAt {s : Site} {n : Node} (h : s.ReversedAt source filePath n) :
    s.wrongLines? source filePath = some n.reversedLines :=
  (Site.wrongLines?_eq_some_iff s source filePath).mpr ⟨n, h, rfl⟩

/-- A site with lines in the wrong order contributes neither concepts nor errors. -/
lemma contributes_nothing {s : Site} {e : InvalidLineRange}
    (h : s.wrongLines? source filePath = some e) :
    s.emitted source filePath = [] ∧ s.fault? source filePath = none := by
  rcases hr : (s.read source filePath).result with (f | e') | concepts <;>
    simp [Site.wrongLines?, Site.emitted, Site.fault?, hr] at h ⊢

/-- **When a walk ends early.**  A walk ends on its own exactly if no site of the pre-order is
reversed, and then every node has been visited.  Otherwise the first reversed site ends it: the
sites before it have been visited, and none after it. -/
theorem walkOnto_ends_at_first_reversed (initial : List Concept) (root : Node) :
    ((walkOnto initial root source filePath).stop = none ↔
      ∀ s ∈ root.preorder [], ∀ n, ¬ s.ReversedAt source filePath n) ∧
    ((∀ s ∈ root.preorder [], ∀ n, ¬ s.ReversedAt source filePath n) →
      (walkOnto initial root source filePath).found =
        ⟨initial ++ (root.preorder []).flatMap (·.emitted source filePath),
          (root.preorder []).filterMap (·.fault? source filePath),
          (root.preorder []).flatMap (·.records source filePath)⟩) ∧
    ∀ done s rest n, root.preorder [] = done ++ s :: rest →
      (∀ t ∈ done, ∀ m, ¬ t.ReversedAt source filePath m) → s.ReversedAt source filePath n →
      (walkOnto initial root source filePath).stop = some n.reversedLines ∧
      (walkOnto initial root source filePath).found.concepts =
        initial ++ done.flatMap (·.emitted source filePath) ∧
      (walkOnto initial root source filePath).found.errors =
        done.filterMap (·.fault? source filePath) := by
  refine ⟨?_, ?_, ?_⟩
  · rw [walkOnto_eq, List.findSome?_eq_none_iff]
    simp only [Site.wrongLines?_eq_none_iff]
  · intro h
    have hnone : ∀ s ∈ root.preorder [], s.wrongLines? source filePath = none := by
      intro s hs
      exact (Site.wrongLines?_eq_none_iff s source filePath).mpr (h s hs)
    rw [walkOnto_of_forall_none source filePath initial hnone]
  · intro done s rest n hsplit hdone hrev
    have hs := wrongLines?_of_reversedAt source filePath hrev
    have hnone : ∀ t ∈ done, t.wrongLines? source filePath = none := by
      intro t ht
      exact (Site.wrongLines?_eq_none_iff t source filePath).mpr (hdone t ht)
    obtain ⟨hemit, hfault⟩ := contributes_nothing source filePath hs
    have hcut : upToWrong source filePath (done ++ s :: rest) = done ++ [s] :=
      upToWrong_append source filePath hnone (by simp [hs])
    rw [walkOnto_eq, hsplit, hcut, List.findSome?_append, List.findSome?_eq_none_iff.mpr hnone,
      List.findSome?_cons, hs]
    simp [append, ofSites, hemit, hfault]

/-- The function `f`, from row 3 back to row 2. -/
def reversedFunction : Node where
  kind := "function_definition"
  start := 0
  stop := 1
  startPoint := ⟨3, 0⟩
  stopPoint := ⟨2, 0⟩
  children := [{
    kind := "name", start := 0, stop := 1, startPoint := ⟨0, 0⟩, stopPoint := ⟨0, 1⟩,
    field := some "name" }]

/-- A program with the function `f` and, behind it, a function `g` in order. -/
def reversedProgram : Node where
  kind := "program"
  start := 0
  stop := 2
  startPoint := ⟨0, 0⟩
  stopPoint := ⟨0, 2⟩
  children := [reversedFunction, {
    kind := "function_definition", start := 1, stop := 2, startPoint := ⟨0, 1⟩,
    stopPoint := ⟨0, 2⟩,
    children := [{
      kind := "name", start := 1, stop := 2, startPoint := ⟨0, 1⟩, stopPoint := ⟨0, 2⟩,
      field := some "name" }] }]

/-- The walk ends at `f` and never comes to `g`, which it would have cataloged. -/
theorem walkOnto_reversedProgram :
    let source : ByteArray := ⟨#[102, 103]⟩
    let w := walkOnto [] reversedProgram source "a.php"
    w.stop = some ⟨4, 3⟩ ∧ w.found.concepts = [] ∧ w.found.errors = [] ∧
    ((reversedProgram.preorder []).flatMap (·.emitted source "a.php")).map Concept.name =
      ["g"] := by
  intro source w
  have hfield : reversedFunction.fieldName source = "f" := by decide +kernel
  have hnamed : reversedFunction.Named source "a.php" "f" :=
    ⟨by simp [Node.declaredName, hfield], by decide⟩
  have hrev : Site.ReversedAt ⟨reversedFunction, []⟩ source "a.php" reversedFunction :=
    ⟨[], [], rfl, by simp, ⟨"f", hnamed⟩, by decide⟩
  have hroot : ∀ t ∈ [(⟨reversedProgram, []⟩ : Site)], ∀ m, ¬ t.ReversedAt source "a.php" m := by
    intro t ht m
    rw [List.mem_singleton.mp ht]
    rintro ⟨pre, post, hsplit, -⟩
    simp [Site.declarators, declarationRule?, reversedProgram] at hsplit
  obtain ⟨-, -, hfirst⟩ := walkOnto_ends_at_first_reversed source "a.php" [] reversedProgram
  obtain ⟨hstop, hconcepts, herrors⟩ := hfirst _ _ _ _ rfl hroot hrev
  refine ⟨hstop, ?_, ?_, by decide +kernel⟩
  · rw [hconcepts]
    decide +kernel
  · rw [herrors]
    decide +kernel

end Catalog

end PhpCatalog
