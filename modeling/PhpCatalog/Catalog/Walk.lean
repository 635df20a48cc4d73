/-
# Walking a tree

The catalog of a tree visits every node once, a node before its children and earlier children
before later ones.  A node that cannot be interpreted is recorded and passed over; its children
are visited all the same.  Lines in the wrong order end the whole walk; what was found until then
stays found.

The walk keeps the nodes that wait in a list: it takes the first, and puts its children in its
place.
-/
import PhpCatalog.Declaration.Build

namespace PhpCatalog

/-- What a walk has found. -/
structure Catalog where
  concepts : List Concept := []
  errors : List NodeFault := []
  log : List Record := []
  deriving Repr, DecidableEq

namespace Catalog

/-- The record of a node that cannot be interpreted. -/
def failedRecord (n : Node) (filePath : String) (f : NodeFault) : Record :=
  ⟨.warning, .extraction,
    "Extraction failed at " ++ filePath ++ ":" ++ toString (n.startPoint.row + 1) ++ ": " ++
      f.cause.message⟩

/-- Two catalogs, one after the other. -/
def append (a b : Catalog) : Catalog :=
  ⟨a.concepts ++ b.concepts, a.errors ++ b.errors, a.log ++ b.log⟩

/-- A walk: what it has found, and the lines in the wrong order that ended it, if any did. -/
structure Walk where
  found : Catalog
  stop : Option InvalidLineRange := none
  deriving Repr, DecidableEq

/-- The visit of one node. -/
def visit (site : Site) (source : ByteArray) (filePath : String) : Walk :=
  let reading := site.read source filePath
  match reading.result with
  | .ok concepts => ⟨⟨concepts, [], reading.log⟩, none⟩
  | .error (.fault f) =>
    ⟨⟨[], [f], reading.log ++ [failedRecord site.node filePath f]⟩, none⟩
  | .error (.lines e) => ⟨⟨[], [], reading.log⟩, some e⟩

/-- The number of nodes below some sites, the sites included. -/
def pendingSize (sites : List Site) : Nat :=
  Node.sizeAll (sites.map Site.node)

theorem map_node_ofSiblings (before nodes : List Node) :
    (Site.ofSiblings before nodes).map Site.node = nodes := by
  induction nodes generalizing before with
  | nil => rfl
  | cons n rest ih => simp [Site.ofSiblings, ih]

theorem sizeAll_append (a b : List Node) :
    Node.sizeAll (a ++ b) = Node.sizeAll a + Node.sizeAll b := by
  induction a with
  | nil => simp [Node.sizeAll]
  | cons n rest ih => simp [Node.sizeAll, ih, Nat.add_assoc]

/-- Taking a node and putting its children in its place leaves fewer nodes. -/
theorem pendingSize_children_lt (site : Site) (rest : List Site) :
    pendingSize (site.node.childSites ++ rest) < pendingSize (site :: rest) := by
  simp only [pendingSize, List.map_append, List.map_cons, Node.childSites, map_node_ofSiblings,
    sizeAll_append, Node.sizeAll, Node.size_eq]
  omega

/-- Visits the sites that wait and everything below them, on top of what has been found. -/
def walkFrom (source : ByteArray) (filePath : String) (found : Catalog) : List Site → Walk
  | [] => ⟨found, none⟩
  | site :: rest =>
    let new := visit site source filePath
    match new.stop with
    | some e => ⟨found.append new.found, some e⟩
    | none =>
      walkFrom source filePath (found.append new.found) (site.node.childSites ++ rest)
termination_by sites => pendingSize sites
decreasing_by exact pendingSize_children_lt site rest

/-- Walks a tree and adds what it finds to the concepts that are there already. -/
def walkOnto (initial : List Concept) (root : Node) (source : ByteArray) (filePath : String) :
    Walk :=
  walkFrom source filePath { concepts := initial } [⟨root, []⟩]

/-- The catalog of a tree; none if the walk was ended. -/
def walk (root : Node) (source : ByteArray) (filePath : String) :
    Except InvalidLineRange Catalog :=
  let w := walkOnto [] root source filePath
  match w.stop with
  | some e => .error e
  | none => .ok w.found

end Catalog

end PhpCatalog
