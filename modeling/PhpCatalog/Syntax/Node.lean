/-
# Syntax trees

A node of a syntax tree has a kind, the bytes it spans, the points where it starts and ends, and
its children in source order.  A node may fill a named field of its parent, and an *extra* node is
one that formatting brings along, such as a comment.  Nothing ties the span of a node to the
source: a node may lie outside it, and then its text is what part of it lies inside.

A `Site` is a node together with the siblings before it, nearest first.
-/
import PhpCatalog.Text.Blank
import PhpCatalog.Text.Utf8

namespace PhpCatalog

/-- A place in a source: a row and a column in bytes, both counted from zero. -/
structure Point where
  row : Nat
  column : Nat
  deriving Repr, DecidableEq

/-- A node of a syntax tree. -/
structure Node where
  kind : String
  /-- The first byte. -/
  start : Nat
  /-- The byte behind the last. -/
  stop : Nat
  startPoint : Point
  stopPoint : Point
  extra : Bool := false
  /-- The field of the parent that the node fills. -/
  field : Option String := none
  children : List Node := []

instance : Inhabited Node :=
  ⟨{ kind := "", start := 0, stop := 0, startPoint := ⟨0, 0⟩, stopPoint := ⟨0, 0⟩ }⟩

namespace Node

/-- The bytes of a node; outside the source there are none. -/
def bytes (n : Node) (source : ByteArray) : List UInt8 :=
  (source.extract n.start n.stop).data.toList

/-- The text of a node. -/
def chars (n : Node) (source : ByteArray) : List Char :=
  Text.decodeLossy (n.bytes source)

/-- The text of a node, as a string. -/
def text (n : Node) (source : ByteArray) : String :=
  String.ofList (n.chars source)

/-- The text of a node without the blanks at its ends. -/
def trimmedText (n : Node) (source : ByteArray) : String :=
  String.ofList (Text.trim (n.chars source))

/-- The first child that fills a field. -/
def child? (n : Node) (field : String) : Option Node :=
  n.children.find? fun c => c.field == some field

/-- The first child of a kind. -/
def childOfKind? (n : Node) (kind : String) : Option Node :=
  n.children.find? fun c => c.kind == kind

/-- Whether the span of a node is a part of the source. -/
def inside (n : Node) (source : ByteArray) : Bool :=
  n.start ≤ n.stop && n.stop ≤ source.size

mutual

/-- The number of nodes of a tree. -/
def size : Node → Nat
  | ⟨_, _, _, _, _, _, _, children⟩ => 1 + sizeAll children

/-- The number of nodes of some trees. -/
def sizeAll : List Node → Nat
  | [] => 0
  | n :: rest => size n + sizeAll rest

end

theorem size_eq (n : Node) : n.size = 1 + sizeAll n.children := by
  cases n
  rfl

end Node

/-- A node and the siblings before it, nearest first. -/
structure Site where
  node : Node
  before : List Node := []

/-- The sites of some siblings, given those before them. -/
def Site.ofSiblings (before : List Node) : List Node → List Site
  | [] => []
  | n :: rest => ⟨n, before⟩ :: ofSiblings (n :: before) rest

/-- The sites of a node's children. -/
def Node.childSites (n : Node) : List Site :=
  Site.ofSiblings [] n.children

end PhpCatalog
