/-
# Writing JSON

Three forms of one writer.  `Json.compact` keeps a value on one line; `Json.pretty` puts every
item and member on a line of its own, two spaces deeper than what holds it; both leave characters
outside ASCII as they are.  `Json.canonical` is the pretty form with the members of each object in
the order of their names and every character outside printable ASCII escaped, so that two values
that differ only in the order of members have one text.

A machine writes what it has room for (`Machine.print`).  It stops at the first integer or container
beyond its bounds, in the order of the text.
-/
import PhpCatalog.Json.Machine
import PhpCatalog.Text.Quote

namespace PhpCatalog.Json

open PhpCatalog.Text (hexDigits)

/-- How a value is laid out. -/
structure Layout where
  /-- Items and members on lines of their own. -/
  spread : Bool
  /-- Only printable ASCII. -/
  ascii : Bool

/-- A code unit of sixteen bits as an escape. -/
def escapeUnit (n : Nat) : List Char :=
  '\\' :: 'u' :: hexDigits 4 n

/-- One character inside a string. -/
def writeChar (ascii : Bool) (c : Char) : List Char :=
  let n := c.toNat
  if c == '"' || c == '\\' then ['\\', c]
  else if c == '\n' then ['\\', 'n']
  else if c == '\r' then ['\\', 'r']
  else if c == '\t' then ['\\', 't']
  else if n == 8 then ['\\', 'b']
  else if n == 12 then ['\\', 'f']
  else if n < 0x20 || (ascii && 0x7F ≤ n && n < 0x10000) then escapeUnit n
  else if ascii && 0x10000 ≤ n then
    escapeUnit (0xD800 + (n - 0x10000) / 0x400) ++ escapeUnit (0xDC00 + (n - 0x10000) % 0x400)
  else [c]

/-- A string with its quotes. -/
def writeString (ascii : Bool) (s : String) : List Char :=
  '"' :: s.toList.flatMap (writeChar ascii) ++ ['"']

/-- The decimal digits of a number. -/
def writeNat (n : Nat) : List Char :=
  Nat.toDigits 10 n

/-- An integer; only negative ones have a sign. -/
def writeInt (n : Int) : List Char :=
  if n < 0 then '-' :: writeNat n.natAbs else writeNat n.natAbs

/-- The digits behind the point of a decimal, if there are any. -/
def writeFraction (fraction : List (Fin 10)) : List Char :=
  if fraction.isEmpty then [] else '.' :: fraction.flatMap (writeNat ·.val)

/-- The power of ten of a decimal, if there is one. -/
def writeExponent : Option Int → List Char
  | none => []
  | some e => 'e' :: writeInt e

/-- A decimal by its digits. -/
def writeDecimal (d : Decimal) : List Char :=
  (if d.negative then ['-'] else []) ++ writeNat d.whole ++ writeFraction d.fraction ++
    writeExponent d.exponent

/-- What stands in front of an item at a depth: a new line and two spaces a level, or, on one
line, a space behind the comma. -/
def lead (layout : Layout) (first : Bool) (depth : Nat) : List Char :=
  if layout.spread then '\n' :: List.replicate (2 * depth) ' '
  else if first then [] else [' ']

/-- What stands in front of a closing bracket. -/
def tail (layout : Layout) (depth : Nat) : List Char :=
  if layout.spread then '\n' :: List.replicate (2 * depth) ' ' else []

mutual

/-- A value whose container is at the given depth. -/
def write (layout : Layout) (depth : Nat) : Json → List Char
  | .null => "null".toList
  | .bool true => "true".toList
  | .bool false => "false".toList
  | .int n => writeInt n
  | .decimal d => writeDecimal d
  | .nan => "NaN".toList
  | .infinity false => "Infinity".toList
  | .infinity true => "-Infinity".toList
  | .str s => writeString layout.ascii s
  | .arr [] => ['[', ']']
  | .arr (item :: rest) =>
    '[' :: lead layout true (depth + 1) ++ write layout (depth + 1) item ++
      writeItems layout (depth + 1) rest ++ tail layout depth ++ [']']
  | .obj [] => ['{', '}']
  | .obj ((name, value) :: rest) =>
    '{' :: lead layout true (depth + 1) ++ writeString layout.ascii name ++ [':', ' '] ++
      write layout (depth + 1) value ++ writeMembers layout (depth + 1) rest ++
      tail layout depth ++ ['}']

/-- The items after the first, each behind a comma. -/
def writeItems (layout : Layout) (depth : Nat) : List Json → List Char
  | [] => []
  | item :: rest =>
    ',' :: lead layout false depth ++ write layout depth item ++ writeItems layout depth rest

/-- The members after the first, each behind a comma. -/
def writeMembers (layout : Layout) (depth : Nat) : List (String × Json) → List Char
  | [] => []
  | (name, value) :: rest =>
    ',' :: lead layout false depth ++ writeString layout.ascii name ++ [':', ' '] ++
      write layout depth value ++ writeMembers layout depth rest

end

theorem write_arr_cons (layout : Layout) (depth : Nat) (item : Json) (rest : List Json) :
    write layout depth (.arr (item :: rest)) =
      '[' :: lead layout true (depth + 1) ++ write layout (depth + 1) item ++
        writeItems layout (depth + 1) rest ++ tail layout depth ++ [']'] := rfl

theorem write_obj_cons (layout : Layout) (depth : Nat) (name : String) (value : Json)
    (rest : List (String × Json)) :
    write layout depth (.obj ((name, value) :: rest)) =
      '{' :: lead layout true (depth + 1) ++ writeString layout.ascii name ++ [':', ' '] ++
        write layout (depth + 1) value ++ writeMembers layout (depth + 1) rest ++
        tail layout depth ++ ['}'] := rfl

theorem writeItems_cons (layout : Layout) (depth : Nat) (item : Json) (rest : List Json) :
    writeItems layout depth (item :: rest) =
      ',' :: lead layout false depth ++ write layout depth item ++ writeItems layout depth rest :=
  rfl

theorem writeMembers_cons (layout : Layout) (depth : Nat) (name : String) (value : Json)
    (rest : List (String × Json)) :
    writeMembers layout depth ((name, value) :: rest) =
      ',' :: lead layout false depth ++ writeString layout.ascii name ++ [':', ' '] ++
        write layout depth value ++ writeMembers layout depth rest := rfl

mutual

/-- The bound that a value goes beyond first, inside `depth` arrays and objects. -/
def overrun? (m : Machine) (depth : Nat) : Json → Option Limit
  | .int n => if within m.digits (writeNat n.natAbs).length then none else some .digits
  | .arr items =>
    if within m.writing (depth + 1) then overrunItems? m (depth + 1) items else some .nesting
  | .obj members =>
    if within m.writing (depth + 1) then overrunMembers? m (depth + 1) members else some .nesting
  | _ => none

/-- The bound that some items go beyond first. -/
def overrunItems? (m : Machine) (depth : Nat) : List Json → Option Limit
  | [] => none
  | item :: rest => (overrun? m depth item).or (overrunItems? m depth rest)

/-- The bound that the values of some members go beyond first. -/
def overrunMembers? (m : Machine) (depth : Nat) : List (String × Json) → Option Limit
  | [] => none
  | (_, value) :: rest => (overrun? m depth value).or (overrunMembers? m depth rest)

end

/-- A value in a layout, unless it goes beyond the bounds of the machine. -/
def Machine.print (m : Machine) (layout : Layout) (j : Json) : Except Limit String :=
  match overrun? m 0 j with
  | some limit => .error limit
  | none => .ok (String.ofList (write layout 0 j))

/-- A value on one line. -/
def compact (j : Json) : String :=
  String.ofList (write ⟨false, false⟩ 0 j)

/-- A value with every item and member on a line of its own. -/
def pretty (j : Json) : String :=
  String.ofList (write ⟨true, false⟩ 0 j)

/-- The text of a value that does not depend on the order of members. -/
def canonical (j : Json) : String :=
  String.ofList (write ⟨true, true⟩ 0 j.sortKeys)

/-- The pretty text of a value, unless it goes beyond the bounds of the machine. -/
def Machine.pretty (m : Machine) (j : Json) : Except Limit String :=
  m.print ⟨true, false⟩ j

/-- The canonical text of a value, unless it goes beyond the bounds of the machine. -/
def Machine.canonical (m : Machine) (j : Json) : Except Limit String :=
  m.print ⟨true, true⟩ j.sortKeys

end PhpCatalog.Json
