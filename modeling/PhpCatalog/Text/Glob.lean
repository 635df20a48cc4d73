/-
# Glob patterns

A pattern is matched against a whole text.  `*` stands for any characters, the slash and line
breaks included, `?` for exactly one, and `[…]` for one character of a set, or, after `!`, for one
outside it.  In a set `a-z` is a range, and a `]` right at the start is a member.  A range whose
ends are in the wrong order is dropped before the set is read, so that a `!` behind it may come to
stand first.  A bracket that is never closed, and every other character, stands for itself.
-/

namespace PhpCatalog.Text.Glob

/-- One element of a pattern. -/
inductive Piece where
  /-- Any number of characters. -/
  | many
  /-- One character, whatever it is. -/
  | one
  /-- The character itself. -/
  | exact (c : Char)
  /-- One character of a union of ranges, or, when negated, one outside it. -/
  | within (negated : Bool) (ranges : List (Char × Char))
  deriving Repr, DecidableEq

/-- The members of a set, from what stands between its brackets: a hyphen with a character on
either side makes a range, and every other character is a range of its own. -/
def members : List Char → List (Char × Char)
  | a :: '-' :: b :: rest => (a, b) :: members rest
  | a :: rest => (a, a) :: members rest
  | [] => []

/-- The set that a list of ranges stands for.  Ranges in the wrong order are dropped.  If a `!`
then comes first, it negates the set, and a hyphen right behind it is a member. -/
def setOf (negated : Bool) (ranges : List (Char × Char)) : Piece :=
  match negated, ranges.filter fun range => range.1 ≤ range.2 with
  | false, ('!', b) :: rest =>
    .within true (if b = '!' then rest else ('-', '-') :: (b, b) :: rest)
  | _, kept => .within negated kept

/-- Splits what follows an opening bracket at the bracket that closes it.  The first character of
the set, after the negation if there is one, is a member even if it is a bracket. -/
def closing (body : List Char) : Option (Bool × List Char × List Char) :=
  let (negated, body) := match body with
    | '!' :: rest => (true, rest)
    | _ => (false, body)
  let (first, body) := match body with
    | ']' :: rest => ([']'], rest)
    | _ => ([], body)
  match body.dropWhile (· != ']') with
  | ']' :: rest => some (negated, first ++ body.takeWhile (· != ']'), rest)
  | _ => none

/-- The elements of a pattern.  The first argument bounds the number of elements; a pattern has
at most as many as it has characters. -/
def piecesFrom : Nat → List Char → List Piece
  | 0, _ => []
  | _, [] => []
  | n + 1, '*' :: rest => .many :: piecesFrom n rest
  | n + 1, '?' :: rest => .one :: piecesFrom n rest
  | n + 1, '[' :: rest =>
    match closing rest with
    | some (negated, set, after) => setOf negated (members set) :: piecesFrom n after
    | none => .exact '[' :: piecesFrom n rest
  | n + 1, c :: rest => .exact c :: piecesFrom n rest

/-- The elements of a pattern. -/
def pieces (pattern : List Char) : List Piece :=
  piecesFrom pattern.length pattern

/-- A text and everything that remains of it after dropping characters from its start. -/
def suffixes : List Char → List (List Char)
  | [] => [[]]
  | c :: rest => (c :: rest) :: suffixes rest

/-- Whether one element that stands for a single character accepts `c`. -/
def Piece.accepts : Piece → Char → Bool
  | .many, _ => false
  | .one, _ => true
  | .exact a, c => a == c
  | .within negated ranges, c => negated != ranges.any fun range => range.1 ≤ c && c ≤ range.2

/-- Whether the elements, in order, match the whole text. -/
def matchPieces : List Piece → List Char → Bool
  | [], s => s.isEmpty
  | .many :: rest, s => (suffixes s).any fun t => matchPieces rest t
  | _ :: _, [] => false
  | piece :: rest, c :: s => piece.accepts c && matchPieces rest s

/-- Whether a pattern matches a whole text. -/
def accepts (pattern text : String) : Bool :=
  matchPieces (pieces pattern.toList) text.toList

end PhpCatalog.Text.Glob
