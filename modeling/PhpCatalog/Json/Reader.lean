/-
# Reading JSON

`Machine.read` reads a whole text and says, when it cannot, why it stopped: what it missed and
where, at which character of the text, and at which line and column; or which bound of the machine
the text goes beyond.  A bound is met where the text reaches it, whatever is wrong behind that.
`Json.parse` reads with no bounds.

White space is only the space, the tab and the two line breaks of the standard.  A number ends where
it can no longer be one, so `01` is a zero with something behind it.

The reader works on a `Cursor`, the characters that remain together with the number of those read.
Each nested value takes at least one character and two steps, so twice the length of the text
bounds the number of steps.
-/
import PhpCatalog.Json.Machine

namespace PhpCatalog.Json

/-- What a text lacks to be JSON. -/
inductive Flaw where
  | byteOrderMark
  | value
  | memberName
  | colon
  | comma
  | extraData
  | unterminatedString
  | controlCharacter
  | badEscape
  | badUnicodeEscape
  deriving Repr, DecidableEq

/-- The wording of a flaw. -/
def Flaw.message : Flaw → String
  | .byteOrderMark => "Unexpected UTF-8 BOM (decode using utf-8-sig)"
  | .value => "Expecting value"
  | .memberName => "Expecting property name enclosed in double quotes"
  | .colon => "Expecting ':' delimiter"
  | .comma => "Expecting ',' delimiter"
  | .extraData => "Extra data"
  | .unterminatedString => "Unterminated string starting at"
  | .controlCharacter => "Invalid control character at"
  | .badEscape => "Invalid \\escape"
  | .badUnicodeEscape => "Invalid \\uXXXX escape"

/-- A flaw and the number of characters before it. -/
structure Fault where
  flaw : Flaw
  at_ : Nat
  deriving Repr, DecidableEq

/-- Why a reader stops. -/
inductive Stop where
  /-- The text is not JSON. -/
  | fault (f : Fault)
  /-- The text goes beyond a bound of the machine. -/
  | limit (l : Limit)
  deriving Repr, DecidableEq

/-- The characters that remain, and how many have been read. -/
structure Cursor where
  pos : Nat
  rest : List Char

namespace Cursor

/-- Past `n` characters. -/
def skip (c : Cursor) (n : Nat) : Cursor :=
  ⟨c.pos + n, c.rest.drop n⟩

/-- White space between the parts of a text. -/
def isSpace (c : Char) : Bool :=
  c == ' ' || c == '\t' || c == '\n' || c == '\r'

/-- Past the white space at the cursor. -/
def skipSpace (c : Cursor) : Cursor :=
  c.skip (c.rest.takeWhile isSpace).length

end Cursor

/-- What a reader gives: a result and where it ends, or why it stopped. -/
abbrev Read (α : Type) := Except Stop (α × Cursor)

/-- The value of a hexadecimal digit. -/
def hexValue? (c : Char) : Option Nat :=
  if c.isDigit then some (c.toNat - '0'.toNat)
  else if 'a' ≤ c && c ≤ 'f' then some (c.toNat - 'a'.toNat + 10)
  else if 'A' ≤ c && c ≤ 'F' then some (c.toNat - 'A'.toNat + 10)
  else none

/-- Four hexadecimal digits at the start of a text. -/
def hexFour? : List Char → Option Nat
  | a :: b :: c :: d :: _ => do
    let a ← hexValue? a
    let b ← hexValue? b
    let c ← hexValue? c
    let d ← hexValue? d
    return ((a * 16 + b) * 16 + c) * 16 + d
  | _ => none

/-- The character an escape of one letter stands for. -/
def shortEscape? : Char → Option Char
  | '"' => some '"'
  | '\\' => some '\\'
  | '/' => some '/'
  | 'b' => some '\x08'
  | 'f' => some '\x0c'
  | 'n' => some '\n'
  | 'r' => some '\r'
  | 't' => some '\t'
  | _ => none

variable (m : Machine)

/-- What a `\u` escape denotes: its unit, or, for the two halves of a surrogate pair, the
character of the pair; and the number of characters it takes behind the `u`.  `digits` is what
follows the `u`. -/
def unicodeEscape (digits : List Char) : Except Unit (Char × Nat) :=
  match hexFour? digits, digits.drop 4 with
  | none, _ => .error ()
  | some _, [] => .error ()
  | some high, after =>
    match 0xD800 ≤ high && high < 0xDC00, after with
    | true, '\\' :: 'u' :: more =>
      match hexFour? more with
      | some low =>
        if 0xDC00 ≤ low && low < 0xE000 then
          .ok (Char.ofNat (0x10000 + (high - 0xD800) * 0x400 + (low - 0xDC00)), 10)
        else .ok (m.unit high, 4)
      | none => .ok (m.unit high, 4)
    | _, _ => .ok (m.unit high, 4)

/-- The rest of a string whose opening quote is at `start`.  The first argument bounds the number
of characters and escapes. -/
def stringFrom (start : Nat) : Nat → List Char → Cursor → Read String
  | 0, _, _ => .error (.fault ⟨.unterminatedString, start⟩)
  | n + 1, acc, c =>
    match c.rest with
    | [] => .error (.fault ⟨.unterminatedString, start⟩)
    | '"' :: _ => .ok (String.ofList acc.reverse, c.skip 1)
    | '\\' :: [] => .error (.fault ⟨.unterminatedString, start⟩)
    | '\\' :: 'u' :: digits =>
      match unicodeEscape m digits with
      | .ok (ch, width) => stringFrom start n (ch :: acc) (c.skip (2 + width))
      | .error () => .error (.fault ⟨.badUnicodeEscape, c.pos + 1⟩)
    | '\\' :: e :: _ =>
      match shortEscape? e with
      | some ch => stringFrom start n (ch :: acc) (c.skip 2)
      | none => .error (.fault ⟨.badEscape, c.pos⟩)
    | ch :: _ =>
      if ch.toNat < 0x20 then .error (.fault ⟨.controlCharacter, c.pos⟩)
      else stringFrom start n (ch :: acc) (c.skip 1)

/-- A string whose opening quote has been read. -/
def string (c : Cursor) : Read String :=
  stringFrom m (c.pos - 1) (c.rest.length + 1) [] c

/-- The value of a run of decimal digits. -/
def digitsValue (digits : List Char) : Nat :=
  digits.foldl (fun n d => n * 10 + (d.toNat - '0'.toNat)) 0

/-- A digit as a number below ten. -/
def digit (c : Char) : Fin 10 :=
  ⟨(c.toNat - '0'.toNat) % 10, Nat.mod_lt _ (by decide)⟩

/-- The digits behind a point, if there are any: their number makes the fraction. -/
def fraction (rest : List Char) : List Char :=
  match rest with
  | '.' :: more => more.takeWhile Char.isDigit
  | _ => []

/-- Whether an exponent is negative, the number of characters its sign takes, and what follows the
sign. -/
def exponentSign : List Char → Bool × Nat × List Char
  | '+' :: rest => (false, 1, rest)
  | '-' :: rest => (true, 1, rest)
  | rest => (false, 0, rest)

/-- The exponent at the start of a text, and the number of characters it takes. -/
def exponent? (rest : List Char) : Option (Int × Nat) :=
  match rest with
  | e :: more =>
    if e == 'e' || e == 'E' then
      let (negative, width, rest) := exponentSign more
      let digits := rest.takeWhile Char.isDigit
      if digits.isEmpty then none
      else
        let n : Int := digitsValue digits
        some (if negative then -n else n, 1 + width + digits.length)
    else none
  | [] => none

/-- The whole part of a number: a single zero, or digits that do not start with one. -/
def wholeDigits (rest : List Char) : List Char :=
  match rest with
  | '0' :: _ => ['0']
  | _ => rest.takeWhile Char.isDigit

/-- A number without a sign.  Only an integer is bounded in its digits. -/
def unsigned (negative : Bool) (start : Nat) (c : Cursor) : Read Json :=
  let whole := wholeDigits c.rest
  if whole.isEmpty then .error (.fault ⟨.value, start⟩)
  else
    let c := c.skip whole.length
    let frac := fraction c.rest
    let c := if frac.isEmpty then c else c.skip (frac.length + 1)
    let n := digitsValue whole
    match exponent? c.rest with
    | some (e, width) => .ok (m.number ⟨negative, n, frac.map digit, some e⟩, c.skip width)
    | none =>
      if frac.isEmpty then
        if within m.digits whole.length then .ok (.int (if negative then -(n : Int) else n), c)
        else .error (.limit .digits)
      else .ok (m.number ⟨negative, n, frac.map digit, none⟩, c)

/-- A number. -/
def number (c : Cursor) : Read Json :=
  match c.rest with
  | '-' :: _ => unsigned m true c.pos (c.skip 1)
  | _ => unsigned m false c.pos c

/-- The names of the fixed values. -/
def literals : List (List Char × Json) :=
  [("null".toList, .null), ("true".toList, .bool true), ("false".toList, .bool false),
    ("NaN".toList, .nan), ("Infinity".toList, .infinity false),
    ("-Infinity".toList, .infinity true)]

/-- A value that is neither a string, an array nor an object. -/
def scalar (c : Cursor) : Read Json :=
  match literals.find? fun l => l.1.isPrefixOf c.rest with
  | some (word, j) => .ok (j, c.skip word.length)
  | none => number m c

mutual

/-- The value at the cursor, inside `depth` arrays and objects.  The first argument bounds the
number of steps. -/
def value : Nat → Nat → Cursor → Read Json
  | 0, _, c => .error (.fault ⟨.value, c.pos⟩)
  | n + 1, depth, c =>
    match c.rest with
    | [] => .error (.fault ⟨.value, c.pos⟩)
    | '"' :: _ => (string m (c.skip 1)).map fun (s, c) => (.str s, c)
    | '[' :: _ =>
      if within m.reading (depth + 1) then
        let c := (c.skip 1).skipSpace
        match c.rest with
        | ']' :: _ => .ok (.arr [], c.skip 1)
        | _ => (items n (depth + 1) [] c).map fun (xs, c) => (.arr xs, c)
      else .error (.limit .nesting)
    | '{' :: _ =>
      if within m.reading (depth + 1) then
        let c := (c.skip 1).skipSpace
        match c.rest with
        | '}' :: _ => .ok (.obj [], c.skip 1)
        | _ => (members n (depth + 1) [] c).map fun (ms, c) => (.obj ms, c)
      else .error (.limit .nesting)
    | _ => scalar m c

/-- The items of an array from the cursor on; `acc` holds those before, last first. -/
def items : Nat → Nat → List Json → Cursor → Read (List Json)
  | 0, _, _, c => .error (.fault ⟨.value, c.pos⟩)
  | n + 1, depth, acc, c =>
    match value n depth c with
    | .error stop => .error stop
    | .ok (x, c) =>
      let c := c.skipSpace
      match c.rest with
      | ']' :: _ => .ok ((x :: acc).reverse, c.skip 1)
      | ',' :: _ => items n depth (x :: acc) (c.skip 1).skipSpace
      | _ => .error (.fault ⟨.comma, c.pos⟩)

/-- The members of an object from the cursor on, set on top of those in `acc`. -/
def members : Nat → Nat → List (String × Json) → Cursor → Read (List (String × Json))
  | 0, _, _, c => .error (.fault ⟨.memberName, c.pos⟩)
  | n + 1, depth, acc, c =>
    match c.rest with
    | '"' :: _ =>
      match string m (c.skip 1) with
      | .error stop => .error stop
      | .ok (name, c) =>
        let c := c.skipSpace
        match c.rest with
        | ':' :: _ =>
          match value n depth (c.skip 1).skipSpace with
          | .error stop => .error stop
          | .ok (x, c) =>
            let c := c.skipSpace
            match c.rest with
            | '}' :: _ => .ok (insert name x acc, c.skip 1)
            | ',' :: _ => members n depth (insert name x acc) (c.skip 1).skipSpace
            | _ => .error (.fault ⟨.comma, c.pos⟩)
        | _ => .error (.fault ⟨.colon, c.pos⟩)
    | _ => .error (.fault ⟨.memberName, c.pos⟩)

end

/-- Reads a whole text. -/
def Machine.read (text : List Char) : Except Stop Json :=
  match text with
  | '\uFEFF' :: _ => .error (.fault ⟨.byteOrderMark, 0⟩)
  | _ =>
    match value m (2 * text.length + 2) 0 (Cursor.mk 0 text).skipSpace with
    | .error stop => .error stop
    | .ok (j, c) =>
      let c := c.skipSpace
      if c.rest.isEmpty then .ok j else .error (.fault ⟨.extraData, c.pos⟩)

/-- Reads a whole text, whatever is in it. -/
def parse (text : List Char) : Except Stop Json :=
  Machine.unbounded.read text

/-- A fault in words: the flaw, and the line, column and character where it is.  Lines and columns
count from one, characters from zero. -/
def Fault.message (text : List Char) (f : Fault) : String :=
  let before := text.take f.at_
  let line := before.count '\n' + 1
  let column := (before.reverse.takeWhile (· != '\n')).length + 1
  s!"{f.flaw.message}: line {line} column {column} (char {f.at_})"

end PhpCatalog.Json
