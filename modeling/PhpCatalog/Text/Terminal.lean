/-
# Colour and cursor sequences

A terminal reads an escape character, an opening bracket, parameters made of digits, `;` and `?`,
and a letter as a command.  Text that is written to a stream other than a terminal has these
commands removed.
-/

namespace PhpCatalog.Text

/-- The characters of a command's parameters. -/
def isParameter (c : Char) : Bool :=
  c.isDigit || c == ';' || c == '?'

/-- What follows the command that a text begins with, if it begins with one. -/
def afterCommand? : List Char → Option (List Char)
  | '\x1b' :: '[' :: rest =>
    match rest.dropWhile isParameter with
    | c :: after => if c.isAlpha then some after else none
    | [] => none
  | _ => none

/-- A text without the commands in it.  The first argument bounds the number of steps; `acc` holds
the characters that were kept, last first. -/
def plainFrom : Nat → List Char → List Char → List Char
  | 0, acc, _ => acc.reverse
  | _, acc, [] => acc.reverse
  | n + 1, acc, c :: rest =>
    match afterCommand? (c :: rest) with
    | some after => plainFrom n acc after
    | none => plainFrom n (c :: acc) rest

/-- A text without terminal commands. -/
def plain (s : String) : String :=
  String.ofList (plainFrom s.toList.length [] s.toList)

end PhpCatalog.Text
