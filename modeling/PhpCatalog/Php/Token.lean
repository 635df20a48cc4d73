/-
# Tokens of PHP

A source is read as bytes, each of them one character below 256, so that places are counted in
bytes and a source need not be valid text.  A token is a lexeme with the places where it starts
and ends.
-/

namespace PhpCatalog.Php

/-- A place in a source: bytes, rows and columns before it. -/
structure Mark where
  byte : Nat
  row : Nat
  column : Nat
  deriving Repr, DecidableEq

/-- The place behind some bytes. -/
def Mark.advance (m : Mark) : List Char → Mark
  | [] => m
  | '\n' :: rest => advance ⟨m.byte + 1, m.row + 1, 0⟩ rest
  | _ :: rest => advance ⟨m.byte + 1, m.row, m.column + 1⟩ rest

/-- What a token is. -/
inductive Lexeme where
  /-- A keyword or a name, in lower case as far as ASCII goes. -/
  | word (text : String)
  /-- A variable with its dollar sign. -/
  | variable
  /-- A number, or a piece of a quoted text. -/
  | literal
  /-- A punctuation mark, by its first character. -/
  | punct (c : Char)
  /-- The mark before the name of a member of an object. -/
  | arrow
  /-- The mark before the name of a member of a class. -/
  | scope
  /-- The bracket that opens a list of attributes. -/
  | attribute
  /-- The brace that opens code inside a quoted text. -/
  | embed
  /-- The brace that closes code inside a quoted text. -/
  | unembed
  | comment
  /-- A closing tag, the text behind it, and the next opening tag. -/
  | html
  /-- An opening tag. -/
  | tag
  /-- The text before the first opening tag. -/
  | text
  deriving Repr, DecidableEq

/-- A lexeme and its place. -/
structure Token where
  lexeme : Lexeme
  start : Mark
  stop : Mark
  deriving Repr

/-- Whether a token may stand between any two others without a meaning of its own. -/
def Token.isExtra (t : Token) : Bool :=
  t.lexeme == .comment || t.lexeme == .html

/-- Whether a lexeme opens a bracket. -/
def Lexeme.opens : Lexeme → Bool
  | .punct c => c == '(' || c == '[' || c == '{'
  | .attribute | .embed => true
  | _ => false

/-- Whether a lexeme closes a bracket. -/
def Lexeme.closes : Lexeme → Bool
  | .punct c => c == ')' || c == ']' || c == '}'
  | .unembed => true
  | _ => false

/-- Whether an expression can end with a lexeme, so that a closing tag behind it also ends the
statement. -/
def Lexeme.endsOperand : Lexeme → Bool
  | .word _ | .variable | .literal => true
  | l => l.closes

end PhpCatalog.Php
