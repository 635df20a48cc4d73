/-
# From bytes to tokens

The lexer has a stack of modes, since code, quoted texts and the code inside them nest.  Each step
looks at the bytes ahead and the modes, and says how many bytes it takes, which lexeme they are,
if any, and which modes come next.

* Outside PHP everything is text up to `<?`, which may go on with `php`, in any case, or `=`.
* In code a closing tag starts text that lasts to the next opening tag.
* A line comment ends before the line break or the closing tag.  In it a question mark is taken
  together with the character behind it.
* In double quotes, backticks and heredocs, `{$` and `${` open code that lasts to its brace.
* A heredoc ends at its label at the start of a line, possibly indented, when no name goes on
  there.
-/
import PhpCatalog.Php.Token

namespace PhpCatalog.Php

/-- What the bytes ahead are a part of. -/
inductive Mode where
  /-- Text outside PHP. -/
  | outside
  /-- Code; inside a quoted text, with the number of braces that are open. -/
  | code (braces : Option Nat)
  /-- A text in double quotes or backticks. -/
  | quoted (quote : Char)
  /-- A heredoc, and whether a line starts here. -/
  | heredoc (label : List Char) (atStart : Bool)
  deriving Repr

/-- One step of the lexer: the lexeme, the number of bytes, and the modes that follow. -/
structure Step where
  lexeme : Option Lexeme
  width : Nat
  modes : List Mode

/-! ### How far things reach -/

/-- The characters a name may start with; every byte of a character outside ASCII is one. -/
def isNameStart (c : Char) : Bool :=
  c.isAlpha || c == '_' || 0x80 ≤ c.toNat

/-- The characters of a name. -/
def isNameChar (c : Char) : Bool :=
  isNameStart c || c.isDigit

/-- The number of bytes of the space at the start, if there is one.  Beside the spaces of ASCII
these are the non-breaking space, the zero-width space, the word joiner and the byte order
mark. -/
def spaceWidth : List Char → Nat
  | '\xc2' :: '\xa0' :: _ => 2
  | '\xe2' :: '\x80' :: '\x8b' :: _ => 3
  | '\xe2' :: '\x81' :: '\xa0' :: _ => 3
  | '\xef' :: '\xbb' :: '\xbf' :: _ => 3
  | c :: _ => if c == ' ' || (9 ≤ c.toNat && c.toNat ≤ 13) then 1 else 0
  | [] => 0

/-- The length of the name at the start. -/
def nameLength : List Char → Nat
  | [] => 0
  | c :: rest =>
    if isNameChar c && spaceWidth (c :: rest) == 0 then nameLength rest + 1 else 0

/-- How far a line comment reaches; `n` is what has been counted so far. -/
def lineCommentLength (n : Nat) : List Char → Nat
  | [] => n
  | '?' :: '>' :: _ => n
  | '?' :: '\n' :: _ => n + 2
  | '?' :: '\r' :: '\n' :: _ => n + 3
  | '?' :: '\r' :: _ => n
  | ['?'] => n
  | '?' :: _ :: rest => lineCommentLength (n + 2) rest
  | c :: rest => if c == '\n' || c == '\r' then n else lineCommentLength (n + 1) rest

/-- How far a block comment reaches; `n` is what has been counted so far. -/
def blockCommentLength (n : Nat) : List Char → Nat
  | [] => n
  | '*' :: '/' :: _ => n + 2
  | _ :: rest => blockCommentLength (n + 1) rest

/-- How far a text in single quotes reaches; `n` is what has been counted so far. -/
def singleQuotedLength (n : Nat) : List Char → Nat
  | [] => n
  | '\'' :: _ => n + 1
  | '\\' :: _ :: rest => singleQuotedLength (n + 2) rest
  | _ :: rest => singleQuotedLength (n + 1) rest

/-- The length of the opening tag at the start. -/
def tagLength : List Char → Nat
  | '<' :: '?' :: '=' :: _ => 3
  | '<' :: '?' :: p :: h :: q :: _ =>
    if p.toLower == 'p' && h.toLower == 'h' && q.toLower == 'p' then 5 else 2
  | '<' :: '?' :: _ => 2
  | _ => 0

/-- The length of the text before the next opening tag.  `n` is what has been counted so far. -/
def textLength (n : Nat) : List Char → Nat
  | [] => n
  | '<' :: '?' :: _ => n
  | _ :: rest => textLength (n + 1) rest

/-- The length of a gap in the code behind its closing tag: the text and the opening tag. -/
def gapLength (s : List Char) : Nat :=
  let n := textLength 0 s
  n + tagLength (s.drop n)

/-- Whether a character indents a line. -/
def isIndent (c : Char) : Bool :=
  c == ' ' || c == '\t'

/-- The length of a heredoc's end, if it stands at the start. -/
def closingLabel? (label s : List Char) : Option Nat :=
  let indent := (s.takeWhile isIndent).length
  let s := s.drop indent
  if label.isPrefixOf s && nameLength s == label.length then some (indent + label.length)
  else none

/-- How far a nowdoc reaches; `n` is what has been counted so far, and `atStart` tells whether a
line starts here. -/
def nowdocLength (label : List Char) (n : Nat) (atStart : Bool) : List Char → Nat
  | [] => n
  | c :: rest =>
    match if atStart then closingLabel? label (c :: rest) else none with
    | some width => n + width
    | none => nowdocLength label (n + 1) (c == '\n') rest

/-- The first line of a heredoc behind `<<<`: its length with the line break, the label, and
whether it is a nowdoc. -/
def heredocHead? (s : List Char) : Option (Nat × List Char × Bool) :=
  let indent := (s.takeWhile isIndent).length
  let s := s.drop indent
  let (quote, s) : Option Char × List Char := match s with
    | '\'' :: rest => (some '\'', rest)
    | '"' :: rest => (some '"', rest)
    | _ => (none, s)
  let n := nameLength s
  let label := s.take n
  let quotes := if quote.isSome then 2 else 0
  let s := s.drop n
  let closed := match quote, s with
    | none, _ => true
    | some q, c :: _ => q == c
    | some _, [] => false
  if !closed || !(label.head?.any isNameStart) then none
  else
    match s.drop (if quote.isSome then 1 else 0) with
    | '\n' :: _ => some (indent + quotes + n + 1, label, quote == some '\'')
    | '\r' :: '\n' :: _ => some (indent + quotes + n + 2, label, quote == some '\'')
    | _ => none

/-! ### Steps -/

/-- A step in code that stays in code. -/
def inCode (lexeme : Option Lexeme) (width : Nat) (modes : List Mode) : Step :=
  ⟨lexeme, width, modes⟩

/-- A step at a brace or any other mark of one character. -/
def punctStep (c : Char) (modes : List Mode) : Step :=
  match c, modes with
  | '{', .code (some n) :: outer => ⟨some (.punct '{'), 1, .code (some (n + 1)) :: outer⟩
  | '}', .code (some (n + 1)) :: outer => ⟨some (.punct '}'), 1, .code (some n) :: outer⟩
  | '}', .code (some 0) :: outer => ⟨some .unembed, 1, outer⟩
  | _, _ => ⟨some (.punct c), 1, modes⟩

/-- The lexeme of a word. -/
def wordLexeme (s : List Char) : Lexeme :=
  .word (String.ofList (s.map Char.toLower))

/-- A step at a name, a variable, a number or a mark. -/
def plainStep (modes : List Mode) : List Char → Step
  | [] => ⟨none, 1, modes⟩
  | c :: rest =>
    let n := nameLength (c :: rest)
    if c == '$' && 0 < nameLength rest && rest.head?.any isNameStart then
      inCode (some .variable) (1 + nameLength rest) modes
    else if 0 < n && isNameStart c then inCode (some (wordLexeme ((c :: rest).take n))) n modes
    else if 0 < n then inCode (some .literal) n modes
    else punctStep c modes

/-- A step in code. -/
def codeStep (modes : List Mode) (s : List Char) : Step :=
  let space := spaceWidth s
  if 0 < space then inCode none space modes
  else
    match s with
    | '?' :: '>' :: rest => inCode (some .html) (2 + gapLength rest) modes
    | '?' :: '-' :: '>' :: _ => inCode (some .arrow) 3 modes
    | '-' :: '>' :: _ => inCode (some .arrow) 2 modes
    | '-' :: '-' :: _ => inCode (some (.punct '-')) 2 modes
    | ':' :: ':' :: _ => inCode (some .scope) 2 modes
    | '/' :: '/' :: rest => inCode (some .comment) (lineCommentLength 2 rest) modes
    | '/' :: '*' :: rest => inCode (some .comment) (blockCommentLength 2 rest) modes
    | '#' :: '[' :: _ => inCode (some .attribute) 2 modes
    | '#' :: '?' :: _ => inCode (some .comment) 1 modes
    | '#' :: rest => inCode (some .comment) (lineCommentLength 1 rest) modes
    | '\'' :: rest => inCode (some .literal) (singleQuotedLength 1 rest) modes
    | '"' :: _ => ⟨some .literal, 1, .quoted '"' :: modes⟩
    | '`' :: _ => ⟨some .literal, 1, .quoted '`' :: modes⟩
    | '<' :: '<' :: '<' :: rest =>
      match heredocHead? rest with
      | some (n, label, true) =>
        inCode (some .literal) (nowdocLength label (3 + n) true (rest.drop n)) modes
      | some (n, label, false) => ⟨some .literal, 3 + n, .heredoc label true :: modes⟩
      | none => plainStep modes s
    | _ => plainStep modes s

/-- The length of the plain text at the start of a quoted text, at least one. -/
def plainLength (special : Char → Bool) (s : List Char) : Nat :=
  max 1 (s.takeWhile fun c => !special c).length

/-- A step in a quoted text that is neither its end nor a line break. -/
def quotedStep (special : Char → Bool) (same : Mode) (outer : List Mode) (s : List Char) : Step :=
  match s with
  | '{' :: '$' :: _ => ⟨some .embed, 1, .code (some 0) :: same :: outer⟩
  | '$' :: '{' :: _ => ⟨some .embed, 2, .code (some 0) :: same :: outer⟩
  | '\\' :: '\n' :: _ => ⟨some .literal, 1, same :: outer⟩
  | '\\' :: _ :: _ => ⟨some .literal, 2, same :: outer⟩
  | _ => ⟨some .literal, plainLength special s, same :: outer⟩

/-- The characters at which a quoted text may stop being plain. -/
def isSpecial (c : Char) : Bool :=
  c == '\\' || c == '{' || c == '$'

/-- One step at the start of some bytes. -/
def step (modes : List Mode) (s : List Char) : Step :=
  match modes with
  | [] => codeStep [.code none] s
  | .code braces :: outer => codeStep (.code braces :: outer) s
  | .outside :: outer =>
    let n := tagLength s
    if 0 < n then ⟨some .tag, n, .code none :: outer⟩
    else ⟨some .text, max 1 (textLength 0 s), .outside :: outer⟩
  | .quoted q :: outer =>
    if s.head? == some q then ⟨some .literal, 1, outer⟩
    else quotedStep (fun c => isSpecial c || c == q) (.quoted q) outer s
  | .heredoc label atStart :: outer =>
    match if atStart then closingLabel? label s else none with
    | some n => ⟨some .literal, n, outer⟩
    | none =>
      if s.head? == some '\n' then ⟨some .literal, 1, .heredoc label true :: outer⟩
      else quotedStep (fun c => isSpecial c || c == '\n') (.heredoc label false) outer s

/-- The tokens of some bytes from a place on; `acc` holds those before, last first.  The first
argument bounds the number of steps; each step takes at least one byte. -/
def tokensFrom : Nat → List Mode → Mark → List Token → List Char → List Token
  | 0, _, _, acc, _ => acc.reverse
  | _, _, _, acc, [] => acc.reverse
  | n + 1, modes, place, acc, c :: rest =>
    let next := step modes (c :: rest)
    let width := max 1 next.width
    let behind := place.advance ((c :: rest).take width)
    let acc := match next.lexeme with
      | some lexeme => ⟨lexeme, place, behind⟩ :: acc
      | none => acc
    tokensFrom n next.modes behind acc ((c :: rest).drop width)

/-- The bytes of a source as characters. -/
def byteChars (source : ByteArray) : List Char :=
  source.data.toList.map fun b => Char.ofNat b.toNat

/-- The tokens of a source. -/
def tokens (source : ByteArray) : List Token :=
  let s := byteChars source
  tokensFrom s.length [.outside] ⟨0, 0, 0⟩ [] s

end PhpCatalog.Php
