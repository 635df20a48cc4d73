/-
# The outline of a source

The outline of a source is a syntax tree that keeps what a catalog needs: declarations, nested as
in the source, with their modifiers, names, types, parameters and bodies, and the comments where
they stand.  Everything else is opaque tokens and brackets around them.

Which comment belongs to which node follows one rule: what comes before the first token of a
declaration stands beside it, and what comes between its first and its last token stands inside.

The reader goes through the tokens once.  In code it looks for the words that begin a declaration;
a word right behind `->`, `::` or a backslash is a part of a name and begins nothing.  Each function
takes the tokens ahead and gives back those it did not use.  Their first argument bounds the number
of nested calls.
-/
import PhpCatalog.Php.Lexer
import PhpCatalog.Syntax.Node

namespace PhpCatalog.Php

/-! ### Nodes over tokens -/

/-- The point of a place. -/
def Mark.point (m : Mark) : Point :=
  ⟨m.row, m.column⟩

/-- A node from one place to another. -/
def spanning (kind : String) (field : Option String) (first last : Mark) (children : List Node) :
    Node :=
  { kind, start := first.byte, stop := last.byte, startPoint := first.point,
    stopPoint := last.point, field, children }

/-- A node over one token. -/
def Token.asNode (t : Token) (kind : String) (field : Option String) : Node :=
  spanning kind field t.start t.stop []

/-- A token without a role of its own, or an extra. -/
def Token.leaf (t : Token) : Node :=
  match t.lexeme with
  | .comment => { t.asNode "comment" none with extra := true }
  | .html => { t.asNode "text_interpolation" none with extra := true }
  | _ => t.asNode "token" none

/-- A node over all of some tokens, extras at its ends left out; none if nothing is left. -/
def overTokens (kind field : String) (ts : List Token) : List Node :=
  let ts := ts.filter fun t => !t.isExtra
  match ts.head?, ts.getLast? with
  | some a, some b => [spanning kind (some field) a.start b.stop []]
  | _, _ => []

/-! ### Looking ahead -/

/-- What comes next, extras aside. -/
def peek : List Token → Option Lexeme
  | [] => none
  | t :: rest => if t.isExtra then peek rest else some t.lexeme

/-- What comes behind the next token, extras aside. -/
def peekSecond : List Token → Option Lexeme
  | [] => none
  | t :: rest => if t.isExtra then peekSecond rest else peek rest

/-- The next token, extras aside, with the extras before it as nodes, last first, on top of
`acc`. -/
def nextToken (acc : List Node) : List Token → List Node × Option Token × List Token
  | [] => (acc, none, [])
  | t :: rest => if t.isExtra then nextToken (t.leaf :: acc) rest else (acc, some t, rest)

/-- The words that may stand before `class`. -/
def classModifiers : List String := ["abstract", "final", "readonly"]

/-- What follows attributes and class modifiers; `depth` counts the brackets that are open. -/
def skipLead (depth : Nat) : List Token → List Token
  | [] => []
  | t :: rest =>
    if depth = 0 then
      if t.isExtra then skipLead 0 rest
      else
        match t.lexeme with
        | .attribute => skipLead 1 rest
        | .word w => if classModifiers.contains w then skipLead 0 rest else t :: rest
        | _ => t :: rest
    else if t.lexeme.opens then skipLead (depth + 1) rest
    else if t.lexeme.closes then skipLead (depth - 1) rest
    else skipLead depth rest

/-- What a declaration in code declares. -/
inductive Begins where
  /-- A type with members, by the kind of its node. -/
  | type (kind : String)
  | function
  | constant
  | namespace
  deriving Repr, DecidableEq

/-- Whether a lexeme is a word. -/
def isWord : Option Lexeme → Bool
  | some (.word _) => true
  | _ => false

/-- The declaration that some tokens begin, attributes and modifiers in front allowed. -/
def begins? (ts : List Token) : Option Begins :=
  match skipLead 0 ts with
  | [] => none
  | t :: rest =>
    let next := peek rest
    match t.lexeme with
    | .word "class" => if isWord next then some (.type "class_declaration") else none
    | .word "interface" => if isWord next then some (.type "interface_declaration") else none
    | .word "trait" => if isWord next then some (.type "trait_declaration") else none
    | .word "enum" =>
      -- A constant may have this name, so the start of a body or of what leads to it is asked for.
      let opens := match peekSecond rest with
        | some (.punct c) => c == '{' || c == ':'
        | some (.word w) => w == "implements"
        | _ => false
      if isWord next && opens then some (.type "enum_declaration") else none
    | .word "function" =>
      if isWord next || (next == some (.punct '&') && isWord (peekSecond rest)) then
        some .function
      else none
    | .word "const" => if next == some (.punct ':') then none else some .constant
    | .word "namespace" =>
      if isWord next || next == some (.punct '{') then some .namespace else none
    | _ => none

/-! ### Reading -/

/-- What a reader gives: nodes, the place behind the last token that is not an extra, and the
tokens that remain. -/
structure Parsed where
  nodes : List Node
  last : Mark
  rest : List Token

/-- Where code ends apart from the bracket that closes it. -/
structure Limits where
  comma : Bool := false
  semicolon : Bool := false
  /-- Before the accessors of a property. -/
  accessors : Bool := false

/-- What matters of the code before a token. -/
structure Before where
  prev : Lexeme
  last : Mark
  /-- A function or a match has yet to get its braces. -/
  bodyDue : Bool := false
  /-- A function has yet to get its parameters. -/
  paramsDue : Bool := false
  /-- An object is about to be created. -/
  newDue : Bool := false

/-- The node kind of a modifier. -/
def modifierKind? : String → Option String
  | "public" | "protected" | "private" => some "visibility_modifier"
  | "static" => some "static_modifier"
  | "abstract" => some "abstract_modifier"
  | "final" => some "final_modifier"
  | "readonly" => some "readonly_modifier"
  | "var" => some "var_modifier"
  | _ => none

/-- A modifier; a visibility may be followed by `(set)`. -/
def modifier (kind : String) (t : Token) : List Token → Node × Mark × List Token
  | a :: b :: c :: rest =>
    if kind == "visibility_modifier" && a.lexeme == .punct '(' && b.lexeme == .word "set" &&
        c.lexeme == .punct ')' then
      (spanning kind none t.start c.stop [], c.stop, rest)
    else (t.asNode kind none, t.stop, a :: b :: c :: rest)
  | rest => (t.asNode kind none, t.stop, rest)

/-- The tokens before the first outside round brackets that ends them, a gap in the code included;
`depth` counts the round brackets that are open. -/
def untilFrom (ends : Lexeme → Bool) (depth : Nat) : List Token → List Token × List Token
  | [] => ([], [])
  | t :: rest =>
    if depth = 0 && (ends t.lexeme || t.lexeme == .html) then ([], t :: rest)
    else
      let depth := if t.lexeme == .punct '(' then depth + 1
        else if t.lexeme == .punct ')' then depth - 1 else depth
      let (before, rest) := untilFrom ends depth rest
      (t :: before, rest)

/-- The tokens before the first that ends them. -/
def untilToken (ends : Lexeme → Bool) (ts : List Token) : List Token × List Token :=
  untilFrom ends 0 ts

/-- Whether a lexeme is one of some marks. -/
def isPunct (marks : List Char) : Lexeme → Bool
  | .punct c => marks.contains c
  | _ => false

/-- The name in a trait-use clause: a single word, a path, or a path that starts at the current
namespace. -/
def traitName (ts : List Token) : List Node :=
  let ts := ts.filter fun t => !t.isExtra
  match ts with
  | [] => []
  | [t] => [t.asNode "name" none]
  | t :: _ =>
    let kind := if t.lexeme == .word "namespace" then "relative_name" else "qualified_name"
    (overTokens kind "" ts).map fun n => { n with field := none }

/-- The names of a trait-use clause, which commas divide; `acc` holds the tokens of the name that
is being read, last first. -/
def traitNames (acc : List Token) : List Token → List Node
  | [] => traitName acc.reverse
  | t :: rest =>
    if t.lexeme == .punct ',' then traitName acc.reverse ++ traitNames [] rest
    else traitNames (t :: acc) rest

/-- The tokens of a bracket and what follows it; `depth` counts the brackets that are open. -/
def bracket (depth : Nat) : List Token → List Token × List Token
  | [] => ([], [])
  | t :: rest =>
    let depth := if t.lexeme.opens then depth + 1
      else if t.lexeme.closes then depth - 1 else depth
    if depth = 0 then ([t], rest)
    else
      let (inner, rest) := bracket depth rest
      (t :: inner, rest)

/-- The last word of some tokens and what stands before it. -/
def splitLastWord (ts : List Token) : List Token × Option Token :=
  match ts.reverse.dropWhile fun t => !isWord (some t.lexeme) with
  | [] => (ts, none)
  | t :: before => (before.reverse, some t)

/-- The name behind a keyword, with a reference mark in front if there is one, on top of `acc`; and
the place behind it.  `last` is the place if there is no name. -/
def declaredName (last : Mark) (acc : List Node) (ts : List Token) :
    List Node × Mark × List Token :=
  match nextToken acc ts with
  | (acc, none, rest) => (acc, last, rest)
  | (acc, some t, rest) =>
    if t.lexeme == .punct '&' then
      match nextToken (t.leaf :: acc) rest with
      | (acc, none, rest) => (acc, t.stop, rest)
      | (acc, some name, rest) => (name.asNode "name" (some "name") :: acc, name.stop, rest)
    else (t.asNode "name" (some "name") :: acc, t.stop, rest)

/-- What stands before the variable of a parameter: its type, and the mark of a reference.  Dots
and a reference mark right before the variable are not part of the type. -/
def paramHead (ts : List Token) : List Token × Option Token :=
  let ts := ts.reverse.dropWhile fun t => t.isExtra || t.lexeme == .punct '.'
  match ts with
  | [] => ([], none)
  | t :: before => if t.lexeme == .punct '&' then (before.reverse, some t) else (ts.reverse, none)

mutual

/-- Code up to a limit or a bracket that closes. -/
def code : Nat → Limits → Before → List Node → List Token → Parsed
  | 0, _, st, acc, ts => ⟨acc.reverse, st.last, ts⟩
  | _, _, st, acc, [] => ⟨acc.reverse, st.last, []⟩
  | n + 1, limits, st, acc, t :: rest =>
    let done : Parsed := ⟨acc.reverse, st.last, t :: rest⟩
    let member := st.prev == .arrow || st.prev == .scope || st.prev == .punct '\\'
    let leaf (st' : Before) : Parsed :=
      code n limits { st' with prev := t.lexeme, last := t.stop } (t.leaf :: acc) rest
    let quiet : Before := { st with paramsDue := false, newDue := false }
    let after (p : Parsed) : Parsed :=
      code n limits { prev := .punct '}', last := p.last } (p.nodes.reverse ++ acc) p.rest
    if t.isExtra then
      if t.lexeme == .html && limits.semicolon && st.prev.endsOperand then done
      else if t.lexeme == .html && st.prev.endsOperand && st.prev != .punct '}' then
        -- The closing tag also ends the statement before it.
        code n limits { st with prev := .tag }
          (t.leaf :: spanning "token" none t.start t.start [] :: acc) rest
      else code n limits st (t.leaf :: acc) rest
    else if t.lexeme.closes then done
    else
      match t.lexeme with
      | .punct ',' => if limits.comma then done else leaf quiet
      | .punct ';' =>
        if limits.semicolon then done else leaf { quiet with bodyDue := false }
      | .punct '&' => leaf { st with newDue := false }
      | .punct '{' =>
        if limits.accessors && !st.bodyDue && !member && st.prev != .punct '$' then done
        else
          let p := group n "block" t rest
          code n limits { quiet with prev := .punct '}', last := p.last, bodyDue := false }
            (p.nodes.reverse ++ acc) p.rest
      | .punct '(' =>
        let p := if st.paramsDue then params n none t rest else group n "group" t rest
        code n limits { quiet with prev := .punct ')', last := p.last } (p.nodes.reverse ++ acc)
          p.rest
      | .punct '[' | .embed =>
        let p := group n "group" t rest
        code n limits { quiet with prev := .punct ']', last := p.last } (p.nodes.reverse ++ acc)
          p.rest
      | .attribute =>
        match if st.newDue then none else begins? (t :: rest) with
        | some what => after (declaration n what (t :: rest))
        | none =>
          let p := group n "attribute_list" t rest
          code n limits { st with prev := .attribute, last := p.last } (p.nodes.reverse ++ acc)
            p.rest
      | .word w =>
        if member then leaf quiet
        else if w == "new" then leaf { quiet with newDue := true }
        else if st.newDue && classModifiers.contains w then leaf st
        else if st.newDue && w == "class" then
          let p := anonymousClass n t rest
          code n limits { quiet with prev := .punct '}', last := p.last } (p.nodes.reverse ++ acc)
            p.rest
        else if w == "use" && (isWord (peek rest) || peek rest == some (.punct '\\')) then
          let (ts, rest) := untilToken (isPunct [';']) (t :: rest)
          code n limits { quiet with prev := .word w, last := t.stop }
            ((ts.map Token.leaf).reverse ++ acc) rest
        else
          match begins? (t :: rest) with
          | some what => after (declaration n what (t :: rest))
          | none =>
            let next := peek rest
            let called := next == some (.punct '(')
            if (w == "function" || w == "fn") && (called || next == some (.punct '&')) then
              leaf { quiet with paramsDue := true, bodyDue := st.bodyDue || w == "function" }
            else if w == "match" && called then leaf { quiet with bodyDue := true }
            else leaf quiet
      | _ => leaf quiet

/-- A bracket whose opening token has been read, as one node. -/
def group : Nat → String → Token → List Token → Parsed
  | 0, _, t, rest => ⟨[t.leaf], t.stop, rest⟩
  | n + 1, kind, t, rest =>
    let p := code n {} { prev := t.lexeme, last := t.stop } [] rest
    match p.rest with
    | [] => ⟨[spanning kind none t.start p.last (t.leaf :: p.nodes)], p.last, []⟩
    | c :: rest =>
      ⟨[spanning kind none t.start c.stop (t.leaf :: p.nodes ++ [c.leaf])], c.stop, rest⟩

/-- Attributes, modifiers and the extras between them; nodes last first, on top of `acc`.  `last`
is the place behind the last token that was read. -/
def lead : Nat → Mark → List Node → List Token → List Node × Mark × List Token
  | 0, last, acc, ts => (acc, last, ts)
  | _, last, acc, [] => (acc, last, [])
  | n + 1, last, acc, t :: rest =>
    if t.isExtra then lead n last (t.leaf :: acc) rest
    else
      match t.lexeme with
      | .attribute =>
        let p := group n "attribute_list" t rest
        lead n p.last (p.nodes.reverse ++ acc) p.rest
      | .word w =>
        match modifierKind? w with
        | some kind =>
          let (node, last, rest) := modifier kind t rest
          lead n last (node :: acc) rest
        | none => (acc, last, t :: rest)
      | _ => (acc, last, t :: rest)

/-- A declaration in code. -/
def declaration : Nat → Begins → List Token → Parsed
  | 0, _, ts => ⟨[], ⟨0, 0, 0⟩, ts⟩
  | _, _, [] => ⟨[], ⟨0, 0, 0⟩, []⟩
  | n + 1, what, t :: rest =>
    let (acc, last, ts) := lead n t.start [] (t :: rest)
    match what with
    | .type kind => typeDeclaration n kind t.start last acc ts
    | .function => functionLike n "function_definition" t.start last acc ts
    | .constant => constants n t.start last acc ts
    | .namespace => namespaceDeclaration n t.start last acc ts

/-- A class, an interface, a trait or an enumeration from its keyword on. -/
def typeDeclaration : Nat → String → Mark → Mark → List Node → List Token → Parsed
  | 0, _, _, last, acc, ts => ⟨acc.reverse, last, ts⟩
  | n + 1, kind, first, last, acc, ts =>
    match ts with
    | [] => ⟨acc.reverse, last, []⟩
    | key :: rest =>
      let (acc, last, rest) := declaredName key.stop (key.leaf :: acc) rest
      let p := body n last rest
      ⟨[spanning kind none first p.last (acc.reverse ++ p.nodes)], p.last, p.rest⟩

/-- A class without a name, from its keyword on. -/
def anonymousClass : Nat → Token → List Token → Parsed
  | 0, t, rest => ⟨[t.leaf], t.stop, rest⟩
  | n + 1, t, rest =>
    match nextToken [] rest with
    | (extras, some open_, rest') =>
      if open_.lexeme == .punct '(' then
        let args := group n "group" open_ rest'
        let p := body n args.last args.rest
        ⟨[spanning "anonymous_class" none t.start p.last
          (t.leaf :: extras.reverse ++ args.nodes ++ p.nodes)], p.last, p.rest⟩
      else
        let p := body n t.stop rest
        ⟨[spanning "anonymous_class" none t.start p.last (t.leaf :: p.nodes)], p.last, p.rest⟩
    | (extras, none, _) => ⟨t.leaf :: extras.reverse, t.stop, []⟩

/-- What a type extends and implements, and its members in braces. -/
def body : Nat → Mark → List Token → Parsed
  | 0, last, ts => ⟨[], last, ts⟩
  | n + 1, last, ts =>
    let (head, ts) := untilToken (isPunct ['{']) ts
    let head := head.map Token.leaf
    match ts with
    | [] => ⟨head, last, []⟩
    | open_ :: rest =>
      let p := memberList n open_.stop [] rest
      match p.rest with
      | [] =>
        ⟨head ++ [spanning "declaration_list" (some "body") open_.start p.last
          (open_.leaf :: p.nodes)], p.last, []⟩
      | close :: rest =>
        ⟨head ++ [spanning "declaration_list" (some "body") open_.start close.stop
          (open_.leaf :: p.nodes ++ [close.leaf])], close.stop, rest⟩

/-- The members of a type up to the brace that closes it. -/
def memberList : Nat → Mark → List Node → List Token → Parsed
  | 0, last, acc, ts => ⟨acc.reverse, last, ts⟩
  | _, last, acc, [] => ⟨acc.reverse, last, []⟩
  | n + 1, last, acc, t :: rest =>
    if t.isExtra then memberList n last (t.leaf :: acc) rest
    else if t.lexeme == .punct '}' then ⟨acc.reverse, last, t :: rest⟩
    else if t.lexeme == .punct ';' then memberList n t.stop (t.leaf :: acc) rest
    else
      let (own, last, ts) := lead n t.start [] (t :: rest)
      match ts with
      | [] => ⟨own ++ acc |>.reverse, last, []⟩
      | key :: rest' =>
        let p := match key.lexeme with
          | .word "use" => traitUse n t.start own key rest'
          | .word "case" =>
            let (head, last, rest') := declaredName key.stop (key.leaf :: own) rest'
            let p := code n { semicolon := true } { prev := key.lexeme, last } [] rest'
            ⟨[spanning "enum_case" none t.start p.last (head.reverse ++ p.nodes)], p.last, p.rest⟩
          | .word "const" => constants n t.start last own ts
          | .word "function" => functionLike n "method_declaration" t.start last own ts
          | _ => properties n t.start last own ts
        match p.rest with
        | next :: rest'' =>
          -- A member that takes no token would stop the reader: pass over one.
          if next.start.byte ≤ t.start.byte then
            memberList n next.stop (next.leaf :: acc) rest''
          else memberList n p.last (p.nodes.reverse ++ acc) p.rest
        | [] => ⟨(p.nodes.reverse ++ acc).reverse, p.last, []⟩

/-- A trait-use clause from its keyword on. -/
def traitUse : Nat → Mark → List Node → Token → List Token → Parsed
  | 0, _, own, key, rest => ⟨(key.leaf :: own).reverse, key.stop, rest⟩
  | _ + 1, first, own, key, rest =>
    let (names, rest) := untilToken (isPunct [';', '{', '}']) rest
    let inner := (key.leaf :: own).reverse ++ traitNames [] names
    let last := (names.getLast?.map Token.stop).getD key.stop
    match rest with
    | t :: rest' =>
      if t.lexeme == .punct '{' then
        let (rules, rest') := bracket 0 (t :: rest')
        let last := (rules.getLast?.map Token.stop).getD last
        ⟨[spanning "use_declaration" none first last
          (inner ++ [spanning "use_list" none t.start last (rules.map Token.leaf)])], last, rest'⟩
      else if t.lexeme == .punct ';' then
        ⟨[spanning "use_declaration" none first t.stop (inner ++ [t.leaf])], t.stop, rest'⟩
      else ⟨[spanning "use_declaration" none first last inner], last, t :: rest'⟩
    | [] => ⟨[spanning "use_declaration" none first last inner], last, []⟩

/-- A function or a method from its keyword on. -/
def functionLike : Nat → String → Mark → Mark → List Node → List Token → Parsed
  | 0, _, _, last, acc, ts => ⟨acc.reverse, last, ts⟩
  | n + 1, kind, first, last, acc, ts =>
    match ts with
    | [] => ⟨acc.reverse, last, []⟩
    | key :: rest =>
      let (acc, last, rest) := declaredName key.stop (key.leaf :: acc) rest
      match nextToken acc rest with
      | (acc, none, _) => ⟨[spanning kind none first last acc.reverse], last, []⟩
      | (acc, some open_, rest) =>
        if open_.lexeme != .punct '(' then
          ⟨[spanning kind none first last acc.reverse], last, open_ :: rest⟩
        else
          let p := params n (some "parameters") open_ rest
          signatureEnd n kind first p.last (p.nodes.reverse ++ acc) p.rest

/-- The return type and the body of a function, if it has them. -/
def signatureEnd : Nat → String → Mark → Mark → List Node → List Token → Parsed
  | 0, _, _, last, acc, ts => ⟨acc.reverse, last, ts⟩
  | n + 1, kind, first, last, acc, ts =>
    let whole (last : Mark) (nodes : List Node) (rest : List Token) : Parsed :=
      ⟨[spanning kind none first last nodes], last, rest⟩
    match nextToken acc ts with
    | (_, none, _) => whole last acc.reverse ts
    | (acc', some t, rest) =>
      match t.lexeme with
      | .punct ';' => whole t.stop (t.leaf :: acc').reverse rest
      | .punct '{' =>
        let p := group n "compound_statement" t rest
        whole p.last (acc'.reverse ++ p.nodes) p.rest
      | .punct ':' =>
        let (type, rest) := untilToken (isPunct ['{', ';', '}']) rest
        let last := ((type.filter fun t => !t.isExtra).getLast?.map Token.stop).getD t.stop
        signatureEnd n kind first last
          ((overTokens "type" "return_type" type).reverse ++ t.leaf :: acc') rest
      | _ => whole last acc.reverse ts

/-- A list of parameters whose opening bracket has been read. -/
def params : Nat → Option String → Token → List Token → Parsed
  | 0, _, t, rest => ⟨[t.leaf], t.stop, rest⟩
  | n + 1, field, t, rest =>
    let p := paramList n t.stop [t.leaf] rest
    match p.rest with
    | [] => ⟨[spanning "formal_parameters" field t.start p.last p.nodes], p.last, []⟩
    | c :: rest =>
      ⟨[spanning "formal_parameters" field t.start c.stop (p.nodes ++ [c.leaf])], c.stop, rest⟩

/-- The parameters up to the bracket that closes them. -/
def paramList : Nat → Mark → List Node → List Token → Parsed
  | 0, last, acc, ts => ⟨acc.reverse, last, ts⟩
  | _, last, acc, [] => ⟨acc.reverse, last, []⟩
  | n + 1, last, acc, t :: rest =>
    if t.isExtra then paramList n last (t.leaf :: acc) rest
    else if t.lexeme.closes then ⟨acc.reverse, last, t :: rest⟩
    else if t.lexeme == .punct ',' then paramList n t.stop (t.leaf :: acc) rest
    else
      let p := param n t.start (t :: rest)
      match p.rest with
      | next :: rest' =>
        -- A parameter that takes no token would stop the reader: pass over one.
        if next.start.byte ≤ t.start.byte then paramList n next.stop (next.leaf :: acc) rest'
        else paramList n p.last (p.nodes.reverse ++ acc) p.rest
      | [] => ⟨(p.nodes.reverse ++ acc).reverse, p.last, []⟩

/-- One parameter.  It promotes a property if it has a visibility or is read-only. -/
def param : Nat → Mark → List Token → Parsed
  | 0, last, ts => ⟨[], last, ts⟩
  | n + 1, first, ts =>
    let (own, last, ts) := lead n first [] ts
    let promotes := own.any fun c =>
      c.kind == "visibility_modifier" || c.kind == "readonly_modifier"
    let kind := if promotes then "property_promotion_parameter" else "simple_parameter"
    let (type, ts) := untilToken (fun l => l == .variable || isPunct [',', ')'] l) ts
    let (type, mark) := paramHead type
    let typeNodes := overTokens "type" "type" type
    match ts with
    | [] => ⟨own.reverse ++ typeNodes, last, []⟩
    | v :: rest =>
      if v.lexeme != .variable then
        ⟨[spanning kind none first last (own.reverse ++ typeNodes)], last, ts⟩
      else
        let name := match mark with
          | some m => spanning "by_ref" (some "name") m.start v.stop []
          | none => v.asNode "variable_name" (some "name")
        let p := code n { comma := true } { prev := v.lexeme, last := v.stop } [] rest
        ⟨[spanning kind none first p.last (own.reverse ++ typeNodes ++ name :: p.nodes)],
          p.last, p.rest⟩

/-- A declaration of constants from its keyword on.  The last word before the first value is the
name of the first constant, and what stands before it is the type of all. -/
def constants : Nat → Mark → Mark → List Node → List Token → Parsed
  | 0, _, last, acc, ts => ⟨acc.reverse, last, ts⟩
  | n + 1, first, last, acc, ts =>
    match ts with
    | [] => ⟨acc.reverse, last, []⟩
    | key :: rest =>
      let (head, after) := untilToken (isPunct ['=', ';', ',', '}']) rest
      let (type, name) := splitLastWord head
      match name with
      | none => ⟨[spanning "const_declaration" none first key.stop (key.leaf :: acc).reverse],
          key.stop, after⟩
      | some name =>
        constantList n first key.stop ((overTokens "type" "type" type).reverse ++ key.leaf :: acc)
          (name :: after)

/-- The constants of a declaration from a name on. -/
def constantList : Nat → Mark → Mark → List Node → List Token → Parsed
  | 0, first, last, acc, ts =>
    ⟨[spanning "const_declaration" none first last acc.reverse], last, ts⟩
  | n + 1, first, last, acc, ts =>
    match nextToken acc ts with
    | (acc, none, _) => ⟨[spanning "const_declaration" none first last acc.reverse], last, []⟩
    | (acc, some name, rest) =>
      let p := code n { comma := true, semicolon := true }
        { prev := name.lexeme, last := name.stop } [] rest
      let element := spanning "const_element" none name.start p.last
        (name.asNode "name" none :: p.nodes)
      match p.rest with
      | sep :: rest =>
        if sep.lexeme == .punct ',' then
          constantList n first sep.stop (sep.leaf :: element :: acc) rest
        else if sep.lexeme == .punct ';' then
          ⟨[spanning "const_declaration" none first sep.stop
            (sep.leaf :: element :: acc).reverse], sep.stop, rest⟩
        else
          ⟨[spanning "const_declaration" none first p.last (element :: acc).reverse], p.last,
            sep :: rest⟩
      | [] =>
        ⟨[spanning "const_declaration" none first p.last (element :: acc).reverse], p.last, []⟩

/-- A declaration of properties behind its modifiers.  What stands before the first variable is
the type of all. -/
def properties : Nat → Mark → Mark → List Node → List Token → Parsed
  | 0, _, last, acc, ts => ⟨acc.reverse, last, ts⟩
  | n + 1, first, last, acc, ts =>
    let (type, ts) := untilToken (fun l => l == .variable || isPunct [';', '{', '}'] l) ts
    let last := ((type.filter fun t => !t.isExtra).getLast?.map Token.stop).getD last
    let acc := (overTokens "type" "type" type).reverse ++ acc
    match ts with
    | [] => ⟨[spanning "property_declaration" none first last acc.reverse], last, []⟩
    | t :: rest =>
      if t.lexeme == .variable then propertyList n first last acc ts
      else if t.lexeme == .punct '}' then
        ⟨[spanning "property_declaration" none first last acc.reverse], last, ts⟩
      else
        ⟨[spanning "property_declaration" none first t.stop (t.leaf :: acc).reverse], t.stop, rest⟩

/-- The properties of a declaration from a variable on, and the accessors behind them. -/
def propertyList : Nat → Mark → Mark → List Node → List Token → Parsed
  | 0, first, last, acc, ts =>
    ⟨[spanning "property_declaration" none first last acc.reverse], last, ts⟩
  | n + 1, first, last, acc, ts =>
    let whole (last : Mark) (acc : List Node) (rest : List Token) : Parsed :=
      ⟨[spanning "property_declaration" none first last acc.reverse], last, rest⟩
    match nextToken acc ts with
    | (acc, none, _) => whole last acc []
    | (acc, some v, rest) =>
      let p := code n { comma := true, semicolon := true, accessors := true }
        { prev := v.lexeme, last := v.stop } [] rest
      let element := spanning "property_element" none v.start p.last
        (v.asNode "variable_name" (some "name") :: p.nodes)
      match p.rest with
      | [] => whole p.last (element :: acc) []
      | sep :: rest =>
        match sep.lexeme with
        | .punct ',' => propertyList n first sep.stop (sep.leaf :: element :: acc) rest
        | .punct ';' => whole sep.stop (sep.leaf :: element :: acc) rest
        | .punct '{' =>
          let q := group n "property_hook_list" sep rest
          whole q.last (q.nodes.reverse ++ element :: acc) q.rest
        | _ => whole p.last (element :: acc) (sep :: rest)

/-- A namespace from its keyword on. -/
def namespaceDeclaration : Nat → Mark → Mark → List Node → List Token → Parsed
  | 0, _, last, acc, ts => ⟨acc.reverse, last, ts⟩
  | n + 1, first, last, acc, ts =>
    match ts with
    | [] => ⟨acc.reverse, last, []⟩
    | key :: rest =>
      let (name, rest) := untilToken (isPunct [';', '{', '}']) rest
      let last := ((name.filter fun t => !t.isExtra).getLast?.map Token.stop).getD key.stop
      let acc := (overTokens "namespace_name" "name" name).reverse ++ key.leaf :: acc
      match rest with
      | [] => ⟨[spanning "namespace_definition" none first last acc.reverse], last, []⟩
      | t :: rest' =>
        match t.lexeme with
        | .punct ';' =>
          ⟨[spanning "namespace_definition" none first t.stop (t.leaf :: acc).reverse], t.stop,
            rest'⟩
        | .punct '{' =>
          let p := group n "compound_statement" t rest'
          ⟨[spanning "namespace_definition" none first p.last (acc.reverse ++ p.nodes)], p.last,
            p.rest⟩
        | _ => ⟨[spanning "namespace_definition" none first last acc.reverse], last, rest⟩

end

/-- The nodes of a whole source.  A bracket that closes nothing is passed over. -/
def topLevel (bound : Nat) : Nat → List Node → List Token → List Node
  | 0, acc, _ => acc.reverse
  | n + 1, acc, ts =>
    let p := code bound {} { prev := .tag, last := ⟨0, 0, 0⟩ } [] ts
    match p.rest with
    | [] => (p.nodes.reverse ++ acc).reverse
    | t :: rest => topLevel bound n (t.leaf :: p.nodes.reverse ++ acc) rest

/-- The outline of a source. -/
def outline (source : ByteArray) : Node :=
  let ts := tokens source
  let last := (ts.getLast?.map Token.stop).getD ⟨0, 0, 0⟩
  let bound := 8 * ts.length + 8
  spanning "program" none ⟨0, 0, 0⟩ last (topLevel bound (ts.length + 1) [] ts)

end PhpCatalog.Php
