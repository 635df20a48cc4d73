/-
# Reading bytes as text

Sources and file contents are bytes in UTF-8.  `decodeLossy` reads any bytes: what is well formed
becomes its characters, and each longest ill-formed piece that could still have begun a character
becomes one replacement character.  It is a machine with one step per byte; between two bytes it
remembers the character it is in the middle of.
-/

namespace PhpCatalog.Text

/-- A character whose first bytes have been read: how many bytes it still needs, the range the
next one must lie in, and the bits read so far. -/
structure Pending where
  needed : Nat
  low : UInt8
  high : UInt8
  bits : Nat

/-- Stands for bytes that are no character. -/
def replacement : Char := '\uFFFD'

/-- What a byte begins when no character is pending: an ASCII character is complete, a leading
byte leaves a pending character, and any other byte begins nothing. -/
def leading (b : UInt8) : Char ⊕ Pending ⊕ Unit :=
  let n := b.toNat
  if n ≤ 0x7F then .inl (Char.ofNat n)
  else if 0xC2 ≤ n && n ≤ 0xDF then .inr (.inl ⟨1, 0x80, 0xBF, n - 0xC0⟩)
  else if n == 0xE0 then .inr (.inl ⟨2, 0xA0, 0xBF, 0⟩)
  else if n == 0xED then .inr (.inl ⟨2, 0x80, 0x9F, 0x0D⟩)
  else if 0xE1 ≤ n && n ≤ 0xEF then .inr (.inl ⟨2, 0x80, 0xBF, n - 0xE0⟩)
  else if n == 0xF0 then .inr (.inl ⟨3, 0x90, 0xBF, 0⟩)
  else if 0xF1 ≤ n && n ≤ 0xF3 then .inr (.inl ⟨3, 0x80, 0xBF, n - 0xF0⟩)
  else if n == 0xF4 then .inr (.inl ⟨3, 0x80, 0x8F, 4⟩)
  else .inr (.inr ())

/-- One byte: the characters it completes, and what is pending after it.  A byte that does not
continue the pending character closes it with a replacement and is then read afresh. -/
def decodeStep (pending : Option Pending) (b : UInt8) : List Char × Option Pending :=
  let fresh : List Char × Option Pending :=
    match leading b with
    | .inl c => ([c], none)
    | .inr (.inl p) => ([], some p)
    | .inr (.inr ()) => ([replacement], none)
  match pending with
  | none => fresh
  | some p =>
    if p.low ≤ b && b ≤ p.high then
      let bits := p.bits * 64 + (b.toNat - 0x80)
      if p.needed ≤ 1 then ([Char.ofNat bits], none)
      else ([], some ⟨p.needed - 1, 0x80, 0xBF, bits⟩)
    else (replacement :: fresh.1, fresh.2)

/-- The characters of some bytes, given what is pending before them.  `acc` holds the characters
read so far, last first. -/
def decodeFrom (pending : Option Pending) (acc : List Char) : List UInt8 → List Char
  | [] => (if pending.isSome then replacement :: acc else acc).reverse
  | b :: rest =>
    let step := decodeStep pending b
    decodeFrom step.2 (step.1.reverse ++ acc) rest

/-- Bytes as text, with a replacement character for each ill-formed piece. -/
def decodeLossy (bytes : List UInt8) : List Char :=
  decodeFrom none [] bytes

end PhpCatalog.Text
