/-
# Numbers are read back

A written number is read back as it was, if what follows it cannot belong to a number any more and
the machine has the number: the digits of an integer are within its bound, and a decimal is one that
it keeps.  The reader takes digits as long as there are any, so the written digits are found again,
and they never start with a zero that is not the whole number.
-/
import Mathlib.Tactic.Lemma
import PhpCatalog.Json.Printer
import PhpCatalog.Json.Reader

namespace PhpCatalog.Json

@[simp] lemma skip_append (pos : Nat) (w rest : List Char) :
    (Cursor.mk pos (w ++ rest)).skip w.length = ⟨pos + w.length, rest⟩ := by
  simp [Cursor.skip]

/-- A text that does not start with a digit. -/
def NoDigit (rest : List Char) : Prop :=
  ∀ c ∈ rest.head?, c.isDigit = false

/-- A text that does not go on with a number. -/
structure EndsNumber (rest : List Char) : Prop where
  noDigit : NoDigit rest
  noPoint : ∀ c ∈ rest.head?, c ≠ '.'
  noExponent : ∀ c ∈ rest.head?, c ≠ 'e' ∧ c ≠ 'E'

/-! ### Digits -/

lemma takeWhile_isDigit {ds rest : List Char} (hds : ∀ c ∈ ds, c.isDigit = true)
    (hrest : NoDigit rest) : (ds ++ rest).takeWhile Char.isDigit = ds := by
  rw [List.takeWhile_append_of_pos hds]
  cases rest with
  | nil => simp
  | cons c more => simp [hrest c rfl]

lemma isDigit_of_mem_writeNat {n : Nat} {c : Char} (h : c ∈ writeNat n) : c.isDigit = true :=
  Nat.isDigit_of_mem_toDigits (by decide) (by decide) h

lemma writeNat_ne_nil (n : Nat) : writeNat n ≠ [] :=
  Nat.toDigits_ne_nil

/-- A written number starts with a digit. -/
lemma writeNat_eq_cons (n : Nat) : ∃ d ds, writeNat n = d :: ds ∧ d.isDigit = true := by
  rcases hw : writeNat n with _ | ⟨d, ds⟩
  · exact absurd hw (writeNat_ne_nil n)
  · exact ⟨d, ds, rfl, isDigit_of_mem_writeNat (hw ▸ List.mem_cons_self)⟩

lemma digitsValue_writeNat (n : Nat) : digitsValue (writeNat n) = n := by
  have hfold : digitsValue (writeNat n) = Nat.ofDigitChars 10 (writeNat n) 0 := by
    rw [digitsValue, Nat.ofDigitChars_eq_foldl]
    congr 1
    funext k d
    rw [Nat.mul_comm]
  rw [hfold, writeNat, Nat.ofDigitChars_ten_toDigits]

/-- Only zero is written with a zero in front. -/
lemma eq_zero_of_writeNat {n : Nat} {ds : List Char} (h : writeNat n = '0' :: ds) : n = 0 := by
  induction n using Nat.strongRecOn generalizing ds with
  | ind n ih =>
    by_cases hlt : n < 10
    · rw [writeNat, Nat.toDigits_of_lt_base hlt] at h
      exact Nat.digitChar_eq_zero.mp (List.cons.inj h).1
    · -- the digits of `n` are those of `n / 10` and one more
      have hsplit : writeNat n = writeNat (n / 10) ++ [(n % 10).digitChar] := by
        rw [writeNat, Nat.toDigits_of_base_le (by decide) (by omega)]
        rfl
      obtain ⟨d, es, hes, -⟩ := writeNat_eq_cons (n / 10)
      rw [hsplit, hes, List.cons_append] at h
      obtain rfl := (List.cons.inj h).1
      have hzero := ih (n / 10) (by omega) hes
      omega

lemma wholeDigits_writeNat (n : Nat) {rest : List Char} (h : NoDigit rest) :
    wholeDigits (writeNat n ++ rest) = writeNat n := by
  obtain ⟨d, ds, hds, -⟩ := writeNat_eq_cons n
  by_cases hzero : d = '0'
  · subst hzero
    obtain rfl := eq_zero_of_writeNat hds
    rfl
  · have htake : (writeNat n ++ rest).takeWhile Char.isDigit = writeNat n :=
      takeWhile_isDigit (fun c hc => isDigit_of_mem_writeNat hc) h
    unfold wholeDigits
    split
    · next heq =>
      rw [hds, List.cons_append] at heq
      exact absurd (List.cons.inj heq).1 hzero
    · exact htake

/-! ### Fractions and exponents -/

lemma writeNat_digit (d : Fin 10) : writeNat d.val = [d.val.digitChar] :=
  Nat.toDigits_of_lt_base d.isLt

lemma flatMap_writeNat (fs : List (Fin 10)) :
    fs.flatMap (writeNat ·.val) = fs.map (·.val.digitChar) := by
  induction fs with
  | nil => rfl
  | cons d rest ih => rw [List.flatMap_cons, ih, writeNat_digit]; rfl

lemma map_digit_digitChar (fs : List (Fin 10)) :
    (fs.map fun d => d.val.digitChar).map digit = fs := by
  have hdigit : ∀ d : Fin 10, digit d.val.digitChar = d := by decide
  induction fs with
  | nil => rfl
  | cons d rest ih => rw [List.map_cons, List.map_cons, hdigit, ih]

lemma fraction_writeFraction (fs : List (Fin 10)) {rest : List Char} (h : NoDigit rest)
    (hpoint : ∀ c ∈ rest.head?, c ≠ '.') :
    fraction (writeFraction fs ++ rest) = fs.map (·.val.digitChar) := by
  cases fs with
  | nil =>
    rw [writeFraction, List.isEmpty_nil, if_pos rfl, List.nil_append, List.map_nil]
    unfold fraction
    split
    · next more => exact absurd rfl (hpoint '.' rfl)
    · rfl
  | cons d rest' =>
    have hdigits : ∀ c ∈ (d :: rest').map (fun d => d.val.digitChar), c.isDigit = true := by
      intro c hc
      obtain ⟨e, -, rfl⟩ := List.mem_map.mp hc
      have hall : ∀ e : Fin 10, e.val.digitChar.isDigit = true := by decide
      exact hall e
    rw [writeFraction, flatMap_writeNat]
    exact takeWhile_isDigit hdigits h

/-- The fraction takes its point and its digits, or nothing. -/
lemma length_writeFraction (fs : List (Fin 10)) :
    (writeFraction fs).length = if fs.isEmpty then 0 else fs.length + 1 := by
  cases fs with
  | nil => rfl
  | cons d rest => rw [writeFraction, flatMap_writeNat]; simp

lemma exponent?_eq_none {rest : List Char} (h : ∀ c ∈ rest.head?, c ≠ 'e' ∧ c ≠ 'E') :
    exponent? rest = none := by
  cases rest with
  | nil => rfl
  | cons c more =>
    obtain ⟨he, hE⟩ := h c rfl
    simp [exponent?, he, hE]

lemma exponentSign_digits {d : Char} (h : d.isDigit = true) (rest : List Char) :
    exponentSign (d :: rest) = (false, 0, d :: rest) := by
  unfold exponentSign
  split
  · next heq => exact absurd ((List.cons.inj heq).1 ▸ h) (by decide)
  · next heq => exact absurd ((List.cons.inj heq).1 ▸ h) (by decide)
  · rfl

lemma exponent?_digits {negative : Bool} {width n : Nat} {more rest : List Char} (h : NoDigit rest)
    (hsign : exponentSign more = (negative, width, writeNat n ++ rest)) :
    exponent? ('e' :: more) =
      some (if negative then -(n : Int) else n, 1 + width + (writeNat n).length) := by
  have htake : (writeNat n ++ rest).takeWhile Char.isDigit = writeNat n :=
    takeWhile_isDigit (fun c hc => isDigit_of_mem_writeNat hc) h
  simp [exponent?, hsign, htake, writeNat_ne_nil, digitsValue_writeNat]

lemma exponent?_writeExponent (e : Int) {rest : List Char} (h : NoDigit rest) :
    exponent? (writeExponent (some e) ++ rest) =
      some (e, (writeExponent (some e)).length) := by
  by_cases hneg : e < 0
  · have htext : writeExponent (some e) = 'e' :: '-' :: writeNat e.natAbs := by
      rw [writeExponent, writeInt, if_pos hneg]
    have hvalue : -((e.natAbs : Nat) : Int) = e := by omega
    have hlength : 1 + 1 + (writeNat e.natAbs).length = (writeNat e.natAbs).length + 1 + 1 := by
      omega
    rw [htext, List.cons_append, exponent?_digits h rfl, if_pos rfl, hvalue, List.length_cons,
      List.length_cons, hlength]
  · -- without a sign the exponent starts with a digit
    have htext : writeExponent (some e) = 'e' :: writeNat e.natAbs := by
      rw [writeExponent, writeInt, if_neg hneg]
    obtain ⟨d, ds, hds, hd⟩ := writeNat_eq_cons e.natAbs
    have hsign : exponentSign (writeNat e.natAbs ++ rest) =
        (false, 0, writeNat e.natAbs ++ rest) := by
      rw [hds]
      exact exponentSign_digits hd _
    have hvalue : ((e.natAbs : Nat) : Int) = e := by omega
    have hlength : 1 + 0 + (writeNat e.natAbs).length = (writeNat e.natAbs).length + 1 := by omega
    rw [htext, List.cons_append, exponent?_digits h hsign, if_neg Bool.false_ne_true, hvalue,
      List.length_cons, hlength]

/-! ### Whole numbers and decimals -/

section Numbers

variable {m : Machine}

/-- An integer is read as what it is, or goes beyond the bound of its digits. -/
lemma unsigned_writeNat (negative : Bool) (start pos n : Nat) {rest : List Char}
    (h : EndsNumber rest) :
    unsigned m negative start ⟨pos, writeNat n ++ rest⟩ =
      if within m.digits (writeNat n).length then
        .ok (.int (if negative then -(n : Int) else n), ⟨pos + (writeNat n).length, rest⟩)
      else .error (.limit .digits) := by
  have hfraction : fraction rest = [] := by
    simpa [writeFraction] using fraction_writeFraction [] h.noDigit h.noPoint
  simp [unsigned, wholeDigits_writeNat n h.noDigit, writeNat_ne_nil, hfraction,
    exponent?_eq_none h.noExponent, digitsValue_writeNat]

lemma noDigit_writeExponent (e : Option Int) {rest : List Char} (h : NoDigit rest) :
    NoDigit (writeExponent e ++ rest) := by
  cases e with
  | none => exact h
  | some e =>
    intro c hc
    obtain rfl : 'e' = c := Option.some.inj hc
    decide

lemma noPoint_writeExponent (e : Option Int) {rest : List Char} (h : ∀ c ∈ rest.head?, c ≠ '.') :
    ∀ c ∈ (writeExponent e ++ rest).head?, c ≠ '.' := by
  cases e with
  | none => exact h
  | some e =>
    intro c hc
    obtain rfl : 'e' = c := Option.some.inj hc
    decide

lemma noDigit_writeFraction (fs : List (Fin 10)) {rest : List Char} (h : NoDigit rest) :
    NoDigit (writeFraction fs ++ rest) := by
  cases fs with
  | nil => exact h
  | cons d ds =>
    intro c hc
    obtain rfl : '.' = c := Option.some.inj hc
    decide

/-- The reader goes past a fraction as it was written. -/
lemma skip_writeFraction (pos : Nat) (fs : List (Fin 10)) (rest : List Char) :
    (if (fs.map (·.val.digitChar)).isEmpty then Cursor.mk pos (writeFraction fs ++ rest)
      else (Cursor.mk pos (writeFraction fs ++ rest)).skip
        ((fs.map (·.val.digitChar)).length + 1)) =
      ⟨pos + (writeFraction fs).length, rest⟩ := by
  cases fs with
  | nil => rfl
  | cons d ds =>
    have hlength : (writeFraction (d :: ds)).length = (d :: ds).length + 1 :=
      length_writeFraction (d :: ds)
    rw [if_neg (by simp), List.length_map, ← hlength]
    exact skip_append _ _ _

/-- A decimal with a fraction or an exponent is read as what it is. -/
lemma unsigned_writeDecimal {d : Decimal} (hd : d.fraction ≠ [] ∨ d.exponent ≠ none)
    (hkeep : m.keep d = some d) (start pos : Nat) {rest : List Char} (h : EndsNumber rest) :
    unsigned m d.negative start ⟨pos, writeNat d.whole ++ (writeFraction d.fraction ++
        (writeExponent d.exponent ++ rest))⟩ =
      .ok (.decimal d, ⟨pos + (writeNat d.whole).length + (writeFraction d.fraction).length +
        (writeExponent d.exponent).length, rest⟩) := by
  obtain ⟨negative, whole, fs, exponent⟩ := d
  have hexp := noDigit_writeExponent exponent h.noDigit
  have hwhole := wholeDigits_writeNat whole (noDigit_writeFraction fs hexp)
  have hfraction := fraction_writeFraction fs hexp (noPoint_writeExponent exponent h.noPoint)
  have hmap := map_digit_digitChar fs
  simp only [unsigned, hwhole, List.isEmpty_eq_false_iff.mpr (writeNat_ne_nil whole), skip_append,
    hfraction, skip_writeFraction, digitsValue_writeNat, hmap]
  cases exponent with
  | none =>
    have hfs : fs ≠ [] := hd.resolve_right (by simp)
    have hnone : exponent? rest = none := exponent?_eq_none h.noExponent
    simp [writeExponent, hnone, hfs, Machine.number, hkeep]
  | some e =>
    simp only [exponent?_writeExponent e h.noDigit, skip_append, Machine.number, hkeep]
    rfl

/-! ### Numbers among the scalars -/

/-- A character that a number may start with. -/
def OpensNumber (c : Char) : Prop :=
  c = '-' ∨ c.isDigit = true

lemma writeInt_eq_cons (n : Int) : ∃ c more, writeInt n = c :: more ∧ OpensNumber c := by
  obtain ⟨d, ds, hds, hd⟩ := writeNat_eq_cons n.natAbs
  unfold writeInt
  split
  · exact ⟨'-', _, rfl, Or.inl rfl⟩
  · exact ⟨d, ds, hds, Or.inr hd⟩

lemma writeDecimal_eq_cons (d : Decimal) :
    ∃ c more, writeDecimal d = c :: more ∧ OpensNumber c := by
  obtain ⟨e, es, hes, he⟩ := writeNat_eq_cons d.whole
  rw [writeDecimal, List.append_assoc, List.append_assoc, hes]
  cases d.negative with
  | true => exact ⟨'-', _, rfl, Or.inl rfl⟩
  | false => exact ⟨e, _, rfl, Or.inr he⟩

/-- No fixed value starts with a digit, or with a minus sign before a digit. -/
lemma literals_find?_number {d : Char} (h : d.isDigit = true) (rest : List Char) :
    literals.find? (fun l => l.1.isPrefixOf (d :: rest)) = none ∧
      literals.find? (fun l => l.1.isPrefixOf ('-' :: d :: rest)) = none := by
  have hne : ∀ c : Char, c.isDigit = false → c ≠ d := by
    rintro c hc rfl
    simp [h] at hc
  have hn := hne 'n' (by decide)
  have ht := hne 't' (by decide)
  have hf := hne 'f' (by decide)
  have hN := hne 'N' (by decide)
  have hI := hne 'I' (by decide)
  have hminus := hne '-' (by decide)
  constructor
  · simp [literals, hn, ht, hf, hN, hI, hminus]
  · simp [literals, hI]

lemma number_digit {d : Char} (h : d.isDigit = true) (pos : Nat) (rest : List Char) :
    number m ⟨pos, d :: rest⟩ = unsigned m false pos ⟨pos, d :: rest⟩ := by
  unfold number
  split
  · next heq => exact absurd ((List.cons.inj heq).1 ▸ h) (by decide)
  · rfl

/-- A text of digits is read as a number without a sign. -/
lemma scalar_unsigned (pos n : Nat) (rest : List Char) :
    scalar m ⟨pos, writeNat n ++ rest⟩ = unsigned m false pos ⟨pos, writeNat n ++ rest⟩ := by
  obtain ⟨d, ds, hds, hd⟩ := writeNat_eq_cons n
  rw [hds, List.cons_append]
  simp only [scalar, (literals_find?_number hd _).1]
  exact number_digit hd pos _

/-- A text of digits behind a minus sign is read as a negative number. -/
lemma scalar_negative (pos n : Nat) (rest : List Char) :
    scalar m ⟨pos, '-' :: (writeNat n ++ rest)⟩ =
      unsigned m true pos ⟨pos + 1, writeNat n ++ rest⟩ := by
  obtain ⟨d, ds, hds, hd⟩ := writeNat_eq_cons n
  rw [hds, List.cons_append]
  simp only [scalar, (literals_find?_number hd _).2]
  rfl

lemma scalar_writeInt (n : Int) (pos : Nat) {rest : List Char} (h : EndsNumber rest) :
    scalar m ⟨pos, writeInt n ++ rest⟩ =
      if within m.digits (writeNat n.natAbs).length then
        .ok (.int n, ⟨pos + (writeInt n).length, rest⟩)
      else .error (.limit .digits) := by
  by_cases hneg : n < 0
  · have hvalue : -((n.natAbs : Nat) : Int) = n := by omega
    rw [writeInt, if_pos hneg, List.cons_append, scalar_negative, unsigned_writeNat _ _ _ _ h,
      if_pos rfl, hvalue, List.length_cons, Nat.add_assoc, Nat.add_comm 1]
  · have hvalue : ((n.natAbs : Nat) : Int) = n := by omega
    rw [writeInt, if_neg hneg, scalar_unsigned, unsigned_writeNat _ _ _ _ h]
    simp [hvalue]

lemma scalar_writeDecimal {d : Decimal} (hd : d.fraction ≠ [] ∨ d.exponent ≠ none)
    (hkeep : m.keep d = some d) (pos : Nat) {rest : List Char} (h : EndsNumber rest) :
    scalar m ⟨pos, writeDecimal d ++ rest⟩ =
      .ok (.decimal d, ⟨pos + (writeDecimal d).length, rest⟩) := by
  have hread := unsigned_writeDecimal hd hkeep pos
  by_cases hneg : d.negative = true
  · have htext : writeDecimal d ++ rest = '-' :: (writeNat d.whole ++
        (writeFraction d.fraction ++ (writeExponent d.exponent ++ rest))) := by
      simp [writeDecimal, hneg]
    rw [htext, scalar_negative, ← hneg, hread (pos + 1) h]
    simp [writeDecimal, hneg]
    omega
  · have htext : writeDecimal d ++ rest = writeNat d.whole ++
        (writeFraction d.fraction ++ (writeExponent d.exponent ++ rest)) := by
      simp [writeDecimal, hneg]
    have hfalse : d.negative = false := by simpa using hneg
    rw [htext, scalar_unsigned, ← hfalse, hread pos h]
    simp [writeDecimal, hfalse]
    omega

end Numbers

end PhpCatalog.Json
