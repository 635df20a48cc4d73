/-
# Strings are read back

A character of a string is written in one of four ways: as itself, behind a backslash by a letter,
by its code in four hexadecimal digits, or by the codes of its two halves (`writeChar_cases`).  Each
way is read back as the character, so a written string is read back as it was, whatever follows its
closing quote.
-/
import Mathlib.Tactic.Lemma
import PhpCatalog.Proofs.Json.Number

namespace PhpCatalog.Json

open PhpCatalog.Text (hexDigit hexDigits)

/-! ### Hexadecimal digits -/

lemma hexValue?_hexDigit {d : Nat} (h : d < 16) : hexValue? (hexDigit d) = some d := by
  have hall : ∀ d < 16, hexValue? (hexDigit d) = some d := by decide
  exact hall d h

lemma hexDigits_four (n : Nat) :
    hexDigits 4 n = [hexDigit (n / 16 / 16 / 16 % 16), hexDigit (n / 16 / 16 % 16),
      hexDigit (n / 16 % 16), hexDigit (n % 16)] := rfl

lemma hexFour?_hexDigits {n : Nat} (h : n < 0x10000) (rest : List Char) :
    hexFour? (hexDigits 4 n ++ rest) = some n := by
  have hmod : ∀ k : Nat, k % 16 < 16 := fun k => Nat.mod_lt k (by decide)
  have hvalue : ((n / 16 / 16 / 16 % 16 * 16 + n / 16 / 16 % 16) * 16 + n / 16 % 16) * 16 +
      n % 16 = n := by omega
  simp only [hexDigits_four, List.cons_append, List.nil_append, hexFour?,
    hexValue?_hexDigit (hmod _), Option.bind_eq_bind, Option.bind_some, hvalue]
  rfl

lemma drop_hexDigits (n : Nat) (rest : List Char) : (hexDigits 4 n ++ rest).drop 4 = rest := rfl

variable {m : Machine}

/-! ### Escapes by code -/

/-- A code that is no half of a pair stands for its character. -/
lemma unicodeEscape_unit {n : Nat} (h : n < 0x10000) (hhalf : ¬ (0xD800 ≤ n ∧ n < 0xE000))
    {rest : List Char} (hrest : rest ≠ []) :
    unicodeEscape m (hexDigits 4 n ++ rest) = .ok (Char.ofNat n, 4) := by
  have hnot : (decide (0xD800 ≤ n) && decide (n < 0xDC00)) = false := by
    rw [Bool.and_eq_false_iff, decide_eq_false_iff_not, decide_eq_false_iff_not]
    omega
  have hunit : m.unit n = Char.ofNat n := by
    simp [Machine.unit, hhalf]
  cases rest with
  | nil => exact absurd rfl hrest
  | cons c more => simp only [unicodeEscape, hexFour?_hexDigits h, drop_hexDigits, hnot, hunit]

/-- The codes of the two halves stand for the character of the pair. -/
lemma unicodeEscape_pair {high low : Nat} (hhigh : 0xD800 ≤ high ∧ high < 0xDC00)
    (hlow : 0xDC00 ≤ low ∧ low < 0xE000) (rest : List Char) :
    unicodeEscape m (hexDigits 4 high ++ (escapeUnit low ++ rest)) =
      .ok (Char.ofNat (0x10000 + (high - 0xD800) * 0x400 + (low - 0xDC00)), 10) := by
  have hfirst : (decide (0xD800 ≤ high) && decide (high < 0xDC00)) = true := by
    simpa using hhigh
  have hsecond : (decide (0xDC00 ≤ low) && decide (low < 0xE000)) = true := by
    simpa using hlow
  have hcode : hexFour? (hexDigits 4 high ++ ('\\' :: 'u' :: (hexDigits 4 low ++ rest))) =
      some high := hexFour?_hexDigits (by omega) _
  simp only [unicodeEscape, escapeUnit, List.cons_append, hcode, drop_hexDigits, hfirst,
    hexFour?_hexDigits (show low < 0x10000 by omega), hsecond, if_pos]

/-! ### One character -/

/-- The ways a character is written. -/
lemma writeChar_cases (ascii : Bool) (c : Char) :
    (∃ e, writeChar ascii c = ['\\', e] ∧ e ≠ 'u' ∧ shortEscape? e = some c) ∨
    (writeChar ascii c = escapeUnit c.toNat ∧ c.toNat < 0x10000) ∨
    (writeChar ascii c = escapeUnit (0xD800 + (c.toNat - 0x10000) / 0x400) ++
      escapeUnit (0xDC00 + (c.toNat - 0x10000) % 0x400) ∧ 0x10000 ≤ c.toNat) ∨
    (writeChar ascii c = [c] ∧ c ≠ '"' ∧ c ≠ '\\' ∧ 0x20 ≤ c.toNat) := by
  have hcode : ∀ k : Nat, c.toNat = k → c = Char.ofNat k := by
    rintro k rfl
    exact (Char.ofNat_toNat c).symm
  by_cases hquote : c = '"' ∨ c = '\\'
  · left
    rcases hquote with rfl | rfl
    · exact ⟨'"', rfl, by decide, rfl⟩
    · exact ⟨'\\', rfl, by decide, rfl⟩
  obtain ⟨hq, hb⟩ := not_or.mp hquote
  by_cases hn : c = '\n'
  · exact Or.inl ⟨'n', by subst hn; rfl, by decide, by subst hn; rfl⟩
  by_cases hr : c = '\r'
  · exact Or.inl ⟨'r', by subst hr; rfl, by decide, by subst hr; rfl⟩
  by_cases ht : c = '\t'
  · exact Or.inl ⟨'t', by subst ht; rfl, by decide, by subst ht; rfl⟩
  by_cases h8 : c.toNat = 8
  · obtain rfl := hcode 8 h8
    exact Or.inl ⟨'b', by rfl, by decide, rfl⟩
  by_cases h12 : c.toNat = 12
  · obtain rfl := hcode 12 h12
    exact Or.inl ⟨'f', by rfl, by decide, rfl⟩
  right
  by_cases hunit : c.toNat < 0x20 ∨ (ascii = true ∧ 0x7F ≤ c.toNat ∧ c.toNat < 0x10000)
  · left
    refine ⟨?_, by omega⟩
    simp [writeChar, hq, hb, hn, hr, ht, h8, h12, and_assoc, hunit]
  right
  by_cases hpair : ascii = true ∧ 0x10000 ≤ c.toNat
  · left
    refine ⟨?_, hpair.2⟩
    have hnot : ¬ (c.toNat < 0x20 ∨ 0x7F ≤ c.toNat ∧ c.toNat < 0x10000) := by omega
    simp [writeChar, hq, hb, hn, hr, ht, h8, h12, hpair, hnot]
  · right
    refine ⟨?_, hq, hb, by omega⟩
    simp [writeChar, hq, hb, hn, hr, ht, h8, h12, and_assoc, hunit, hpair]

/-- The code of a character is never a half of a pair. -/
lemma toNat_valid (c : Char) : c.toNat < 0xD800 ∨ (0xDFFF < c.toNat ∧ c.toNat < 0x110000) :=
  c.valid

/-! ### One step of the reader -/

section Steps

variable (start n pos : Nat) (acc rest : List Char)

lemma stringFrom_quote :
    stringFrom m start (n + 1) acc ⟨pos, '"' :: rest⟩ =
      .ok (String.ofList acc.reverse, ⟨pos + 1, rest⟩) := rfl

lemma stringFrom_letter {e : Char} (hu : e ≠ 'u') :
    stringFrom m start (n + 1) acc ⟨pos, '\\' :: e :: rest⟩ =
      match shortEscape? e with
      | some c => stringFrom m start n (c :: acc) ⟨pos + 2, rest⟩
      | none => .error (.fault ⟨.badEscape, pos⟩) := by
  rw [stringFrom.eq_def]
  dsimp only
  split <;> rename_i heq
  · simp at heq
  · simp at heq
  · simp at heq
  · simp [hu] at heq
  · -- the backslash and its letter
    obtain ⟨-, hrest⟩ := List.cons.inj heq
    obtain ⟨rfl, -⟩ := List.cons.inj hrest
    rfl
  · next hno =>
    obtain ⟨hslash, hrest⟩ := List.cons.inj heq
    exact absurd hrest.symm (hno e rest hslash.symm)

lemma stringFrom_code (digits : List Char) :
    stringFrom m start (n + 1) acc ⟨pos, '\\' :: 'u' :: digits⟩ =
      match unicodeEscape m digits with
      | .ok (c, width) => stringFrom m start n (c :: acc) ⟨pos + (2 + width), digits.drop width⟩
      | .error () => .error (.fault ⟨.badUnicodeEscape, pos + 1⟩) := by
  have hdrop : ∀ width, ('\\' :: 'u' :: digits).drop (2 + width) = digits.drop width := by
    intro width
    rw [← List.drop_drop]
    rfl
  cases hescape : unicodeEscape m digits with
  | error _ => simp only [stringFrom, hescape]
  | ok found =>
    obtain ⟨c, width⟩ := found
    simp only [stringFrom, hescape, Cursor.skip, hdrop]

lemma stringFrom_plain {c : Char} (hq : c ≠ '"') (hb : c ≠ '\\') :
    stringFrom m start (n + 1) acc ⟨pos, c :: rest⟩ =
      if c.toNat < 0x20 then .error (.fault ⟨.controlCharacter, pos⟩)
      else stringFrom m start n (c :: acc) ⟨pos + 1, rest⟩ := by
  rw [stringFrom.eq_def]
  dsimp only
  split <;> rename_i heq
  · simp at heq
  · simp [hq] at heq
  · simp [hb] at heq
  · simp [hb] at heq
  · simp [hb] at heq
  · obtain ⟨rfl, -⟩ := List.cons.inj heq
    rfl

end Steps

/-- A written character is read back, if more follows it. -/
lemma stringFrom_writeChar (ascii : Bool) (c : Char) (start n pos : Nat) (acc : List Char)
    {rest : List Char} (hrest : rest ≠ []) :
    stringFrom m start (n + 1) acc ⟨pos, writeChar ascii c ++ rest⟩ =
      stringFrom m start n (c :: acc) ⟨pos + (writeChar ascii c).length, rest⟩ := by
  have hvalid := toNat_valid c
  rcases writeChar_cases ascii c with ⟨e, hw, hu, he⟩ | ⟨hw, hlt⟩ | ⟨hw, hle⟩ | ⟨hw, hq, hb, hle⟩
  · rw [hw, List.cons_append, List.singleton_append, stringFrom_letter _ _ _ _ _ hu, he]
    rfl
  · have hread := unicodeEscape_unit (m := m) hlt (by omega) hrest
    rw [Char.ofNat_toNat] at hread
    rw [hw, escapeUnit, List.cons_append, List.cons_append, stringFrom_code, hread]
    rfl
  · -- the two halves, from which the code is put together again
    obtain ⟨high, hhigh⟩ : ∃ k, k = 0xD800 + (c.toNat - 0x10000) / 0x400 := ⟨_, rfl⟩
    obtain ⟨low, hlow⟩ : ∃ k, k = 0xDC00 + (c.toNat - 0x10000) % 0x400 := ⟨_, rfl⟩
    have hfirst : 0xD800 ≤ high ∧ high < 0xDC00 := by omega
    have hsecond : 0xDC00 ≤ low ∧ low < 0xE000 := by omega
    have hread := unicodeEscape_pair (m := m) hfirst hsecond rest
    have hvalue : 0x10000 + (high - 0xD800) * 0x400 + (low - 0xDC00) = c.toNat := by omega
    rw [hvalue, Char.ofNat_toNat] at hread
    rw [hw, ← hhigh, ← hlow, List.append_assoc, escapeUnit, List.cons_append, List.cons_append,
      stringFrom_code, hread]
    rfl
  · rw [hw, List.singleton_append, stringFrom_plain _ _ _ _ _ hq hb, if_neg (by omega)]
    rfl

/-! ### Whole strings -/

/-- The characters of a string and its closing quote are read back. -/
lemma stringFrom_writeChars (ascii : Bool) (cs : List Char) (start n pos : Nat)
    (acc rest : List Char) (hn : cs.length < n) :
    stringFrom m start n acc ⟨pos, cs.flatMap (writeChar ascii) ++ '"' :: rest⟩ =
      .ok (String.ofList (acc.reverse ++ cs),
        ⟨pos + (cs.flatMap (writeChar ascii)).length + 1, rest⟩) := by
  induction cs generalizing n pos acc with
  | nil =>
    obtain ⟨m, rfl⟩ : ∃ m, n = m + 1 := ⟨n - 1, by simp at hn; omega⟩
    simpa using stringFrom_quote start m pos acc rest
  | cons c cs ih =>
    rw [List.length_cons] at hn
    obtain ⟨m, rfl⟩ : ∃ m, n = m + 1 := ⟨n - 1, by omega⟩
    rw [List.flatMap_cons, List.append_assoc, stringFrom_writeChar ascii c _ _ _ _ (by simp),
      ih m _ _ (by omega)]
    simp [Nat.add_assoc]

lemma writeChar_ne_nil (ascii : Bool) (c : Char) : writeChar ascii c ≠ [] := by
  rcases writeChar_cases ascii c with ⟨e, hw, -⟩ | ⟨hw, -⟩ | ⟨hw, -⟩ | ⟨hw, -⟩ <;>
    simp [hw, escapeUnit]

/-- Every character takes at least one character to write. -/
lemma length_le_flatMap_writeChar (ascii : Bool) (cs : List Char) :
    cs.length ≤ (cs.flatMap (writeChar ascii)).length := by
  induction cs with
  | nil => simp
  | cons c cs ih =>
    have hpos := List.length_pos_iff.mpr (writeChar_ne_nil ascii c)
    rw [List.flatMap_cons, List.length_append, List.length_cons]
    omega

/-- A written string, its opening quote read already, is read back. -/
lemma string_write (ascii : Bool) (s : String) (pos : Nat) (rest : List Char) :
    string m ⟨pos + 1, s.toList.flatMap (writeChar ascii) ++ '"' :: rest⟩ =
      .ok (s, ⟨pos + (writeString ascii s).length, rest⟩) := by
  have hfuel := length_le_flatMap_writeChar ascii s.toList
  have hbound : s.toList.length <
      (s.toList.flatMap (writeChar ascii) ++ '"' :: rest).length + 1 := by
    rw [List.length_append]
    omega
  rw [string, stringFrom_writeChars ascii s.toList _ _ _ _ _ hbound]
  have hlength : pos + 1 + (s.toList.flatMap (writeChar ascii)).length + 1 =
      pos + (writeString ascii s).length := by
    simp [writeString]
    omega
  rw [hlength, List.reverse_nil, List.nil_append, String.ofList_toList]

end PhpCatalog.Json
