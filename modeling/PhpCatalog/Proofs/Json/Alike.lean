/-
# Texts that differ in their line breaks

No word, number or string has a carriage return or a line feed in it: the reader ends a number there
and refuses a string.  So on two texts that differ in how their line breaks are written (`Alike`) a
reader of words, numbers or strings gives the same result and goes on alike, meets the same bound of
the machine, or finds a fault in both (`Agree`).
-/
import Mathlib.Data.List.Basic
import Mathlib.Data.List.Find
import Mathlib.Data.List.TakeWhile
import Mathlib.Tactic.Lemma
import PhpCatalog.Proofs.Json.Quoted
import PhpCatalog.Text.Lines

namespace PhpCatalog.Json

/-- The second text is the first with some line breaks written as line feeds. -/
inductive Alike : List Char → List Char → Prop where
  | nil : Alike [] []
  | char (c : Char) (noReturn : c ≠ '\r') {s t : List Char} (rest : Alike s t) :
    Alike (c :: s) (c :: t)
  /-- A carriage return alone, or before a line feed that is kept. -/
  | carriageReturn {s t : List Char} (rest : Alike s t) : Alike ('\r' :: s) ('\n' :: t)
  /-- A carriage return and a line feed as one break. -/
  | both {s t : List Char} (rest : Alike s t) : Alike ('\r' :: '\n' :: s) ('\n' :: t)

lemma alike_unifyBreaks (text : List Char) : Alike text (Text.unifyBreaks text) := by
  fun_induction Text.unifyBreaks text with
  | case1 => exact .nil
  | case2 rest ih => exact .both ih
  | case3 c rest _ ih =>
    by_cases hc : c = '\r'
    · subst hc
      exact .carriageReturn ih
    · rw [if_neg hc]
      exact .char c hc ih

/-- A run of characters without a line break. -/
def NoBreaks (w : List Char) : Prop :=
  ∀ c ∈ w, c ≠ '\r' ∧ c ≠ '\n'

lemma noBreaks_takeWhile_isDigit (text : List Char) : NoBreaks (text.takeWhile Char.isDigit) := by
  intro c hc
  have hdigit := List.mem_takeWhile_imp hc
  constructor <;> (rintro rfl; revert hdigit; decide)

namespace Alike

variable {s t : List Char}

/-- What has no line breaks stands in both texts or in neither. -/
lemma prefix_iff (h : Alike s t) {w : List Char} (hw : NoBreaks w) : w <+: s ↔ w <+: t := by
  induction w generalizing s t with
  | nil => simp
  | cons c w ih =>
    obtain ⟨hc, hw⟩ := List.forall_mem_cons.mp hw
    cases h with
    | nil => simp
    | char d _ rest => simp only [List.cons_prefix_cons, ih rest hw]
    | carriageReturn rest => simp [List.cons_prefix_cons, hc]
    | both rest => simp [List.cons_prefix_cons, hc]

/-- Behind what has no line breaks the texts go on alike. -/
lemma drop (h : Alike s t) {w : List Char} (hw : NoBreaks w) (hs : w <+: s) :
    Alike (s.drop w.length) (t.drop w.length) := by
  induction w generalizing s t with
  | nil => exact h
  | cons c w ih =>
    obtain ⟨hc, hw⟩ := List.forall_mem_cons.mp hw
    cases h with
    | nil => simp at hs
    | char d _ rest => exact ih rest hw (List.cons_prefix_cons.mp hs).2
    | carriageReturn rest => exact absurd (List.cons_prefix_cons.mp hs).1 hc.1
    | both rest => exact absurd (List.cons_prefix_cons.mp hs).1 hc.1

lemma takeWhile_isDigit (h : Alike s t) : s.takeWhile Char.isDigit = t.takeWhile Char.isDigit := by
  induction h with
  | nil => rfl
  | char c _ _ ih => rw [List.takeWhile_cons, List.takeWhile_cons, ih]
  | carriageReturn _ _ => rfl
  | both _ _ => rfl

/-- White space is passed over in both texts. -/
lemma dropWhile_isSpace (h : Alike s t) :
    Alike (s.dropWhile Cursor.isSpace) (t.dropWhile Cursor.isSpace) := by
  have hbreaks : Cursor.isSpace '\r' = true ∧ Cursor.isSpace '\n' = true := by decide
  induction h with
  | nil => exact .nil
  | char c hc rest ih =>
    rw [List.dropWhile_cons, List.dropWhile_cons]
    split
    · exact ih
    · exact .char c hc rest
  | carriageReturn _ ih => simpa [hbreaks] using ih
  | both _ ih => simpa [hbreaks] using ih

end Alike

/-! ### Numbers -/

lemma wholeDigits_eq (text : List Char) :
    wholeDigits text = if ['0'] <+: text then ['0'] else text.takeWhile Char.isDigit := by
  unfold wholeDigits
  split
  · simp
  · next h =>
    rw [if_neg]
    rintro ⟨more, rfl⟩
    exact h more rfl

lemma wholeDigits_isPrefix (text : List Char) : wholeDigits text <+: text := by
  rw [wholeDigits_eq]
  split
  · assumption
  · exact List.takeWhile_prefix _

lemma noBreaks_wholeDigits (text : List Char) : NoBreaks (wholeDigits text) := by
  rw [wholeDigits_eq]
  split
  · simp [NoBreaks]
  · exact noBreaks_takeWhile_isDigit text

lemma fraction_eq (text : List Char) :
    fraction text = if ['.'] <+: text then (text.drop 1).takeWhile Char.isDigit else [] := by
  unfold fraction
  split
  · simp
  · next h =>
    rw [if_neg]
    rintro ⟨more, rfl⟩
    exact h more rfl

namespace Alike

variable {s t : List Char}

lemma wholeDigits_congr (h : Alike s t) : wholeDigits s = wholeDigits t := by
  have hzero : NoBreaks ['0'] := by simp [NoBreaks]
  simp only [wholeDigits_eq, h.prefix_iff hzero, h.takeWhile_isDigit]

lemma fraction_congr (h : Alike s t) : fraction s = fraction t := by
  have hpoint : NoBreaks ['.'] := by simp [NoBreaks]
  simp only [fraction_eq, h.prefix_iff hpoint]
  split
  · next hs => exact (h.drop hpoint ((h.prefix_iff hpoint).mpr hs)).takeWhile_isDigit
  · rfl

/-- A sign of an exponent is read from both texts. -/
lemma exponentSign_congr (h : Alike s t) :
    ∃ negative width, exponentSign s = (negative, width, s.drop width) ∧
      exponentSign t = (negative, width, t.drop width) ∧ Alike (s.drop width) (t.drop width) := by
  cases h with
  | nil => exact ⟨false, 0, rfl, rfl, .nil⟩
  | char c hc rest =>
    by_cases hplus : c = '+'
    · subst hplus
      exact ⟨false, 1, rfl, rfl, rest⟩
    by_cases hminus : c = '-'
    · subst hminus
      exact ⟨true, 1, rfl, rfl, rest⟩
    have hnone : ∀ more, exponentSign (c :: more) = (false, 0, c :: more) := by
      intro more
      unfold exponentSign
      split <;> simp_all
    exact ⟨false, 0, hnone _, hnone _, .char c hc rest⟩
  | carriageReturn rest => exact ⟨false, 0, rfl, rfl, .carriageReturn rest⟩
  | both rest => exact ⟨false, 0, rfl, rfl, .both rest⟩

lemma exponent?_congr (h : Alike s t) :
    exponent? s = exponent? t ∧
      ∀ e width, exponent? s = some (e, width) → Alike (s.drop width) (t.drop width) := by
  cases h with
  | nil => simp [exponent?]
  | carriageReturn rest => simp [exponent?]
  | both rest => simp [exponent?]
  | @char c hc s t rest =>
    obtain ⟨negative, width, hs, ht, hmore⟩ := rest.exponentSign_congr
    have hdigits := hmore.takeWhile_isDigit
    have hpast := hmore.drop (noBreaks_takeWhile_isDigit _) (List.takeWhile_prefix _)
    simp only [exponent?, hs, ht, ← hdigits, true_and]
    intro e k hk
    split at hk
    · split at hk
      · simp at hk
      · obtain ⟨-, rfl⟩ := Prod.mk.inj (Option.some.inj hk)
        rw [List.drop_drop, List.drop_drop] at hpast
        rw [Nat.add_assoc, Nat.add_comm 1]
        exact hpast
    · simp at hk

end Alike

/-! ### Readings that agree -/

/-- Two readings, of `s` and of `t`, both find a fault, meet one bound, or give one result and go on
alike behind it. -/
inductive Agree {α : Type} (s t : List Char) : Read α → Read α → Prop where
  | fault (f g : Fault) : Agree s t (.error (.fault f)) (.error (.fault g))
  | limit (l : Limit) : Agree s t (.error (.limit l)) (.error (.limit l))
  | result (x : α) {c d : Cursor} (rest : Alike c.rest d.rest) (here : c.rest <:+ s)
    (there : d.rest <:+ t) : Agree s t (.ok (x, c)) (.ok (x, d))

namespace Agree

variable {α β : Type} {s t s' t' : List Char} {a b : Read α}

lemma of_suffix (h : Agree s t a b) (hs : s <:+ s') (ht : t <:+ t') : Agree s' t' a b := by
  cases h with
  | fault f g => exact .fault f g
  | limit l => exact .limit l
  | result x rest here there => exact .result x rest (here.trans hs) (there.trans ht)

lemma map (h : Agree s t a b) (f : α → β) :
    Agree s t (a.map fun r => (f r.1, r.2)) (b.map fun r => (f r.1, r.2)) := by
  cases h with
  | fault f g => exact .fault f g
  | limit l => exact .limit l
  | result x rest here there => exact .result (f x) rest here there

end Agree

/-! ### Numbers and words -/

/-- The cursor past the fraction of a number. -/
def pastFraction (c : Cursor) : Cursor :=
  if (fraction c.rest).isEmpty then c else c.skip ((fraction c.rest).length + 1)

variable {m : Machine}

/-- A number behind the digits of its whole part. -/
def unsignedFrom (m : Machine) (negative : Bool) (whole : List Char) (c : Cursor) : Read Json :=
  let n := digitsValue whole
  match exponent? (pastFraction c).rest with
  | some (e, width) => .ok (m.number ⟨negative, n, (fraction c.rest).map digit, some e⟩,
      (pastFraction c).skip width)
  | none =>
    if (fraction c.rest).isEmpty then
      if within m.digits whole.length then
        .ok (.int (if negative then -(n : Int) else n), pastFraction c)
      else .error (.limit .digits)
    else .ok (m.number ⟨negative, n, (fraction c.rest).map digit, none⟩, pastFraction c)

lemma unsigned_eq (negative : Bool) (start : Nat) (c : Cursor) :
    unsigned m negative start c =
      if (wholeDigits c.rest).isEmpty then .error (.fault ⟨.value, start⟩)
      else unsignedFrom m negative (wholeDigits c.rest)
        (c.skip (wholeDigits c.rest).length) := rfl

lemma pastFraction_suffix (c : Cursor) : (pastFraction c).rest <:+ c.rest := by
  unfold pastFraction
  split
  · exact List.suffix_rfl
  · exact List.drop_suffix _ _

namespace Alike

variable {s t : List Char}

lemma pastFraction_rest {c d : Cursor} (h : Alike c.rest d.rest) :
    Alike (pastFraction c).rest (pastFraction d).rest := by
  rw [pastFraction, pastFraction, ← h.fraction_congr]
  split
  · exact h
  · next hsome =>
    have hpoint : NoBreaks ['.'] := by simp [NoBreaks]
    have hprefix : ['.'] <+: c.rest := by
      by_contra hno
      simp [fraction_eq, hno] at hsome
    have hdigits : fraction c.rest = (c.rest.drop 1).takeWhile Char.isDigit := by
      rw [fraction_eq, if_pos hprefix]
    have hpast := (h.drop hpoint hprefix).drop (noBreaks_takeWhile_isDigit _)
      (List.takeWhile_prefix _)
    rw [List.length_singleton, ← hdigits, List.drop_drop, List.drop_drop, Nat.add_comm 1] at hpast
    exact hpast

lemma agree_unsignedFrom {c d : Cursor} (h : Alike c.rest d.rest) (negative : Bool)
    (whole : List Char) :
    Agree c.rest d.rest (unsignedFrom m negative whole c) (unsignedFrom m negative whole d) := by
  have hpast := pastFraction_rest h
  obtain ⟨hexponent, hlast⟩ := hpast.exponent?_congr
  have hc := pastFraction_suffix c
  have hd := pastFraction_suffix d
  simp only [unsignedFrom, ← hexponent, ← h.fraction_congr]
  cases he : exponent? (pastFraction c).rest with
  | none =>
    dsimp only
    split
    · split
      · exact .result _ hpast hc hd
      · exact .limit _
    · exact .result _ hpast hc hd
  | some found =>
    obtain ⟨e, width⟩ := found
    exact .result _ (hlast e width he) ((List.drop_suffix _ _).trans hc)
      ((List.drop_suffix _ _).trans hd)

lemma agree_unsigned (h : Alike s t) (negative : Bool) (i j p q : Nat) :
    Agree s t (unsigned m negative i ⟨p, s⟩) (unsigned m negative j ⟨q, t⟩) := by
  rw [unsigned_eq, unsigned_eq, ← h.wholeDigits_congr]
  split
  · exact .fault _ _
  · have hrest : Alike ((Cursor.mk p s).skip (wholeDigits s).length).rest
        ((Cursor.mk q t).skip (wholeDigits s).length).rest :=
      h.drop (noBreaks_wholeDigits s) (wholeDigits_isPrefix s)
    exact (agree_unsignedFrom hrest negative _).of_suffix (List.drop_suffix _ _)
      (List.drop_suffix _ _)

lemma agree_number (h : Alike s t) (p q : Nat) : Agree s t (number m ⟨p, s⟩) (number m ⟨q, t⟩) := by
  cases h with
  | nil => exact agree_unsigned (m := m) .nil false p q p q
  | @char c hc s t rest =>
    by_cases hminus : c = '-'
    · subst hminus
      exact (rest.agree_unsigned true p q (p + 1) (q + 1)).of_suffix (List.suffix_cons _ _)
        (List.suffix_cons _ _)
    · have hplain : ∀ (p : Nat) (more : List Char),
          number m ⟨p, c :: more⟩ = unsigned m false p ⟨p, c :: more⟩ := by
        intro p more
        unfold number
        split <;> simp_all
      rw [hplain, hplain]
      exact (Alike.char c hc rest).agree_unsigned _ _ _ _ _
  | carriageReturn rest => exact agree_unsigned (m := m) (.carriageReturn rest) false p q p q
  | both rest => exact agree_unsigned (m := m) (.both rest) false p q p q

lemma agree_scalar (h : Alike s t) (p q : Nat) : Agree s t (scalar m ⟨p, s⟩) (scalar m ⟨q, t⟩) := by
  have hwords : ∀ l ∈ literals, NoBreaks l.1 := by simp [literals, NoBreaks]
  -- the same word, if any, stands in both texts
  have hsame : ∀ l ∈ literals, l.1.isPrefixOf s = l.1.isPrefixOf t := by
    intro l hl
    rw [Bool.eq_iff_iff, List.isPrefixOf_iff_prefix, List.isPrefixOf_iff_prefix,
      h.prefix_iff (hwords l hl)]
  have hfind : literals.find? (fun l => l.1.isPrefixOf s) =
      literals.find? (fun l => l.1.isPrefixOf t) := List.find?_congr hsame
  simp only [scalar, ← hfind]
  cases hl : literals.find? (fun l => l.1.isPrefixOf s) with
  | none => exact h.agree_number p q
  | some l =>
    have hword := hwords l (List.mem_of_find?_eq_some hl)
    have hs : l.1 <+: s := by simpa using List.find?_some hl
    exact .result _ (h.drop hword hs) (List.drop_suffix _ _) (List.drop_suffix _ _)

end Alike

/-! ### Strings -/

lemma hexFour?_eq_some_iff {text : List Char} {n : Nat} :
    hexFour? text = some n ↔ ∃ w, w.length = 4 ∧ NoBreaks w ∧ hexFour? w = some n ∧ w <+: text := by
  have hbreaks : hexValue? '\r' = none ∧ hexValue? '\n' = none := by decide
  constructor
  · intro h
    rcases text with _ | ⟨a, _ | ⟨b, _ | ⟨c, _ | ⟨d, more⟩⟩⟩⟩
    · cases h
    · cases h
    · cases h
    · cases h
    refine ⟨[a, b, c, d], rfl, ?_, h, more, rfl⟩
    have hvalues : ∀ e ∈ [a, b, c, d], hexValue? e ≠ none := by
      simp only [hexFour?, Option.bind_eq_bind, Option.bind_eq_some_iff] at h
      obtain ⟨_, ha, _, hb, _, hc, _, hd, -⟩ := h
      simp [ha, hb, hc, hd]
    intro e he
    constructor
    · rintro rfl
      exact hvalues _ he hbreaks.1
    · rintro rfl
      exact hvalues _ he hbreaks.2
  · rintro ⟨w, hw, -, h, more, rfl⟩
    obtain ⟨a, b, c, d, rfl⟩ := List.length_eq_four.mp hw
    exact h

/-- The second half of a pair whose first half is `high`, behind that. -/
def lowUnit? (high : Nat) (after : List Char) : Option Nat :=
  if (0xD800 ≤ high ∧ high < 0xDC00) ∧ ['\\', 'u'] <+: after then
    (hexFour? (after.drop 2)).filter fun low => 0xDC00 ≤ low && low < 0xE000
  else none

lemma unicodeEscape_eq {digits : List Char} {high : Nat} (h : hexFour? digits = some high)
    (hmore : digits.drop 4 ≠ []) :
    unicodeEscape m digits = .ok (match lowUnit? high (digits.drop 4) with
      | some low => (Char.ofNat (0x10000 + (high - 0xD800) * 0x400 + (low - 0xDC00)), 10)
      | none => (m.unit high, 4)) := by
  unfold unicodeEscape lowUnit?
  rw [h]
  generalize digits.drop 4 = after at hmore ⊢
  cases after with
  | nil => exact absurd rfl hmore
  | cons c more =>
    dsimp only
    split
    · next more' hhigh heq =>
      obtain ⟨rfl, rfl⟩ := List.cons.inj heq
      have hpair : (0xD800 ≤ high ∧ high < 0xDC00) ∧ ['\\', 'u'] <+: '\\' :: 'u' :: more' := by
        simpa using hhigh
      rw [if_pos hpair, List.drop_succ_cons, List.drop_succ_cons, List.drop_zero]
      cases hexFour? more' with
      | none => rfl
      | some low =>
        rw [Option.filter_some]
        dsimp only
        split <;> rfl
    · next hno =>
      rw [if_neg]
      rintro ⟨hhigh, others, heq⟩
      exact hno others (by simpa using hhigh) heq.symm

namespace Alike

variable {s t : List Char}

lemma hexFour?_congr (h : Alike s t) : hexFour? s = hexFour? t := by
  ext n
  rw [hexFour?_eq_some_iff, hexFour?_eq_some_iff]
  exact exists_congr fun w => and_congr_right fun _ => and_congr_right fun hw =>
    and_congr_right fun _ => h.prefix_iff hw

lemma drop_four (h : Alike s t) {n : Nat} (hn : hexFour? s = some n) :
    Alike (s.drop 4) (t.drop 4) := by
  obtain ⟨w, hlength, hw, -, hs⟩ := hexFour?_eq_some_iff.mp hn
  rw [← hlength]
  exact h.drop hw hs

lemma lowUnit?_congr (h : Alike s t) (high : Nat) :
    lowUnit? high s = lowUnit? high t ∧
      ∀ low, lowUnit? high s = some low → Alike (s.drop 6) (t.drop 6) := by
  have hslash : NoBreaks ['\\', 'u'] := by simp [NoBreaks]
  simp only [lowUnit?, ← h.prefix_iff hslash]
  split
  · next hpair =>
    have hrest : Alike (s.drop 2) (t.drop 2) := h.drop hslash hpair.2
    refine ⟨by rw [hrest.hexFour?_congr], ?_⟩
    intro low hlow
    have hdigits := hrest.drop_four (Option.filter_eq_some_iff.mp hlow).1
    rwa [List.drop_drop, List.drop_drop] at hdigits
  · exact ⟨rfl, by simp⟩

lemma eq_nil_iff (h : Alike s t) : s = [] ↔ t = [] := by
  cases h <;> simp

lemma unicodeEscape_congr (h : Alike s t) :
    unicodeEscape m s = unicodeEscape m t ∧
      ∀ c width, unicodeEscape m s = .ok (c, width) → Alike (s.drop width) (t.drop width) := by
  cases hs : hexFour? s with
  | none =>
    have ht : hexFour? t = none := h.hexFour?_congr.symm.trans hs
    simp [unicodeEscape, hs, ht]
  | some high =>
    have ht : hexFour? t = some high := h.hexFour?_congr.symm.trans hs
    have hrest := h.drop_four hs
    by_cases hend : s.drop 4 = []
    · simp [unicodeEscape, hs, ht, hend, hrest.eq_nil_iff.mp hend]
    · have hend' : t.drop 4 ≠ [] := fun he => hend (hrest.eq_nil_iff.mpr he)
      obtain ⟨hlow, hpast⟩ := hrest.lowUnit?_congr high
      rw [unicodeEscape_eq hs hend, unicodeEscape_eq ht hend', ← hlow]
      refine ⟨rfl, ?_⟩
      intro c width hread
      cases hunit : lowUnit? high (s.drop 4) with
      | none =>
        rw [hunit] at hread
        obtain ⟨-, rfl⟩ := Prod.mk.inj (Except.ok.inj hread)
        exact hrest
      | some low =>
        rw [hunit] at hread
        obtain ⟨-, rfl⟩ := Prod.mk.inj (Except.ok.inj hread)
        have hboth := hpast low hunit
        rwa [List.drop_drop, List.drop_drop] at hboth

/-- An escape agrees, if what follows it does. -/
lemma agree_escape {n k : Nat} (i j : Nat)
    (ih : ∀ {s t : List Char} (p q : Nat) (acc : List Char), Alike s t → s.length < n →
      t.length < k → Agree s t (stringFrom m i n acc ⟨p, s⟩) (stringFrom m j k acc ⟨q, t⟩))
    (h : Alike s t) (p q : Nat) (acc : List Char) (hn : s.length < n) (hk : t.length < k) :
    Agree ('\\' :: s) ('\\' :: t) (stringFrom m i (n + 1) acc ⟨p, '\\' :: s⟩)
      (stringFrom m j (k + 1) acc ⟨q, '\\' :: t⟩) := by
  cases h with
  | nil => exact .fault _ _
  | carriageReturn rest => exact .fault _ _
  | both rest => exact .fault _ _
  | @char e he s t rest =>
    rw [List.length_cons] at hn hk
    by_cases hu : e = 'u'
    · subst hu
      obtain ⟨hescape, hpast⟩ := rest.unicodeEscape_congr
      rw [stringFrom_code, stringFrom_code, ← hescape]
      cases hread : unicodeEscape m s with
      | error _ => exact .fault _ _
      | ok found =>
        obtain ⟨d, width⟩ := found
        have hs : (s.drop width).length ≤ s.length := (List.drop_suffix _ _).length_le
        have ht : (t.drop width).length ≤ t.length := (List.drop_suffix _ _).length_le
        exact (ih _ _ _ (hpast d width hread) (by omega) (by omega)).of_suffix
          ((List.drop_suffix _ _).trans ⟨['\\', 'u'], rfl⟩)
          ((List.drop_suffix _ _).trans ⟨['\\', 'u'], rfl⟩)
    · rw [stringFrom_letter _ _ _ _ _ hu, stringFrom_letter _ _ _ _ _ hu]
      cases shortEscape? e with
      | none => exact .fault _ _
      | some d =>
        exact (ih _ _ _ rest (by omega) (by omega)).of_suffix ⟨['\\', e], rfl⟩ ⟨['\\', e], rfl⟩

/-- Strings agree, with steps for all that remains of each text. -/
lemma agree_stringFrom (h : Alike s t) (i j p q : Nat) (acc : List Char) {n k : Nat}
    (hn : s.length < n) (hk : t.length < k) :
    Agree s t (stringFrom m i n acc ⟨p, s⟩) (stringFrom m j k acc ⟨q, t⟩) := by
  induction n generalizing s t p q acc k with
  | zero => omega
  | succ n ih =>
    obtain ⟨k, rfl⟩ : ∃ l, k = l + 1 := ⟨k - 1, by omega⟩
    cases h with
    | nil => exact .fault _ _
    -- a line break is no character of a string, however it is written
    | carriageReturn rest => exact .fault _ _
    | both rest => exact .fault _ _
    | @char c hc s t rest =>
      rw [List.length_cons] at hn hk
      by_cases hquote : c = '"'
      · subst hquote
        exact .result _ rest (List.suffix_cons _ _) (List.suffix_cons _ _)
      by_cases hslash : c = '\\'
      · subst hslash
        exact agree_escape i j (fun p q acc hrest hs ht => ih hrest p q acc hs ht) rest p q acc
          (by omega) (by omega)
      · rw [stringFrom_plain _ _ _ _ _ hquote hslash, stringFrom_plain _ _ _ _ _ hquote hslash]
        split
        · exact .fault _ _
        · exact (ih rest _ _ _ (by omega) (by omega)).of_suffix (List.suffix_cons _ _)
            (List.suffix_cons _ _)

lemma agree_string (h : Alike s t) (p q : Nat) : Agree s t (string m ⟨p, s⟩) (string m ⟨q, t⟩) :=
  h.agree_stringFrom _ _ _ _ _ (Nat.lt_succ_self _) (Nat.lt_succ_self _)

end Alike

end PhpCatalog.Json
