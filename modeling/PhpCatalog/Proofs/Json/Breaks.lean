/-
# How line breaks are written

Between the parts of a text a carriage return and a line feed are white space alike, so two texts
that differ in how their line breaks are written denote the same value, or neither denotes one, and
reading them stops at the same bound, if at any (`read_alike`).  In particular a file may be read
with every line break as a line feed (`read_unifyBreaks_iff`).

The texts may differ in length, so the two runs of the reader have each their own number of steps.
-/
import Mathlib.Tactic.Lemma
import PhpCatalog.Proofs.Json.Alike
import PhpCatalog.Proofs.Json.Stopping

namespace PhpCatalog.Json

/-! ### White space and marks -/

lemma skipSpace_rest (c : Cursor) : c.skipSpace.rest = c.rest.dropWhile Cursor.isSpace := by
  have hparts : c.rest.takeWhile Cursor.isSpace ++ c.rest.dropWhile Cursor.isSpace = c.rest :=
    List.takeWhile_append_dropWhile
  have hdrop : (c.rest.takeWhile Cursor.isSpace ++ c.rest.dropWhile Cursor.isSpace).drop
      (c.rest.takeWhile Cursor.isSpace).length = c.rest.dropWhile Cursor.isSpace := List.drop_left
  rw [hparts] at hdrop
  exact hdrop

lemma skipSpace_suffix (c : Cursor) : c.skipSpace.rest <:+ c.rest :=
  List.drop_suffix _ _

namespace Alike

variable {s t : List Char}

lemma skipSpace {c d : Cursor} (h : Alike c.rest d.rest) :
    Alike c.skipSpace.rest d.skipSpace.rest := by
  rw [skipSpace_rest, skipSpace_rest]
  exact h.dropWhile_isSpace

/-- Past a mark and white space the texts go on alike, and less of each remains. -/
lemma past_mark (h : Alike s t) (mark : Char) (p q : Nat) :
    Alike (Cursor.mk p s).skipSpace.rest (Cursor.mk q t).skipSpace.rest ∧
      (Cursor.mk p s).skipSpace.rest <:+ mark :: s ∧ (Cursor.mk q t).skipSpace.rest <:+ mark :: t ∧
      (Cursor.mk p s).skipSpace.rest.length < (mark :: s).length ∧
      (Cursor.mk q t).skipSpace.rest.length < (mark :: t).length := by
  have hs : (Cursor.mk p s).skipSpace.rest <:+ s := skipSpace_suffix ⟨p, s⟩
  have ht : (Cursor.mk q t).skipSpace.rest <:+ t := skipSpace_suffix ⟨q, t⟩
  exact ⟨skipSpace (c := ⟨p, s⟩) (d := ⟨q, t⟩) h, hs.trans (List.suffix_cons _ _),
    ht.trans (List.suffix_cons _ _), Nat.lt_succ_of_le hs.length_le, Nat.lt_succ_of_le ht.length_le⟩

/-- A mark that is no line break comes next in both texts or in neither. -/
lemma mark_cases (h : Alike s t) (mark : Char) (hmark : mark ≠ '\r' ∧ mark ≠ '\n') :
    (∃ s' t', s = mark :: s' ∧ t = mark :: t' ∧ Alike s' t') ∨
    (∀ s', s ≠ mark :: s') ∧ ∀ t', t ≠ mark :: t' := by
  cases h with
  | nil => simp
  | @char c _ s t rest =>
    by_cases hc : c = mark
    · exact Or.inl ⟨s, t, by rw [hc], by rw [hc], rest⟩
    · simp [hc]
  | carriageReturn rest => simp [Ne.symm hmark.1, Ne.symm hmark.2]
  | both rest => simp [Ne.symm hmark.1, Ne.symm hmark.2]

end Alike

variable {m : Machine}

/-! ### Values -/

/-- The readings of alike texts agree, with `n` steps for the first: twice as many as it has
characters, and more for the value itself. -/
structure Agreeing (m : Machine) (n : Nat) : Prop where
  value : ∀ {c d : Cursor} {k : Nat} (depth : Nat), Alike c.rest d.rest →
    2 * c.rest.length + 1 ≤ n → 2 * d.rest.length + 1 ≤ k →
    Agree c.rest d.rest (value m n depth c) (value m k depth d)
  items : ∀ {c d : Cursor} {k : Nat} (depth : Nat) (acc : List Json), Alike c.rest d.rest →
    2 * c.rest.length + 2 ≤ n → 2 * d.rest.length + 2 ≤ k →
    Agree c.rest d.rest (items m n depth acc c) (items m k depth acc d)
  members : ∀ {c d : Cursor} {k : Nat} (depth : Nat) (acc : List (String × Json)),
    Alike c.rest d.rest → 2 * c.rest.length + 2 ≤ n → 2 * d.rest.length + 2 ≤ k →
    Agree c.rest d.rest (members m n depth acc c) (members m k depth acc d)

namespace Agreeing

variable {n k : Nat} {c d : Cursor}

lemma arrayFrom (h : Agreeing m n) (depth : Nat) (hrest : Alike c.rest d.rest)
    (hn : 2 * c.rest.length + 2 ≤ n) (hk : 2 * d.rest.length + 2 ≤ k) :
    Agree c.rest d.rest (arrayFrom m n depth c) (arrayFrom m k depth d) := by
  obtain ⟨p, s⟩ := c
  obtain ⟨q, t⟩ := d
  rcases hrest.mark_cases ']' (by decide) with ⟨s, t, rfl, rfl, hmore⟩ | ⟨hclose, hclose'⟩
  · exact .result _ hmore (List.suffix_cons _ _) (List.suffix_cons _ _)
  · simp only [Json.arrayFrom]
    exact (h.items depth [] hrest hn hk).map Json.arr

lemma objectFrom (h : Agreeing m n) (depth : Nat) (hrest : Alike c.rest d.rest)
    (hn : 2 * c.rest.length + 2 ≤ n) (hk : 2 * d.rest.length + 2 ≤ k) :
    Agree c.rest d.rest (objectFrom m n depth c) (objectFrom m k depth d) := by
  obtain ⟨p, s⟩ := c
  obtain ⟨q, t⟩ := d
  rcases hrest.mark_cases '}' (by decide) with ⟨s, t, rfl, rfl, hmore⟩ | ⟨hclose, hclose'⟩
  · exact .result _ hmore (List.suffix_cons _ _) (List.suffix_cons _ _)
  · simp only [Json.objectFrom]
    exact (h.members depth [] hrest hn hk).map Json.obj

lemma itemsBehind (h : Agreeing m n) (depth : Nat) (acc : List Json)
    (hrest : Alike c.rest d.rest) (hn : 2 * c.rest.length ≤ n) (hk : 2 * d.rest.length ≤ k) :
    Agree c.rest d.rest (itemsBehind m n depth acc c) (itemsBehind m k depth acc d) := by
  obtain ⟨p, s⟩ := c
  obtain ⟨q, t⟩ := d
  rcases hrest.mark_cases ']' (by decide) with ⟨s, t, rfl, rfl, hmore⟩ | ⟨hclose, hclose'⟩
  · exact .result _ hmore (List.suffix_cons _ _) (List.suffix_cons _ _)
  rcases hrest.mark_cases ',' (by decide) with ⟨s, t, rfl, rfl, hmore⟩ | ⟨hcomma, hcomma'⟩
  · obtain ⟨hnext, hs, ht, hslength, htlength⟩ := hmore.past_mark ',' (p + 1) (q + 1)
    dsimp only at hn hk
    exact (h.items (k := k) depth acc hnext (by omega) (by omega)).of_suffix hs ht
  · simp only [Json.itemsBehind]
    exact .fault _ _

lemma membersBehind (h : Agreeing m n) (depth : Nat) (acc : List (String × Json))
    (hrest : Alike c.rest d.rest) (hn : 2 * c.rest.length ≤ n) (hk : 2 * d.rest.length ≤ k) :
    Agree c.rest d.rest (membersBehind m n depth acc c) (membersBehind m k depth acc d) := by
  obtain ⟨p, s⟩ := c
  obtain ⟨q, t⟩ := d
  rcases hrest.mark_cases '}' (by decide) with ⟨s, t, rfl, rfl, hmore⟩ | ⟨hclose, hclose'⟩
  · exact .result _ hmore (List.suffix_cons _ _) (List.suffix_cons _ _)
  rcases hrest.mark_cases ',' (by decide) with ⟨s, t, rfl, rfl, hmore⟩ | ⟨hcomma, hcomma'⟩
  · obtain ⟨hnext, hs, ht, hslength, htlength⟩ := hmore.past_mark ',' (p + 1) (q + 1)
    dsimp only at hn hk
    exact (h.members (k := k) depth acc hnext (by omega) (by omega)).of_suffix hs ht
  · simp only [Json.membersBehind]
    exact .fault _ _

lemma membersFrom (h : Agreeing m n) (depth : Nat) (name : String) (acc : List (String × Json))
    (hrest : Alike c.rest d.rest) (hn : 2 * c.rest.length ≤ n) (hk : 2 * d.rest.length ≤ k) :
    Agree c.rest d.rest (membersFrom m n depth name acc c) (membersFrom m k depth name acc d) := by
  obtain ⟨p, s⟩ := c
  obtain ⟨q, t⟩ := d
  rcases hrest.mark_cases ':' (by decide) with ⟨s, t, rfl, rfl, hmore⟩ | ⟨hcolon, hcolon'⟩
  · obtain ⟨hnext, hs, ht, hslength, htlength⟩ := hmore.past_mark ':' (p + 1) (q + 1)
    dsimp only at hn hk
    have hvalue := (h.value (k := k) depth hnext (by omega) (by omega)).of_suffix hs ht
    simp only [Json.membersFrom, Cursor.skip, List.drop_succ_cons, List.drop_zero]
    generalize Json.value m n depth _ = a at hvalue ⊢
    generalize Json.value m k depth _ = b at hvalue ⊢
    cases hvalue with
    | fault f g => exact .fault f g
    | limit l => exact .limit l
    | @result x c d rest here there =>
      have hs := (skipSpace_suffix c).trans here
      have ht := (skipSpace_suffix d).trans there
      have hslength := hs.length_le
      have htlength := ht.length_le
      exact (h.membersBehind (k := k) depth _ rest.skipSpace (by omega) (by omega)).of_suffix hs ht
  · simp only [Json.membersFrom]
    exact .fault _ _

/-! One more step. -/

lemma value_succ (h : Agreeing m n) (depth : Nat) (hrest : Alike c.rest d.rest)
    (hn : 2 * c.rest.length + 1 ≤ n + 1) (hk : 2 * d.rest.length + 1 ≤ k + 1) :
    Agree c.rest d.rest (Json.value m (n + 1) depth c) (Json.value m (k + 1) depth d) := by
  obtain ⟨p, s⟩ := c
  obtain ⟨q, t⟩ := d
  cases hrest with
  | nil => exact .fault _ _
  | carriageReturn rest => exact (Alike.carriageReturn rest).agree_scalar (m := m) p q
  | both rest => exact (Alike.both rest).agree_scalar (m := m) p q
  | @char x hx s t rest =>
    obtain ⟨hnext, hs, ht, hslength, htlength⟩ := rest.past_mark x (p + 1) (q + 1)
    dsimp only at hn hk
    by_cases hquote : x = '"'
    · subst hquote
      rw [value_quote, value_quote]
      exact ((rest.agree_string (p + 1) (q + 1)).map Json.str).of_suffix (List.suffix_cons _ _)
        (List.suffix_cons _ _)
    by_cases harray : x = '['
    · subst harray
      rw [value_bracket, value_bracket]
      split
      · exact (h.arrayFrom (depth + 1) hnext (by omega) (by omega)).of_suffix hs ht
      · exact .limit _
    by_cases hobject : x = '\x7b'
    · subst hobject
      rw [value_brace, value_brace]
      split
      · exact (h.objectFrom (depth + 1) hnext (by omega) (by omega)).of_suffix hs ht
      · exact .limit _
    · rw [value_scalar _ _ _ hquote harray hobject, value_scalar _ _ _ hquote harray hobject]
      exact (Alike.char x hx rest).agree_scalar p q

lemma items_succ (h : Agreeing m n) (depth : Nat) (acc : List Json)
    (hrest : Alike c.rest d.rest) (hn : 2 * c.rest.length + 2 ≤ n + 1)
    (hk : 2 * d.rest.length + 2 ≤ k + 1) :
    Agree c.rest d.rest (Json.items m (n + 1) depth acc c) (Json.items m (k + 1) depth acc d) := by
  have hvalue := h.value (k := k) depth hrest (by omega) (by omega)
  rw [Json.items_succ, Json.items_succ]
  generalize Json.value m n depth c = a at hvalue ⊢
  generalize Json.value m k depth d = b at hvalue ⊢
  cases hvalue with
  | fault f g => exact .fault f g
  | limit l => exact .limit l
  | @result x c' d' rest here there =>
    have hs := (skipSpace_suffix c').trans here
    have ht := (skipSpace_suffix d').trans there
    have hslength := hs.length_le
    have htlength := ht.length_le
    exact (h.itemsBehind depth (x :: acc) rest.skipSpace (by omega) (by omega)).of_suffix hs ht

lemma members_succ (h : Agreeing m n) (depth : Nat) (acc : List (String × Json))
    (hrest : Alike c.rest d.rest) (hn : 2 * c.rest.length + 2 ≤ n + 1)
    (hk : 2 * d.rest.length + 2 ≤ k + 1) :
    Agree c.rest d.rest (Json.members m (n + 1) depth acc c)
      (Json.members m (k + 1) depth acc d) := by
  obtain ⟨p, s⟩ := c
  obtain ⟨q, t⟩ := d
  rcases hrest.mark_cases '"' (by decide) with ⟨s, t, rfl, rfl, hmore⟩ | ⟨hquote, hquote'⟩
  · have hname := hmore.agree_string (m := m) (p + 1) (q + 1)
    rw [members_quote, members_quote]
    generalize string m ⟨p + 1, s⟩ = a at hname ⊢
    generalize string m ⟨q + 1, t⟩ = b at hname ⊢
    cases hname with
    | fault f g => exact .fault f g
    | limit l => exact .limit l
    | @result name c d rest here there =>
      have hs := (skipSpace_suffix c).trans (here.trans (List.suffix_cons '"' s))
      have ht := (skipSpace_suffix d).trans (there.trans (List.suffix_cons '"' t))
      have hslength := ((skipSpace_suffix c).trans here).length_le
      have htlength := ((skipSpace_suffix d).trans there).length_le
      dsimp only [List.length_cons] at hn hk
      exact (h.membersFrom depth name acc rest.skipSpace (by omega) (by omega)).of_suffix hs ht
  · simp only [Json.members]
    exact .fault _ _

end Agreeing

lemma agreeing (m : Machine) (n : Nat) : Agreeing m n := by
  induction n with
  | zero => exact ⟨by omega, by omega, by omega⟩
  | succ n ih =>
    refine ⟨?_, ?_, ?_⟩
    · intro c d k depth hrest hn hk
      obtain ⟨k, rfl⟩ : ∃ l, k = l + 1 := ⟨k - 1, by omega⟩
      exact ih.value_succ depth hrest hn hk
    · intro c d k depth acc hrest hn hk
      obtain ⟨k, rfl⟩ : ∃ l, k = l + 1 := ⟨k - 1, by omega⟩
      exact ih.items_succ depth acc hrest hn hk
    · intro c d k depth acc hrest hn hk
      obtain ⟨k, rfl⟩ : ∃ l, k = l + 1 := ⟨k - 1, by omega⟩
      exact ih.members_succ depth acc hrest hn hk

/-! ### Whole texts -/

/-- Two readings of a whole text give one value, stop at one bound, or both find a fault. -/
inductive SameReading : Except Stop Json → Except Stop Json → Prop where
  | fault (f g : Fault) : SameReading (.error (.fault f)) (.error (.fault g))
  | limit (l : Limit) : SameReading (.error (.limit l)) (.error (.limit l))
  | value (j : Json) : SameReading (.ok j) (.ok j)

/-- **What a text is read as does not depend on how its line breaks are written.** -/
theorem read_alike {s t : List Char} (h : Alike s t) : SameReading (m.read s) (m.read t) := by
  rcases h.mark_cases '\uFEFF' (by decide) with ⟨s, t, rfl, rfl, -⟩ | ⟨hmark, hmark'⟩
  · exact .fault _ _
  have hspace : Alike (Cursor.mk 0 s).skipSpace.rest (Cursor.mk 0 t).skipSpace.rest :=
    Alike.skipSpace h
  have hs : (Cursor.mk 0 s).skipSpace.rest.length ≤ s.length := (skipSpace_suffix ⟨0, s⟩).length_le
  have ht : (Cursor.mk 0 t).skipSpace.rest.length ≤ t.length := (skipSpace_suffix ⟨0, t⟩).length_le
  have hvalue := (agreeing m (2 * s.length + 2)).value (k := 2 * t.length + 2) 0 hspace (by omega)
    (by omega)
  simp only [Machine.read]
  generalize value m (2 * s.length + 2) 0 _ = a at hvalue ⊢
  generalize value m (2 * t.length + 2) 0 _ = b at hvalue ⊢
  cases hvalue with
  | fault f g => exact .fault f g
  | limit l => exact .limit l
  | @result x c d rest _ _ =>
    have hend : c.skipSpace.rest.isEmpty = d.skipSpace.rest.isEmpty := by
      rw [Bool.eq_iff_iff, List.isEmpty_iff, List.isEmpty_iff]
      exact rest.skipSpace.eq_nil_iff
    dsimp only
    rw [hend]
    split
    · exact .value x
    · exact .fault _ _

/-- Reading every line break as a line feed changes no value. -/
theorem read_unifyBreaks_iff (text : List Char) (j : Json) :
    m.read (Text.unifyBreaks text) = .ok j ↔ m.read text = .ok j := by
  have hsame := read_alike (m := m) (alike_unifyBreaks text)
  generalize m.read text = a at hsame ⊢
  generalize m.read (Text.unifyBreaks text) = b at hsame ⊢
  cases hsame <;> simp

/-- Reading every line break as a line feed meets the same bound, if any. -/
theorem read_unifyBreaks_limit_iff (text : List Char) (l : Limit) :
    m.read (Text.unifyBreaks text) = .error (.limit l) ↔ m.read text = .error (.limit l) := by
  have hsame := read_alike (m := m) (alike_unifyBreaks text)
  generalize m.read text = a at hsame ⊢
  generalize m.read (Text.unifyBreaks text) = b at hsame ⊢
  cases hsame <;> simp

/-- A value comes back from the text of its own lines, however the reader takes line breaks. -/
theorem read_unifyBreaks_pretty {j : Json} (hj : WellFormed j)
    (hfits : Fits m.digits m.reading 0 j) (hheld : m.Holds j) :
    m.read (Text.unifyBreaks (j.pretty ++ "\n").toList) = .ok j := by
  have htext : (j.pretty ++ "\n").toList = write ⟨true, false⟩ 0 j ++ ['\n'] := by
    simp [pretty]
  rw [read_unifyBreaks_iff, htext]
  exact read_write hj hfits hheld _ (by simp [Cursor.isSpace])

/-- The text of a value beyond the bounds stops the reader, however it takes line breaks. -/
theorem read_unifyBreaks_pretty_of_not_fits {j : Json} (hj : WellFormed j)
    (hfits : ¬ Fits m.digits m.reading 0 j) (hheld : m.Holds j) :
    ∃ l, m.read (Text.unifyBreaks (j.pretty ++ "\n").toList) = .error (.limit l) := by
  have htext : (j.pretty ++ "\n").toList = write ⟨true, false⟩ 0 j ++ ['\n'] := by
    simp [pretty]
  have hends : EndsNumber ['\n'] := endsNumber_of_head (by simp [FollowsValue, Cursor.isSpace])
  obtain ⟨l, hl⟩ := read_write_of_not_fits hj hfits hheld ⟨true, false⟩ hends
  exact ⟨l, by rw [read_unifyBreaks_limit_iff, htext, hl]⟩

end PhpCatalog.Json
