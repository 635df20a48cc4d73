/-
# Texts without blanks at their ends

Trimming leaves a text with no blank at either end, and changes no text that already has none.  A
text is `Solid` if it is moreover not empty; texts built from solid ones, by putting something
between two of them or by joining a list of them, are solid again.

Word characters and digits are never blank, and every line break is.
-/
import Mathlib.Data.List.DropRight
import PhpCatalog.Text.Blank
import PhpCatalog.Text.Lines
import PhpCatalog.Text.Word

namespace PhpCatalog.Text

/-- A text that is not empty and has no blank at either end. -/
structure Solid (s : List Char) : Prop where
  ne_nil : s ≠ []
  head : ∀ c ∈ s.head?, isBlank c = false
  last : ∀ c ∈ s.getLast?, isBlank c = false

/-! ### Trimming -/

lemma trimStart_eq_self {s : List Char} (h : ∀ c ∈ s.head?, isBlank c = false) :
    trimStart s = s := by
  cases s with
  | nil => rfl
  | cons c rest => simp [trimStart, h c rfl]

lemma trimStart_append {a : List Char} (h : ∀ c ∈ a, isBlank c = true) (s : List Char) :
    trimStart (a ++ s) = trimStart s :=
  List.dropWhile_append_of_pos h

lemma trimEnd_eq_reverse (s : List Char) : trimEnd s = (trimStart s.reverse).reverse := rfl

lemma trimEnd_eq_self {s : List Char} (h : ∀ c ∈ s.getLast?, isBlank c = false) :
    trimEnd s = s := by
  rw [← List.head?_reverse] at h
  rw [trimEnd_eq_reverse, trimStart_eq_self h, List.reverse_reverse]

lemma trimEnd_append_blank {b : List Char} (h : ∀ c ∈ b, isBlank c = true) (s : List Char) :
    trimEnd (s ++ b) = trimEnd s := by
  have hreverse : ∀ c ∈ b.reverse, isBlank c = true := fun c hc => h c (List.mem_reverse.mp hc)
  rw [trimEnd_eq_reverse, List.reverse_append, trimStart_append hreverse, trimEnd_eq_reverse]

lemma head_trimStart (s : List Char) : ∀ c ∈ (trimStart s).head?, isBlank c = false := by
  intro c hc
  have h := List.head?_dropWhile_not isBlank s
  rw [show s.dropWhile isBlank = trimStart s from rfl, Option.mem_def.mp hc] at h
  exact h

lemma last_trimEnd (s : List Char) : ∀ c ∈ (trimEnd s).getLast?, isBlank c = false := by
  intro c hc
  rw [trimEnd_eq_reverse, List.getLast?_reverse] at hc
  exact head_trimStart s.reverse c hc

lemma trimEnd_isPrefix (s : List Char) : trimEnd s <+: s :=
  List.rdropWhile_prefix isBlank s

/-- Trimming adds nothing. -/
lemma mem_of_mem_trim {c : Char} {s : List Char} (h : c ∈ trim s) : c ∈ s :=
  (List.dropWhile_suffix isBlank).subset ((trimEnd_isPrefix (trimStart s)).subset h)

/-- Trimming leaves nothing, or a solid text. -/
lemma trim_eq_nil_or_solid (s : List Char) : trim s = [] ∨ Solid (trim s) := by
  by_cases hnil : trim s = []
  · exact Or.inl hnil
  refine Or.inr ⟨hnil, ?_, last_trimEnd (trimStart s)⟩
  intro c hc
  obtain ⟨rest, hrest⟩ := List.head?_eq_some_iff.mp hc
  obtain ⟨tail, htail⟩ := trimEnd_isPrefix (trimStart s)
  apply head_trimStart s c
  rw [← htail, show trimEnd (trimStart s) = trim s from rfl, hrest]
  rfl

lemma Solid.trim_eq {s : List Char} (h : Solid s) : trim s = s := by
  rw [trim, trimStart_eq_self h.head, trimEnd_eq_self h.last]

/-- Of a solid text with blanks around it, trimming leaves the text. -/
lemma Solid.trim_between {a s b : List Char} (h : Solid s) (ha : ∀ c ∈ a, isBlank c = true)
    (hb : ∀ c ∈ b, isBlank c = true) : trim (a ++ s ++ b) = s := by
  have hstart : trimStart (s ++ b) = s ++ b := by
    refine trimStart_eq_self fun c hc => ?_
    rw [List.head?_append_of_ne_nil _ h.ne_nil] at hc
    exact h.head c hc
  rw [trim, List.append_assoc, trimStart_append ha, hstart, trimEnd_append_blank hb,
    trimEnd_eq_self h.last]

lemma solid_iff {s : List Char} : Solid s ↔ s ≠ [] ∧ trim s = s := by
  constructor
  · intro h
    exact ⟨h.ne_nil, h.trim_eq⟩
  · rintro ⟨hne, heq⟩
    rcases trim_eq_nil_or_solid s with hnil | hsolid
    · exact absurd (heq.symm.trans hnil) hne
    · rwa [heq] at hsolid

instance (s : List Char) : Decidable (Solid s) :=
  decidable_of_iff (s ≠ [] ∧ trim s = s) solid_iff.symm

/-- A string is solid if it is not empty and trimming does not change it. -/
lemma solid_toList_iff {v : String} : Solid v.toList ↔ v ≠ "" ∧ trimmed v = v := by
  rw [solid_iff, trimmed]
  constructor
  · rintro ⟨hne, heq⟩
    refine ⟨fun h => hne (by rw [h]; rfl), ?_⟩
    rw [heq, String.ofList_toList]
  · rintro ⟨hne, heq⟩
    refine ⟨fun h => hne (String.toList_eq_nil_iff.mp h), ?_⟩
    rw [← String.toList_ofList (l := trim v.toList), heq]

lemma trimEnd_append {a s : List Char} (h : trimEnd s ≠ []) :
    trimEnd (a ++ s) = a ++ trimEnd s := by
  have hne : s.reverse.dropWhile isBlank ≠ [] := by simpa [trimEnd] using h
  rw [trimEnd, List.reverse_append, List.dropWhile_append]
  simp [hne, trimEnd]

lemma trimEnd_cons {c : Char} (h : isBlank c = false) (s : List Char) :
    trimEnd (c :: s) = c :: trimEnd s := by
  by_cases hs : trimEnd s = []
  · have hnil : s.reverse.dropWhile isBlank = [] := by simpa [trimEnd] using hs
    rw [hs, trimEnd, List.reverse_cons, List.dropWhile_append, hnil]
    simp [h]
  · exact trimEnd_append (a := [c]) hs

/-! ### Building solid texts -/

lemma solid_of_forall {s : List Char} (hne : s ≠ []) (h : ∀ c ∈ s, isBlank c = false) : Solid s :=
  ⟨hne, fun c hc => h c (List.mem_of_mem_head? hc), fun c hc => h c (List.mem_of_getLast? hc)⟩

/-- Characters may give way to others as long as blanks stay blanks and the rest does not become
blank. -/
lemma solid_map_iff {f : Char → Char} (h : ∀ c, isBlank (f c) = isBlank c) {s : List Char} :
    Solid (s.map f) ↔ Solid s := by
  constructor
  · intro hsolid
    exact ⟨by simpa using hsolid.ne_nil, by simpa [h] using hsolid.head,
      by simpa [h] using hsolid.last⟩
  · intro hsolid
    exact ⟨by simpa using hsolid.ne_nil, by simpa [h] using hsolid.head,
      by simpa [h] using hsolid.last⟩

/-- Whatever stands between two solid texts, the whole is solid. -/
lemma Solid.append {a b : List Char} (ha : Solid a) (between : List Char) (hb : Solid b) :
    Solid (a ++ between ++ b) := by
  refine ⟨by simp [ha.ne_nil], ?_, ?_⟩
  · intro c hc
    rw [List.append_assoc, List.head?_append_of_ne_nil _ ha.ne_nil] at hc
    exact ha.head c hc
  · intro c hc
    rw [List.getLast?_append_of_ne_nil _ hb.ne_nil] at hc
    exact hb.last c hc

lemma Solid.intercalate {parts : List (List Char)} (sep : List Char) (hne : parts ≠ [])
    (h : ∀ p ∈ parts, Solid p) : Solid (sep.intercalate parts) := by
  induction parts with
  | nil => exact absurd rfl hne
  | cons p rest ih =>
    have hp := h p List.mem_cons_self
    by_cases hrest : rest = []
    · subst hrest
      simpa using hp
    · rw [List.intercalate_cons_of_ne_nil hrest]
      exact hp.append sep (ih hrest fun q hq => h q (List.mem_cons_of_mem _ hq))

/-- The join of a list of solid strings is solid. -/
lemma solid_intercalate {parts : List String} (sep : String) (hne : parts ≠ [])
    (h : ∀ p ∈ parts, Solid p.toList) : Solid (sep.intercalate parts).toList := by
  rw [String.toList_intercalate]
  refine Solid.intercalate _ (by simpa using hne) ?_
  intro p hp
  obtain ⟨q, hq, rfl⟩ := List.mem_map.mp hp
  exact h q hq

/-! ### Blanks among other characters -/

/-- The code points of the blanks. -/
def blankCodes : List Nat :=
  List.range' 0x09 5 ++ List.range' 0x1C 5 ++ [0x85, 0xA0, 0x1680] ++ List.range' 0x2000 11 ++
    [0x2028, 0x2029, 0x202F, 0x205F, 0x3000]

lemma mem_blankCodes {c : Char} (h : isBlank c = true) : c.toNat ∈ blankCodes := by
  simp only [isBlank, Bool.or_eq_true, Bool.and_eq_true, decide_eq_true_eq, beq_iff_eq] at h
  simp only [blankCodes, List.mem_append, List.mem_range'_1, List.mem_cons, List.not_mem_nil,
    or_false]
  omega

/-- The table of word characters holds no blank. -/
lemma isBlank_of_isWord {c : Char} (h : isWord c = true) : isBlank c = false := by
  by_contra hblank
  have hcode := mem_blankCodes (Bool.not_eq_false _ ▸ hblank)
  have htable : ∀ n ∈ blankCodes, isWord (Char.ofNat n) = false := by decide +kernel
  have hword := htable _ hcode
  rw [Char.ofNat_toNat, h] at hword
  exact absurd hword (by decide)

lemma isBlank_of_isBreak {c : Char} (h : isBreak c = true) : isBlank c = true := by
  simp only [isBreak, Bool.or_eq_true, Bool.and_eq_true, decide_eq_true_eq, beq_iff_eq] at h
  simp only [isBlank, Bool.or_eq_true, Bool.and_eq_true, decide_eq_true_eq, beq_iff_eq]
  omega

/-- A number in decimal is solid. -/
lemma solid_toString (n : Nat) : Solid (toString n).toList := by
  have hdigits : (toString n).toList = Nat.toDigits 10 n := by
    rw [show toString n = String.ofList (Nat.toDigits 10 n) from rfl, String.toList_ofList]
  rw [hdigits]
  refine solid_of_forall Nat.toDigits_ne_nil ?_
  intro c hc
  have hdigit := Nat.isDigit_of_mem_toDigits (by decide) (by decide) hc
  exact isBlank_of_isWord (by simp [isWord, Char.isAlphanum, hdigit])

end PhpCatalog.Text
