/-
# Suffixes in lower case

The language of a file is told by its suffix in lower case, and so are minified files and templates
by how their names end.  The case is that of ASCII.  Any other way to write a text in lower case
(`Lowering`) tells the same files apart, since outside ASCII no character becomes a letter of a
known suffix: what a character becomes may depend on its place and may be several characters, but it
ends in `k` or outside ASCII.

* **`Lowering.ofPathBy?_eq`**, **`Lowering.skipsBy_eq`**: every lowering tells the same languages
  and skips the same files.
* **`suffix_lower`**: the suffix of a name in lower case is its suffix, in lower case.
-/
import Mathlib.Data.List.TakeWhile
import Mathlib.Tactic.Lemma
import PhpCatalog.Discovery.Skip
import PhpCatalog.Proofs.Path.Pieces

namespace PhpCatalog

/-! ### Suffixes -/

lemma dropWhile_dots_of_notMem {ext : List Char} (h : '.' ∉ ext) :
    ext.dropWhile (· == '.') = ext := by
  cases ext with
  | nil => rfl
  | cons c rest =>
    have hc : c ≠ '.' := by
      rintro rfl
      exact h List.mem_cons_self
    exact List.dropWhile_cons_of_neg (by simpa using hc)

/-- A name has a suffix if it ends in it and is not just dots before it. -/
lemma suffix_eq_iff {name ext : List Char} (hslash : '/' ∉ name) (hdot : '.' ∉ ext) :
    suffix name = '.' :: ext ↔
      '.' :: ext <:+ name ∧ ∀ k, name ≠ List.replicate k '.' ++ '.' :: ext := by
  rw [suffix, baseName_of_notMem hslash]
  constructor
  · intro h
    rcases mark_cases '.' (name.dropWhile (· == '.')) with hnone | ⟨before, after, hafter, hname⟩
    · simp [hnone] at h
    · have htake := takeWhile_reverse_append hafter ('.' :: before.reverse)
      obtain rfl : after = ext := by simpa [hname, htake] using h
      refine ⟨(hname ▸ List.suffix_append before _).trans (List.dropWhile_suffix _), ?_⟩
      rintro k rfl
      have hdrop : (List.replicate k '.' ++ '.' :: after).dropWhile (· == '.') = after := by
        rw [List.dropWhile_append_of_pos (by simp), List.dropWhile_cons_of_pos (by decide),
          dropWhile_dots_of_notMem hafter]
      rw [hdrop] at hname
      exact hdot (hname ▸ by simp)
  · rintro ⟨⟨stem, rfl⟩, hstem⟩
    have hdrop : stem.dropWhile (· == '.') ≠ [] := by
      intro hnil
      refine hstem stem.length (congrArg (· ++ '.' :: ext) ?_)
      refine List.eq_replicate_iff.mpr ⟨rfl, fun c hc => ?_⟩
      simpa using List.dropWhile_eq_nil_iff.mp hnil c hc
    have hname : (stem ++ '.' :: ext).dropWhile (· == '.') =
        stem.dropWhile (· == '.') ++ '.' :: ext := by
      rw [List.dropWhile_append, if_neg (by simpa using hdrop)]
    have htake := takeWhile_reverse_append hdot ('.' :: (stem.dropWhile (· == '.')).reverse)
    simp [hname, htake]

/-- The suffix of a path is that of its name. -/
lemma suffix_baseName (path : List Char) : suffix (baseName path) = suffix path := by
  rw [suffix, suffix, baseName_of_notMem (slash_notMem_baseName path)]

/-! ### Lower case in ASCII -/

lemma toLower_cases (c : Char) :
    c.toLower = c ∨ (65 ≤ c.toNat ∧ c.toNat ≤ 90 ∧ c.toLower.toNat = c.toNat + 32) := by
  by_cases hupper : c.val ≥ 'A'.val ∧ c.val ≤ 'Z'.val
  · have hrange : 65 ≤ c.val.toNat ∧ c.val.toNat ≤ 90 := by
      simpa [UInt32.le_iff_toNat_le] using hupper
    refine Or.inr ⟨hrange.1, hrange.2, ?_⟩
    have hval : c.toLower.val = c.val + 32 := by
      delta Char.toLower
      rw [dif_pos hupper]
      rfl
    have hadd : c.toLower.val.toNat = c.val.toNat + 32 := by
      rw [hval, UInt32.toNat_add, show (32 : UInt32).toNat = 32 from rfl]
      omega
    exact hadd
  · left
    delta Char.toLower
    rw [dif_neg hupper]

lemma toLower_of_not_ascii {c : Char} (h : 128 ≤ c.toNat) : c.toLower = c := by
  rcases toLower_cases c with heq | hupper
  · exact heq
  · omega

/-- Lower case neither makes nor loses a dot or a slash. -/
lemma toLower_eq_mark_iff {c mark : Char} (hmark : mark = '.' ∨ mark = '/') :
    c.toLower = mark ↔ c = mark := by
  have hnat : mark.toNat < 65 := by
    rcases hmark with rfl | rfl <;> decide
  rcases toLower_cases c with heq | hupper
  · rw [heq]
  · constructor
    · rintro rfl
      omega
    · rintro rfl
      omega

section Mark

variable {mark : Char} (hmark : mark = '.' ∨ mark = '/') (s : List Char)

include hmark

lemma beq_toLower (c : Char) : (c.toLower == mark) = (c == mark) := by
  rw [Bool.eq_iff_iff, beq_iff_eq, beq_iff_eq, toLower_eq_mark_iff hmark]

lemma takeWhile_lower : (lower s).takeWhile (· != mark) = lower (s.takeWhile (· != mark)) := by
  rw [lower, List.takeWhile_map]
  simp only [Function.comp_def, bne, beq_toLower hmark, lower]

lemma dropWhile_lower : (lower s).dropWhile (· == mark) = lower (s.dropWhile (· == mark)) := by
  rw [lower, List.dropWhile_map]
  simp only [Function.comp_def, beq_toLower hmark, lower]

lemma contains_lower : (lower s).contains mark = s.contains mark := by
  rw [Bool.eq_iff_iff]
  simp [lower, toLower_eq_mark_iff hmark]

end Mark

lemma lower_cons (c : Char) (s : List Char) : lower (c :: s) = c.toLower :: lower s := rfl

lemma lower_reverse (s : List Char) : (lower s).reverse = lower s.reverse :=
  List.map_reverse.symm

lemma baseName_lower (path : List Char) : baseName (lower path) = lower (baseName path) := by
  rw [baseName, lower_reverse, takeWhile_lower (Or.inr rfl), lower_reverse, baseName]

/-- The suffix of a name in lower case is its suffix, in lower case. -/
lemma suffix_lower (path : List Char) : suffix (lower path) = lower (suffix path) := by
  simp only [suffix, baseName_lower, dropWhile_lower (Or.inl rfl : '.' = '.' ∨ '.' = '/'),
    contains_lower (Or.inl rfl : '.' = '.' ∨ '.' = '/'), lower_reverse,
    takeWhile_lower (Or.inl rfl : '.' = '.' ∨ '.' = '/')]
  split <;> rfl

/-! ### Lower case of any kind -/

/-- A way to write texts in lower case.  Of a character it is known what stands before it, the
nearest first, and behind it. -/
structure Lowering where
  /-- What a character becomes. -/
  image (before : List Char) (c : Char) (after : List Char) : List Char
  /-- In ASCII, letters have their usual lower case and all else stays as it is. -/
  ascii (before : List Char) (c : Char) (after : List Char) (h : c.toNat < 128) :
    image before c after = [c.toLower]
  /-- Outside ASCII, a character becomes something without dots and slashes that ends in `k` or
  outside ASCII. -/
  foreign (before : List Char) (c : Char) (after : List Char) (h : 128 ≤ c.toNat) :
    ∃ init last, image before c after = init ++ [last] ∧ (last = 'k' ∨ 128 ≤ last.toNat) ∧
      '.' ∉ init ∧ '/' ∉ init

namespace Lowering

variable (l : Lowering)

/-- The lower case of a text behind another one. -/
def behind (before : List Char) : List Char → List Char
  | [] => []
  | c :: after => l.image before c after ++ behind (c :: before) after

/-- The lower case of a text. -/
def text (s : List Char) : List Char :=
  l.behind [] s

/-- A word of ASCII without the letter `k`, as all known suffixes are. -/
def Common (word : List Char) : Prop :=
  ∀ c ∈ word, c.toNat < 128 ∧ c ≠ 'k'

instance (word : List Char) : Decidable (Common word) :=
  decidable_of_iff ((word.all fun c => c.toNat < 128 && c != 'k') = true) (by simp [Common])

lemma Common.not_mem {word : List Char} (hword : Common word) {c : Char}
    (hc : c = 'k' ∨ 128 ≤ c.toNat) : c ∉ word := by
  intro hmem
  have hcommon := hword c hmem
  rcases hc with rfl | hle
  · exact hcommon.2 rfl
  · omega

/-- A common word does not reach back behind a character that it cannot hold. -/
lemma Common.suffix_of_append {word init rest : List Char} {last : Char} (hword : Common word)
    (hlast : last = 'k' ∨ 128 ≤ last.toNat) (h : word <:+ init ++ [last] ++ rest) :
    word <:+ rest := by
  rcases List.suffix_or_suffix_of_suffix h (List.suffix_append _ _) with hshort | ⟨more, rfl⟩
  · exact hshort
  · -- the word would be longer than what is left, and so have `last` in it
    rcases List.eq_nil_or_concat more with rfl | ⟨more, c, rfl⟩
    · exact List.suffix_rfl
    · obtain ⟨front, hfront⟩ := h
      have hwhole : front ++ more ++ [c] ++ rest = init ++ [last] ++ rest := by
        simpa using hfront
      have hends := List.append_cancel_right hwhole
      obtain rfl : c = last := by
        simpa using (List.append_inj' hends rfl).2
      exact absurd (by simp) (hword.not_mem hlast)

lemma behind_eq_iff {word : List Char} (hword : Common word) (before s : List Char) :
    l.behind before s = word ↔ lower s = word := by
  induction s generalizing before word with
  | nil => exact Iff.rfl
  | cons c rest ih =>
    rw [behind, lower_cons]
    by_cases hc : c.toNat < 128
    · rw [l.ascii before c rest hc, List.singleton_append]
      cases word with
      | nil => simp
      | cons d word =>
        have htail : Common word := fun e he => hword e (List.mem_cons_of_mem _ he)
        rw [List.cons.injEq, List.cons.injEq, ih htail]
    · -- neither text is a common word, since what the character becomes is in both
      have hle : 128 ≤ c.toNat := by omega
      obtain ⟨init, last, himage, hlast, -, -⟩ := l.foreign before c rest hle
      constructor
      · rintro rfl
        exact absurd (by simp [himage]) (hword.not_mem hlast)
      · rintro rfl
        exact absurd (by simp [toLower_of_not_ascii hle]) (hword.not_mem (Or.inr hle))

/-- A common word ends a text in lower case, whatever the lowering. -/
lemma isSuffix_behind_iff {word : List Char} (hword : Common word) (before s : List Char) :
    word <:+ l.behind before s ↔ word <:+ lower s := by
  induction s generalizing before with
  | nil => exact Iff.rfl
  | cons c rest ih =>
    by_cases hc : c.toNat < 128
    · have hwhole := l.behind_eq_iff hword before (c :: rest)
      rw [behind, l.ascii before c rest hc, List.singleton_append] at hwhole ⊢
      rw [lower_cons] at hwhole ⊢
      rw [List.suffix_cons_iff, List.suffix_cons_iff, ih, eq_comm, hwhole, eq_comm]
    · have hle : 128 ≤ c.toNat := by omega
      obtain ⟨init, last, himage, hlast, -, -⟩ := l.foreign before c rest hle
      -- the word stands behind the character in both texts
      rw [behind, himage, lower_cons, toLower_of_not_ascii hle, List.suffix_cons_iff]
      constructor
      · intro h
        exact Or.inr ((ih (c :: before)).mp (hword.suffix_of_append hlast h))
      · rintro (rfl | h)
        · exact absurd List.mem_cons_self (hword.not_mem (Or.inr hle))
        · exact ((ih (c :: before)).mpr h).trans (List.suffix_append _ _)

lemma isSuffixOf_text {word : List Char} (hword : Common word) (s : List Char) :
    word.isSuffixOf (l.text s) = word.isSuffixOf (lower s) := by
  rw [Bool.eq_iff_iff, List.isSuffixOf_iff_suffix, List.isSuffixOf_iff_suffix]
  exact l.isSuffix_behind_iff hword [] s

lemma slash_notMem_behind {s : List Char} (h : '/' ∉ s) (before : List Char) :
    '/' ∉ l.behind before s := by
  induction s generalizing before with
  | nil => exact h
  | cons c rest ih =>
    rw [List.mem_cons, not_or] at h
    rw [behind, List.mem_append, not_or]
    refine ⟨?_, ih h.2 _⟩
    by_cases hc : c.toNat < 128
    · rw [l.ascii before c rest hc, List.mem_singleton]
      intro hslash
      exact h.1 ((toLower_eq_mark_iff (Or.inr rfl)).mp hslash.symm).symm
    · obtain ⟨init, last, himage, hlast, -, hinit⟩ := l.foreign before c rest (by omega)
      have hne : '/' ≠ last := by
        rintro rfl
        exact absurd hlast (by decide)
      simp [himage, hinit, hne]

/-- Names in lower case have the same common suffixes, whatever the lowering. -/
lemma suffix_text_eq_iff {name ext : List Char} (hslash : '/' ∉ name) (hdot : '.' ∉ ext)
    (hword : Common ('.' :: ext)) :
    suffix (l.text name) = '.' :: ext ↔ suffix (lower name) = '.' :: ext := by
  have hlower : '/' ∉ lower name := by
    have hcontains := contains_lower (Or.inr rfl : '/' = '.' ∨ '/' = '/') name
    simpa [hslash] using hcontains
  have hdots : ∀ k, Common (List.replicate k '.' ++ '.' :: ext) := by
    intro k c hc
    rcases List.mem_append.mp hc with hc | hc
    · rw [List.eq_of_mem_replicate hc]
      decide
    · exact hword c hc
  -- a name that is only dots and a word has no suffix, which is again about common words
  rw [text, suffix_eq_iff (l.slash_notMem_behind hslash []) hdot, suffix_eq_iff hlower hdot]
  refine and_congr (l.isSuffix_behind_iff hword [] name) (forall_congr' fun k => not_congr ?_)
  exact l.behind_eq_iff (hdots k) [] name

/-- Each known suffix is a dot and a common word behind it. -/
lemma known_suffix {known : List Char} (h : known ∈ phpSuffixes) :
    ∃ ext, known = '.' :: ext ∧ '.' ∉ ext ∧ Common known := by
  have hall : ∀ known ∈ phpSuffixes, known = '.' :: known.tail ∧ '.' ∉ known.tail ∧
      Common known := by decide
  obtain ⟨heq, hdot, hcommon⟩ := hall known h
  exact ⟨known.tail, heq, hdot, hcommon⟩

/-- Texts that are the same common suffixes are both known or both unknown. -/
lemma mem_phpSuffixes_congr {a b : List Char}
    (h : ∀ ext, '.' ∉ ext → Common ('.' :: ext) → (a = '.' :: ext ↔ b = '.' :: ext)) :
    a ∈ phpSuffixes ↔ b ∈ phpSuffixes := by
  constructor
  · intro hmem
    obtain ⟨ext, rfl, hdot, hcommon⟩ := known_suffix hmem
    rwa [(h ext hdot hcommon).mp rfl]
  · intro hmem
    obtain ⟨ext, rfl, hdot, hcommon⟩ := known_suffix hmem
    rwa [(h ext hdot hcommon).mpr rfl]

/-- Every lowering tells the same languages. -/
theorem ofPathBy?_eq (path : String) :
    Language.ofPathBy? l.text path = Language.ofPath? path := by
  have hmem : l.text (suffix path.toList) ∈ phpSuffixes ↔
      lower (suffix path.toList) ∈ phpSuffixes :=
    mem_phpSuffixes_congr fun _ _ hcommon => l.behind_eq_iff hcommon [] _
  simp only [Language.ofPath?, Language.ofPathBy?, List.contains_eq_mem, hmem]

/-- Every lowering skips the same files. -/
theorem skipsBy_eq (s : Settings) (path : String) : s.skipsBy l.text path = s.skips path := by
  have hname := slash_notMem_baseName path.toList
  have hmem : suffix (l.text (baseName path.toList)) ∈ phpSuffixes ↔
      suffix (lower (baseName path.toList)) ∈ phpSuffixes :=
    mem_phpSuffixes_congr fun _ hdot hcommon => l.suffix_text_eq_iff hname hdot hcommon
  simp only [Settings.skips, Settings.skipsBy, getLastD_splitSlashes, List.contains_eq_mem, hmem,
    l.isSuffixOf_text (show Common minifiedSuffix by decide),
    l.isSuffixOf_text (show Common templateSuffix by decide)]

end Lowering

end PhpCatalog
