/-
# Comments without words

A comment may hold nothing but blanks and stars, one run of stars a line.  If it opens as a
docblock, then every line of it is cleaned to nothing, with or without the marks that open and close
the comment, so the docblock says nothing.  If it does not, there is no docblock.  In neither case
does a declaration behind the comment get an entry from it (`docblockEntries_of_wordless`).

The exception is `/**/`, whose opening and closing mark have a star in common.  Taking the opening
mark away leaves a slash that is no closing mark any more, and it is read as the description.
-/
import PhpCatalog.Proofs.Catalog.WellFormed
import PhpCatalog.Proofs.Declaration.Bundle
import PhpCatalog.Proofs.Docblock.Joining
import PhpCatalog.Proofs.Docblock.Margin

namespace PhpCatalog.Docblock

open Text (isBlank isBreak BreakFree Solid trim trimStart trimEnd)

/-! ### Lines without words -/

/-- A text that holds nothing but blanks and one run of stars, each of which may be missing. -/
def Starred (s : List Char) : Prop :=
  ∃ before stars after, (∀ c ∈ before, isBlank c = true) ∧ (∀ c ∈ after, isBlank c = true) ∧
    s = before ++ List.replicate stars '*' ++ after

lemma starred_stars (n : Nat) {after : List Char} (h : ∀ c ∈ after, isBlank c = true) :
    Starred (List.replicate n '*' ++ after) :=
  ⟨[], n, after, by simp, h, rfl⟩

lemma starred_nil : Starred [] :=
  ⟨[], 0, [], by simp, by simp, rfl⟩

namespace Starred

variable {s : List Char}

lemma cons_blank (h : Starred s) {c : Char} (hc : isBlank c = true) : Starred (c :: s) := by
  obtain ⟨before, n, after, hbefore, hafter, rfl⟩ := h
  exact ⟨c :: before, n, after, List.forall_mem_cons.mpr ⟨hc, hbefore⟩, hafter, rfl⟩

lemma reverse (h : Starred s) : Starred s.reverse := by
  obtain ⟨before, n, after, hbefore, hafter, rfl⟩ := h
  exact ⟨after.reverse, n, before.reverse, by simpa using hafter, by simpa using hbefore, by simp⟩

lemma slash_notMem (h : Starred s) : '/' ∉ s := by
  obtain ⟨before, n, after, hbefore, hafter, rfl⟩ := h
  simp only [List.mem_append, List.mem_replicate, not_or]
  refine ⟨⟨fun hmem => ?_, by simp⟩, fun hmem => ?_⟩
  · exact absurd (hbefore '/' hmem) (by decide)
  · exact absurd (hafter '/' hmem) (by decide)

/-- Trimming leaves the stars. -/
lemma exists_trim_eq (h : Starred s) : ∃ n, trim s = List.replicate n '*' := by
  obtain ⟨before, n, after, hbefore, hafter, rfl⟩ := h
  refine ⟨n, ?_⟩
  cases n with
  | zero =>
    have hblank : ∀ c ∈ before ++ after, isBlank c = true :=
      List.forall_mem_append.mpr ⟨hbefore, hafter⟩
    have hnone : trimStart (before ++ after ++ []) = [] := Text.trimStart_append hblank []
    rw [List.append_nil] at hnone
    rw [List.replicate_zero, List.append_nil, trim, hnone]
    rfl
  | succ n => exact (Margin.solid_stars n).trim_between hbefore hafter

/-- In front of a text that starts with no blank, only blanks are trimmed. -/
lemma exists_trimStart_eq (h : Starred s) {e : List Char} (he : ∀ c ∈ e.head?, isBlank c = false) :
    ∃ s', Starred s' ∧ trimStart (s ++ e) = s' ++ e := by
  obtain ⟨before, n, after, hbefore, hafter, rfl⟩ := h
  cases n with
  | zero =>
    refine ⟨[], starred_nil, ?_⟩
    rw [List.replicate_zero, List.append_nil, List.append_assoc, Text.trimStart_append hbefore,
      Text.trimStart_append hafter, Text.trimStart_eq_self he, List.nil_append]
  | succ n =>
    refine ⟨List.replicate (n + 1) '*' ++ after, starred_stars _ hafter, ?_⟩
    rw [List.append_assoc, List.append_assoc, Text.trimStart_append hbefore, List.append_assoc]
    exact Text.trimStart_eq_self fun c hc => Option.some.inj hc ▸ rfl

/-- Behind a text that ends in no blank, only blanks are trimmed. -/
lemma exists_trimEnd_eq (h : Starred s) {o : List Char} (ho : ∀ c ∈ o.getLast?, isBlank c = false) :
    ∃ s', Starred s' ∧ trimEnd (o ++ s) = o ++ s' := by
  rw [← List.head?_reverse] at ho
  obtain ⟨s', hs', htrim⟩ := h.reverse.exists_trimStart_eq ho
  refine ⟨s'.reverse, hs'.reverse, ?_⟩
  rw [Text.trimEnd_eq_reverse, List.reverse_append, htrim, List.reverse_append,
    List.reverse_reverse]

end Starred

/-! ### Cleaning a line without words -/

/-- The mark that opens a docblock, where a line has it. -/
def opening (opens : Bool) : List Char := if opens then opener else []

/-- The mark that closes a comment, where a line has it. -/
def closing (closes : Bool) : List Char := if closes then closer else []

/-- Trimming keeps the marks. -/
lemma exists_trim_marked {s : List Char} (h : Starred s) (opens closes : Bool) :
    ∃ s', Starred s' ∧ trim (opening opens ++ s ++ closing closes) =
      opening opens ++ s' ++ closing closes := by
  have hclosing : ∀ c ∈ (closing closes).head?, isBlank c = false := by
    intro c hc
    cases closes with
    | false => cases hc
    | true => exact Option.some.inj hc ▸ rfl
  have hopening : ∀ c ∈ (opening opens).getLast?, isBlank c = false := by
    intro c hc
    cases opens with
    | false => cases hc
    | true => exact Option.some.inj hc ▸ rfl
  obtain ⟨s₁, hs₁, hstart⟩ : ∃ s₁, Starred s₁ ∧
      trimStart (opening opens ++ s ++ closing closes) = opening opens ++ s₁ ++ closing closes := by
    cases opens with
    | false => exact h.exists_trimStart_eq hclosing
    | true => exact ⟨s, h, Text.trimStart_eq_self fun c hc => Option.some.inj hc ▸ rfl⟩
  rw [trim, hstart]
  cases closes with
  | false =>
    obtain ⟨s₂, hs₂, hend⟩ := hs₁.exists_trimEnd_eq hopening
    exact ⟨s₂, hs₂, by simpa [closing] using hend⟩
  | true =>
    refine ⟨s₁, hs₁, Text.trimEnd_eq_self fun c hc => ?_⟩
    rw [List.getLast?_append_of_ne_nil _ (by decide)] at hc
    exact Option.some.inj hc ▸ rfl

lemma dropOpener_marked {s : List Char} (h : Starred s) (opens closes : Bool) :
    dropOpener (opening opens ++ s ++ closing closes) = s ++ closing closes := by
  cases opens with
  | true =>
    rw [dropOpener, if_pos (by simp [opening]), List.append_assoc]
    exact List.drop_left
  | false =>
    have hnone : ¬ opener <+: s ++ closing closes := by
      intro hprefix
      cases s with
      | nil =>
        have hle := hprefix.length_le
        cases closes <;> exact absurd hle (by decide)
      | cons c rest =>
        obtain rfl : '/' = c := (List.cons_prefix_cons.mp hprefix).1
        exact h.slash_notMem List.mem_cons_self
    rw [dropOpener, if_neg (by simpa [opening] using hnone)]
    rfl

lemma dropCloser_marked {s : List Char} (h : Starred s) (closes : Bool) :
    dropCloser (s ++ closing closes) = s := by
  cases closes with
  | true => exact dropCloser_append_closer s
  | false =>
    rw [show closing false = [] from rfl, List.append_nil]
    exact dropCloser_eq_self fun hsuffix => h.slash_notMem (hsuffix.subset (by decide))

/-- A line without words is cleaned to nothing, whichever marks it has. -/
lemma clean_marked {s : List Char} (h : Starred s) (opens closes : Bool) :
    clean (opening opens ++ s ++ closing closes) = [] := by
  obtain ⟨s', hs', htrim⟩ := exists_trim_marked h opens closes
  obtain ⟨n, hstars⟩ := hs'.exists_trim_eq
  have hnone : (List.replicate n '*').dropWhile (· == '*') = [] := by simp
  rw [clean, htrim, dropOpener_marked hs', dropCloser_marked hs', hstars, hnone]
  rfl

/-! ### Texts of such lines -/

/-- A text whose lines hold no words. -/
inductive Wordless : List Char → Prop where
  | last {line : List Char} (starred : Starred line) (free : BreakFree line) : Wordless line
  | next {line rest : List Char} {c : Char} (starred : Starred line) (free : BreakFree line)
      (hc : isBreak c = true) (others : Wordless rest) : Wordless (line ++ c :: rest)

namespace Wordless

variable {s : List Char}

/-- A blank in front belongs to the first line or ends one of its own. -/
lemma cons_blank (h : Wordless s) {c : Char} (hc : isBlank c = true) : Wordless (c :: s) := by
  rcases hbreak : isBreak c with _ | _
  · cases h with
    | last starred free =>
      exact .last (starred.cons_blank hc) (List.forall_mem_cons.mpr ⟨hbreak, free⟩)
    | next starred free hc' others =>
      exact .next (starred.cons_blank hc) (List.forall_mem_cons.mpr ⟨hbreak, free⟩) hc' others
  · exact .next starred_nil (by simp [BreakFree]) hbreak h

lemma blank_append {a : List Char} (ha : ∀ c ∈ a, isBlank c = true) (h : Wordless s) :
    Wordless (a ++ s) := by
  induction a with
  | nil => exact h
  | cons c a ih =>
    rw [List.forall_mem_cons] at ha
    exact (ih ha.2).cons_blank ha.1

/-- A run of stars and the blanks behind it, up to the end or to a break. -/
lemma stars_append (n : Nat) {a : List Char} (ha : ∀ c ∈ a, isBlank c = true)
    (hs : s = [] ∨ ∃ c rest, s = c :: rest ∧ isBreak c = true ∧ Wordless rest) :
    Wordless (List.replicate n '*' ++ a ++ s) := by
  have hstars : ∀ {b : List Char}, BreakFree b → BreakFree (List.replicate n '*' ++ b) := by
    intro b hb
    refine BreakFree.append (fun c hc => ?_) hb
    rw [List.eq_of_mem_replicate hc]
    rfl
  by_cases hfree : BreakFree a
  · rcases hs with rfl | ⟨c, rest, rfl, hc, hrest⟩
    · rw [List.append_nil]
      exact .last (starred_stars n ha) (hstars hfree)
    · exact .next (starred_stars n ha) (hstars hfree) hc hrest
  · -- the blanks behind the first break among them stand in front of what follows
    obtain ⟨b, c, more, rfl, hb, hc⟩ := Text.exists_break hfree
    obtain ⟨hbefore, hmore⟩ := List.forall_mem_append.mp ha
    have hwordless : Wordless s := by
      rcases hs with rfl | ⟨d, rest, rfl, hd, hrest⟩
      · exact .last starred_nil (by simp [BreakFree])
      · exact .next starred_nil (by simp [BreakFree]) hd hrest
    have hrest : Wordless (more ++ s) :=
      hwordless.blank_append (List.forall_mem_cons.mp hmore).2
    rw [← List.append_assoc, List.append_assoc, List.cons_append]
    exact .next (starred_stars n hbefore) (hstars hb) hc hrest

/-- The lines of a text without words are cleaned to nothing, also between the marks of a
docblock. -/
lemma clean_lines (h : Wordless s) (opens closes : Bool) :
    ∀ line ∈ Text.lines (opening opens ++ s ++ closing closes), clean line = [] := by
  have hopening : ∀ opens, BreakFree (opening opens) := by decide
  induction h generalizing opens with
  | last starred free =>
    intro line hline
    have hclosing : BreakFree (closing closes) := by cases closes <;> decide
    have hfree := ((hopening opens).append free).append hclosing
    have hclean := clean_marked starred opens closes
    generalize opening opens ++ _ ++ closing closes = text at hline hfree hclean
    by_cases hne : text = []
    · simp [hne, Text.lines] at hline
    · rw [Text.lines_single hne hfree, List.mem_singleton] at hline
      rw [hline, hclean]
  | @next first rest c starred free hc others ih =>
    intro line hline
    obtain ⟨more, hlines, hmore⟩ := Text.exists_lines_append_break
      ((hopening opens).append free) hc (rest ++ closing closes)
    rw [List.append_assoc, List.append_assoc, List.cons_append, ← List.append_assoc,
      hlines] at hline
    rcases List.mem_cons.mp hline with rfl | hline
    · simpa [closing] using clean_marked starred opens false
    · exact ih false line (hmore hline)

/-- A docblock without words says nothing. -/
lemma parse_eq (h : Wordless s) : parse (opener ++ s ++ closer) = {} := by
  refine ofEntries_nothing fun e he => ?_
  obtain ⟨line, hline, rfl⟩ := List.mem_map.mp he
  rw [h.clean_lines true true line hline]
  rfl

end Wordless

/-! ### Comments as they are written -/

/-- A further line of a comment without words: the break in front of it, blanks, stars, blanks.  The
blanks may hold breaks too. -/
structure StarLine where
  brk : Char
  indent : List Char := []
  stars : Nat := 0
  trail : List Char := []
  isBreak_brk : isBreak brk = true := by decide
  blank : (indent ++ trail).all isBlank = true := by decide

/-- The text of a further line. -/
def StarLine.text (l : StarLine) : List Char :=
  l.brk :: (l.indent ++ (List.replicate l.stars '*' ++ l.trail))

/-- A block comment without words: stars and blanks on its first line, and any further lines. -/
structure StarComment where
  stars : Nat := 0
  gap : List Char := []
  more : List StarLine := []
  blank : gap.all isBlank = true := by decide

namespace StarComment

/-- What stands inside a comment. -/
def inner (s : StarComment) : List Char :=
  List.replicate s.stars '*' ++ s.gap ++ s.more.flatMap StarLine.text

/-- The comment. -/
def text (s : StarComment) : List Char :=
  ['/', '*'] ++ s.inner ++ ['*', '/']

lemma wordless_lines (stars : Nat) {gap : List Char} (hgap : ∀ c ∈ gap, isBlank c = true)
    (more : List StarLine) :
    Wordless (List.replicate stars '*' ++ gap ++ more.flatMap StarLine.text) := by
  induction more generalizing stars gap with
  | nil => exact .stars_append stars hgap (Or.inl rfl)
  | cons l more ih =>
    have hblank := List.all_eq_true.mp l.blank
    have hl : Wordless (l.indent ++ (List.replicate l.stars '*' ++ l.trail ++
        more.flatMap StarLine.text)) :=
      (ih l.stars fun c hc => hblank c (by simp [hc])).blank_append
        fun c hc => hblank c (by simp [hc])
    refine .stars_append stars hgap (Or.inr ⟨l.brk, _, ?_, l.isBreak_brk, hl⟩)
    simp [StarLine.text]

/-- With a star more, a comment without words opens as a docblock. -/
lemma exists_text_eq {s : StarComment} (h : s.stars ≠ 0) :
    ∃ inside, Wordless inside ∧ s.text = opener ++ inside ++ closer := by
  obtain ⟨n, hn⟩ := Nat.exists_eq_succ_of_ne_zero h
  refine ⟨_, wordless_lines n (List.all_eq_true.mp s.blank) s.more, ?_⟩
  simp [text, inner, hn, List.replicate_succ, opener, closer]

lemma text_eq_iff (s : StarComment) : s.text = "/**/".toList ↔ s.inner = [] := by
  rw [show "/**/".toList = ['/', '*'] ++ [] ++ ['*', '/'] from rfl, text, List.append_left_inj,
    List.append_right_inj]

lemma inner_ne_nil {s : StarComment} (h : s.stars ≠ 0) : s.inner ≠ [] := by
  simp [inner, h]

/-- Without a star more, a comment with something inside it does not open as a docblock. -/
lemma not_opens_text {s : StarComment} (h : s.stars = 0) (hinner : s.inner ≠ []) :
    ¬ opener <+: trimStart s.text := by
  have hstart : trimStart s.text = s.text := Text.trimStart_eq_self fun c hc => by
    obtain rfl : '/' = c := Option.some.inj hc
    rfl
  obtain ⟨c, rest, hcons⟩ := List.exists_cons_of_ne_nil hinner
  -- what stands inside begins with a blank, so not with the second star of the mark
  have hblank : isBlank c = true := by
    have hhead : c ∈ (s.gap ++ s.more.flatMap StarLine.text).head? := by
      rw [inner, h, List.replicate_zero, List.nil_append] at hcons
      rw [hcons]
      rfl
    rcases hgap : s.gap with _ | ⟨d, gap⟩
    · rcases hmore : s.more with _ | ⟨l, more⟩
      · simp [hgap, hmore] at hhead
      · obtain rfl : l.brk = c := by simpa [hgap, hmore, StarLine.text] using hhead
        exact Text.isBlank_of_isBreak l.isBreak_brk
    · obtain rfl : d = c := by simpa [hgap] using hhead
      exact List.all_eq_true.mp s.blank d (by simp [hgap])
  intro hprefix
  rw [hstart, text, hcons] at hprefix
  obtain rfl : '*' = c := by simpa [opener] using hprefix
  exact absurd hblank (by decide)

end StarComment

/-! ### Declarations behind such comments -/

/-- The entries that a docblock has made. -/
def entriesIn (m : Metadata) : Metadata :=
  m.filter fun e => "docblock.".toList.isPrefixOf e.1.toList

lemma entriesIn_append (a b : Metadata) : entriesIn (a ++ b) = entriesIn a ++ entriesIn b := by
  rw [entriesIn, List.filter_append]
  rfl

lemma entriesIn_eq_nil {m : Metadata}
    (h : ∀ key ∈ m.map Prod.fst, "docblock.".toList.isPrefixOf key.toList = false) :
    entriesIn m = [] := by
  rw [entriesIn, List.filter_eq_nil_iff]
  intro e he
  rw [h e.1 (List.mem_map_of_mem he)]
  decide

lemma entriesIn_entry {key : String} (h : "docblock.".toList.isPrefixOf key.toList = false)
    (value : Option String) : entriesIn (Metadata.entry key value) = [] :=
  entriesIn_eq_nil fun k hk => by
    rw [List.mem_singleton.mp ((Metadata.keys_entry key value).subset hk), h]

lemma entriesIn_toMetadata (d : Docblock) : entriesIn d.toMetadata = d.toMetadata := by
  have hkeys : ∀ key ∈ keys, "docblock.".toList.isPrefixOf key.toList = true := by decide +kernel
  rw [entriesIn, List.filter_eq_self]
  exact fun e he => hkeys e.1 ((keys_toMetadata d).subset (List.mem_map_of_mem he))

/-- What an owner says has the entries of the docblock before it, and no others of that kind. -/
lemma entriesIn_shared (owner : Site) (source : ByteArray) :
    entriesIn (owner.shared source) =
      ((find? source owner.before).map toMetadata).getD [] := by
  have hother : ∀ key ∈ ["visibility", "return_type", "type"] ++ flagModifiers,
      "docblock.".toList.isPrefixOf key.toList = false := by decide +kernel
  have hflags : entriesIn ((flagModifiers.filter owner.node.hasModifier).map (·, "true")) = [] := by
    refine entriesIn_eq_nil fun key hkey => hother key ?_
    obtain ⟨e, he, rfl⟩ := List.mem_map.mp hkey
    obtain ⟨flag, hflag, rfl⟩ := List.mem_map.mp he
    exact List.mem_append_right _ (List.mem_filter.mp hflag).1
  simp only [Site.shared, entriesIn_append, hflags,
    entriesIn_entry (hother "visibility" (by decide)),
    entriesIn_entry (hother "return_type" (by decide)),
    entriesIn_entry (hother "type" (by decide)), List.nil_append]
  rcases find? source owner.before with _ | d
  · rfl
  · exact entriesIn_toMetadata d

lemma entriesIn_metadata (n : Node) (owner : Site) (source : ByteArray) (conceptType : String) :
    entriesIn (n.metadata owner source conceptType) =
      ((find? source owner.before).map toMetadata).getD [] := by
  have hother : ∀ key ∈ ["language", "kind", "start_column", "end_column", "traits"],
      "docblock.".toList.isPrefixOf key.toList = false := by decide +kernel
  have hfixed : entriesIn [("language", languageName), ("kind", conceptType),
      ("start_column", toString (n.startPoint.column + 1)),
      ("end_column", toString (n.stopPoint.column + 1))] = [] :=
    entriesIn_eq_nil fun key hkey => hother key (List.mem_append_left ["traits"] hkey)
  have htraits : entriesIn (if conceptType = "class" then
      Metadata.entry "traits" (some (",".intercalate (n.traits source))) else []) = [] := by
    split
    · exact entriesIn_entry (hother "traits" (by decide)) _
    · rfl
  simp only [Node.metadata, Node.position, entriesIn_append, hfixed, htraits, entriesIn_shared,
    List.nil_append, List.append_nil]

/-- The comment is the nearest sibling of a declaration that is not passed over. -/
def StarComment.Precedes (b : StarComment) (s : Site) (source : ByteArray) : Prop :=
  ∃ near n far, s.before = near ++ n :: far ∧ (∀ m ∈ near, Passed m) ∧ n.kind ∈ commentKinds ∧
    n.chars source = b.text

/-- What a declaration behind a comment without words gets from it. -/
lemma StarComment.find?_of_precedes {b : StarComment} {s : Site} {source : ByteArray}
    (h : b.Precedes s source) :
    ((find? source s.before).map toMetadata).getD [] =
      if b.text = "/**/".toList then [("docblock.description", "/")] else [] := by
  obtain ⟨near, n, far, hbefore, hnear, hkind, htext⟩ := h
  rw [hbefore]
  by_cases hstars : b.stars = 0
  · by_cases hinner : b.inner = []
    · -- the opening and the closing mark share their star
      have hslashes := b.text_eq_iff.mpr hinner
      have hopens : Opens source n := ⟨hkind, by rw [htext, hslashes]; decide +kernel⟩
      rw [find?_of_opens hnear hopens, if_pos hslashes, htext, hslashes]
      decide +kernel
    · have hcomment : ¬ Passed n := fun hpassed => hpassed.2.1 hkind
      have hplain : ¬ Opens source n := by
        rintro ⟨-, hopens⟩
        rw [htext] at hopens
        exact not_opens_text hstars hinner hopens
      rw [find?_of_blocks hnear hcomment hplain, if_neg (mt b.text_eq_iff.mp hinner)]
      rfl
  · obtain ⟨inside, hinside, hopener⟩ := exists_text_eq hstars
    have hopens : Opens source n := by
      refine ⟨hkind, ?_⟩
      have hstart : trimStart (opener ++ inside ++ closer) = opener ++ inside ++ closer :=
        Text.trimStart_eq_self fun c hc => Option.some.inj hc ▸ rfl
      rw [htext, hopener, hstart, List.append_assoc]
      exact List.prefix_append _ _
    rw [find?_of_opens hnear hopens, if_neg (mt b.text_eq_iff.mp (inner_ne_nil hstars)), htext,
      hopener, hinside.parse_eq]
    rfl

/-- **Comments without words document nothing, but for one.**  Where the nearest sibling that counts
is a comment of stars and blanks, a declaration has no entry of a docblock.  Behind `/**/` alone it
has one, the slash as its description. -/
theorem docblockEntries_of_wordless (initial : List Concept) (root : Node) (source : ByteArray)
    (filePath : String) :
    ∃ new, (Catalog.walkOnto initial root source filePath).found.concepts = initial ++ new ∧
      ∀ c ∈ new, (∃ s ∈ root.preorder [], c ∈ s.emitted source filePath) ∧
        ∀ s, c ∈ s.emitted source filePath → ∀ b : StarComment, b.Precedes s source →
          entriesIn c.metadata =
            if b.text = "/**/".toList then [("docblock.description", "/")] else [] := by
  obtain ⟨new, hnew, hsites⟩ := Catalog.walkOnto_concepts_wellFormed source filePath initial root
  refine ⟨new, hnew, fun c hc => ⟨?_, fun s hs b hb => ?_⟩⟩
  · obtain ⟨s, hs, hemitted, -⟩ := hsites c hc
    exact ⟨s, hs, hemitted⟩
  · obtain ⟨n, rule, -, -, hconcept⟩ := Site.exists_declares_of_emitted hs
    obtain ⟨-, -, hmetadata⟩ := Node.declaredBy_of_concept hconcept
    rw [hmetadata, entriesIn_metadata, StarComment.find?_of_precedes hb]

/-- A function of one letter. -/
def starredFunction (start : Nat) : Node where
  kind := "function_definition"
  start := start
  stop := start + 1
  startPoint := ⟨0, start⟩
  stopPoint := ⟨0, start + 1⟩
  children := [{
    kind := "name", start := start, stop := start + 1, startPoint := ⟨0, start⟩,
    stopPoint := ⟨0, start + 1⟩, field := some "name" }]

/-- A comment. -/
def starredComment (start stop : Nat) : Node where
  kind := "comment"
  start := start
  stop := stop
  startPoint := ⟨0, start⟩
  stopPoint := ⟨0, stop⟩
  extra := true

/-- The function behind `/**/` is described by a slash, and the one behind a comment of two lines
has no docblock. -/
theorem docblockEntries_starredFunctions :
    -- the bytes of `/**/f/***`, a line feed and `*/g`
    let source : ByteArray := ⟨#[47, 42, 42, 47, 102, 47, 42, 42, 42, 10, 42, 47, 103]⟩
    let root : Node :=
      { kind := "program", start := 0, stop := 13, startPoint := ⟨0, 0⟩, stopPoint := ⟨0, 13⟩
        children := [starredComment 0 4, starredFunction 4, starredComment 5 12,
          starredFunction 12] }
    (Catalog.walkOnto [] root source "a.php").found.concepts.map
        (fun c => (c.name, entriesIn c.metadata)) =
      [("f", [("docblock.description", "/")]), ("g", [])] := by
  intro source root
  let f : Site := ⟨starredFunction 4, [starredComment 0 4]⟩
  let g : Site := ⟨starredFunction 12, [starredComment 5 12, starredFunction 4, starredComment 0 4]⟩
  have hf : StarComment.Precedes {} f source :=
    ⟨[], starredComment 0 4, [], rfl, by simp, by decide, by decide +kernel⟩
  have hg : StarComment.Precedes { stars := 2, more := [{ brk := '\n' }] } g source :=
    ⟨[], starredComment 5 12, _, rfl, by simp, by decide, by decide +kernel⟩
  obtain ⟨new, hnew, hentries⟩ := docblockEntries_of_wordless [] root source "a.php"
  have hconcepts : new = f.emitted source "a.php" ++ g.emitted source "a.php" := by
    rw [← List.nil_append new, ← hnew, Catalog.walkOnto_eq]
    decide +kernel
  have hnames : (f.emitted source "a.php").map Concept.name = ["f"] ∧
      (g.emitted source "a.php").map Concept.name = ["g"] := by decide +kernel
  obtain ⟨a, ha, haName⟩ := List.map_eq_singleton_iff.mp hnames.1
  obtain ⟨b, hb, hbName⟩ := List.map_eq_singleton_iff.mp hnames.2
  have haEntries : entriesIn a.metadata = [("docblock.description", "/")] :=
    (hentries a (by simp [hconcepts, ha])).2 f (by simp [ha]) {} hf
  have hbEntries : entriesIn b.metadata = [] :=
    (hentries b (by simp [hconcepts, hb])).2 g (by simp [hb]) _ hg
  rw [hnew, hconcepts, ha, hb]
  simp [haName, hbName, haEntries, hbEntries]

end PhpCatalog.Docblock
