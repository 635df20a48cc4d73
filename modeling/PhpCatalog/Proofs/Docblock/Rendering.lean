/-
# Reading a docblock that was written line by line

A docblock is written as an opening mark, one line for each item behind a star, and a closing mark.
Reading it back gives exactly what the items say (`parse_render`), whatever the items are: types may
hold dollar signs, bars and at signs, and a line of the description may itself begin with a star
or with the mark that opens a docblock.

The proof takes the three steps of the reader in turn.  The lines of the written text are the lines
that were written.  Cleaning a written line gives back its item; only the end of a line with an
unknown tag may be lost.  And each clean line is classified as its item.
-/
import PhpCatalog.Proofs.Docblock.Shape
import PhpCatalog.Proofs.Text.Lines

namespace PhpCatalog.Docblock

open Text (isBlank isWord BreakFree Solid trim trimStart trimEnd)

/-! ### Items and how they are written -/

/-- One line of a docblock, as its author means it. -/
inductive Item where
  /-- A line of the description. -/
  | text (words : List Char)
  /-- A parameter, its name written with a dollar sign or without. -/
  | param (type name : List Char) (sigil : Bool)
  | returns (type : List Char)
  | throws (type : List Char)
  /-- A line with a tag that says nothing. -/
  | unknown (line : List Char)
  deriving Repr, DecidableEq

/-- The tags that say something. -/
def knownTags : List (List Char) :=
  ["@param".toList, "@return".toList, "@throws".toList]

/-- A line starts with a tag and a blank behind it. -/
def StartsWithTag (tag line : List Char) : Prop :=
  ∃ c rest, line = tag ++ c :: rest ∧ isBlank c = true

namespace Item

/-- The text of an item. -/
def line : Item → List Char
  | text words => words
  | param type name sigil =>
    "@param".toList ++ ' ' :: (type ++ ' ' :: if sigil then '$' :: name else name)
  | returns type => "@return".toList ++ ' ' :: type
  | throws type => "@throws".toList ++ ' ' :: type
  | unknown line => line

/-- What an item must keep to so that its line can be told from the others. -/
def Legal : Item → Prop
  | text words => words ≠ [] ∧ trim words = words ∧ BreakFree words ∧
    words.head? ≠ some '@' ∧ ¬ closer <:+ words
  | param type name _ => IsType type ∧ IsName name
  | returns type => IsType type ∧ ¬ closer <:+ type
  | throws type => IsType type ∧ ¬ closer <:+ type
  | unknown line => BreakFree line ∧ line.head? = some '@' ∧
    ∀ tag ∈ knownTags, ¬ StartsWithTag tag line

/-- The line of the description that an item is. -/
def description? : Item → Option String
  | text words => some (String.ofList words)
  | _ => none

/-- The parameter that an item documents. -/
def documentedParam? : Item → Option String
  | param type name _ => some (String.ofList type ++ " $" ++ String.ofList name)
  | _ => none

/-- The type of the result that an item documents. -/
def documentedReturn? : Item → Option String
  | returns type => some (String.ofList type)
  | _ => none

/-- The exception that an item documents. -/
def documentedThrow? : Item → Option String
  | throws type => some (String.ofList type)
  | _ => none

/-- What the reader should make of the line of an item. -/
def entry : Item → Entry
  | text words => .text words
  | param type name _ => .param type name
  | returns type => .returns type
  | throws type => .throws type
  | unknown _ => .nothing

end Item

/-- A docblock with one line for each item. -/
def render (items : List Item) : List Char :=
  ['\n'].intercalate
    (opener :: items.map (fun i => [' ', '*', ' '] ++ i.line) ++ [[' ', '*', '/']])

/-! ### Cleaning a written line -/

lemma dropOpener_star (s : List Char) : dropOpener ('*' :: s) = '*' :: s := by
  simp [dropOpener, opener]

lemma dropCloser_eq_self {s : List Char} (h : ¬ closer <:+ s) : dropCloser s = s := by
  rw [dropCloser, if_neg (by simpa using h)]

/-- Text before the place where the closing mark may stand is left alone. -/
lemma dropCloser_append {a s : List Char} (h : closer <:+ a ++ s ↔ closer <:+ s) :
    dropCloser (a ++ s) = a ++ dropCloser s := by
  by_cases hs : closer <:+ s
  · have hlen : (a ++ s).length - closer.length = a.length + (s.length - closer.length) := by
      have := hs.length_le
      rw [List.length_append]
      omega
    rw [dropCloser, dropCloser, if_pos (by simpa using h.mpr hs), if_pos (by simpa using hs), hlen,
      List.take_length_add_append]
  · rw [dropCloser_eq_self hs, dropCloser_eq_self (mt h.mp hs)]

/-- The closing mark holds no blank, so it stands behind every blank. -/
lemma closer_suffix_iff (a s : List Char) : closer <:+ a ++ ' ' :: s ↔ closer <:+ s := by
  constructor
  · intro h
    rcases List.suffix_or_suffix_of_suffix h (List.suffix_append a (' ' :: s)) with h | h
    · exact (List.suffix_cons_iff.mp h).resolve_left (by simp [closer])
    · exact absurd (h.subset List.mem_cons_self) (by decide)
  · intro h
    exact (h.trans (List.suffix_cons ' ' s)).trans (List.suffix_append a _)

lemma dropCloser_star (s : List Char) :
    dropCloser ('*' :: ' ' :: s) = '*' :: ' ' :: dropCloser s :=
  dropCloser_append (a := ['*', ' ']) (closer_suffix_iff ['*'] s)

lemma dropCloser_at (s : List Char) : dropCloser ('@' :: s) = '@' :: dropCloser s := by
  refine dropCloser_append (a := ['@']) ?_
  simp [List.suffix_cons_iff, closer]

lemma dropCloser_append_closer (s : List Char) : dropCloser (s ++ closer) = s := by
  simp [dropCloser]

lemma solid_closer : Solid closer := by decide

lemma dropCloser_isPrefix (s : List Char) : dropCloser s <+: s := by
  unfold dropCloser
  split
  · exact List.take_prefix _ _
  · exact List.prefix_rfl

/-- Cleaning a written line trims it, takes the closing mark off its end, and trims it again. -/
lemma clean_written {s : List Char} (hend : trimEnd s ≠ [])
    (hmark : trimEnd (dropCloser (trimEnd s)) ≠ []) :
    clean ([' ', '*', ' '] ++ s) = trim (trimEnd (dropCloser (trimEnd s))) := by
  have hfirst : trim ([' ', '*', ' '] ++ s) = '*' :: ' ' :: trimEnd s :=
    Text.trimEnd_append (a := ['*', ' ']) hend
  have hsecond : trim ('*' :: ' ' :: dropCloser (trimEnd s)) =
      '*' :: ' ' :: trimEnd (dropCloser (trimEnd s)) :=
    Text.trimEnd_append (a := ['*', ' ']) hmark
  rw [clean, hfirst, dropOpener_star, dropCloser_star, hsecond]
  -- only the star in front goes: the blank behind it protects a star in the text
  rfl

/-- A solid text that does not end in the closing mark is found again. -/
lemma clean_written_solid {s : List Char} (h : Solid s) (hcloser : ¬ closer <:+ s) :
    clean ([' ', '*', ' '] ++ s) = s := by
  have hend : trimEnd s = s := Text.trimEnd_eq_self h.last
  have hmark : trimEnd (dropCloser (trimEnd s)) = s := by
    rw [hend, dropCloser_eq_self hcloser, hend]
  rw [clean_written (by rw [hend]; exact h.ne_nil) (by rw [hmark]; exact h.ne_nil), hmark,
    h.trim_eq]

/-- Of a text that starts with `@`, at least that much is found again. -/
lemma clean_written_tag {s : List Char} (h : s.head? = some '@') :
    ∃ rest, clean ([' ', '*', ' '] ++ s) = '@' :: rest ∧ '@' :: rest <+: s := by
  obtain ⟨r, rfl⟩ := List.head?_eq_some_iff.mp h
  have hat : ∀ t, trimEnd ('@' :: t) = '@' :: trimEnd t := fun t => Text.trimEnd_cons rfl t
  have htrim : ∀ t, trim ('@' :: t) = '@' :: trimEnd t := hat
  have hclean : clean ([' ', '*', ' '] ++ '@' :: r) =
      '@' :: trimEnd (trimEnd (dropCloser (trimEnd r))) := by
    rw [clean_written (by simp [hat]) (by simp [hat, dropCloser_at]), hat, dropCloser_at, hat,
      htrim]
  -- every step takes something off the end
  have hmark : trimEnd (trimEnd (dropCloser (trimEnd r))) <+: dropCloser (trimEnd r) :=
    (Text.trimEnd_isPrefix _).trans (Text.trimEnd_isPrefix _)
  have hend : dropCloser (trimEnd r) <+: r :=
    (dropCloser_isPrefix _).trans (Text.trimEnd_isPrefix r)
  exact ⟨_, hclean, (List.prefix_cons_inj _).mpr (hmark.trans hend)⟩

/-! ### Classifying a clean line -/

section Classify

variable {type name line : List Char}

lemma afterTag?_append (tag rest : List Char) :
    afterTag? tag (tag ++ ' ' :: rest) = some (trimStart rest) := by
  simp [afterTag?, show isBlank ' ' = true from rfl]

lemma StartsWithTag.of_isPrefix {tag p : List Char} (h : StartsWithTag tag p) (hp : p <+: line) :
    StartsWithTag tag line := by
  obtain ⟨c, rest, rfl, hc⟩ := h
  obtain ⟨tail, rfl⟩ := hp
  exact ⟨c, rest ++ tail, by simp, hc⟩

lemma isSome_afterTag?_iff {tag : List Char} :
    (afterTag? tag line).isSome ↔ StartsWithTag tag line := by
  constructor
  · intro h
    unfold afterTag? at h
    split at h
    · next hprefix =>
      obtain ⟨rest, rfl⟩ := List.isPrefixOf_iff_prefix.mp hprefix
      rw [List.drop_left] at h
      cases rest with
      | nil => simp at h
      | cons c rest =>
        refine ⟨c, rest, rfl, ?_⟩
        by_contra hc
        simp [hc] at h
    · simp at h
  · rintro ⟨c, rest, rfl, hc⟩
    simp [afterTag?, hc]

instance (tag line : List Char) : Decidable (StartsWithTag tag line) :=
  decidable_of_iff _ isSome_afterTag?_iff

lemma afterTag?_eq_none {tag : List Char} (h : ¬ StartsWithTag tag line) :
    afterTag? tag line = none := by
  rw [← isSome_afterTag?_iff] at h
  simpa using h

/-- A type is the first word of what starts with it, up to the end or the next blank. -/
lemma word_of_isType (h : IsType type) (rest : List Char) (hrest : ∀ c ∈ rest.head?, isBlank c) :
    word (type ++ rest) = (type, rest) := by
  have hword : ∀ c ∈ type, (!isBlank c) = true := fun c hc => by simp [h.2 c hc]
  rw [word, List.takeWhile_append_of_pos hword, List.dropWhile_append_of_pos hword]
  cases rest with
  | nil => simp
  | cons c rest => simp [hrest c rfl]

lemma dropSigil_of_isName (h : IsName name) : dropSigil name = name := by
  unfold dropSigil
  split
  · exact absurd (h.2 '$' List.mem_cons_self) (by decide +kernel)
  · rfl

/-- The name of a parameter is found with the dollar sign before it and without. -/
lemma param?_append (htype : IsType type) (hname : IsName name) (sigil : Bool) :
    param? ("@param".toList ++ ' ' :: (type ++ ' ' :: if sigil then '$' :: name else name)) =
      some (type, name) := by
  have hstart : trimStart (type ++ ' ' :: if sigil then '$' :: name else name) =
      type ++ ' ' :: if sigil then '$' :: name else name := by
    apply Text.trimStart_eq_self
    rw [List.head?_append_of_ne_nil _ htype.1]
    exact htype.solid.head
  have hsigil : dropSigil (trimStart (' ' :: if sigil then '$' :: name else name)) = name := by
    cases sigil with
    | true => rfl
    | false =>
      -- a name does not start with a dollar sign, so nothing is taken off it
      calc
        dropSigil (trimStart (' ' :: name)) = dropSigil (trimStart name) := rfl
        _ = dropSigil name := by rw [Text.trimStart_eq_self hname.solid.head]
        _ = name := dropSigil_of_isName hname
  have htail : word (type ++ ' ' :: if sigil then '$' :: name else name) =
      (type, ' ' :: if sigil then '$' :: name else name) :=
    word_of_isType htype _ (by simp [show isBlank ' ' = true from rfl])
  have hword : name.takeWhile isWord = name := List.takeWhile_eq_self_iff.mpr hname.2
  simp only [param?, afterTag?_append, Option.bind_eq_bind, Option.bind_some, hstart, htail,
    hsigil, hword]
  simp [htype.1, hname.1]

lemma typeAfter?_append (h : IsType type) (tag : List Char) :
    typeAfter? tag (tag ++ ' ' :: type) = some type := by
  have hword : word type = (type, []) := by
    simpa using word_of_isType h [] (by simp)
  simp [typeAfter?, afterTag?_append, Text.trimStart_eq_self h.solid.head, hword, h.1]

lemma param?_eq_none (h : ¬ StartsWithTag "@param".toList line) : param? line = none := by
  rw [param?, afterTag?_eq_none h]
  rfl

lemma typeAfter?_eq_none {tag : List Char} (h : ¬ StartsWithTag tag line) :
    typeAfter? tag line = none := by
  rw [typeAfter?, afterTag?_eq_none h]
  rfl

lemma classify_of_head_ne (hne : line ≠ []) (h : line.head? ≠ some '@') :
    classify line = .text line := by
  unfold classify
  split
  · exact absurd rfl hne
  · exact absurd rfl h
  · rfl

/-- A line that starts with `@` is what the first tag that fits it says. -/
lemma classify_at (h : line.head? = some '@') :
    classify line =
      match param? line with
      | some (type, name) => .param type name
      | none =>
        match typeAfter? "@return".toList line with
        | some type => .returns type
        | none =>
          match typeAfter? "@throws".toList line with
          | some type => .throws type
          | none => .nothing := by
  obtain ⟨rest, rfl⟩ := List.head?_eq_some_iff.mp h
  rfl

/-- Tags that hold no blank are told apart by the blank behind them. -/
lemma not_startsWithTag_of_ne {tag other : List Char} (htag : IsType tag) (hother : IsType other)
    (hne : tag ≠ other) (rest : List Char) : ¬ StartsWithTag tag (other ++ ' ' :: rest) := by
  rintro ⟨c, more, heq, hc⟩
  have hword := word_of_isType hother (' ' :: rest) (by simp [show isBlank ' ' = true from rfl])
  rw [heq, word_of_isType htag (c :: more) (by simpa using hc)] at hword
  exact hne (Prod.mk.inj hword).1

lemma classify_param (rest : List Char) :
    classify ("@param".toList ++ ' ' :: rest) =
      match param? ("@param".toList ++ ' ' :: rest) with
      | some (type, name) => .param type name
      | none => .nothing := by
  have hreturn : ¬ StartsWithTag "@return".toList ("@param".toList ++ ' ' :: rest) :=
    not_startsWithTag_of_ne (by decide +kernel) (by decide +kernel) (by decide) rest
  have hthrows : ¬ StartsWithTag "@throws".toList ("@param".toList ++ ' ' :: rest) :=
    not_startsWithTag_of_ne (by decide +kernel) (by decide +kernel) (by decide) rest
  rw [classify_at rfl, typeAfter?_eq_none hreturn, typeAfter?_eq_none hthrows]

lemma classify_returns {rest : List Char}
    (h : typeAfter? "@return".toList ("@return".toList ++ ' ' :: rest) = some type) :
    classify ("@return".toList ++ ' ' :: rest) = .returns type := by
  have hparam : ¬ StartsWithTag "@param".toList ("@return".toList ++ ' ' :: rest) :=
    not_startsWithTag_of_ne (by decide +kernel) (by decide +kernel) (by decide) rest
  rw [classify_at rfl, param?_eq_none hparam, h]

lemma classify_throws {rest : List Char}
    (h : typeAfter? "@throws".toList ("@throws".toList ++ ' ' :: rest) = some type) :
    classify ("@throws".toList ++ ' ' :: rest) = .throws type := by
  have hparam : ¬ StartsWithTag "@param".toList ("@throws".toList ++ ' ' :: rest) :=
    not_startsWithTag_of_ne (by decide +kernel) (by decide +kernel) (by decide) rest
  have hreturn : ¬ StartsWithTag "@return".toList ("@throws".toList ++ ' ' :: rest) :=
    not_startsWithTag_of_ne (by decide +kernel) (by decide +kernel) (by decide) rest
  rw [classify_at rfl, param?_eq_none hparam, typeAfter?_eq_none hreturn, h]

end Classify

/-! ### The lines of the items -/

section Parts

variable {a b type name : List Char}

lemma IsType.breakFree (h : IsType type) : BreakFree type := by
  intro c hc
  by_contra hbreak
  have hblank := Text.isBlank_of_isBreak (Bool.not_eq_false _ ▸ hbreak)
  rw [h.2 c hc] at hblank
  exact absurd hblank (by decide)

lemma IsName.isType (h : IsName name) (sigil : Bool) :
    IsType (if sigil then '$' :: name else name) := by
  have hblank : ∀ c ∈ name, isBlank c = false := fun c hc => Text.isBlank_of_isWord (h.2 c hc)
  split
  · exact ⟨by simp, List.forall_mem_cons.mpr ⟨rfl, hblank⟩⟩
  · exact ⟨h.1, hblank⟩

lemma IsName.not_closer (h : IsName name) (sigil : Bool) :
    ¬ closer <:+ if sigil then '$' :: name else name := by
  intro hsuffix
  have hmem : '/' ∈ if sigil then '$' :: name else name := hsuffix.subset (by decide)
  have hslash : '/' ∈ name := by
    cases sigil <;> simpa using hmem
  exact absurd (h.2 '/' hslash) (by decide +kernel)

lemma breakFree_tagged (ha : BreakFree a) (hb : BreakFree b) : BreakFree (a ++ ' ' :: b) :=
  ha.append ((show BreakFree [' '] by decide).append hb)

lemma solid_tagged (ha : Solid a) (hb : Solid b) : Solid (a ++ ' ' :: b) := by
  simpa using ha.append [' '] hb

/-- Cleaning finds a tag and what is written behind it. -/
lemma clean_tagged (ha : Solid a) (hb : Solid b) (hcloser : ¬ closer <:+ b) :
    clean ([' ', '*', ' '] ++ (a ++ ' ' :: b)) = a ++ ' ' :: b :=
  clean_written_solid (solid_tagged ha hb) (mt (closer_suffix_iff a b).mp hcloser)

lemma isType_of_mem_knownTags : ∀ tag ∈ knownTags, IsType tag := by
  decide +kernel

lemma classify_clean_param (htype : IsType type) (hname : IsName name) (sigil : Bool) :
    classify (clean ([' ', '*', ' '] ++
      ("@param".toList ++ ' ' :: (type ++ ' ' :: if sigil then '$' :: name else name)))) =
        .param type name := by
  have htag := (isType_of_mem_knownTags "@param".toList (by simp [knownTags])).solid
  have hsolid := solid_tagged htype.solid (hname.isType sigil).solid
  have hcloser := mt (closer_suffix_iff type _).mp (hname.not_closer sigil)
  rw [clean_tagged htag hsolid hcloser, classify_param, param?_append htype hname]

lemma classify_clean_returns (htype : IsType type) (hcloser : ¬ closer <:+ type) :
    classify (clean ([' ', '*', ' '] ++ ("@return".toList ++ ' ' :: type))) = .returns type := by
  have htag := (isType_of_mem_knownTags "@return".toList (by simp [knownTags])).solid
  rw [clean_tagged htag htype.solid hcloser, classify_returns (typeAfter?_append htype _)]

lemma classify_clean_throws (htype : IsType type) (hcloser : ¬ closer <:+ type) :
    classify (clean ([' ', '*', ' '] ++ ("@throws".toList ++ ' ' :: type))) = .throws type := by
  have htag := (isType_of_mem_knownTags "@throws".toList (by simp [knownTags])).solid
  rw [clean_tagged htag htype.solid hcloser, classify_throws (typeAfter?_append htype _)]

/-- A line with another tag says nothing, however much of its end is lost. -/
lemma classify_clean_unknown {line : List Char} (hat : line.head? = some '@')
    (htags : ∀ tag ∈ knownTags, ¬ StartsWithTag tag line) :
    classify (clean ([' ', '*', ' '] ++ line)) = .nothing := by
  obtain ⟨rest, hclean, hprefix⟩ := clean_written_tag hat
  -- what is left of the line cannot start with a tag that the line does not start with
  have hnone : ∀ tag ∈ knownTags, ¬ StartsWithTag tag ('@' :: rest) :=
    fun tag hmem hstart => htags tag hmem (hstart.of_isPrefix hprefix)
  have hparam := hnone "@param".toList (by simp [knownTags])
  have hreturn := hnone "@return".toList (by simp [knownTags])
  have hthrows := hnone "@throws".toList (by simp [knownTags])
  rw [hclean, classify_at rfl]
  simp only [param?_eq_none hparam, typeAfter?_eq_none hreturn, typeAfter?_eq_none hthrows]

end Parts

namespace Item

variable {i : Item}

/-- No item runs over the end of its line. -/
lemma breakFree_line (h : i.Legal) : BreakFree i.line := by
  have htag := fun tag hmem => (isType_of_mem_knownTags tag hmem).breakFree
  cases i with
  | text words => exact h.2.2.1
  | param type name sigil =>
    have hrest := breakFree_tagged h.1.breakFree (h.2.isType sigil).breakFree
    exact breakFree_tagged (htag _ (by simp [knownTags])) hrest
  | returns type => exact breakFree_tagged (htag _ (by simp [knownTags])) h.1.breakFree
  | throws type => exact breakFree_tagged (htag _ (by simp [knownTags])) h.1.breakFree
  | unknown line => exact h.1

/-- The written line of an item is read as the item. -/
lemma classify_clean_line (h : i.Legal) :
    classify (clean ([' ', '*', ' '] ++ i.line)) = i.entry := by
  cases i with
  | text words =>
    obtain ⟨hne, htrim, -, hat, hcloser⟩ := h
    have hclean : clean ([' ', '*', ' '] ++ words) = words :=
      clean_written_solid (Text.solid_iff.mpr ⟨hne, htrim⟩) hcloser
    exact (congrArg classify hclean).trans (classify_of_head_ne hne hat)
  | param type name sigil => exact classify_clean_param h.1 h.2 sigil
  | returns type => exact classify_clean_returns h.1 h.2
  | throws type => exact classify_clean_throws h.1 h.2
  | unknown line => exact classify_clean_unknown h.2.1 h.2.2

end Item

/-! ### The whole docblock -/

/-- Some lines, each behind a star, between the two marks of a comment. -/
def framed (lines : List (List Char)) : List Char :=
  ['\n'].intercalate (opener :: lines.map ([' ', '*', ' '] ++ ·) ++ [[' ', '*', '/']])

/-- The marks say nothing, and the lines say what each of them says. -/
lemma entries_framed {lines : List (List Char)} (h : ∀ line ∈ lines, BreakFree line) :
    entries (framed lines) =
      .nothing :: lines.map (fun line => classify (clean ([' ', '*', ' '] ++ line))) ++
        [.nothing] := by
  have hopener : classify (clean opener) = .nothing := by decide
  have hcloser : classify (clean [' ', '*', '/']) = .nothing := by decide
  have hparts : ∀ p ∈ opener :: lines.map ([' ', '*', ' '] ++ ·), BreakFree p := by
    intro p hp
    rcases List.mem_cons.mp hp with rfl | hp
    · decide
    · obtain ⟨line, hline, rfl⟩ := List.mem_map.mp hp
      exact breakFree_tagged (a := [' ', '*']) (by decide) (h line hline)
  rw [entries, framed, Text.lines_intercalate (by simp) (by decide) hparts, List.map_append,
    List.map_cons, List.map_map, Function.comp_def, hopener, List.map_singleton, hcloser]

/-- The lines of a written docblock are its items, between the two marks. -/
lemma entries_render {items : List Item} (h : ∀ i ∈ items, i.Legal) :
    entries (render items) = .nothing :: items.map Item.entry ++ [.nothing] := by
  have hrender : render items = framed (items.map Item.line) := by
    rw [render, framed, List.map_map]
    rfl
  have hfree : ∀ line ∈ items.map Item.line, BreakFree line :=
    List.forall_mem_map.mpr fun i hi => Item.breakFree_line (h i hi)
  have hitems : ∀ i ∈ items, classify (clean ([' ', '*', ' '] ++ i.line)) = i.entry :=
    fun i hi => Item.classify_clean_line (h i hi)
  rw [hrender, entries_framed hfree, List.map_map, Function.comp_def, List.map_congr_left hitems]

/-- Lines that say nothing around some entries change nothing. -/
lemma ofEntries_framed (es : List Entry) :
    ofEntries (.nothing :: es ++ [.nothing]) = ofEntries es := by
  simp [ofEntries]

/-- The entries of some items make the docblock that the items document. -/
lemma ofEntries_map_entry (items : List Item) :
    ofEntries (items.map Item.entry) =
      { description := " ".intercalate (items.filterMap Item.description?)
        params := items.filterMap Item.documentedParam?
        returns := (items.filterMap Item.documentedReturn?).getLast?
        throws := items.filterMap Item.documentedThrow? } := by
  simp only [ofEntries, List.filterMap_map, mk.injEq]
  refine ⟨?_, ?_, ?_, ?_⟩
  · congr 2
    funext i
    cases i <;> rfl
  · congr 1
    funext i
    cases i with
    | param type name sigil =>
      simp only [Function.comp_apply, Item.entry, Item.documentedParam?, String.ofList_append]
    | _ => rfl
  · congr 2
    funext i
    cases i <;> rfl
  · congr 1
    funext i
    cases i <;> rfl

/-- **Reading undoes writing.**  A written docblock is read as what its items say: the description
in order, the documented parameters and exceptions in order, and the last documented result. -/
theorem parse_render {items : List Item} (h : ∀ i ∈ items, i.Legal) :
    parse (render items) =
      { description := " ".intercalate (items.filterMap Item.description?)
        params := items.filterMap Item.documentedParam?
        returns := (items.filterMap Item.documentedReturn?).getLast?
        throws := items.filterMap Item.documentedThrow? } := by
  rw [parse, entries_render h, ofEntries_framed, ofEntries_map_entry]

/-- Whether an item is legal can be computed. -/
instance : DecidablePred Item.Legal
  | .text words => inferInstanceAs (Decidable (words ≠ [] ∧ trim words = words ∧
      BreakFree words ∧ words.head? ≠ some '@' ∧ ¬ closer <:+ words))
  | .param type name _ => inferInstanceAs (Decidable (IsType type ∧ IsName name))
  | .returns type => inferInstanceAs (Decidable (IsType type ∧ ¬ closer <:+ type))
  | .throws type => inferInstanceAs (Decidable (IsType type ∧ ¬ closer <:+ type))
  | .unknown line => inferInstanceAs (Decidable (BreakFree line ∧ line.head? = some '@' ∧
      ∀ tag ∈ knownTags, ¬ StartsWithTag tag line))

/-- Items whose text looks like comment marks, sigils and tags. -/
def noisyItems : List Item :=
  [.text "/** is written twice".toList, .text "*".toList, .param "$this|@x".toList "a".toList false,
    .returns "int".toList, .unknown "@returns nothing */".toList, .text "and /".toList,
    .param "?array<*>/".toList "largeur".toList true, .throws "E@$*".toList,
    .returns "static|null".toList]

/-- Nothing that looks like a mark is lost from items that hold such texts. -/
theorem parse_noisyItems :
    parse (render noisyItems) =
      { description := "/** is written twice * and /"
        params := ["$this|@x $a", "?array<*>/ $largeur"]
        returns := some "static|null"
        throws := ["E@$*"] } :=
  (parse_render (by decide +kernel)).trans (by decide +kernel)

end PhpCatalog.Docblock
