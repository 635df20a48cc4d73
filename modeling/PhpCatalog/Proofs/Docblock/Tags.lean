/-
# What a tag records of a type

The type behind a tag is read up to its first blank.  A type without blanks is recorded as it is
written, and so is the name of the parameter behind it.  Of a type with blanks, such as
`array<int, string>`, only the first word is recorded; and where a parameter has such a type, what
counts as its name is the word behind the first blanks, with or without a dollar sign, and nothing
is recorded at all if no word stands there (`parse_tagged_line`).

So the brackets of a type do not keep it together (`not_parse_bracketed`).
-/
import PhpCatalog.Proofs.Docblock.Joining
import PhpCatalog.Proofs.Docblock.Margin

namespace PhpCatalog.Docblock

open Text (isBlank isWord BreakFree Solid trimStart)

/-! ### What is recorded -/

/-- A type up to its first blank. -/
def firstWord (type : List Char) : List Char :=
  (word type).1

/-- The name that is recorded for a parameter: its own behind a type of one word, and otherwise the
word characters that follow the first blanks of the type and a dollar sign, if one stands there. -/
def recordedName (type name : List Char) : List Char :=
  match trimStart (word type).2 with
  | [] => name
  | more => (dropSigil more).takeWhile isWord

/-- A parameter with its type, as a docblock keeps them. -/
def shownParam (type name : List Char) : String :=
  String.ofList type ++ " $" ++ String.ofList name

/-- What is recorded of a parameter, if anything is. -/
def recordedParam? (type name : List Char) : Option String :=
  if recordedName type name = [] then none
  else some (shownParam (firstWord type) (recordedName type name))

section Recorded

variable {type name first gap more : List Char}

/-- What is left behind the first word starts with a blank. -/
lemma head_behind_word (s : List Char) : ∀ c ∈ (word s).2.head?, isBlank c = true := by
  intro c hc
  have hnot := List.head?_dropWhile_not (!isBlank ·) s
  rw [show s.dropWhile (!isBlank ·) = (word s).2 from rfl, Option.mem_def.mp hc] at hnot
  simpa using hnot

lemma firstWord_isType (h : Solid type) : IsType (firstWord type) := by
  refine ⟨fun hnil => ?_, isBlank_of_mem_word⟩
  obtain ⟨c, rest, rfl⟩ := List.exists_cons_of_ne_nil h.ne_nil
  have hc : isBlank c = false := h.head c rfl
  simp [firstWord, word, hc] at hnil

/-- A type is one word, or a word and blanks with more behind them. -/
lemma isType_or_parts (h : Solid type) :
    IsType type ∨ ∃ first gap more, type = first ++ (gap ++ more) ∧ IsType first ∧ gap ≠ [] ∧
      (∀ c ∈ gap, isBlank c = true) ∧ more ≠ [] ∧ ∀ c ∈ more.head?, isBlank c = false := by
  have hsplit : firstWord type ++ (word type).2 = type := List.takeWhile_append_dropWhile
  have hfirst := firstWord_isType h
  by_cases hrest : (word type).2 = []
  · rw [hrest, List.append_nil] at hsplit
    exact Or.inl (hsplit ▸ hfirst)
  have hgap : (word type).2.takeWhile isBlank ≠ [] := by
    obtain ⟨c, rest, hcons⟩ := List.exists_cons_of_ne_nil hrest
    have hc : isBlank c = true := head_behind_word type c (by rw [hcons]; rfl)
    simp [hcons, hc]
  have hmore : trimStart (word type).2 ≠ [] := by
    -- the last character of the type is no blank, and it stands behind the first word
    intro hnil
    have hall : ∀ c ∈ (word type).2, isBlank c = true := List.dropWhile_eq_nil_iff.mp hnil
    have hlast := List.getLast?_append_of_ne_nil (firstWord type) hrest
    rw [hsplit, List.getLast?_eq_some_getLast hrest] at hlast
    have hblank := hall _ (List.getLast_mem hrest)
    rw [h.last _ hlast] at hblank
    cases hblank
  refine Or.inr ⟨_, _, _, ?_, hfirst, hgap, fun c hc => List.mem_takeWhile_imp hc, hmore,
    Text.head_trimStart _⟩
  rw [trimStart, List.takeWhile_append_dropWhile, hsplit]

lemma word_of_parts (hfirst : IsType first) (hne : gap ≠ [])
    (hgap : ∀ c ∈ gap, isBlank c = true) (s : List Char) :
    word (first ++ (gap ++ s)) = (first, gap ++ s) := by
  refine word_of_isType hfirst _ fun c hc => hgap c ?_
  rw [List.head?_append_of_ne_nil _ hne] at hc
  exact List.mem_of_mem_head? hc

lemma firstWord_of_isType (h : IsType type) : firstWord type = type := by
  have hword : word (type ++ []) = (type, []) := word_of_isType h [] (by simp)
  rw [List.append_nil] at hword
  rw [firstWord, hword]

lemma recordedName_of_isType (h : IsType type) (name : List Char) :
    recordedName type name = name := by
  have hword : word (type ++ []) = (type, []) := word_of_isType h [] (by simp)
  rw [List.append_nil] at hword
  rw [recordedName, hword]
  rfl

lemma recordedName_of_parts (hfirst : IsType first) (hne : gap ≠ [])
    (hgap : ∀ c ∈ gap, isBlank c = true) (hmore : more ≠ [])
    (hhead : ∀ c ∈ more.head?, isBlank c = false) (name : List Char) :
    recordedName (first ++ (gap ++ more)) name = (dropSigil more).takeWhile isWord := by
  obtain ⟨c, rest, rfl⟩ := List.exists_cons_of_ne_nil hmore
  rw [recordedName, word_of_parts hfirst hne hgap, Text.trimStart_append hgap,
    Text.trimStart_eq_self hhead]

/-- Whatever counts as the name is made of word characters. -/
lemma isWord_of_mem_recordedName (hname : IsName name) :
    ∀ c ∈ recordedName type name, isWord c = true := by
  unfold recordedName
  split
  · exact hname.2
  · exact fun c hc => List.mem_takeWhile_imp hc

lemma recordedParam?_of_isType (h : IsType type) (hname : IsName name) :
    recordedParam? type name = some (shownParam type name) := by
  rw [recordedParam?, recordedName_of_isType h, firstWord_of_isType h, if_neg hname.1]

lemma firstWord_eq_self_iff (h : Solid type) : firstWord type = type ↔ IsType type :=
  ⟨fun heq => heq ▸ firstWord_isType h, firstWord_of_isType⟩

/-- Of a type with a blank, something else is recorded: it has one blank less. -/
lemma recordedParam?_eq_iff (h : Solid type) (hname : IsName name) :
    recordedParam? type name = some (shownParam type name) ↔ IsType type := by
  refine ⟨fun hrecorded => ?_, fun htype => recordedParam?_of_isType htype hname⟩
  rcases isType_or_parts h with htype | ⟨first, gap, more, rfl, hfirst, hne, hgap, -, -⟩
  · exact htype
  exfalso
  unfold recordedParam? at hrecorded
  split at hrecorded
  · cases hrecorded
  have htext := congrArg String.toList (Option.some.inj hrecorded)
  rw [firstWord, word_of_parts hfirst hne hgap] at htext
  obtain ⟨blank, others, rfl⟩ := List.exists_cons_of_ne_nil hne
  have hsigil : " $".toList = [' ', '$'] := rfl
  simp only [shownParam, String.toList_append, String.toList_ofList, List.append_assoc,
    List.append_cancel_left_eq, hsigil, List.cons_append, List.nil_append] at htext
  -- the space before the dollar sign of the line would stand in the recorded name
  obtain ⟨-, hbehind⟩ := List.cons.inj htext
  have hspace : ' ' ∈ '$' :: recordedName (first ++ ((blank :: others) ++ more)) name :=
    hbehind ▸ by simp
  have hmem := (List.mem_cons.mp hspace).resolve_left (by decide)
  exact absurd (isWord_of_mem_recordedName hname ' ' hmem) (by decide)

end Recorded

/-! ### One line -/

section Line

variable {type name : List Char}

lemma dropSigil_append {s : List Char} (h : s ≠ []) (t : List Char) :
    dropSigil (s ++ t) = dropSigil s ++ t := by
  obtain ⟨c, rest, rfl⟩ := List.exists_cons_of_ne_nil h
  by_cases hc : c = '$'
  · subst hc
    rfl
  · have hstay : ∀ more, dropSigil (c :: more) = c :: more := by
      intro more
      unfold dropSigil
      split
      · next heq => exact absurd (List.cons.inj heq).1 hc
      · rfl
    rw [List.cons_append, hstay, hstay, List.cons_append]

/-- A word does not go on behind a space. -/
lemma takeWhile_isWord_append_space (s t : List Char) :
    (s ++ ' ' :: t).takeWhile isWord = s.takeWhile isWord := by
  have hspace : (' ' :: t).takeWhile isWord = [] := by
    rw [List.takeWhile_cons, if_neg (by decide)]
  rw [List.takeWhile_append, hspace, List.append_nil]
  split
  · next hlen => exact ((List.takeWhile_prefix isWord).eq_of_length hlen).symm
  · rfl

/-- The parameter that is read is the recorded one. -/
lemma param?_line (h : Solid type) (hname : IsName name) :
    param? ("@param".toList ++ ' ' :: (type ++ ' ' :: '$' :: name)) =
      if recordedName type name = [] then none
      else some (firstWord type, recordedName type name) := by
  rcases isType_or_parts h with htype | ⟨first, gap, more, rfl, hfirst, hne, hgap, hmore, hhead⟩
  · rw [firstWord_of_isType htype, recordedName_of_isType htype, if_neg hname.1]
    exact param?_append htype hname true
  · have hstart : trimStart (first ++ (gap ++ more) ++ ' ' :: '$' :: name) =
        first ++ (gap ++ (more ++ ' ' :: '$' :: name)) := by
      rw [Text.trimStart_eq_self, List.append_assoc, List.append_assoc]
      intro c hc
      rw [List.head?_append_of_ne_nil _ h.ne_nil] at hc
      exact h.head c hc
    have hbehind :
        trimStart (gap ++ (more ++ ' ' :: '$' :: name)) = more ++ ' ' :: '$' :: name := by
      rw [Text.trimStart_append hgap, Text.trimStart_eq_self]
      rwa [List.head?_append_of_ne_nil _ hmore]
    rw [recordedName_of_parts hfirst hne hgap hmore hhead, firstWord, word_of_parts hfirst hne hgap]
    simp only [param?, afterTag?_append, Option.bind_eq_bind, Option.bind_some, hstart,
      word_of_parts hfirst hne hgap, hbehind, dropSigil_append hmore,
      takeWhile_isWord_append_space]
    simp [hfirst.1]

lemma typeAfter?_line (h : Solid type) (tag : List Char) :
    typeAfter? tag (tag ++ ' ' :: type) = some (firstWord type) := by
  simp [typeAfter?, afterTag?_append, Text.trimStart_eq_self h.head,
    show (word type).1 = firstWord type from rfl, (firstWord_isType h).1]

lemma ofEntries_param (type name : List Char) :
    ofEntries [.param type name] = { params := [shownParam type name] } := by
  have htext : String.ofList (type ++ [' ', '$'] ++ name) = shownParam type name := by
    rw [String.ofList_append, String.ofList_append]
    rfl
  simp only [ofEntries, List.filterMap_cons, List.filterMap_nil, htext]
  rfl

/-- What a line with one of the known tags says. -/
lemma classify_line_param (h : Solid type) (hname : IsName name) :
    classify (Item.param type name true).line =
      if recordedName type name = [] then .nothing
      else .param (firstWord type) (recordedName type name) := by
  have hline : (Item.param type name true).line =
      "@param".toList ++ ' ' :: (type ++ ' ' :: '$' :: name) := rfl
  rw [hline, classify_param, param?_line h hname]
  by_cases hnone : recordedName type name = [] <;> simp [hnone]

lemma classify_line_returns (h : Solid type) :
    classify (Item.returns type).line = .returns (firstWord type) :=
  classify_returns (typeAfter?_line h _)

lemma classify_line_throws (h : Solid type) :
    classify (Item.throws type).line = .throws (firstWord type) :=
  classify_throws (typeAfter?_line h _)

/-- The lines of tags are solid and, where the type does not, do not end like the closing mark. -/
lemma clean_around_tag {tag rest : List Char} (htag : tag ∈ knownTags) (hrest : Solid rest)
    (hcloser : ¬ closer <:+ rest) (m : Margin) :
    clean (m.around (tag ++ ' ' :: rest)) = tag ++ ' ' :: rest := by
  have hat : ∀ t ∈ knownTags, t.head? = some '@' := by simp [knownTags]
  have htype := isType_of_mem_knownTags tag htag
  refine m.clean_around (solid_tagged htype.solid hrest) ?_ ?_
  · rw [List.head?_append_of_ne_nil _ htype.1]
    exact hat tag htag
  · exact fun _ => mt (closer_suffix_iff tag rest).mp hcloser

end Line

/-! ### The line in its comment -/

/-- The docblock that some lines of a comment make. -/
def ofLines (lines : List (List Char)) : Docblock :=
  ofEntries (lines.map fun line => classify (clean line))

/-- A line adds what it says to what the lines before it say, and those behind it follow. -/
lemma parse_of_lines {raw line : List Char} {before after : List (List Char)}
    (h : Text.lines raw = before ++ line :: after) :
    parse raw = ((ofLines before).append (ofEntries [classify (clean line)])).append
      (ofLines after) := by
  have hone := wellFormed_of_lines [line]
  have hparse : parse raw = ofLines (before ++ [line] ++ after) := by
    rw [parse, entries, h, List.append_assoc]
    rfl
  rw [hparse, ofLines, List.map_append, List.map_append,
    ofEntries_append (List.forall_mem_append.mpr ⟨wellFormed_of_lines before, hone⟩)
      (wellFormed_of_lines after),
    ofEntries_append (wellFormed_of_lines before) hone]
  rfl

/-- **What a tag records of its type.**  Whatever stands around it in its line and around the line
in its comment, `@return T` and `@throws T` record the first word of `T`, and `@param T $n` records
that word with the name that follows it.  These are `T` and `n` themselves exactly if `T` holds no
blank. -/
theorem parse_tagged_line {type name : List Char} (htype : Solid type) (hcloser : ¬ closer <:+ type)
    (hname : IsName name) (m : Margin) {raw : List Char} {before after : List (List Char)} :
    (Text.lines raw = before ++ m.around (Item.param type name true).line :: after →
      parse raw = ((ofLines before).append
        { params := (recordedParam? type name).toList }).append (ofLines after)) ∧
    (Text.lines raw = before ++ m.around (Item.returns type).line :: after →
      parse raw = ((ofLines before).append
        { returns := some (String.ofList (firstWord type)) }).append (ofLines after)) ∧
    (Text.lines raw = before ++ m.around (Item.throws type).line :: after →
      parse raw = ((ofLines before).append
        { throws := [String.ofList (firstWord type)] }).append (ofLines after)) ∧
    (recordedParam? type name = some (shownParam type name) ↔ IsType type) ∧
    (firstWord type = type ↔ IsType type) := by
  have hrest : Solid (type ++ ' ' :: '$' :: name) :=
    solid_tagged htype (hname.isType true).solid
  have hrestCloser : ¬ closer <:+ type ++ ' ' :: '$' :: name :=
    mt (closer_suffix_iff type _).mp (hname.not_closer true)
  refine ⟨fun h => ?_, fun h => ?_, fun h => ?_, recordedParam?_eq_iff htype hname,
    firstWord_eq_self_iff htype⟩
  · have hclean : clean (m.around (Item.param type name true).line) =
        (Item.param type name true).line :=
      clean_around_tag (by simp [knownTags]) hrest hrestCloser m
    rw [parse_of_lines h, hclean, classify_line_param htype hname, recordedParam?]
    by_cases hnone : recordedName type name = []
    · rw [if_pos hnone, if_pos hnone]
      rfl
    · rw [if_neg hnone, if_neg hnone, ofEntries_param]
      rfl
  · have hclean : clean (m.around (Item.returns type).line) = (Item.returns type).line :=
      clean_around_tag (by simp [knownTags]) htype hcloser m
    rw [parse_of_lines h, hclean, classify_line_returns htype]
    rfl
  · have hclean : clean (m.around (Item.throws type).line) = (Item.throws type).line :=
      clean_around_tag (by simp [knownTags]) htype hcloser m
    rw [parse_of_lines h, hclean, classify_line_throws htype]
    rfl

/-- The margins of the one line of `/** … */`. -/
def oneLine : Margin where
  opens := true
  gap := [' ']
  trail := [' ']
  closes := true

/-- Of a map, the key is recorded with its bracket, and the type of its values as the name. -/
theorem parse_mapTypes :
    parse "/** @return Map<K, V> */".toList = { returns := some "Map<K," } ∧
    parse "/** @param Map<K, V> $m */".toList = { params := ["Map<K, $V"] } := by
  have htype : Solid "Map<K, V>".toList := by decide +kernel
  have hname : IsName "m".toList := by decide +kernel
  have hcloser : ¬ closer <:+ "Map<K, V>".toList := by decide +kernel
  have hreturn : Text.lines "/** @return Map<K, V> */".toList =
      [] ++ oneLine.around (Item.returns "Map<K, V>".toList).line :: [] := by decide +kernel
  have hparam : Text.lines "/** @param Map<K, V> $m */".toList =
      [] ++ oneLine.around (Item.param "Map<K, V>".toList "m".toList true).line :: [] := by
    decide +kernel
  constructor
  · exact ((parse_tagged_line htype hcloser hname oneLine).2.1 hreturn).trans (by decide +kernel)
  · exact ((parse_tagged_line htype hcloser hname oneLine).1 hparam).trans (by decide +kernel)

/-! ### Types in brackets -/

/-- The brackets that may group the parts of a type. -/
def brackets : List (Char × Char) := [('<', '>'), ('(', ')'), ('{', '}'), ('[', ']')]

/-- Whether the brackets of a text match and all its blanks stand inside them.  `waiting` holds the
brackets that are to be closed, the innermost first. -/
def nests (waiting : List Char) : List Char → Bool
  | [] => waiting.isEmpty
  | c :: rest =>
    match brackets.lookup c with
    | some closing => nests (closing :: waiting) rest
    | none =>
      if waiting.head? = some c then nests waiting.tail rest
      else
        brackets.all (·.2 != c) && !(isBlank c && waiting.isEmpty) && nests waiting rest

/-- A type whose blanks stand inside matching brackets. -/
structure IsBracketed (type : List Char) : Prop where
  solid : Solid type
  breakFree : BreakFree type
  not_closer : ¬ closer <:+ type
  nests : nests [] type = true

/-- **Brackets do not keep a type together.**  It is not so that types with blanks inside their
brackets are recorded as they are written. -/
theorem not_parse_bracketed :
    ¬ ∀ type name, IsBracketed type → IsName name →
      parse (render [.param type name true, .returns type, .throws type]) =
        { params := [shownParam type name]
          returns := some (String.ofList type)
          throws := [String.ofList type] } := by
  intro h
  have htype : IsBracketed "array<int, string>".toList :=
    ⟨by decide +kernel, by decide, by decide, by decide⟩
  have hread : parse (render [.param "array<int, string>".toList "x".toList true,
      .returns "array<int, string>".toList, .throws "array<int, string>".toList]) =
        { params := ["array<int, $string"]
          returns := some "array<int,"
          throws := ["array<int,"] } := by decide +kernel
  have hclaimed := h _ _ htype (by decide : IsName "x".toList)
  rw [hread] at hclaimed
  exact absurd (congrArg returns hclaimed) (by decide)

end PhpCatalog.Docblock
