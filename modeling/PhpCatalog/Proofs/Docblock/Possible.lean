/-
# The docblocks that can be read

Whatever a text contains, what is read from it has a certain shape: each parameter is a type and a
name, the other types hold no blank, and the description is one trimmed line that starts with no tag
(`WellFormed`).  This is all that can be said of it, for every docblock of that shape is read from
some text (`wellFormed_iff_exists_parse`).

Such a text has one line for each part, between a star and a closing mark (`write`).  No comment of
a program has a closing mark on each line.  It takes part here because it protects what stands in
front of it: a type or a description may itself end in one.
-/
import PhpCatalog.Proofs.Docblock.Rendering

namespace PhpCatalog.Docblock

open Text (BreakFree Solid trim trimEnd)

/-- The shape of what a docblock says. -/
structure WellFormed (d : Docblock) : Prop where
  params : ∀ p ∈ d.params, IsParam p
  returns : ∀ r ∈ d.returns, IsType r.toList
  throws : ∀ t ∈ d.throws, IsType t.toList
  breakFree : BreakFree d.description.toList
  trimmed : Text.trimmed d.description = d.description
  untagged : d.description.toList.head? ≠ some '@'

/-! ### What is read has the shape -/

/-- Cleaning adds nothing to a line. -/
lemma mem_of_mem_clean {c : Char} {line : List Char} (h : c ∈ clean line) : c ∈ line := by
  have hopener : dropOpener (trim line) ⊆ trim line := by
    unfold dropOpener
    split
    · exact List.drop_subset _ _
    · exact List.Subset.refl _
  have hstars := (List.dropWhile_suffix _).subset (Text.mem_of_mem_trim h)
  have hcloser := (dropCloser_isPrefix _).subset (Text.mem_of_mem_trim hstars)
  exact Text.mem_of_mem_trim (hopener hcloser)

lemma eq_of_classify_eq_text {line words : List Char} (h : classify line = .text words) :
    words = line := by
  unfold classify at h
  split at h
  · cases h
  · split at h
    · cases h
    · split at h
      · cases h
      · split at h <;> cases h
  · exact (Entry.text.inj h).symm

/-- A line of the description is a line of the comment, or a part of one. -/
lemma breakFree_of_mem_texts (raw : List Char) : ∀ w ∈ texts (entries raw), BreakFree w.toList := by
  intro w hw
  obtain ⟨line, hline, hclassify⟩ := List.mem_map.mp (mem_of_mem_texts hw)
  rw [eq_of_classify_eq_text hclassify]
  exact fun c hc => Text.breakFree_of_mem_lines hline c (mem_of_mem_clean hc)

section OfEntries

variable {es : List Entry}

lemma trimmed_description (h : ∀ e ∈ es, e.WellFormed) :
    Text.trimmed (ofEntries es).description = (ofEntries es).description := by
  by_cases hne : (ofEntries es).description = ""
  · rw [hne]
    rfl
  · exact (Text.solid_toList_iff.mp (solid_description h hne)).2

/-- The description starts as its first line does. -/
lemma head_description (h : ∀ e ∈ es, e.WellFormed) :
    (ofEntries es).description.toList.head? ≠ some '@' := by
  have huntagged := untagged_of_mem_texts h
  have hsolid := solid_of_mem_texts h
  change (" ".intercalate (texts es)).toList.head? ≠ some '@'
  generalize texts es = ws at huntagged hsolid ⊢
  rcases ws with _ | ⟨w, _ | ⟨x, rest⟩⟩
  · simp
  · simpa using huntagged w
  · rw [String.intercalate_cons_cons, String.append_assoc, String.toList_append,
      List.head?_append_of_ne_nil _ (hsolid w List.mem_cons_self).ne_nil]
    exact huntagged w List.mem_cons_self

lemma wellFormed_ofEntries (h : ∀ e ∈ es, e.WellFormed)
    (hfree : ∀ w ∈ texts es, BreakFree w.toList) : (ofEntries es).WellFormed where
  params := isParam_of_mem_params h
  returns _ hr := isType_of_returns h hr
  throws := isType_of_mem_throws h
  breakFree := by
    change BreakFree (" ".intercalate (texts es)).toList
    rw [String.toList_intercalate]
    refine BreakFree.intercalate (by decide) fun p hp => ?_
    obtain ⟨w, hw, rfl⟩ := List.mem_map.mp hp
    exact hfree w hw
  trimmed := trimmed_description h
  untagged := head_description h

end OfEntries

/-! ### What has the shape can be read -/

/-- A line of a comment that documents something under a tag. -/
def tagged (tag text : String) : List Char :=
  tag.toList ++ ' ' :: text.toList

/-- What the lines of a written docblock say, one line for each part. -/
def contents (d : Docblock) : List (List Char) :=
  d.description.toList :: d.params.map (tagged "@param") ++
    d.returns.toList.map (tagged "@return") ++ d.throws.map (tagged "@throws")

/-- A text that says a docblock, with the closing mark at the end of each line. -/
def write (d : Docblock) : List Char :=
  framed (d.contents.map (· ++ closer))

/-- With a closing mark behind it, any solid text is found again. -/
lemma clean_closed {s : List Char} (h : s = [] ∨ Solid s) :
    clean ([' ', '*', ' '] ++ (s ++ closer)) = s := by
  rcases h with rfl | h
  · decide
  have hclosed : Solid (s ++ closer) := by simpa using h.append [] solid_closer
  have hend : trimEnd (s ++ closer) = s ++ closer := Text.trimEnd_eq_self hclosed.last
  have hmark : trimEnd (dropCloser (trimEnd (s ++ closer))) = s := by
    rw [hend, dropCloser_append_closer, Text.trimEnd_eq_self h.last]
  rw [clean_written (by rw [hend]; exact hclosed.ne_nil) (by rw [hmark]; exact h.ne_nil), hmark,
    h.trim_eq]

section Written

variable {d : Docblock}

/-- A text that can stand on a line of a docblock. -/
def FitsLine (s : List Char) : Prop :=
  (s = [] ∨ Solid s) ∧ BreakFree s

/-- A line with a tag fits if what it documents is solid and free of breaks. -/
lemma fitsLine_tagged {tag : String} (htag : tag.toList ∈ knownTags) {text : String}
    (hsolid : Solid text.toList) (hfree : BreakFree text.toList) :
    FitsLine (tagged tag text) := by
  have hword := isType_of_mem_knownTags _ htag
  exact ⟨Or.inr (solid_tagged hword.solid hsolid), breakFree_tagged hword.breakFree hfree⟩

lemma IsParam.breakFree {p : String} (h : IsParam p) : BreakFree p.toList := by
  obtain ⟨type, name, htype, hname, htext⟩ := h
  rw [htext]
  exact (htype.breakFree.append (by decide)).append (hname.isType false).breakFree

lemma WellFormed.fitsLine (h : d.WellFormed) : ∀ s ∈ d.contents, FitsLine s := by
  intro s hs
  simp only [contents, List.mem_append, List.mem_cons, List.mem_map] at hs
  rcases hs with ((rfl | ⟨p, hp, rfl⟩) | ⟨r, hr, rfl⟩) | ⟨t, ht, rfl⟩
  · refine ⟨?_, h.breakFree⟩
    by_cases hnil : d.description = ""
    · exact Or.inl (by simp [hnil])
    · exact Or.inr (Text.solid_toList_iff.mpr ⟨hnil, h.trimmed⟩)
  · have hparam := h.params p hp
    exact fitsLine_tagged (by decide) hparam.solid hparam.breakFree
  · have htype := h.returns r (Option.mem_toList.mp hr)
    exact fitsLine_tagged (by decide) htype.solid htype.breakFree
  · have htype := h.throws t ht
    exact fitsLine_tagged (by decide) htype.solid htype.breakFree

/-- The lines of a written docblock are its parts, between the two marks. -/
lemma entries_write (h : d.WellFormed) :
    entries d.write = .nothing :: d.contents.map classify ++ [.nothing] := by
  have hfree : ∀ line ∈ d.contents.map (· ++ closer), BreakFree line :=
    List.forall_mem_map.mpr fun s hs => (h.fitsLine s hs).2.append (by decide)
  have hcontents : ∀ s ∈ d.contents,
      classify (clean ([' ', '*', ' '] ++ (s ++ closer))) = classify s :=
    fun s hs => congrArg classify (clean_closed (h.fitsLine s hs).1)
  rw [write, entries_framed hfree, List.map_map, Function.comp_def, List.map_congr_left hcontents]

lemma classify_tagged_param {p : String} (h : IsParam p) :
    ∃ type name, classify (tagged "@param" p) = .param type name ∧
      String.ofList (type ++ [' ', '$'] ++ name) = p := by
  obtain ⟨type, name, htype, hname, htext⟩ := h
  refine ⟨type, name, ?_, by rw [← htext, String.ofList_toList]⟩
  have hparam := param?_append htype hname true
  have hline : p.toList = type ++ ' ' :: '$' :: name := by simp [htext]
  rw [tagged, hline, classify_param]
  rw [if_pos rfl] at hparam
  rw [hparam]

/-- The description is its own line, or nothing. -/
lemma classify_description (h : d.WellFormed) :
    classify d.description.toList =
      if d.description = "" then .nothing else .text d.description.toList := by
  split
  · next hnil => simp [hnil, classify]
  · next hne => exact classify_of_head_ne (mt String.toList_eq_nil_iff.mp hne) h.untagged

/-- Entries in the order of the parts make a docblock of these parts. -/
lemma ofEntries_parts (type name : String → List Char) (description : String)
    (params : List String) (returns : Option String) (throws : List String) :
    ofEntries ((if description = "" then .nothing else .text description.toList) ::
        params.map (fun p => .param (type p) (name p)) ++
        returns.toList.map (fun r => .returns r.toList) ++
        throws.map (fun t => .throws t.toList)) =
      { description := description
        params := params.map fun p => String.ofList (type p ++ [' ', '$'] ++ name p)
        returns := returns
        throws := throws } := by
  by_cases hnil : description = "" <;> cases returns <;>
    simp [ofEntries, List.filterMap_map, hnil]

/-- The lines of a written docblock make the docblock. -/
lemma ofEntries_contents (h : d.WellFormed) : ofEntries (d.contents.map classify) = d := by
  choose! type name hparam htext using fun p hp => classify_tagged_param (h.params p hp)
  have hreturns : ∀ r ∈ d.returns.toList, classify (tagged "@return" r) = .returns r.toList :=
    fun r hr => classify_returns (typeAfter?_append (h.returns r (Option.mem_toList.mp hr)) _)
  have hthrows : ∀ t ∈ d.throws, classify (tagged "@throws" t) = .throws t.toList :=
    fun t ht => classify_throws (typeAfter?_append (h.throws t ht) _)
  have hentries : d.contents.map classify =
      classify d.description.toList :: d.params.map (fun p => .param (type p) (name p)) ++
        d.returns.toList.map (fun r => .returns r.toList) ++
        d.throws.map (fun t => .throws t.toList) := by
    simp only [contents, List.map_append, List.map_cons, List.map_map, Function.comp_def]
    rw [List.map_congr_left hparam, List.map_congr_left hreturns, List.map_congr_left hthrows]
  rw [hentries, classify_description h, ofEntries_parts, List.map_congr_left htext, List.map_id']

/-- What was written is read again. -/
lemma parse_write (h : d.WellFormed) : parse d.write = d := by
  rw [parse, entries_write h, ofEntries_framed, ofEntries_contents h]

end Written

/-- **The docblocks that can be read are the well-formed ones.**  Whatever a text contains, what is
read from it is well formed, and every well-formed docblock is read from the text that says it. -/
theorem wellFormed_iff_exists_parse (d : Docblock) : d.WellFormed ↔ ∃ raw, parse raw = d := by
  constructor
  · intro h
    exact ⟨d.write, parse_write h⟩
  · rintro ⟨raw, rfl⟩
    exact wellFormed_ofEntries (entries_wellFormed raw) (breakFree_of_mem_texts raw)

end PhpCatalog.Docblock
