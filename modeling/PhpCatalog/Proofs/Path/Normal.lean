/-
# Normal paths

A path is made normal on its names alone.  Names that all lead down stay as they are behind whatever
is left of the names before them (`Path.collapse_append`), so a relative path without `..` leads to
the normal form of its base or below it (`Path.atOrBelow_join`).

A path that starts from the root is written with a slash first, any other path is not.
-/
import PhpCatalog.Proofs.Path.Pieces
import PhpCatalog.Proofs.Volume.Writing

namespace PhpCatalog

/-! ### The names of a text -/

lemma slash_notMem_of_mem_splitSlashes {text piece : List Char} (h : piece ∈ splitSlashes text) :
    '/' ∉ piece := by
  induction text generalizing piece with
  | nil =>
    obtain rfl : piece = [] := by simpa [splitSlashes] using h
    exact List.not_mem_nil
  | cons c rest ih =>
    by_cases hc : c = '/'
    · rw [splitSlashes, if_pos hc, List.mem_cons] at h
      rcases h with rfl | h
      · exact List.not_mem_nil
      · exact ih h
    · rcases hpieces : splitSlashes rest with _ | ⟨first, others⟩
      · obtain rfl : piece = [c] := by simpa [splitSlashes, hc, hpieces] using h
        simpa using Ne.symm hc
      · have hfirst : '/' ∉ first := ih (by simp [hpieces])
        simp only [splitSlashes, if_neg hc, hpieces, List.mem_cons] at h
        rcases h with rfl | h
        · simp [hfirst, Ne.symm hc]
        · exact ih (by simp [hpieces, h])

namespace Path

/-- The names of a text are filled, hold no slash, and are no single dot. -/
lemma of_mem_partsOf {text name : String} (h : name ∈ partsOf text) :
    name ≠ "" ∧ name ≠ "." ∧ '/' ∉ name.toList := by
  obtain ⟨hmem, hkept⟩ := List.mem_filter.mp h
  obtain ⟨piece, hpiece, rfl⟩ := List.mem_map.mp hmem
  rw [Bool.and_eq_true, bne_iff_ne, bne_iff_ne] at hkept
  refine ⟨hkept.1, hkept.2, ?_⟩
  rw [String.toList_ofList]
  exact slash_notMem_of_mem_splitSlashes hpiece

/-- A step in place at the start of a text leads nowhere. -/
lemma partsOf_step (rest : List Char) :
    partsOf (String.ofList ('.' :: '/' :: rest)) = partsOf (String.ofList rest) := by
  have hsplit : splitSlashes ('.' :: '/' :: rest) = ['.'] :: splitSlashes rest :=
    splitSlashes_append_slash ['.'] rest
  simp [partsOf, hsplit]

/-! ### Names that lead down -/

variable {rooted : Bool}

lemma foldl_collapseStep_down {names : List String} (h : ∀ name ∈ names, IsEntryName name)
    (stack : List String) :
    names.foldl (collapseStep rooted) stack = names.reverse ++ stack := by
  induction names generalizing stack with
  | nil => rfl
  | cons name rest ih =>
    rw [List.foldl_cons, Entry.collapseStep_down (h name List.mem_cons_self),
      ih (fun other hother => h other (List.mem_cons_of_mem name hother))]
    simp

/-- Names that lead down stay, whatever is left of the names before them. -/
lemma collapse_append (front : List String) {names : List String}
    (h : ∀ name ∈ names, IsEntryName name) :
    collapse rooted (front ++ names) = collapse rooted front ++ names := by
  simp [collapse, foldl_collapseStep_down h]

lemma mem_of_mem_collapseStep {stack : List String} {part name : String}
    (h : name ∈ collapseStep rooted stack part) : name ∈ stack ∨ name = part := by
  simp only [collapseStep] at h
  split at h
  · exact Or.inl h
  · split at h
    · cases stack with
      | nil => simp_all
      | cons top below =>
        simp only at h
        split at h <;> simp_all
    · exact (List.mem_cons.mp h).symm

lemma mem_of_mem_foldl_collapseStep {stack parts : List String} {name : String}
    (h : name ∈ parts.foldl (collapseStep rooted) stack) : name ∈ stack ∨ name ∈ parts := by
  induction parts generalizing stack with
  | nil => exact Or.inl h
  | cons part rest ih =>
    rcases ih h with hstep | hrest
    · rcases mem_of_mem_collapseStep hstep with hstack | rfl
      · exact Or.inl hstack
      · exact Or.inr List.mem_cons_self
    · exact Or.inr (List.mem_cons_of_mem part hrest)

/-- Only names of a path are left in its normal form. -/
lemma mem_of_mem_collapse {parts : List String} {name : String}
    (h : name ∈ collapse rooted parts) : name ∈ parts :=
  (mem_of_mem_foldl_collapseStep (List.mem_reverse.mp h)).resolve_left List.not_mem_nil

/-! ### At a directory or below it -/

/-- A place, as it is written, is that of a directory or of something below it. -/
def AtOrBelow (dir : Path) (place : String) : Prop :=
  ∃ names : List String, (∀ name ∈ names, IsEntryName name ∧ '/' ∉ name.toList) ∧
    place = text ⟨dir.anchor, dir.parts ++ names⟩

/-- A relative path without `..` leads to its base or below it. -/
lemma atOrBelow_join (base : Path) {p : String} (hrelative : (ofString p).anchor = .relative)
    (hup : ".." ∉ partsOf p) : base.normal.AtOrBelow (base.join (ofString p)).normal.text := by
  have hdown : ∀ name ∈ partsOf p, IsEntryName name := by
    intro name hname
    obtain ⟨hfilled, hdot, -⟩ := of_mem_partsOf hname
    exact ⟨hfilled, hdot, ne_of_mem_of_not_mem hname hup⟩
  refine ⟨partsOf p, fun name hname => ⟨hdown name hname, (of_mem_partsOf hname).2.2⟩, ?_⟩
  rw [join, if_pos hrelative]
  simp only [normal, ofString, collapse_append _ hdown]

lemma join_of_rooted (base : Path) {p : Path} (h : p.anchor ≠ .relative) : base.join p = p :=
  if_neg h

lemma head_text_of_rooted {p : Path} (h : p.anchor ≠ .relative) :
    p.text.toList.head? = some '/' := by
  obtain ⟨anchor, parts⟩ := p
  cases anchor with
  | relative => exact absurd rfl h
  | root => simp [text, Anchor.text]
  | doubleRoot => simp [text, Anchor.text]

lemma head_text_of_relative {p : Path} (h : p.anchor = .relative)
    (hparts : ∀ name ∈ p.parts, name ≠ "" ∧ '/' ∉ name.toList) :
    p.text.toList.head? ≠ some '/' := by
  obtain ⟨anchor, parts⟩ := p
  subst h
  cases parts with
  | nil => simp [text]
  | cons name rest =>
    obtain ⟨hfilled, hslash⟩ := hparts name List.mem_cons_self
    obtain ⟨c, cs, hname⟩ := List.exists_cons_of_ne_nil (mt String.toList_eq_nil_iff.mp hfilled)
    have hc : c ≠ '/' := ne_of_mem_of_not_mem (by simp [hname]) hslash
    have htext : (text ⟨.relative, name :: rest⟩).toList.head? = some c := by
      cases rest <;> simp [text, Anchor.text, String.intercalate_cons_cons, hname]
    rw [htext]
    simpa using hc

/-- The current directory. -/
def here : Path := ⟨.relative, []⟩

lemma head_of_atOrBelow_here {place : String} (h : here.normal.AtOrBelow place) :
    place.toList.head? ≠ some '/' := by
  obtain ⟨names, hnames, rfl⟩ := h
  refine head_text_of_relative rfl fun name hname => ?_
  have hmem : name ∈ names := by simpa [here, normal, collapse] using hname
  exact ⟨(hnames name hmem).1.1, (hnames name hmem).2⟩

lemma head_join_here {p : String} (h : (ofString p).anchor = .relative) :
    (here.join (ofString p)).normal.text.toList.head? ≠ some '/' := by
  rw [join, if_pos h]
  refine head_text_of_relative rfl fun name hname => ?_
  have hmem : name ∈ partsOf p := mem_of_mem_collapse hname
  exact ⟨(of_mem_partsOf hmem).1, (of_mem_partsOf hmem).2.2⟩

end Path

end PhpCatalog
