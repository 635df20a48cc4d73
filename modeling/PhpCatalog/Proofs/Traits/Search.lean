/-
# The traits that a text uses

A text uses a trait where a clause stands at the start of a line: blanks, which may run over several
lines, the word `use`, blanks, the name, blanks and a semicolon.  The search takes the first clause
it comes to and goes on behind its semicolon.  Nothing is lost that way.  A line that starts inside
a clause starts either in the blanks before `use`, and then it is the same clause that is read from
there, or behind `use`, and then no clause is read from there at all (`Clause.overlap`).  So the
names that are found are exactly those of the clauses at the starts of lines (`mem_inText_iff`), one
for each semicolon that ends such a clause (`inText_loses_nothing`).
-/
import Mathlib.Tactic.Lemma
import PhpCatalog.Declaration.Traits
import PhpCatalog.Proofs.Declaration.Metadata

namespace PhpCatalog.TraitUse

open Text (isBlank trimStart trimStart_append)

/-- The text of a trait-use clause, in its parts. -/
structure Clause where
  /-- The blanks before `use`. -/
  lead : List Char
  /-- The blanks behind `use`. -/
  gap : List Char
  name : List Char
  /-- The blanks before the semicolon. -/
  trail : List Char
  lead_blank : ∀ c ∈ lead, isBlank c = true
  gap_blank : ∀ c ∈ gap, isBlank c = true
  gap_ne : gap ≠ []
  name_start : ∃ first ∈ name.head?, isNameStart first = true
  name_chars : ∀ c ∈ name, isNameChar c = true
  trail_blank : ∀ c ∈ trail, isBlank c = true

namespace Clause

/-- The clause up to its semicolon. -/
def text (k : Clause) : List Char :=
  k.lead ++ ("use".toList ++ (k.gap ++ (k.name ++ (k.trail ++ [';']))))

end Clause

/-! ### Parts of a clause -/

lemma takeWhile_append_trimStart (s : List Char) : s.takeWhile isBlank ++ trimStart s = s :=
  List.takeWhile_append_dropWhile

lemma head?_append {a : List Char} (h : ∀ c ∈ a, isBlank c = true) (s : List Char) :
    head? (a ++ s) = head? s := by
  rw [head?, head?, trimStart_append h]

lemma isNameChar_of_isBlank {c : Char} (h : isBlank c = true) : isNameChar c = false := by
  rw [← Bool.not_eq_true]
  intro hname
  rw [isBlank_of_isNameChar hname] at h
  cases h

namespace Clause

variable (k : Clause)

lemma exists_name : ∃ first rest, k.name = first :: rest ∧ isNameChar first = true ∧
    isNameStart first = true := by
  obtain ⟨first, hfirst, hstart⟩ := k.name_start
  obtain ⟨rest, hrest⟩ := List.head?_eq_some_iff.mp hfirst
  exact ⟨first, rest, hrest, k.name_chars first (by simp [hrest]), hstart⟩

/-- Behind the blanks comes the name. -/
lemma trimStart_name (s : List Char) : trimStart (k.name ++ s) = k.name ++ s := by
  obtain ⟨first, rest, hname, hchar, -⟩ := k.exists_name
  rw [hname, List.cons_append, trimStart, List.dropWhile_cons_of_neg]
  simp [isBlank_of_isNameChar hchar]

/-- The name ends where the blanks or the semicolon behind it begin. -/
lemma span_name (s : List Char) :
    (k.name ++ (k.trail ++ ';' :: s)).takeWhile isNameChar = k.name ∧
    (k.name ++ (k.trail ++ ';' :: s)).dropWhile isNameChar = k.trail ++ ';' :: s := by
  obtain ⟨first, rest, hrest, hfirst⟩ : ∃ first rest,
      k.trail ++ ';' :: s = first :: rest ∧ isNameChar first = false := by
    rcases htrail : k.trail with _ | ⟨first, trail⟩
    · exact ⟨';', s, rfl, by decide⟩
    · have hblank := k.trail_blank first (by simp [htrail])
      exact ⟨first, trail ++ ';' :: s, rfl, isNameChar_of_isBlank hblank⟩
  rw [List.takeWhile_append_of_pos k.name_chars, List.dropWhile_append_of_pos k.name_chars, hrest]
  simp [hfirst]

/-- Behind the blanks in the end comes the semicolon. -/
lemma trimStart_trail (s : List Char) : trimStart (k.trail ++ ';' :: s) = ';' :: s := by
  rw [trimStart_append k.trail_blank]
  rfl

lemma text_append (after : List Char) :
    k.text ++ after =
      k.lead ++ ("use".toList ++ (k.gap ++ (k.name ++ (k.trail ++ ';' :: after)))) := by
  simp [text]

lemma trimStart_text (after : List Char) :
    trimStart (k.text ++ after) =
      "use".toList ++ (k.gap ++ (k.name ++ (k.trail ++ ';' :: after))) := by
  rw [text_append, trimStart_append k.lead_blank]
  rfl

/-- A clause is read where it stands. -/
lemma head?_text (after : List Char) : head? (k.text ++ after) = some (k.name, after) := by
  obtain ⟨first, name, hname, -, hstart⟩ := k.exists_name
  obtain ⟨blank, gap, hgap⟩ := List.exists_cons_of_ne_nil k.gap_ne
  have hblank : isBlank blank = true := k.gap_blank blank (by simp [hgap])
  have hbehind : trimStart (gap ++ (k.name ++ (k.trail ++ ';' :: after))) =
      k.name ++ (k.trail ++ ';' :: after) := by
    rw [trimStart_append fun c hc => k.gap_blank c (by simp [hgap, hc]), k.trimStart_name]
  have huse : trimStart ("use".toList ++ (k.gap ++ (k.name ++ (k.trail ++ ';' :: after)))) =
      'u' :: 's' :: 'e' :: blank :: (gap ++ (k.name ++ (k.trail ++ ';' :: after))) := by
    rw [hgap]
    rfl
  obtain ⟨htake, hdrop⟩ := k.span_name after
  rw [text_append, head?_append k.lead_blank, head?, huse]
  simp only [hblank, hbehind, htake, hdrop, trimStart_trail, if_true]
  rw [hname]
  simp [hstart]

end Clause

/-- Only a clause is read. -/
lemma exists_clause {s name after : List Char} (h : head? s = some (name, after)) :
    ∃ k : Clause, k.name = name ∧ s = k.text ++ after := by
  unfold head? at h
  split at h
  · next c rest huse =>
    split at h
    · next hblank =>
      dsimp only at h
      split at h
      · next first others tail hname hsemicolon =>
        split at h
        · next hstart =>
          obtain ⟨rfl, rfl⟩ := Prod.mk.inj (Option.some.inj h)
          let k : Clause :=
            { lead := s.takeWhile isBlank
              gap := c :: rest.takeWhile isBlank
              name := (trimStart rest).takeWhile isNameChar
              trail := ((trimStart rest).dropWhile isNameChar).takeWhile isBlank
              lead_blank := fun _ hc => List.mem_takeWhile_imp hc
              gap_blank := List.forall_mem_cons.mpr ⟨hblank, fun _ hc => List.mem_takeWhile_imp hc⟩
              gap_ne := by simp
              name_start := ⟨first, by simp [hname], hstart⟩
              name_chars := fun _ hc => List.mem_takeWhile_imp hc
              trail_blank := fun _ hc => List.mem_takeWhile_imp hc }
          refine ⟨k, rfl, ?_⟩
          have htrail : (trimStart rest).dropWhile isNameChar = k.trail ++ ';' :: tail := by
            rw [← hsemicolon]
            exact (takeWhile_append_trimStart _).symm
          have hrest : rest = rest.takeWhile isBlank ++ (k.name ++ (k.trail ++ ';' :: tail)) := by
            rw [← htrail, List.takeWhile_append_dropWhile, takeWhile_append_trimStart]
          calc s = k.lead ++ trimStart s := (takeWhile_append_trimStart s).symm
            _ = k.lead ++ ("use".toList ++ c :: rest) := by rw [huse]; rfl
            _ = k.text ++ tail := by
              rw [k.text_append]
              conv_lhs => rw [hrest]
              rfl
        · cases h
      · cases h
    · cases h
  · cases h

/-! ### Lines that start inside a clause -/

/-- A line that starts in two texts, one after the other, starts in the first or in the second. -/
lemma feed_cases {a b before rest : List Char} (h : a ++ b = before ++ '\n' :: rest) :
    (∃ more, a = before ++ '\n' :: more ∧ rest = more ++ b) ∨
      ∃ between, b = between ++ '\n' :: rest := by
  rcases List.append_eq_append_iff.mp h with ⟨between, -, hb⟩ | ⟨more, ha, hmore⟩
  · exact Or.inr ⟨between, hb⟩
  · rcases more with _ | ⟨c, more⟩
    · exact Or.inr ⟨[], hmore.symm⟩
    · obtain ⟨rfl, rfl⟩ := List.cons.inj hmore
      exact Or.inl ⟨more, ha, rfl⟩

/-- From the blanks behind `use` no clause is read: its name would have to be a semicolon. -/
lemma Clause.not_text_behind_use {k l : Clause} {more after last : List Char}
    (hmore : ∀ c ∈ more, isBlank c = true) :
    l.text ++ last ≠ more ++ (k.name ++ (k.trail ++ ';' :: after)) := by
  intro h
  have hname : "use".toList ++ (l.gap ++ (l.name ++ (l.trail ++ ';' :: last))) =
      k.name ++ (k.trail ++ ';' :: after) := by
    rw [← trimStart_text, h, trimStart_append hmore, trimStart_name]
  -- the name of the first clause would be `use`
  have hgap : l.gap ++ (l.name ++ (l.trail ++ ';' :: last)) = k.trail ++ ';' :: after := by
    obtain ⟨blank, gap, hgap⟩ := List.exists_cons_of_ne_nil l.gap_ne
    have hblank : isNameChar blank = false :=
      isNameChar_of_isBlank (l.gap_blank blank (by simp [hgap]))
    have huse : ∀ c ∈ "use".toList, isNameChar c = true := List.all_eq_true.mp (by decide)
    rw [← (k.span_name after).2, ← hname, List.dropWhile_append_of_pos huse, hgap,
      List.cons_append, List.dropWhile_cons_of_neg (by simp [hblank])]
  have hsemicolon : l.name ++ (l.trail ++ ';' :: last) = ';' :: after := by
    rw [← l.trimStart_name, ← trimStart_append l.gap_blank, hgap, trimStart_trail]
  obtain ⟨first, rest, hfirst, hchar, -⟩ := l.exists_name
  rw [hfirst] at hsemicolon
  rw [(List.cons.inj hsemicolon).1] at hchar
  exact absurd hchar (by decide)

/-- A clause that stands at the start of a line inside or behind another one is the same clause read
from a later line, or stands behind its semicolon. -/
lemma Clause.overlap {k l : Clause} {after last before : List Char}
    (h : k.text ++ after = before ++ '\n' :: (l.text ++ last)) :
    (l.name = k.name ∧ last = after) ∨ ∃ between, after = between ++ '\n' :: (l.text ++ last) := by
  rw [text_append] at h
  rcases feed_cases h with ⟨more, hlead, hrest⟩ | ⟨_, hafterLead⟩
  · left
    have hmore : ∀ c ∈ more, isBlank c = true := fun c hc => k.lead_blank c (by simp [hlead, hc])
    have hread : head? (l.text ++ last) = head? (k.text ++ after) := by
      rw [hrest, head?_append hmore, k.text_append, head?_append k.lead_blank]
    rw [head?_text, head?_text] at hread
    exact Prod.mk.inj (Option.some.inj hread)
  rcases feed_cases hafterLead with ⟨more, huse, -⟩ | ⟨_, hafterUse⟩
  · have hfeed : '\n' ∈ "use".toList := by simp [huse]
    exact absurd hfeed (by decide)
  rcases feed_cases hafterUse with ⟨more, hgap, hrest⟩ | ⟨_, hafterGap⟩
  · exact absurd hrest (not_text_behind_use fun c hc => k.gap_blank c (by simp [hgap, hc]))
  rcases feed_cases hafterGap with ⟨more, hname, -⟩ | ⟨_, hafterName⟩
  · have hfeed := k.name_chars '\n' (by simp [hname])
    exact absurd hfeed (by decide)
  rcases feed_cases hafterName with ⟨more, htrail, hrest⟩ | ⟨between, hafterTrail⟩
  · have hmore : ∀ c ∈ more, isBlank c = true := fun c hc => k.trail_blank c (by simp [htrail, hc])
    have hstart := congrArg trimStart hrest
    rw [trimStart_text, trimStart_append hmore] at hstart
    cases hstart
  · rcases between with _ | ⟨c, between⟩
    · cases hafterTrail
    · exact Or.inr ⟨between, (List.cons.inj hafterTrail).2⟩

/-! ### The search -/

/-- A clause with the name stands at the start of a line.  Whether the text itself begins at the
start of a line is given. -/
def UsedIn (atStart : Bool) (s name : List Char) : Prop :=
  ∃ (k : Clause) (after : List Char), k.name = name ∧
    ((atStart = true ∧ s = k.text ++ after) ∨ ∃ before, s = before ++ '\n' :: (k.text ++ after))

/-- A clause with the name stands at the start of a line and ends where `after` begins. -/
def EndsBefore (atStart : Bool) (s name after : List Char) : Prop :=
  ∃ k : Clause, k.name = name ∧
    ((atStart = true ∧ s = k.text ++ after) ∨ ∃ before, s = before ++ '\n' :: (k.text ++ after))

lemma usedIn_iff {atStart : Bool} {s name : List Char} :
    UsedIn atStart s name ↔ ∃ after, EndsBefore atStart s name after :=
  exists_comm

lemma not_endsBefore_nil {atStart : Bool} {name after : List Char} :
    ¬ EndsBefore atStart [] name after := by
  rintro ⟨k, -, ⟨-, htext⟩ | ⟨before, htext⟩⟩
  · simp [Clause.text] at htext
  · simp at htext

/-- Behind a line feed, a clause leaves less than there was. -/
lemma EndsBefore.length_lt {s name after : List Char} (h : EndsBefore false s name after) :
    after.length < s.length := by
  obtain ⟨k, -, ⟨hstart, -⟩ | ⟨before, rfl⟩⟩ := h
  · cases hstart
  · simp only [List.length_append, List.length_cons]
    omega

/-- Behind a clause that stands at the start, the search goes on without loss: whatever else starts
inside it ends with it. -/
lemma endsBefore_text {k : Clause} {after name last : List Char} :
    EndsBefore true (k.text ++ after) name last ↔
      (name = k.name ∧ last = after) ∨ EndsBefore false after name last := by
  constructor
  · rintro ⟨l, rfl, ⟨-, htext⟩ | ⟨before, htext⟩⟩
    · have hread := congrArg head? htext
      rw [Clause.head?_text, Clause.head?_text] at hread
      obtain ⟨hname, hafter⟩ := Prod.mk.inj (Option.some.inj hread)
      exact Or.inl ⟨hname.symm, hafter.symm⟩
    · rcases Clause.overlap htext with hsame | ⟨between, hbehind⟩
      · exact Or.inl hsame
      · exact Or.inr ⟨l, rfl, Or.inr ⟨between, hbehind⟩⟩
  · rintro (⟨rfl, rfl⟩ | ⟨l, rfl, ⟨hstart, -⟩ | ⟨before, hbehind⟩⟩)
    · exact ⟨k, rfl, Or.inl ⟨rfl, rfl⟩⟩
    · cases hstart
    · exact ⟨l, rfl, Or.inr ⟨k.text ++ before, by simp [hbehind]⟩⟩

/-- Where no clause stands at the start, the search goes on with the next character. -/
lemma endsBefore_cons {atStart : Bool} {c : Char} {rest name after : List Char}
    (h : atStart = true → head? (c :: rest) = none) :
    EndsBefore atStart (c :: rest) name after ↔ EndsBefore (c == '\n') rest name after := by
  constructor
  · rintro ⟨l, rfl, ⟨hstart, htext⟩ | ⟨before, htext⟩⟩
    · have hnone := h hstart
      rw [htext, Clause.head?_text] at hnone
      cases hnone
    · rcases before with _ | ⟨d, before⟩
      · obtain ⟨rfl, hrest⟩ := List.cons.inj htext
        exact ⟨l, rfl, Or.inl ⟨rfl, hrest⟩⟩
      · exact ⟨l, rfl, Or.inr ⟨before, (List.cons.inj htext).2⟩⟩
  · rintro ⟨l, rfl, ⟨hstart, htext⟩ | ⟨before, htext⟩⟩
    · exact ⟨l, rfl, Or.inr ⟨[], by rw [beq_iff_eq.mp hstart, htext]; rfl⟩⟩
    · exact ⟨l, rfl, Or.inr ⟨c :: before, by rw [htext]; rfl⟩⟩

/-- The finds of a search, each with what follows it: they are the clauses at the starts of lines,
one for each place where such a clause ends, from the first to the last. -/
structure Finds (atStart : Bool) (s : List Char) (finds : List (List Char × List Char)) : Prop where
  ordered : finds.Pairwise fun a b => b.2.length < a.2.length
  mem_iff : ∀ name after, (name, after) ∈ finds ↔ EndsBefore atStart s name after

lemma Finds.nil {atStart : Bool} : Finds atStart [] [] :=
  ⟨List.Pairwise.nil, fun _ _ => by simp [not_endsBefore_nil]⟩

lemma Finds.text {k : Clause} {after : List Char} {finds : List (List Char × List Char)}
    (h : Finds false after finds) :
    Finds true (k.text ++ after) ((k.name, after) :: finds) := by
  refine ⟨List.pairwise_cons.mpr ⟨fun find hfind => ?_, h.ordered⟩, fun name last => ?_⟩
  · exact ((h.mem_iff find.1 find.2).mp hfind).length_lt
  · rw [List.mem_cons, Prod.mk.injEq, h.mem_iff, endsBefore_text]

lemma Finds.cons {atStart : Bool} {c : Char} {rest : List Char}
    {finds : List (List Char × List Char)} (hnone : atStart = true → head? (c :: rest) = none)
    (h : Finds (c == '\n') rest finds) : Finds atStart (c :: rest) finds :=
  ⟨h.ordered, fun name after => by rw [h.mem_iff, endsBefore_cons hnone]⟩

/-- The search gives the names of its finds. -/
lemma exists_finds_scan (atStart : Bool) {steps : Nat} {s : List Char} (h : s.length ≤ steps) :
    ∃ finds, Finds atStart s finds ∧ scan steps atStart s = finds.map Prod.fst := by
  fun_induction scan steps atStart s with
  | case1 atStart s =>
    obtain rfl := List.length_eq_zero_iff.mp (Nat.le_zero.mp h)
    exact ⟨[], Finds.nil, rfl⟩
  | case2 => exact ⟨[], Finds.nil, rfl⟩
  | case3 steps atStart c rest found after hfound ih =>
    -- a clause is only looked for at the start of a line
    cases atStart with
    | false => simp at hfound
    | true =>
      obtain ⟨k, rfl, htext⟩ := exists_clause (by simpa using hfound)
      have hlength : after.length ≤ steps := by
        have := congrArg List.length htext
        simp only [Clause.text, List.length_append, List.length_cons, List.length_nil] at this h
        omega
      obtain ⟨finds, hfinds, hscan⟩ := ih hlength
      exact ⟨(k.name, after) :: finds, htext ▸ hfinds.text, by rw [hscan, List.map_cons]⟩
  | case4 steps atStart c rest hfound ih =>
    obtain ⟨finds, hfinds, hscan⟩ := ih (by simpa using h)
    have hnone : atStart = true → head? (c :: rest) = none := by
      intro hstart
      simpa [hstart] using hfound
    exact ⟨finds, hfinds.cons hnone, hscan⟩

/-- The search finds exactly the names that are used. -/
lemma mem_scan_iff {steps : Nat} {atStart : Bool} {s name : List Char} (h : s.length ≤ steps) :
    name ∈ scan steps atStart s ↔ UsedIn atStart s name := by
  obtain ⟨finds, hfinds, hscan⟩ := exists_finds_scan atStart h
  simp [hscan, usedIn_iff, ← hfinds.mem_iff]

/-- The names found in a text are those of the clauses at the starts of its lines. -/
lemma mem_inText_iff {s : List Char} {name : String} :
    name ∈ inText s ↔ UsedIn true s name.toList := by
  rw [← mem_scan_iff le_rfl, inText, List.mem_map]
  constructor
  · rintro ⟨found, hfound, rfl⟩
    rwa [String.toList_ofList]
  · intro hname
    exact ⟨name.toList, hname, String.ofList_toList⟩

/-! ### Nothing is lost -/

/-- A clause stands in a text behind `before`, which is nothing or ends in a line feed. -/
structure Clause.StandsIn (k : Clause) (s before after : List Char) : Prop where
  text_eq : s = before ++ (k.text ++ after)
  line_start : before = [] ∨ before.getLast? = some '\n'

lemma endsBefore_iff_standsIn {s name after : List Char} :
    EndsBefore true s name after ↔
      ∃ (k : Clause) (before : List Char), k.name = name ∧ k.StandsIn s before after := by
  constructor
  · rintro ⟨k, hname, ⟨-, htext⟩ | ⟨before, htext⟩⟩
    · exact ⟨k, [], hname, htext, Or.inl rfl⟩
    · exact ⟨k, before ++ ['\n'], hname, by simpa using htext, Or.inr (by simp)⟩
  · rintro ⟨k, before, hname, htext, rfl | hlast⟩
    · exact ⟨k, hname, Or.inl ⟨rfl, htext⟩⟩
    · obtain ⟨front, rfl⟩ := List.getLast?_eq_some_iff.mp hlast
      exact ⟨k, hname, Or.inr ⟨front, by simpa using htext⟩⟩

/-- **The search loses no clause.**  The names found in a text are, as a set, those of the clauses
that stand at the start of the text or right behind a line feed.  They are found in order, one for
each semicolon at which such a clause ends, however many of them end there. -/
theorem inText_loses_nothing (s : List Char) :
    (∀ name, name ∈ inText s ↔ ∃ (k : Clause) (before after : List Char),
      k.name = name.toList ∧ k.StandsIn s before after) ∧
    ∃ finds : List (List Char × List Char), inText s = finds.map (fun f => String.ofList f.1) ∧
      (finds.Pairwise fun f g => g.2.length < f.2.length) ∧
      ∀ name after, (name, after) ∈ finds ↔
        ∃ (k : Clause) (before : List Char), k.name = name ∧ k.StandsIn s before after := by
  constructor
  · intro name
    rw [mem_inText_iff, usedIn_iff]
    simp only [endsBefore_iff_standsIn]
    constructor
    · rintro ⟨after, k, before, hname, hstands⟩
      exact ⟨k, before, after, hname, hstands⟩
    · rintro ⟨k, before, after, hname, hstands⟩
      exact ⟨after, k, before, hname, hstands⟩
  · obtain ⟨finds, hfinds, hscan⟩ := exists_finds_scan true (le_refl s.length)
    refine ⟨finds, ?_, hfinds.ordered, fun name after => ?_⟩
    · rw [inText, hscan, List.map_map]
      rfl
    · rw [hfinds.mem_iff, endsBefore_iff_standsIn]

/-- No clause starts on the first line, where the name would be `use`.  The clause of `B` starts on
two lines and is found once, and `C` does not stand at the start of its line. -/
example : inText "use\nuse A;\n\n use B\n;use C;".toList = ["A", "B"] := by decide +kernel

end PhpCatalog.TraitUse
