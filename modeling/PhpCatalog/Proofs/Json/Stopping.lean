/-
# Where reading stops

A value that is not within the bounds of what the machine reads has a text all the same, and reading
this text stops at a bound (`read_write_of_not_fits`).  What stands before the first part beyond the
bounds is read back, so the reader comes to it.
-/
import Mathlib.Tactic.Lemma
import PhpCatalog.Proofs.Json.RoundTrip

namespace PhpCatalog.Json

variable {m : Machine} {layout : Layout} {depth deeper : Nat}

/-- Reading the text of a value inside `depth` arrays and objects stops at a bound, whatever follows
it. -/
def Stops (m : Machine) (layout : Layout) (depth : Nat) (j : Json) : Prop :=
  ∀ (n pos : Nat) (rest : List Char), 2 * (write layout depth j).length ≤ n → EndsNumber rest →
    ∃ l, value m n depth ⟨pos, write layout depth j ++ rest⟩ = .error (.limit l)

/-- A value takes at least one step. -/
lemma Stops.of_succ {j : Json}
    (h : ∀ (n pos : Nat) (rest : List Char), 2 * (write layout depth j).length ≤ n + 1 →
      EndsNumber rest →
        ∃ l, value m (n + 1) depth ⟨pos, write layout depth j ++ rest⟩ = .error (.limit l)) :
    Stops m layout depth j := by
  intro n pos rest hn hrest
  obtain ⟨c, more, htext, -⟩ := write_eq_cons layout depth j
  have hpos : 1 ≤ (write layout depth j).length := by simp [htext]
  obtain ⟨k, rfl⟩ : ∃ k, n = k + 1 := ⟨n - 1, by omega⟩
  exact h k pos rest hn hrest

lemma stops_int {k : Int} (h : within m.digits (writeNat k.natAbs).length = false) :
    Stops m layout depth (.int k) :=
  Stops.of_succ fun n pos _ _ hrest =>
    ⟨.digits, (value_writeInt depth k n pos hrest).trans (if_neg (by simp [h]))⟩

/-! ### Items and members -/

lemma items_of_stops {item : Json} (h : Stops m layout deeper item) {n : Nat} (pos : Nat)
    (acc : List Json) {rest : List Char} (hn : 2 * (write layout deeper item).length < n)
    (hrest : EndsNumber rest) :
    ∃ l, items m n deeper acc ⟨pos, write layout deeper item ++ rest⟩ = .error (.limit l) := by
  obtain ⟨k, rfl⟩ : ∃ k, n = k + 1 := ⟨n - 1, by omega⟩
  obtain ⟨l, hl⟩ := h k pos rest (by omega) hrest
  exact ⟨l, by rw [items_succ, hl]⟩

/-- The reader comes to the first item that stops it. -/
lemma items_stop (depth : Nat) (item : Json) (others : List Json)
    (h : ∀ j ∈ item :: others, Reads m layout deeper j ∨ Stops m layout deeper j)
    (hstop : ∃ j ∈ item :: others, Stops m layout deeper j) (n pos : Nat) (acc : List Json)
    (rest : List Char)
    (hn : 2 * (write layout deeper item).length + 2 * (writeItems layout deeper others).length
      < n) :
    ∃ l, items m n deeper acc ⟨pos, write layout deeper item ++
      (writeItems layout deeper others ++ (tail layout depth ++ ']' :: rest))⟩ =
        .error (.limit l) := by
  induction others generalizing item n pos acc with
  | nil =>
    have hitem : Stops m layout deeper item := by simpa using hstop
    exact items_of_stops hitem pos acc (by omega) (endsNumber_items layout depth deeper [] rest)
  | cons next more ih =>
    by_cases hitem : Stops m layout deeper item
    · exact items_of_stops hitem pos acc (by omega)
        (endsNumber_items layout depth deeper (next :: more) rest)
    · obtain ⟨k, rfl⟩ : ∃ k, n = k + 1 := ⟨n - 1, by omega⟩
      have hread := (h item List.mem_cons_self).resolve_right hitem
      have hlength := length_writeItems_cons layout deeper next more
      rw [items_next hread next more pos acc _ (by omega)]
      have hlater : ∃ j ∈ next :: more, Stops m layout deeper j := by simpa [hitem] using hstop
      exact ih next (fun j hj => h j (List.mem_cons_of_mem _ hj)) hlater k _ _ (by omega)

lemma members_of_stops {name : String} {value : Json} (h : Stops m layout deeper value) {n : Nat}
    (pos : Nat) (acc : List (String × Json)) {rest : List Char}
    (hn : 2 * (memberText layout deeper name value).length < n) (hrest : EndsNumber rest) :
    ∃ l, members m n deeper acc ⟨pos, memberText layout deeper name value ++ rest⟩ =
      .error (.limit l) := by
  obtain ⟨k, rfl⟩ : ∃ k, n = k + 1 := ⟨n - 1, by omega⟩
  have hfits := length_write_le_memberText layout deeper name value
  obtain ⟨l, hl⟩ := h k (pos + (writeString layout.ascii name).length + 1 + 1) rest (by omega) hrest
  exact ⟨l, by rw [members_memberText, hl]⟩

/-- The reader comes to the first member with a value that stops it. -/
lemma members_stop (depth : Nat) (member : String × Json) (others : List (String × Json))
    (h : ∀ e ∈ member :: others, Reads m layout deeper e.2 ∨ Stops m layout deeper e.2)
    (hstop : ∃ e ∈ member :: others, Stops m layout deeper e.2) (n pos : Nat)
    (acc : List (String × Json)) (rest : List Char)
    (hn : 2 * (memberText layout deeper member.1 member.2).length +
      2 * (writeMembers layout deeper others).length < n) :
    ∃ l, members m n deeper acc ⟨pos, memberText layout deeper member.1 member.2 ++
      (writeMembers layout deeper others ++ (tail layout depth ++ '}' :: rest))⟩ =
        .error (.limit l) := by
  induction others generalizing member n pos acc with
  | nil =>
    have hmember : Stops m layout deeper member.2 := by simpa using hstop
    exact members_of_stops hmember pos acc (by omega)
      (endsNumber_members layout depth deeper [] rest)
  | cons next more ih =>
    by_cases hmember : Stops m layout deeper member.2
    · exact members_of_stops hmember pos acc (by omega)
        (endsNumber_members layout depth deeper (next :: more) rest)
    · obtain ⟨k, rfl⟩ : ∃ k, n = k + 1 := ⟨n - 1, by omega⟩
      have hread := (h member List.mem_cons_self).resolve_right hmember
      have hfits := length_write_le_memberText layout deeper member.1 member.2
      have hlength := length_writeMembers_cons layout deeper next more
      rw [members_next member.1 hread next more pos acc _ (by omega)]
      have hlater : ∃ e ∈ next :: more, Stops m layout deeper e.2 := by simpa [hmember] using hstop
      exact ih next (fun e he => h e (List.mem_cons_of_mem _ he)) hlater k _ _ (by omega)

/-! ### Values -/

/-- An array stops the reader if there is no room for it, or if one of its items does. -/
lemma stops_arr {items : List Json}
    (h : ∀ j ∈ items, Reads m layout (depth + 1) j ∨ Stops m layout (depth + 1) j)
    (hstop : within m.reading (depth + 1) = true → ∃ j ∈ items, Stops m layout (depth + 1) j) :
    Stops m layout depth (.arr items) := by
  refine Stops.of_succ fun n pos rest hn _ => ?_
  by_cases hroom : within m.reading (depth + 1) = true
  · cases items with
    | nil => simpa using hstop hroom
    | cons item others =>
      have hlength := length_write_arr layout depth item others
      obtain ⟨l, hl⟩ := items_stop depth item others h (hstop hroom) n
        (pos + 1 + (lead layout true (depth + 1)).length) [] rest (by omega)
      exact ⟨l, by rw [value_arr hroom, hl]; rfl⟩
  · refine ⟨.nesting, ?_⟩
    cases items <;> exact (value_bracket n depth pos _).trans (if_neg hroom)

/-- An object stops the reader if there is no room for it, or if the value of a member does. -/
lemma stops_obj {members : List (String × Json)}
    (h : ∀ e ∈ members, Reads m layout (depth + 1) e.2 ∨ Stops m layout (depth + 1) e.2)
    (hstop : within m.reading (depth + 1) = true →
      ∃ e ∈ members, Stops m layout (depth + 1) e.2) :
    Stops m layout depth (.obj members) := by
  refine Stops.of_succ fun n pos rest hn _ => ?_
  by_cases hroom : within m.reading (depth + 1) = true
  · cases members with
    | nil => simpa using hstop hroom
    | cons member others =>
      have hlength := length_write_obj layout depth member others
      obtain ⟨l, hl⟩ := members_stop depth member others h (hstop hroom) n
        (pos + 1 + (lead layout true (depth + 1)).length) [] rest (by omega)
      exact ⟨l, by rw [value_obj hroom, hl]; rfl⟩
  · refine ⟨.nesting, ?_⟩
    cases members <;> exact (value_brace n depth pos _).trans (if_neg hroom)

theorem stops_write {j : Json} (h : WellFormed j) (layout : Layout) {depth : Nat}
    (hfits : ¬ Fits m.digits m.reading depth j) (hheld : m.Holds j) : Stops m layout depth j := by
  induction h generalizing depth with
  | int n =>
    rw [fits_iff_of_leaf (by simp) (by simp)] at hfits
    exact stops_int (by simpa [Allowed] using hfits)
  | arr each ih =>
    refine stops_arr (fun j hj => ?_) fun hroom => ?_
    · by_cases hj' : Fits m.digits m.reading (depth + 1) j
      · exact Or.inl (reads_write (each j hj) layout hj' (hheld.item hj))
      · exact Or.inr (ih j hj hj' (hheld.item hj))
    · rw [fits_arr_iff, not_and, Classical.not_forall] at hfits
      obtain ⟨j, hj⟩ := hfits hroom
      rw [Classical.not_imp] at hj
      exact ⟨j, hj.1, ih j hj.1 hj.2 (hheld.item hj.1)⟩
  | obj names each ih =>
    refine stops_obj (fun e he => ?_) fun hroom => ?_
    · by_cases he' : Fits m.digits m.reading (depth + 1) e.2
      · exact Or.inl (reads_write (each e he) layout he' (hheld.member he))
      · exact Or.inr (ih e he he' (hheld.member he))
    · rw [fits_obj_iff, not_and, Classical.not_forall] at hfits
      obtain ⟨e, he⟩ := hfits hroom
      rw [Classical.not_imp] at he
      exact ⟨e, he.1, ih e he.1 he.2 (hheld.member he.1)⟩
  | _ =>
    rw [fits_iff_of_leaf (by simp) (by simp)] at hfits
    exact absurd trivial hfits

/-- The text of a value beyond the bounds, with anything behind it that ends a number, stops the
reader at a bound. -/
theorem read_write_of_not_fits {j : Json} (h : WellFormed j)
    (hfits : ¬ Fits m.digits m.reading 0 j) (hheld : m.Holds j) (layout : Layout) {rest : List Char}
    (hrest : EndsNumber rest) : ∃ l, m.read (write layout 0 j ++ rest) = .error (.limit l) := by
  have hsteps : 2 * (write layout 0 j).length ≤ 2 * (write layout 0 j ++ rest).length + 2 := by
    rw [List.length_append]
    omega
  obtain ⟨l, hstop⟩ := stops_write h layout hfits hheld _ 0 rest hsteps hrest
  have hstart := skipSpace_of_noSpace 0 (noSpace_write layout 0 j rest)
  obtain ⟨c, more, htext, hopens⟩ := write_eq_cons layout 0 j
  refine ⟨l, ?_⟩
  rw [Machine.read]
  · simp only [hstart, hstop]
  · intro more heq
    rw [htext] at heq
    exact hopens.noMark (List.cons.inj heq).1

end PhpCatalog.Json
