/-
# What is left of a text without terminal commands

A command is an escape character, a bracket, parameters and a letter, so none reaches over a line
feed.  Taking the commands out of a text therefore goes line by line (`plain_append_feed`), and it
neither adds a line break nor takes one away (`mem_plain_iff`).
-/
import Mathlib.Data.List.TakeWhile
import Mathlib.Tactic.Lemma
import PhpCatalog.Text.Terminal

namespace PhpCatalog.Text

/-! ### One command -/

/-- The characters of a command: the escape character, the bracket, parameters and letters. -/
def inCommand (c : Char) : Bool :=
  c == '\x1b' || c == '[' || isParameter c || c.isAlpha

lemma afterCommand?_cons_of_ne {c : Char} (h : c ≠ '\x1b') (rest : List Char) :
    afterCommand? (c :: rest) = none := by
  unfold afterCommand?
  split
  · rename_i heq
    exact absurd (List.cons.inj heq).1 h
  · rfl

/-- A command begins with the escape character and ends in a letter. -/
lemma afterCommand?_eq_some_iff {s after : List Char} :
    afterCommand? s = some after ↔
      ∃ rest c, s = '\x1b' :: '[' :: rest ∧ rest.dropWhile isParameter = c :: after ∧
        c.isAlpha = true := by
  constructor
  · intro h
    unfold afterCommand? at h
    split at h
    · next rest =>
      split at h
      · next c more hdrop =>
        by_cases hc : c.isAlpha = true
        · rw [if_pos hc] at h
          exact ⟨rest, c, rfl, Option.some.inj h ▸ hdrop, hc⟩
        · simp [hc] at h
      · cases h
    · cases h
  · rintro ⟨rest, c, rfl, hdrop, hc⟩
    simp [afterCommand?, hdrop, hc]

/-- The command itself. -/
lemma exists_command {s after : List Char} (h : afterCommand? s = some after) :
    ∃ command, command ≠ [] ∧ s = command ++ after ∧ ∀ c ∈ command, inCommand c = true := by
  obtain ⟨rest, c, rfl, hdrop, hc⟩ := afterCommand?_eq_some_iff.mp h
  refine ⟨'\x1b' :: '[' :: (rest.takeWhile isParameter ++ [c]), by simp, ?_, ?_⟩
  · have hrest : rest = rest.takeWhile isParameter ++ c :: after := by
      rw [← hdrop, List.takeWhile_append_dropWhile]
    simpa using hrest
  · intro d hd
    simp only [List.mem_cons, List.mem_append, List.not_mem_nil, or_false] at hd
    rcases hd with rfl | rfl | hd | rfl
    · decide
    · decide
    · simp [inCommand, List.mem_takeWhile_imp hd]
    · simp [inCommand, hc]

lemma length_afterCommand?_lt {s after : List Char} (h : afterCommand? s = some after) :
    after.length < s.length := by
  obtain ⟨command, hne, rfl, -⟩ := exists_command h
  rw [List.length_append]
  exact Nat.lt_add_of_pos_left (List.length_pos_iff.mpr hne)

/-- A line feed neither completes a command nor breaks one off. -/
lemma afterCommand?_append_feed {a : List Char} (ha : a ≠ []) (b : List Char) :
    afterCommand? (a ++ '\n' :: b) = (afterCommand? a).map (· ++ '\n' :: b) := by
  match a with
  | [c] =>
    by_cases hc : c = '\x1b'
    · subst hc
      rfl
    · rw [List.cons_append, afterCommand?_cons_of_ne hc, afterCommand?_cons_of_ne hc]
      rfl
  | c :: d :: rest =>
    by_cases hopens : c = '\x1b' ∧ d = '['
    · obtain ⟨rfl, rfl⟩ := hopens
      have hfeed : isParameter '\n' = false := by decide
      rcases hdrop : rest.dropWhile isParameter with _ | ⟨e, more⟩
      · simp [afterCommand?, List.dropWhile_append, hdrop, hfeed]
      · by_cases he : e.isAlpha = true <;>
          simp [afterCommand?, List.dropWhile_append, hdrop, he]
    · have hnone : ∀ more, afterCommand? (c :: d :: more) = none := by
        intro more
        rw [Option.eq_none_iff_forall_ne_some]
        intro after h
        obtain ⟨other, e, heq, -, -⟩ := afterCommand?_eq_some_iff.mp h
        simp only [List.cons.injEq] at heq
        exact hopens ⟨heq.1, heq.2.1⟩
      rw [List.cons_append, List.cons_append, hnone, hnone]
      rfl

/-! ### The whole text -/

/-- A text is empty, begins with a command, or begins with a character that stays. -/
theorem command_induction {motive : List Char → Prop} (nil : motive [])
    (command : ∀ s after, afterCommand? s = some after → motive after → motive s)
    (kept : ∀ c rest, afterCommand? (c :: rest) = none → motive rest → motive (c :: rest))
    (s : List Char) : motive s := by
  induction hlength : s.length using Nat.strongRecOn generalizing s with
  | ind k ih =>
    subst hlength
    match s with
    | [] => exact nil
    | c :: rest =>
      rcases h : afterCommand? (c :: rest) with _ | after
      · exact kept c rest h (ih rest.length (Nat.lt_succ_self _) rest rfl)
      · exact command _ after h (ih after.length (length_afterCommand?_lt h) after rfl)

/-- What is kept comes first, and the number of steps does not matter if it suffices. -/
lemma plainFrom_eq_append (s : List Char) :
    ∀ {n : Nat} (kept : List Char), s.length ≤ n →
      plainFrom n kept s = kept.reverse ++ plainFrom s.length [] s := by
  induction s using command_induction with
  | nil =>
    intro n kept _
    cases n <;> simp [plainFrom]
  | command s after h ih =>
    intro n kept hn
    have hlt := length_afterCommand?_lt h
    match s, n with
    | c :: rest, 0 => cases hn
    | c :: rest, n + 1 =>
      have hafter : after.length ≤ rest.length := Nat.le_of_lt_succ hlt
      simp only [List.length_cons, plainFrom, h]
      rw [ih kept (Nat.le_trans hafter (Nat.le_of_succ_le_succ hn)), ih [] hafter]
      simp
  | kept c rest h ih =>
    intro n kept hn
    match n with
    | 0 => cases hn
    | n + 1 =>
      simp only [List.length_cons, plainFrom, h]
      rw [ih (c :: kept) (Nat.le_of_succ_le_succ hn), ih [c] (Nat.le_refl _)]
      simp

/-- The characters of a text without terminal commands. -/
def plainChars (s : List Char) : List Char :=
  plainFrom s.length [] s

lemma toList_plain (s : String) : (plain s).toList = plainChars s.toList := by
  rw [plain, String.toList_ofList, plainChars]

lemma plainChars_of_command {s after : List Char} (h : afterCommand? s = some after) :
    plainChars s = plainChars after := by
  have hlt := length_afterCommand?_lt h
  match s with
  | c :: rest =>
    rw [plainChars, List.length_cons, plainFrom, h]
    exact plainFrom_eq_append after [] (Nat.le_of_lt_succ hlt)

lemma plainChars_cons {c : Char} {rest : List Char} (h : afterCommand? (c :: rest) = none) :
    plainChars (c :: rest) = c :: plainChars rest := by
  rw [plainChars, List.length_cons, plainFrom, h]
  exact plainFrom_eq_append rest [c] (Nat.le_refl _)

/-- A text without escape characters stays as it is. -/
lemma plain_eq_self {s : String} (h : '\x1b' ∉ s.toList) : plain s = s := by
  have hchars : ∀ {s : List Char}, '\x1b' ∉ s → plainChars s = s := by
    intro s h
    induction s with
    | nil => rfl
    | cons c rest ih =>
      rw [List.mem_cons, not_or] at h
      rw [plainChars_cons (afterCommand?_cons_of_ne (Ne.symm h.1) rest), ih h.2]
  rw [← String.toList_inj, toList_plain, hchars h]

/-- A character that no command holds stays, and none comes in. -/
lemma mem_plain_iff {d : Char} (hd : inCommand d = false) (s : String) :
    d ∈ (plain s).toList ↔ d ∈ s.toList := by
  rw [toList_plain]
  generalize s.toList = s
  induction s using command_induction with
  | nil => rfl
  | command s after h ih =>
    obtain ⟨command, -, rfl, hinside⟩ := exists_command h
    have hnot : d ∉ command := fun hmem => by simp [hinside d hmem] at hd
    rw [plainChars_of_command h, ih, List.mem_append, or_iff_right hnot]
  | kept c rest h ih => rw [plainChars_cons h, List.mem_cons, List.mem_cons, ih]

lemma plainChars_append_feed (a b : List Char) :
    plainChars (a ++ '\n' :: b) = plainChars a ++ '\n' :: plainChars b := by
  induction a using command_induction with
  | nil => exact plainChars_cons (afterCommand?_cons_of_ne (by decide) b)
  | command s after h ih =>
    have hne : s ≠ [] := by
      rintro rfl
      cases h
    have hfeed := afterCommand?_append_feed hne b
    rw [h, Option.map_some] at hfeed
    rw [plainChars_of_command hfeed, plainChars_of_command h, ih]
  | kept c rest h ih =>
    have hfeed := afterCommand?_append_feed (List.cons_ne_nil c rest) b
    rw [h, Option.map_none, List.cons_append] at hfeed
    rw [List.cons_append, plainChars_cons hfeed, plainChars_cons h, ih, List.cons_append]

/-- Commands are taken out line by line. -/
lemma plain_append_feed (a b : String) : plain (a ++ "\n" ++ b) = plain a ++ "\n" ++ plain b := by
  rw [← String.toList_inj]
  simp only [toList_plain, String.toList_append]
  rw [List.append_assoc, List.append_assoc]
  exact plainChars_append_feed a.toList b.toList

end PhpCatalog.Text
