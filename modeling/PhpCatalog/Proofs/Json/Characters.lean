/-
# The characters of a written value

The writer's own characters are printable ASCII and the line feed; anything else in a text stands
inside one of its strings (`mem_write`).
-/
import Mathlib.Tactic.Lemma
import PhpCatalog.Proofs.Json.RoundTrip

namespace PhpCatalog.Json

/-- A character that the writer itself puts into a text. -/
def isPlain (c : Char) : Bool :=
  c == '\n' || (0x20 ≤ c.toNat && c.toNat < 0x7F)

section Plain

variable {layout : Layout} {depth : Nat} {c : Char}

lemma isPlain_of_isDigit (h : c.isDigit = true) : isPlain c = true := by
  have hrange : 48 ≤ c.toNat ∧ c.toNat ≤ 57 := by
    simpa [Char.isDigit, UInt32.le_iff_toNat_le] using h
  have hprintable : 0x20 ≤ c.toNat ∧ c.toNat < 0x7F := by omega
  simp [isPlain, hprintable]

lemma isPlain_of_mem_writeNat {n : Nat} (h : c ∈ writeNat n) : isPlain c = true :=
  isPlain_of_isDigit (isDigit_of_mem_writeNat h)

lemma isPlain_of_mem_writeInt {n : Int} (h : c ∈ writeInt n) : isPlain c = true := by
  unfold writeInt at h
  split at h
  · rcases List.mem_cons.mp h with rfl | h
    · decide
    · exact isPlain_of_mem_writeNat h
  · exact isPlain_of_mem_writeNat h

lemma isPlain_of_mem_writeFraction {fraction : List (Fin 10)} (h : c ∈ writeFraction fraction) :
    isPlain c = true := by
  unfold writeFraction at h
  split at h
  · simp at h
  · rcases List.mem_cons.mp h with rfl | h
    · decide
    · obtain ⟨d, -, hd⟩ := List.mem_flatMap.mp h
      exact isPlain_of_mem_writeNat hd

lemma isPlain_of_mem_writeExponent {e : Option Int} (h : c ∈ writeExponent e) :
    isPlain c = true := by
  cases e with
  | none => simp [writeExponent] at h
  | some e =>
    rcases List.mem_cons.mp h with rfl | h
    · decide
    · exact isPlain_of_mem_writeInt h

lemma isPlain_of_mem_writeDecimal {d : Decimal} (h : c ∈ writeDecimal d) : isPlain c = true := by
  simp only [writeDecimal, List.mem_append] at h
  rcases h with ((h | h) | h) | h
  · split at h
    · rw [List.mem_singleton.mp h]
      decide
    · simp at h
  · exact isPlain_of_mem_writeNat h
  · exact isPlain_of_mem_writeFraction h
  · exact isPlain_of_mem_writeExponent h

lemma isPlain_of_mem_lead {first : Bool} (h : c ∈ lead layout first depth) :
    isPlain c = true := by
  rcases mem_lead h with rfl | rfl <;> decide

lemma isPlain_of_mem_tail (h : c ∈ tail layout depth) : isPlain c = true := by
  rcases mem_tail h with rfl | rfl <;> decide

lemma mem_writeItems {items : List Json} (h : c ∈ writeItems layout depth items) :
    isPlain c = true ∨ ∃ j ∈ items, c ∈ write layout depth j := by
  induction items with
  | nil => simp [writeItems] at h
  | cons item others ih =>
    simp only [writeItems_cons, List.mem_append, List.mem_cons] at h
    rcases h with ((rfl | h) | h) | h
    · exact Or.inl (by decide)
    · exact Or.inl (isPlain_of_mem_lead h)
    · exact Or.inr ⟨item, List.mem_cons_self, h⟩
    · rcases ih h with hplain | ⟨j, hj, hc⟩
      · exact Or.inl hplain
      · exact Or.inr ⟨j, List.mem_cons_of_mem _ hj, hc⟩

lemma mem_memberText {name : String} {value : Json} (h : c ∈ memberText layout depth name value) :
    isPlain c = true ∨ c ∈ writeString layout.ascii name ∨ c ∈ write layout depth value := by
  simp only [memberText, List.mem_append, List.mem_cons] at h
  rcases h with h | rfl | rfl | h
  · exact Or.inr (Or.inl h)
  · exact Or.inl (by decide)
  · exact Or.inl (by decide)
  · exact Or.inr (Or.inr h)

lemma mem_writeMembers {members : List (String × Json)}
    (h : c ∈ writeMembers layout depth members) :
    isPlain c = true ∨ ∃ m ∈ members, c ∈ memberText layout depth m.1 m.2 := by
  induction members with
  | nil => simp [writeMembers] at h
  | cons member others ih =>
    obtain ⟨name, value⟩ := member
    simp only [writeMembers_memberText, List.mem_append, List.mem_cons] at h
    rcases h with ((rfl | h) | h) | h
    · exact Or.inl (by decide)
    · exact Or.inl (isPlain_of_mem_lead h)
    · exact Or.inr ⟨(name, value), List.mem_cons_self, h⟩
    · rcases ih h with hplain | ⟨m, hm, hc⟩
      · exact Or.inl hplain
      · exact Or.inr ⟨m, List.mem_cons_of_mem _ hm, hc⟩

lemma mem_write_arr {items : List Json} (h : c ∈ write layout depth (.arr items)) :
    isPlain c = true ∨ ∃ j ∈ items, c ∈ write layout (depth + 1) j := by
  cases items with
  | nil =>
    have hbrackets : ['[', ']'].all isPlain = true := by decide
    exact Or.inl (List.all_eq_true.mp hbrackets c h)
  | cons item others =>
    simp only [write_arr_cons, List.mem_append, List.mem_cons, List.not_mem_nil, or_false] at h
    rcases h with ((((rfl | h) | h) | h) | h) | rfl
    · exact Or.inl (by decide)
    · exact Or.inl (isPlain_of_mem_lead h)
    · exact Or.inr ⟨item, List.mem_cons_self, h⟩
    · rcases mem_writeItems h with hplain | ⟨j, hj, hc⟩
      · exact Or.inl hplain
      · exact Or.inr ⟨j, List.mem_cons_of_mem _ hj, hc⟩
    · exact Or.inl (isPlain_of_mem_tail h)
    · exact Or.inl (by decide)

lemma mem_write_obj {members : List (String × Json)} (h : c ∈ write layout depth (.obj members)) :
    isPlain c = true ∨ ∃ m ∈ members, c ∈ memberText layout (depth + 1) m.1 m.2 := by
  cases members with
  | nil =>
    have hbraces : ['{', '}'].all isPlain = true := by decide
    exact Or.inl (List.all_eq_true.mp hbraces c h)
  | cons member others =>
    obtain ⟨name, value⟩ := member
    simp only [write_obj_memberText, List.mem_append, List.mem_cons, List.not_mem_nil, or_false]
      at h
    rcases h with ((((rfl | h) | h) | h) | h) | rfl
    · exact Or.inl (by decide)
    · exact Or.inl (isPlain_of_mem_lead h)
    · exact Or.inr ⟨(name, value), List.mem_cons_self, h⟩
    · rcases mem_writeMembers h with hplain | ⟨m, hm, hc⟩
      · exact Or.inl hplain
      · exact Or.inr ⟨m, List.mem_cons_of_mem _ hm, hc⟩
    · exact Or.inl (isPlain_of_mem_tail h)
    · exact Or.inl (by decide)

/-- A character of a text is the writer's own or stands in a string. -/
theorem mem_write {j : Json} (hj : WellFormed j) (h : c ∈ write layout depth j) :
    isPlain c = true ∨ ∃ s, c ∈ writeString layout.ascii s := by
  have hwords : ∀ word ∈ ["null", "true", "false", "NaN", "Infinity", "-Infinity"],
      word.toList.all isPlain = true := by decide
  have hword : ∀ {word : String}, word.toList.all isPlain = true → c ∈ word.toList →
      isPlain c = true ∨ ∃ s, c ∈ writeString layout.ascii s :=
    fun hall hc => Or.inl (List.all_eq_true.mp hall c hc)
  induction hj generalizing depth with
  | null => exact hword (hwords "null" (by decide)) h
  | bool b =>
    cases b with
    | false => exact hword (hwords "false" (by decide)) h
    | true => exact hword (hwords "true" (by decide)) h
  | int n => exact Or.inl (isPlain_of_mem_writeInt h)
  | decimal _ => exact Or.inl (isPlain_of_mem_writeDecimal h)
  | nan => exact hword (hwords "NaN" (by decide)) h
  | infinity negative =>
    cases negative with
    | false => exact hword (hwords "Infinity" (by decide)) h
    | true => exact hword (hwords "-Infinity" (by decide)) h
  | str s => exact Or.inr ⟨s, h⟩
  | arr _ ih =>
    rcases mem_write_arr h with hplain | ⟨j, hj, hc⟩
    · exact Or.inl hplain
    · exact ih j hj hc
  | obj _ _ ih =>
    rcases mem_write_obj h with hplain | ⟨m, hm, hc⟩
    · exact Or.inl hplain
    · rcases mem_memberText hc with hplain | hname | hvalue
      · exact Or.inl hplain
      · exact Or.inr ⟨m.1, hname⟩
      · exact ih m hm hvalue

end Plain

end PhpCatalog.Json
