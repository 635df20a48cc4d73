/-
# The canonical text of a value

The canonical text is that of the value with its members in order, in plain characters only.  So it
is read back as this value (`read_canonical`), and putting members in order changes nothing that
can be looked up (`get?_sortKeys`), nor whether the value is within bounds (`fits_sortKeys_iff`).
-/
import Mathlib.Tactic.Lemma
import PhpCatalog.Proofs.Json.Characters
import PhpCatalog.Proofs.Json.Stopping

namespace PhpCatalog.Json

/-! ### Members in order -/

lemma sortKeysItems_eq_map (items : List Json) : sortKeysItems items = items.map sortKeys := by
  induction items with
  | nil => rfl
  | cons j rest ih => rw [sortKeysItems, ih, List.map_cons]

lemma sortKeysMembers_eq_map (members : List (String × Json)) :
    sortKeysMembers members = members.map fun m => (m.1, sortKeys m.2) := by
  induction members with
  | nil => rfl
  | cons m rest ih => rw [sortKeysMembers, ih, List.map_cons]

lemma sortKeys_arr (items : List Json) : sortKeys (.arr items) = .arr (items.map sortKeys) := by
  rw [sortKeys, sortKeysItems_eq_map]

/-- Putting the members of an object in order moves them and puts those of their values in order. -/
lemma sortKeys_obj (members : List (String × Json)) :
    ∃ sorted, sortKeys (.obj members) = .obj sorted ∧
      sorted.Perm (members.map fun m => (m.1, sortKeys m.2)) := by
  refine ⟨_, by rw [sortKeys, sortKeysMembers_eq_map], List.mergeSort_perm _ _⟩

theorem wellFormed_sortKeys {j : Json} (h : WellFormed j) : WellFormed j.sortKeys := by
  induction h with
  | null => exact .null
  | bool b => exact .bool b
  | int n => exact .int n
  | decimal parts => exact .decimal parts
  | nan => exact .nan
  | infinity negative => exact .infinity negative
  | str s => exact .str s
  | arr each ih =>
    rw [sortKeys_arr]
    refine .arr fun j hj => ?_
    obtain ⟨item, hitem, rfl⟩ := List.mem_map.mp hj
    exact ih item hitem
  | obj names each ih =>
    rename_i members
    obtain ⟨sorted, heq, hperm⟩ := sortKeys_obj members
    rw [heq]
    refine .obj ?_ fun m hm => ?_
    · rw [(hperm.map Prod.fst).nodup_iff, List.map_map]
      exact names
    · obtain ⟨member, hmember, rfl⟩ := List.mem_map.mp (hperm.subset hm)
      exact ih member hmember

/-! ### Bounds -/

/-- The order of members makes no difference to the bounds. -/
theorem fits_sortKeys_iff {digits nesting : Option Nat} {depth : Nat} {j : Json}
    (h : WellFormed j) :
    Fits digits nesting depth j.sortKeys ↔ Fits digits nesting depth j := by
  induction h generalizing depth with
  | arr each ih =>
    rw [sortKeys_arr, fits_arr_iff, fits_arr_iff, List.forall_mem_map]
    exact and_congr_right fun _ => forall₂_congr fun j hj => ih j hj
  | obj names each ih =>
    rename_i members
    obtain ⟨sorted, heq, hperm⟩ := sortKeys_obj members
    rw [heq, fits_obj_iff, fits_obj_iff]
    simp only [hperm.mem_iff, List.forall_mem_map]
    exact and_congr_right fun _ => forall₂_congr fun e he => ih e he
  | _ => exact Iff.rfl

lemma Machine.Holds.sortKeys {m : Machine} {j : Json} (hj : WellFormed j) (h : m.Holds j) :
    m.Holds j.sortKeys := by
  induction hj with
  | arr each ih =>
    rw [sortKeys_arr, holds_arr_iff, List.forall_mem_map]
    exact fun j hj => ih j hj (h.item hj)
  | obj names each ih =>
    rename_i members
    obtain ⟨sorted, heq, hperm⟩ := sortKeys_obj members
    rw [heq, holds_obj_iff]
    simp only [hperm.mem_iff, List.forall_mem_map]
    exact fun e he => ih e he (h.member he)
  | _ => exact h

/-! ### Members by name -/

lemma lookup_eq_some_iff {members : List (String × Json)} (h : (members.map Prod.fst).Nodup)
    {name : String} {j : Json} : lookup name members = some j ↔ (name, j) ∈ members := by
  induction members with
  | nil => simp [lookup]
  | cons first rest ih =>
    obtain ⟨k, value⟩ := first
    rw [List.map_cons, List.nodup_cons] at h
    by_cases hk : k = name
    · subst hk
      have hnot : (k, j) ∉ rest := fun hmem => h.1 (List.mem_map.mpr ⟨_, hmem, rfl⟩)
      simp [lookup, hnot, eq_comm]
    · simp [lookup, hk, Ne.symm hk, ih h.2]

lemma lookup_congr {members others : List (String × Json)} (hperm : members.Perm others)
    (h : (others.map Prod.fst).Nodup) (name : String) :
    lookup name members = lookup name others := by
  have hmembers : (members.map Prod.fst).Nodup := (hperm.map Prod.fst).nodup_iff.mpr h
  refine Option.ext fun j => ?_
  rw [lookup_eq_some_iff hmembers, lookup_eq_some_iff h, hperm.mem_iff]

lemma lookup_map_sortKeys (name : String) (members : List (String × Json)) :
    lookup name (members.map fun m => (m.1, sortKeys m.2)) =
      (lookup name members).map sortKeys := by
  induction members with
  | nil => rfl
  | cons m rest ih =>
    obtain ⟨k, value⟩ := m
    by_cases hk : k = name
    · simp [lookup, hk]
    · simp [lookup, hk, ih]

/-- A member of a value in order is the member of the value, in order. -/
theorem get?_sortKeys {j : Json} (h : WellFormed j) (name : String) :
    j.sortKeys.get? name = (j.get? name).map sortKeys := by
  cases h with
  | obj names each =>
    rename_i members
    obtain ⟨sorted, heq, hperm⟩ := sortKeys_obj members
    have hnames : ((members.map fun m => (m.1, sortKeys m.2)).map Prod.fst).Nodup := by
      rwa [List.map_map]
    rw [heq, get?, get?, lookup_congr hperm hnames, lookup_map_sortKeys]
  | _ => simp [sortKeys, get?]

/-! ### The text -/

lemma isPlain_hexDigit {d : Nat} (h : d < 16) : isPlain (Text.hexDigit d) = true := by
  have hall : ∀ d < 16, isPlain (Text.hexDigit d) = true := by decide
  exact hall d h

lemma isPlain_of_mem_escapeUnit {n : Nat} {c : Char} (h : c ∈ escapeUnit n) : isPlain c = true := by
  have hmod : ∀ k : Nat, k % 16 < 16 := fun k => Nat.mod_lt k (by decide)
  simp only [escapeUnit, hexDigits_four, List.mem_cons, List.not_mem_nil, or_false] at h
  rcases h with rfl | rfl | rfl | rfl | rfl | rfl
  · decide
  · decide
  all_goals exact isPlain_hexDigit (hmod _)

lemma isPlain_of_shortEscape? {e c : Char} (h : shortEscape? e = some c) : isPlain e = true := by
  unfold shortEscape? at h
  split at h
  case h_9 => cases h
  all_goals decide

/-- What is left as it is where only ASCII is allowed. -/
lemma toNat_lt_of_writeChar {c : Char} (h : writeChar true c = [c]) : c.toNat < 0x7F := by
  -- from 0x7F on there are no short escapes, and both kinds of code escapes are longer
  refine Nat.lt_of_not_le fun hge => ?_
  have hcode : ∀ d : Char, d.toNat < 0x7F → c ≠ d := by
    rintro d hd rfl
    omega
  have hquote := hcode '"' (by decide)
  have hback := hcode '\\' (by decide)
  have hfeed := hcode '\n' (by decide)
  have hreturn := hcode '\r' (by decide)
  have htab := hcode '\t' (by decide)
  have h8 : c.toNat ≠ 8 := by omega
  have h12 : c.toNat ≠ 12 := by omega
  by_cases hunit : c.toNat < 0x10000
  · have hrange : c.toNat < 0x20 ∨ 0x7F ≤ c.toNat ∧ c.toNat < 0x10000 := by omega
    simp [writeChar, hquote, hback, hfeed, hreturn, htab, h8, h12, hrange, escapeUnit] at h
  · have hrange : ¬ (c.toNat < 0x20 ∨ 0x7F ≤ c.toNat ∧ c.toNat < 0x10000) := by omega
    have hpair : 0x10000 ≤ c.toNat := by omega
    simp [writeChar, hquote, hback, hfeed, hreturn, htab, h8, h12, hrange, hpair, escapeUnit] at h

lemma isPlain_of_mem_writeChar {c d : Char} (h : d ∈ writeChar true c) : isPlain d = true := by
  rcases writeChar_cases true c with ⟨e, hw, -, he⟩ | ⟨hw, -⟩ | ⟨hw, -⟩ | ⟨hw, -, -, hle⟩
  · rw [hw, List.mem_cons, List.mem_singleton] at h
    rcases h with rfl | rfl
    · decide
    · exact isPlain_of_shortEscape? he
  · exact isPlain_of_mem_escapeUnit (hw ▸ h)
  · rw [hw, List.mem_append] at h
    rcases h with h | h
    · exact isPlain_of_mem_escapeUnit h
    · exact isPlain_of_mem_escapeUnit h
  · rw [hw, List.mem_singleton] at h
    have hlt := toNat_lt_of_writeChar hw
    simp [isPlain, h, hle, hlt]

lemma isPlain_of_mem_writeString {s : String} {c : Char} (h : c ∈ writeString true s) :
    isPlain c = true := by
  simp only [writeString, List.cons_append, List.mem_cons, List.mem_append, List.mem_flatMap,
    List.not_mem_nil, or_false] at h
  rcases h with rfl | ⟨d, -, hd⟩ | rfl
  · decide
  · exact isPlain_of_mem_writeChar hd
  · decide

/-- The canonical text is printable ASCII and line feeds. -/
theorem isPlain_of_mem_canonical {j : Json} (hj : WellFormed j) {c : Char}
    (h : c ∈ j.canonical.toList) : isPlain c = true := by
  rw [canonical, String.toList_ofList] at h
  rcases mem_write (wellFormed_sortKeys hj) h with hplain | ⟨s, hs⟩
  · exact hplain
  · exact isPlain_of_mem_writeString hs

/-- The canonical text, with white space behind it, is read as the value with its members in
order. -/
theorem read_canonical {m : Machine} {j : Json} (hj : WellFormed j)
    (hfits : Fits m.digits m.reading 0 j) (hheld : m.Holds j) {ws : List Char}
    (hws : ∀ c ∈ ws, Cursor.isSpace c = true) :
    m.read (j.canonical.toList ++ ws) = .ok j.sortKeys := by
  rw [canonical, String.toList_ofList]
  exact read_write (wellFormed_sortKeys hj) ((fits_sortKeys_iff hj).mpr hfits)
    (hheld.sortKeys hj) _ hws

theorem parse_canonical {j : Json} (hj : WellFormed j) {ws : List Char}
    (hws : ∀ c ∈ ws, Cursor.isSpace c = true) :
    parse (j.canonical.toList ++ ws) = .ok j.sortKeys :=
  read_canonical hj (fits_none 0 j) (Machine.holds_of_keep rfl j) hws

/-- The canonical text of a value beyond the bounds stops the reader at one of them. -/
theorem read_canonical_of_not_fits {m : Machine} {j : Json} (hj : WellFormed j)
    (hfits : ¬ Fits m.digits m.reading 0 j) (hheld : m.Holds j) :
    ∃ l, m.read j.canonical.toList = .error (.limit l) := by
  rw [canonical, String.toList_ofList, ← List.append_nil (write _ _ _)]
  exact read_write_of_not_fits (wellFormed_sortKeys hj) (mt (fits_sortKeys_iff hj).mp hfits)
    (hheld.sortKeys hj) _ (endsNumber_of_head (by simp))

/-- A machine prints the canonical text of the values that are within its bounds. -/
theorem canonical_eq_ok_iff {m : Machine} {j : Json} (hj : WellFormed j) {text : String} :
    m.canonical j = .ok text ↔ Fits m.digits m.writing 0 j ∧ j.canonical = text := by
  by_cases hfits : Fits m.digits m.writing 0 j
  · rw [Machine.canonical, print_of_fits ((fits_sortKeys_iff hj).mpr hfits), Except.ok.injEq]
    exact (and_iff_right hfits).symm
  · obtain ⟨l, hl⟩ := print_of_not_fits (mt (fits_sortKeys_iff hj).mp hfits) ⟨true, true⟩
    simp [Machine.canonical, hl, hfits]

end PhpCatalog.Json
