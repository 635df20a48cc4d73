/-
# Values up to the order of members

Two values are the `Same` if they differ at most in the order of the members of their objects, at
any depth.  Putting all members in order decides this (`sortKeys_eq_iff`), since the names of an
object differ and there is only one order for them.  Together with the reader this makes the
canonical text a name for the value: values have one text exactly if they are the same, and the text
is read back as the same value (`canonical_faithful`).

A machine has no text for a value beyond its bounds, and these exist for any bounds: a power of ten
has one digit more than its exponent (`overrun?_tenPower`), and arrays can be nested to any depth
(`overrun?_nested`).
-/
import Mathlib.Algebra.Group.Int.Defs
import Mathlib.Algebra.Group.Nat.Defs
import Mathlib.Data.List.Nodup
import PhpCatalog.Proofs.Json.Canonical

namespace PhpCatalog.Json

/-- Values that are equal but for the order of members.  Arrays have the same items in turn; objects
have the same names, and the same values for them. -/
inductive Same : Json → Json → Prop where
  | refl (j : Json) : Same j j
  | arr {items others : List Json} (length : items.length = others.length)
      (each : ∀ (i : Nat) j k, items[i]? = some j → others[i]? = some k → Same j k) :
      Same (.arr items) (.arr others)
  | obj {members others : List (String × Json)}
      (names : ∀ name, (lookup name members).isSome = (lookup name others).isSome)
      (each : ∀ name j k, lookup name members = some j → lookup name others = some k → Same j k) :
      Same (.obj members) (.obj others)

/-! ### One order for the members of an object -/

lemma pairwise_mergeSort_names (members : List (String × Json)) :
    (members.mergeSort fun a b => !decide (b.1 < a.1)).Pairwise fun a b => a.1 ≤ b.1 := by
  have hle : ∀ a b : String, (!decide (b < a)) = true ↔ a ≤ b := by
    intro a b
    rw [Bool.not_eq_true', decide_eq_false_iff_not, String.not_lt]
  have htrans : ∀ a b c : String × Json, (!decide (b.1 < a.1)) = true →
      (!decide (c.1 < b.1)) = true → (!decide (c.1 < a.1)) = true := by
    intro a b c hab hbc
    rw [hle] at hab hbc ⊢
    exact String.le_trans hab hbc
  have htotal : ∀ a b : String × Json, ((!decide (b.1 < a.1)) || !decide (a.1 < b.1)) = true := by
    intro a b
    rw [Bool.or_eq_true, hle, hle]
    exact String.le_total a.1 b.1
  exact (List.pairwise_mergeSort htrans htotal members).imp fun h => (hle _ _).mp h

/-- Members with different names are put in one order, wherever they stood. -/
lemma mergeSort_names_congr {members others : List (String × Json)} (hperm : members.Perm others)
    (hnames : (others.map Prod.fst).Nodup) :
    members.mergeSort (fun a b => !decide (b.1 < a.1)) =
      others.mergeSort fun a b => !decide (b.1 < a.1) := by
  have hmembers := List.mergeSort_perm members fun a b => !decide (b.1 < a.1)
  have hothers := List.mergeSort_perm others fun a b => !decide (b.1 < a.1)
  refine ((hmembers.trans hperm).trans hothers.symm).eq_of_pairwise ?_
    (pairwise_mergeSort_names members) (pairwise_mergeSort_names others)
  intro a b ha hb hab hba
  exact List.inj_on_of_nodup_map hnames ((hmembers.trans hperm).subset ha) (hothers.subset hb)
    (String.le_antisymm hab hba)

/-! ### Members in order decide -/

/-- Values that may be missing are equal in order if both are missing, or both are there and are
equal in order. -/
lemma map_sortKeys_eq_iff {o o' : Option Json} :
    o.map sortKeys = o'.map sortKeys ↔
      o.isSome = o'.isSome ∧ ∀ j k, o = some j → o' = some k → j.sortKeys = k.sortKeys := by
  cases o <;> cases o' <;> simp

lemma sortKeys_arr_eq_iff {items others : List Json} :
    sortKeys (.arr items) = sortKeys (.arr others) ↔ items.length = others.length ∧
      ∀ (i : Nat) j k, items[i]? = some j → others[i]? = some k → j.sortKeys = k.sortKeys := by
  rw [sortKeys_arr, sortKeys_arr, Json.arr.injEq]
  constructor
  · intro h
    refine ⟨by simpa using congrArg List.length h, fun i => ?_⟩
    have hitem : items[i]?.map sortKeys = others[i]?.map sortKeys := by
      rw [← List.getElem?_map, h, List.getElem?_map]
    exact (map_sortKeys_eq_iff.mp hitem).2
  · rintro ⟨hlength, h⟩
    refine List.ext_getElem? fun i => ?_
    rw [List.getElem?_map, List.getElem?_map]
    have hsome : items[i]?.isSome = others[i]?.isSome := by
      rw [Bool.eq_iff_iff, isSome_getElem?, isSome_getElem?, hlength]
    exact map_sortKeys_eq_iff.mpr ⟨hsome, h i⟩

/-- An object in order has the names of the object, and the values for them in order. -/
lemma sortKeys_obj_eq_iff {members others : List (String × Json)}
    (hmembers : WellFormed (.obj members)) (hothers : WellFormed (.obj others)) :
    sortKeys (.obj members) = sortKeys (.obj others) ↔
      (∀ name, (lookup name members).isSome = (lookup name others).isSome) ∧
      ∀ name j k, lookup name members = some j → lookup name others = some k →
        j.sortKeys = k.sortKeys := by
  rw [← forall_and]
  simp only [← map_sortKeys_eq_iff]
  constructor
  · intro h name
    have hmember := get?_sortKeys hmembers name
    rw [h, get?_sortKeys hothers name] at hmember
    exact hmember.symm
  · intro h
    have hnames : ∀ {members : List (String × Json)}, WellFormed (.obj members) →
        ((members.map fun m => (m.1, sortKeys m.2)).map Prod.fst).Nodup := by
      intro members h
      cases h with | obj names each => rwa [List.map_map]
    have hperm : (members.map fun m => (m.1, sortKeys m.2)).Perm
        (others.map fun m => (m.1, sortKeys m.2)) := by
      refine (List.perm_ext_iff_of_nodup (hnames hmembers).of_map (hnames hothers).of_map).mpr ?_
      rintro ⟨name, j⟩
      rw [← lookup_eq_some_iff (hnames hmembers), ← lookup_eq_some_iff (hnames hothers),
        lookup_map_sortKeys, lookup_map_sortKeys, h name]
    rw [sortKeys, sortKeys, sortKeysMembers_eq_map, sortKeysMembers_eq_map,
      mergeSort_names_congr hperm (hnames hothers)]

/-- A value of an object is well formed. -/
lemma wellFormed_of_lookup {members : List (String × Json)} (h : WellFormed (.obj members))
    {name : String} {j : Json} (hj : lookup name members = some j) : WellFormed j := by
  cases h with | obj names each => exact each _ ((lookup_eq_some_iff names).mp hj)

lemma Same.sortKeys_eq {a b : Json} (h : Same a b) (ha : WellFormed a) (hb : WellFormed b) :
    a.sortKeys = b.sortKeys := by
  induction h with
  | refl j => rfl
  | arr length each ih =>
    cases ha with | arr hitems =>
    cases hb with | arr hothers =>
    refine sortKeys_arr_eq_iff.mpr ⟨length, fun i j k hj hk => ?_⟩
    exact ih i j k hj hk (hitems j (List.mem_of_getElem? hj)) (hothers k (List.mem_of_getElem? hk))
  | obj names each ih =>
    refine (sortKeys_obj_eq_iff ha hb).mpr ⟨names, fun name j k hj hk => ?_⟩
    exact ih name j k hj hk (wellFormed_of_lookup ha hj) (wellFormed_of_lookup hb hk)

lemma same_of_sortKeys_eq {a b : Json} (ha : WellFormed a) (hb : WellFormed b)
    (h : a.sortKeys = b.sortKeys) : Same a b := by
  induction ha generalizing b with
  | arr hitems ih =>
    cases hb with
    | arr hothers =>
      obtain ⟨hlength, heach⟩ := sortKeys_arr_eq_iff.mp h
      refine .arr hlength fun i j k hj hk => ?_
      exact ih j (List.mem_of_getElem? hj) (hothers k (List.mem_of_getElem? hk)) (heach i j k hj hk)
    | _ => simp [sortKeys] at h
  | obj names hmembers ih =>
    cases b with
    | obj others =>
      obtain ⟨hnames, heach⟩ := (sortKeys_obj_eq_iff (.obj names hmembers) hb).mp h
      refine .obj hnames fun name j k hj hk => ?_
      exact ih _ ((lookup_eq_some_iff names).mp hj) (wellFormed_of_lookup hb hk)
        (heach name j k hj hk)
    | _ => simp [sortKeys] at h
  | _ =>
    -- a scalar is what only itself is in order
    cases b <;> simp_all [sortKeys, Same.refl]

/-- Values are the same exactly if they are equal in order. -/
theorem sortKeys_eq_iff {a b : Json} (ha : WellFormed a) (hb : WellFormed b) :
    a.sortKeys = b.sortKeys ↔ Same a b :=
  ⟨same_of_sortKeys_eq ha hb, fun h => h.sortKeys_eq ha hb⟩

/-- Putting members in order changes nothing else. -/
lemma same_sortKeys {j : Json} (h : WellFormed j) : Same j.sortKeys j := by
  induction h with
  | arr each ih =>
    rw [sortKeys_arr]
    refine .arr (by simp) fun i j k hj hk => ?_
    rw [List.getElem?_map, hk] at hj
    obtain rfl : k.sortKeys = j := Option.some.inj hj
    exact ih k (List.mem_of_getElem? hk)
  | obj names each ih =>
    rename_i members
    obtain ⟨sorted, heq, -⟩ := sortKeys_obj members
    have hlookup : ∀ name, lookup name sorted = (lookup name members).map sortKeys := by
      intro name
      have hmember := get?_sortKeys (.obj names each) name
      rwa [heq] at hmember
    rw [heq]
    refine .obj (fun name => by simp [hlookup]) fun name j k hj hk => ?_
    rw [hlookup, hk] at hj
    obtain rfl : k.sortKeys = j := Option.some.inj hj
    exact ih _ ((lookup_eq_some_iff names).mp hk)
  | _ => exact .refl _

/-! ### The canonical text -/

/-- The same values are within the same bounds. -/
lemma Same.fits_iff {a b : Json} (h : Same a b) (ha : WellFormed a) (hb : WellFormed b)
    (digits nesting : Option Nat) : Fits digits nesting 0 a ↔ Fits digits nesting 0 b := by
  rw [← fits_sortKeys_iff ha, h.sortKeys_eq ha hb, fits_sortKeys_iff hb]

lemma canonical_eq_iff {a b : Json} (ha : WellFormed a) (hb : WellFormed b) :
    a.canonical = b.canonical ↔ Same a b := by
  have hread : ∀ {j : Json}, WellFormed j → parse j.canonical.toList = .ok j.sortKeys := by
    intro j hj
    simpa using parse_canonical hj (show ∀ c ∈ [], Cursor.isSpace c = true by simp)
  rw [← sortKeys_eq_iff ha hb]
  constructor
  · intro h
    have htext := hread ha
    rw [h, hread hb] at htext
    exact (Except.ok.inj htext).symm
  · intro h
    rw [canonical, canonical, h]

lemma toNat_lt_of_mem_canonical {j : Json} (hj : WellFormed j) {c : Char}
    (h : c ∈ j.canonical.toList) : c.toNat < 128 := by
  have hplain := isPlain_of_mem_canonical hj h
  simp only [isPlain, Bool.or_eq_true, beq_iff_eq, Bool.and_eq_true, decide_eq_true_eq] at hplain
  rcases hplain with rfl | hprintable
  · decide
  · omega

/-- **The canonical text stands for the value.**  A machine has one for the values within its
bounds, and for no others.  Two values have one text exactly if they are the same but for the order
of members; the text has only characters of ASCII; and reading it gives back the same value, or
stops at a bound if the value is beyond those of the reader. -/
theorem canonical_faithful {m : Machine} {a b : Json} (ha : WellFormed a) (hb : WellFormed b) :
    ((∃ text, m.canonical a = .ok text) ↔ Fits m.digits m.writing 0 a) ∧
    ∀ text, m.canonical a = .ok text →
      (m.canonical b = .ok text ↔ Same a b) ∧
      (∀ c ∈ text.toList, c.toNat < 128) ∧
      (Fits m.digits m.reading 0 a → m.Holds a →
        ∃ j, m.read text.toList = .ok j ∧ WellFormed j ∧ Same j a) ∧
      (¬ Fits m.digits m.reading 0 a → m.Holds a →
        ∃ l, m.read text.toList = .error (.limit l)) := by
  refine ⟨by simp [canonical_eq_ok_iff ha], ?_⟩
  intro text htext
  obtain ⟨hfits, rfl⟩ := (canonical_eq_ok_iff ha).mp htext
  refine ⟨?_, fun c => toNat_lt_of_mem_canonical ha, fun hread hheld => ?_,
    read_canonical_of_not_fits ha⟩
  · rw [canonical_eq_ok_iff hb, eq_comm, canonical_eq_iff ha hb]
    exact and_iff_right_of_imp fun h => (h.fits_iff ha hb _ _).mp hfits
  · refine ⟨a.sortKeys, ?_, wellFormed_sortKeys ha, same_sortKeys ha⟩
    simpa using read_canonical ha hread hheld (show ∀ c ∈ [], Cursor.isSpace c = true by simp)

/-- Two members, in either order. -/
lemma same_pair {name other : String} (h : name ≠ other) {a b a' b' : Json} (ha : Same a a')
    (hb : Same b b') : Same (.obj [(name, a), (other, b)]) (.obj [(other, b'), (name, a')]) := by
  have hlookup : ∀ {key j k}, lookup key [(name, a), (other, b)] = some j →
      lookup key [(other, b'), (name, a')] = some k →
      (key = name ∧ j = a ∧ k = a') ∨ (key = other ∧ j = b ∧ k = b') := by
    grind [lookup]
  refine .obj (fun key => by grind [lookup]) fun key j k hj hk => ?_
  obtain ⟨-, rfl, rfl⟩ | ⟨-, rfl, rfl⟩ := hlookup hj hk
  · exact ha
  · exact hb

lemma wellFormed_pair {name other : String} (h : name ≠ other) {a b : Json} (ha : WellFormed a)
    (hb : WellFormed b) : WellFormed (.obj [(name, a), (other, b)]) :=
  .obj (by simpa using h) (by simp [ha, hb])

/-- An object with members out of order at two depths. -/
def shuffled : Json :=
  .obj [("b", .arr [.int (-10000000000000000000), .obj [("é", .str "😀"), ("a", .null)]]),
    ("a", .obj [])]

/-- The same object with its members in order. -/
def arranged : Json :=
  .obj [("a", .obj []),
    ("b", .arr [.int (-10000000000000000000), .obj [("a", .null), ("é", .str "😀")]])]

theorem canonical_shuffled :
    ∃ text, Machine.canonical {} shuffled = .ok text ∧
      Machine.canonical {} arranged = .ok text ∧
      Machine.canonical {} (.obj []) ≠ .ok text ∧
      ∃ j, Machine.read {} text.toList = .ok j ∧ Same j shuffled := by
  have hempty : WellFormed (.obj []) := .obj (by simp) (by simp)
  have hshuffled : WellFormed shuffled :=
    wellFormed_pair (by decide)
      (.arr (by simpa using ⟨.int _, wellFormed_pair (by decide) (.str _) .null⟩)) hempty
  have harranged : WellFormed arranged :=
    wellFormed_pair (by decide) hempty
      (.arr (by simpa using ⟨.int _, wellFormed_pair (by decide) .null (.str _)⟩))
  have hsame : Same shuffled arranged := by
    refine same_pair (by decide) (.arr rfl fun i j k hj hk => ?_) (.refl _)
    match i with
    | 0 =>
      obtain rfl : j = k := Option.some.inj (hj.symm.trans hk)
      exact .refl j
    | 1 =>
      obtain rfl := Option.some.inj hj
      obtain rfl := Option.some.inj hk
      exact same_pair (by decide) (.refl _) (.refl _)
    | i + 2 => simp at hj
  have hfits : Fits (some 4300) (some 992) 0 shuffled :=
    (overrun?_eq_none_iff (m := {})).mp (by decide +kernel)
  obtain ⟨text, htext⟩ := (canonical_faithful (m := {}) hshuffled harranged).1.mpr hfits
  have hordered := (canonical_faithful (m := {}) hshuffled harranged).2 text htext
  have hother := (canonical_faithful (m := {}) hshuffled hempty).2 text htext
  obtain ⟨j, hread, -, hj⟩ := hordered.2.2.1 hfits (Machine.holds_of_keep rfl _)
  refine ⟨text, htext, hordered.1.mpr hsame, fun h => ?_, j, hread, hj⟩
  cases hother.1.mp h with
  | obj names each => exact absurd (names "a") (by decide)

/-! ### Values that are too big -/

/-- A power of ten has more digits than its exponent. -/
lemma overrun?_tenPower {m : Machine} {k : Nat} (hbound : m.digits = some k) (hk : 0 < k)
    (depth : Nat) : overrun? m depth (.int (10 ^ k)) = some .digits := by
  have hlength : ¬ (writeNat (10 ^ k)).length ≤ k := by
    rw [writeNat, Nat.length_toDigits_le_iff (by decide) hk]
    exact Nat.lt_irrefl _
  simp [overrun?, hbound, Int.natAbs_pow, hlength]

/-- An empty array inside that many others. -/
def nested : Nat → Json
  | 0 => .arr []
  | n + 1 => .arr [nested n]

lemma wellFormed_nested (n : Nat) : WellFormed (nested n) := by
  induction n with
  | zero => exact .arr (by simp)
  | succ n ih => exact .arr (by simpa using ih)

lemma sortKeys_nested (n : Nat) : (nested n).sortKeys = nested n := by
  induction n with
  | zero => rfl
  | succ n ih => simp [nested, sortKeys_arr, ih]

lemma overrun?_nested {m : Machine} {bound depth n : Nat} (h : m.writing = some bound)
    (hdeep : bound ≤ depth + n) : overrun? m depth (nested n) = some .nesting := by
  induction n generalizing depth with
  | zero =>
    have hroom : ¬ depth + 1 ≤ bound := by omega
    simp [nested, overrun?, h, hroom]
  | succ n ih => simp [nested, overrun?, overrunItems?, h, ih (show bound ≤ depth + 1 + n by omega)]

/-- Not every value has a text: an integer may have too many digits, and arrays may be nested too
deep. -/
theorem not_canonical_of_beyond :
    (WellFormed (.int (10 ^ 4300)) ∧ Machine.canonical {} (.int (10 ^ 4300)) = .error .digits) ∧
    WellFormed (nested 992) ∧ Machine.canonical {} (nested 992) = .error .nesting := by
  refine ⟨⟨.int _, ?_⟩, wellFormed_nested 992, ?_⟩
  · change Machine.print {} _ (.int (10 ^ 4300)) = .error .digits
    rw [Machine.print, overrun?_tenPower rfl (by decide)]
  · rw [Machine.canonical, sortKeys_nested, Machine.print,
      overrun?_nested rfl (Nat.le_add_left 992 0)]

end PhpCatalog.Json
