/-
# Values within bounds

A value is within the bounds of a machine (`Fits`) if no integer in it has too many digits, and no
array or object stands inside too many others.  Writing stops at exactly the values that are not
(`overrun?_eq_none_iff`), whatever the layout.
-/
import Mathlib.Tactic.Lemma
import PhpCatalog.Json.Printer

namespace PhpCatalog.Json

/-- A value stands in another, inside that many arrays and objects of it. -/
inductive Inside : Nat → Json → Json → Prop where
  | here (j : Json) : Inside 0 j j
  | item {n : Nat} {k j : Json} {items : List Json} (mem : j ∈ items) (deep : Inside n k j) :
      Inside (n + 1) k (.arr items)
  | member {n : Nat} {k j : Json} {name : String} {members : List (String × Json)}
      (mem : (name, j) ∈ members) (deep : Inside n k j) : Inside (n + 1) k (.obj members)

/-- The bounds allow a value inside `depth` arrays and objects, whatever it holds in turn. -/
def Allowed (digits nesting : Option Nat) (depth : Nat) : Json → Prop
  | .int n => within digits (writeNat n.natAbs).length = true
  | .arr _ => within nesting (depth + 1) = true
  | .obj _ => within nesting (depth + 1) = true
  | _ => True

/-- The bounds allow a value inside `depth` arrays and objects, and all that stands in it. -/
def Fits (digits nesting : Option Nat) (depth : Nat) (j : Json) : Prop :=
  ∀ n k, Inside n k j → Allowed digits nesting (depth + n) k

/-- The machine keeps every decimal in a value as it is. -/
def Machine.Holds (m : Machine) (j : Json) : Prop :=
  ∀ n d, Inside n (.decimal d) j → m.keep d = some d

section Bounds

variable {digits nesting : Option Nat} {depth : Nat} {m : Machine} {j : Json}

/-- Where there is room for some, there is room for fewer. -/
lemma within_of_le {bound : Option Nat} {n k : Nat} (h : within bound n = true) (hk : k ≤ n) :
    within bound k = true := by
  cases bound with
  | none => rfl
  | some bound => exact decide_eq_true (Nat.le_trans hk (of_decide_eq_true h))

lemma Fits.allowed {j : Json} (h : Fits digits nesting depth j) : Allowed digits nesting depth j :=
  h 0 j (.here j)

/-- One level deeper there is one array or object more around. -/
lemma allowed_of_fits_deeper {n : Nat} {k j : Json} (h : Fits digits nesting (depth + 1) j)
    (hk : Inside n k j) : Allowed digits nesting (depth + (n + 1)) k := by
  have hallowed := h n k hk
  rwa [Nat.add_assoc, Nat.add_comm 1] at hallowed

lemma fits_arr_iff {items : List Json} :
    Fits digits nesting depth (.arr items) ↔
      within nesting (depth + 1) = true ∧ ∀ j ∈ items, Fits digits nesting (depth + 1) j := by
  constructor
  · intro h
    refine ⟨h.allowed, fun j hj n k hk => ?_⟩
    have hallowed := h (n + 1) k (.item hj hk)
    rwa [Nat.add_comm n, ← Nat.add_assoc] at hallowed
  · rintro ⟨hroom, heach⟩ n k (_ | ⟨hj, hk⟩)
    · exact hroom
    · exact allowed_of_fits_deeper (heach _ hj) hk

lemma fits_obj_iff {members : List (String × Json)} :
    Fits digits nesting depth (.obj members) ↔
      within nesting (depth + 1) = true ∧ ∀ e ∈ members, Fits digits nesting (depth + 1) e.2 := by
  constructor
  · intro h
    refine ⟨h.allowed, fun e he n k hk => ?_⟩
    have hallowed := h (n + 1) k (.member he hk)
    rwa [Nat.add_comm n, ← Nat.add_assoc] at hallowed
  · rintro ⟨hroom, heach⟩ n k (_ | _ | ⟨he, hk⟩)
    · exact hroom
    · exact allowed_of_fits_deeper (heach _ he) hk

/-- Nothing stands in a value that is neither an array nor an object. -/
lemma fits_iff_of_leaf {j : Json} (harr : ∀ items, j ≠ .arr items)
    (hobj : ∀ members, j ≠ .obj members) :
    Fits digits nesting depth j ↔ Allowed digits nesting depth j := by
  refine ⟨Fits.allowed, fun h n k hk => ?_⟩
  cases hk with
  | here j => exact h
  | item => exact absurd rfl (harr _)
  | member => exact absurd rfl (hobj _)

@[simp]
lemma fits_str (s : String) : Fits digits nesting depth (.str s) :=
  (fits_iff_of_leaf (by simp) (by simp)).mpr trivial

@[simp]
lemma fits_decimal (d : Decimal) : Fits digits nesting depth (.decimal d) :=
  (fits_iff_of_leaf (by simp) (by simp)).mpr trivial

@[simp]
lemma fits_int_iff {n : Int} :
    Fits digits nesting depth (.int n) ↔ within digits (writeNat n.natAbs).length = true :=
  fits_iff_of_leaf (by simp) (by simp)

/-- Without bounds everything is within them. -/
lemma fits_none (depth : Nat) (j : Json) : Fits none none depth j := by
  intro n k _
  cases k <;> simp [Allowed]

lemma Machine.holds_arr_iff {items : List Json} :
    m.Holds (.arr items) ↔ ∀ j ∈ items, m.Holds j := by
  constructor
  · exact fun h j hj n d hd => h (n + 1) d (.item hj hd)
  · rintro h n d (_ | ⟨hj, hd⟩)
    exact h _ hj _ d hd

lemma Machine.holds_obj_iff {members : List (String × Json)} :
    m.Holds (.obj members) ↔ ∀ e ∈ members, m.Holds e.2 := by
  constructor
  · exact fun h e he n d hd => h (n + 1) d (.member he hd)
  · rintro h n d (_ | _ | ⟨he, hd⟩)
    exact h _ he _ d hd

lemma Machine.Holds.item {items : List Json} (h : m.Holds (.arr items)) {j : Json}
    (hj : j ∈ items) : m.Holds j :=
  holds_arr_iff.mp h j hj

lemma Machine.Holds.member {members : List (String × Json)} (h : m.Holds (.obj members))
    {e : String × Json} (he : e ∈ members) : m.Holds e.2 :=
  holds_obj_iff.mp h e he

/-- A machine that keeps every decimal holds every value. -/
lemma Machine.holds_of_keep (h : m.keep = some) (j : Json) : m.Holds j := by
  intro n d _
  rw [h]

/-! ### Where writing stops -/

lemma overrunItems?_eq_none_iff {items : List Json} :
    overrunItems? m depth items = none ↔ ∀ j ∈ items, overrun? m depth j = none := by
  induction items with
  | nil => simp [overrunItems?]
  | cons item rest ih => simp [overrunItems?, ih]

lemma overrunMembers?_eq_none_iff {members : List (String × Json)} :
    overrunMembers? m depth members = none ↔ ∀ e ∈ members, overrun? m depth e.2 = none := by
  induction members with
  | nil => simp [overrunMembers?]
  | cons member rest ih => simp [overrunMembers?, ih]

lemma overrun?_arr_eq_none_iff {items : List Json} :
    overrun? m depth (.arr items) = none ↔
      within m.writing (depth + 1) = true ∧ ∀ j ∈ items, overrun? m (depth + 1) j = none := by
  rw [overrun?, ← overrunItems?_eq_none_iff]
  split <;> simp_all

lemma overrun?_obj_eq_none_iff {members : List (String × Json)} :
    overrun? m depth (.obj members) = none ↔
      within m.writing (depth + 1) = true ∧ ∀ e ∈ members, overrun? m (depth + 1) e.2 = none := by
  rw [overrun?, ← overrunMembers?_eq_none_iff]
  split <;> simp_all

/-- **What is written.**  A value goes beyond no bound of the machine exactly if all in it is within
them. -/
theorem overrun?_eq_none_iff {j : Json} {depth : Nat} :
    overrun? m depth j = none ↔ Fits m.digits m.writing depth j := by
  match j with
  | .arr items =>
    rw [overrun?_arr_eq_none_iff, fits_arr_iff]
    exact and_congr_right fun _ => forall₂_congr fun _ _ => overrun?_eq_none_iff
  | .obj members =>
    rw [overrun?_obj_eq_none_iff, fits_obj_iff]
    exact and_congr_right fun _ => forall₂_congr fun e _ => overrun?_eq_none_iff
  | .null | .bool _ | .int _ | .decimal _ | .nan | .infinity _ | .str _ =>
    rw [fits_iff_of_leaf (by simp) (by simp)]
    simp [overrun?, Allowed]
termination_by sizeOf j
decreasing_by
  · have hlt := List.sizeOf_lt_of_mem ‹_ ∈ items›
    simp only [arr.sizeOf_spec]
    omega
  · have hlt := List.sizeOf_lt_of_mem ‹e ∈ members›
    have hvalue : sizeOf e.2 < sizeOf e := by
      obtain ⟨name, value⟩ := e
      simp only [Prod.mk.sizeOf_spec]
      omega
    simp only [obj.sizeOf_spec]
    omega

instance : Decidable (Fits digits nesting depth j) :=
  decidable_of_iff (overrun? { digits := digits, writing := nesting } depth j = none)
    overrun?_eq_none_iff

lemma print_of_fits {j : Json} (h : Fits m.digits m.writing 0 j) (layout : Layout) :
    m.print layout j = .ok (String.ofList (write layout 0 j)) := by
  rw [Machine.print, overrun?_eq_none_iff.mpr h]

lemma print_of_not_fits {j : Json} (h : ¬ Fits m.digits m.writing 0 j) (layout : Layout) :
    ∃ l, m.print layout j = .error l := by
  obtain ⟨l, hl⟩ := Option.ne_none_iff_exists'.mp (mt overrun?_eq_none_iff.mp h)
  exact ⟨l, by rw [Machine.print, hl]⟩

end Bounds

end PhpCatalog.Json
