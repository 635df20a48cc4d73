/-
# What is written is read back

Writing a value in any layout and reading the text again gives the value back (`read_write`), if it
is within the bounds of what the machine reads and the machine keeps its decimals.  The values are
those that a text can denote: the names of an object differ, and a decimal has a fraction or an
exponent, for otherwise its text is that of an integer.

The statement for the reader is about a text with anything behind it that does not go on with a
number (`Reads`).  It passes from the items of an array and the members of an object to the whole,
since what stands between them is white space, a comma or a closing bracket.
-/
import Mathlib.Tactic.Lemma
import PhpCatalog.Proofs.Json.Bounds
import PhpCatalog.Proofs.Json.Marks
import PhpCatalog.Proofs.Json.Quoted

namespace PhpCatalog.Json

/-- A value that a text can denote. -/
inductive WellFormed : Json → Prop where
  | null : WellFormed .null
  | bool (b : Bool) : WellFormed (.bool b)
  | int (n : Int) : WellFormed (.int n)
  | decimal {d : Decimal} (parts : d.fraction ≠ [] ∨ d.exponent ≠ none) : WellFormed (.decimal d)
  | nan : WellFormed .nan
  | infinity (negative : Bool) : WellFormed (.infinity negative)
  | str (s : String) : WellFormed (.str s)
  | arr {items : List Json} (each : ∀ j ∈ items, WellFormed j) : WellFormed (.arr items)
  | obj {members : List (String × Json)} (names : (members.map Prod.fst).Nodup)
      (each : ∀ m ∈ members, WellFormed m.2) : WellFormed (.obj members)

/-! ### White space -/

/-- A text that does not start with white space. -/
def NoSpace (rest : List Char) : Prop :=
  ∀ c ∈ rest.head?, Cursor.isSpace c = false

lemma skipSpace_append (pos : Nat) {ws rest : List Char} (hws : ∀ c ∈ ws, Cursor.isSpace c = true)
    (hrest : NoSpace rest) :
    (Cursor.mk pos (ws ++ rest)).skipSpace = ⟨pos + ws.length, rest⟩ := by
  have htake : (ws ++ rest).takeWhile Cursor.isSpace = ws := by
    rw [List.takeWhile_append_of_pos hws]
    cases rest with
    | nil => simp
    | cons c more => simp [hrest c rfl]
  rw [Cursor.skipSpace, htake, skip_append]

lemma skipSpace_of_noSpace (pos : Nat) {rest : List Char} (h : NoSpace rest) :
    (Cursor.mk pos rest).skipSpace = ⟨pos, rest⟩ := by
  have hnone : ∀ c ∈ ([] : List Char), Cursor.isSpace c = true := by simp
  exact skipSpace_append pos hnone h

lemma mem_line {depth : Nat} {c : Char} (h : c ∈ '\n' :: List.replicate (2 * depth) ' ') :
    c = '\n' ∨ c = ' ' := by
  rcases List.mem_cons.mp h with rfl | h
  · exact Or.inl rfl
  · exact Or.inr (List.eq_of_mem_replicate h)

lemma mem_lead {layout : Layout} {first : Bool} {depth : Nat} {c : Char}
    (h : c ∈ lead layout first depth) : c = '\n' ∨ c = ' ' := by
  unfold lead at h
  split at h
  · exact mem_line h
  · split at h
    · simp at h
    · exact Or.inr (List.mem_singleton.mp h)

lemma mem_tail {layout : Layout} {depth : Nat} {c : Char} (h : c ∈ tail layout depth) :
    c = '\n' ∨ c = ' ' := by
  unfold tail at h
  split at h
  · exact mem_line h
  · simp at h

lemma isSpace_of_mem_lead {layout : Layout} {first : Bool} {depth : Nat} {c : Char}
    (h : c ∈ lead layout first depth) : Cursor.isSpace c = true := by
  rcases mem_lead h with rfl | rfl <;> decide

lemma isSpace_of_mem_tail {layout : Layout} {depth : Nat} {c : Char}
    (h : c ∈ tail layout depth) : Cursor.isSpace c = true := by
  rcases mem_tail h with rfl | rfl <;> decide

lemma noSpace_cons {c : Char} (h : Cursor.isSpace c = false) (rest : List Char) :
    NoSpace (c :: rest) := by
  intro d hd
  obtain rfl : c = d := Option.some.inj hd
  exact h

lemma skipSpace_lead (layout : Layout) (first : Bool) (depth pos : Nat) {rest : List Char}
    (h : NoSpace rest) :
    (Cursor.mk pos (lead layout first depth ++ rest)).skipSpace =
      ⟨pos + (lead layout first depth).length, rest⟩ :=
  skipSpace_append pos (fun _ hc => isSpace_of_mem_lead hc) h

lemma skipSpace_tail (layout : Layout) (depth pos : Nat) {rest : List Char} (h : NoSpace rest) :
    (Cursor.mk pos (tail layout depth ++ rest)).skipSpace =
      ⟨pos + (tail layout depth).length, rest⟩ :=
  skipSpace_append pos (fun _ hc => isSpace_of_mem_tail hc) h

/-! ### How a value starts and what may follow it -/

/-- A character that a value may start with. -/
structure OpensValue (c : Char) : Prop where
  noSpace : Cursor.isSpace c = false
  noBracket : c ≠ ']'
  noMark : c ≠ '\uFEFF'

lemma opensValue_number {c : Char} (h : OpensNumber c) : OpensValue c := by
  rcases h with rfl | h
  · exact ⟨by decide, by decide, by decide⟩
  have hne : ∀ d : Char, d.isDigit = false → c ≠ d := by
    rintro d hd rfl
    simp [h] at hd
  refine ⟨?_, hne _ (by decide), hne _ (by decide)⟩
  simp [Cursor.isSpace, hne ' ' (by decide), hne '\t' (by decide), hne '\n' (by decide),
    hne '\r' (by decide)]

lemma write_eq_cons (layout : Layout) (depth : Nat) (j : Json) :
    ∃ c more, write layout depth j = c :: more ∧ OpensValue c := by
  cases j with
  | null => exact ⟨'n', _, rfl, by decide, by decide, by decide⟩
  | bool b =>
    cases b with
    | false => exact ⟨'f', _, rfl, by decide, by decide, by decide⟩
    | true => exact ⟨'t', _, rfl, by decide, by decide, by decide⟩
  | int n =>
    obtain ⟨c, more, htext, hc⟩ := writeInt_eq_cons n
    exact ⟨c, more, htext, opensValue_number hc⟩
  | decimal d =>
    obtain ⟨c, more, htext, hc⟩ := writeDecimal_eq_cons d
    exact ⟨c, more, htext, opensValue_number hc⟩
  | nan => exact ⟨'N', _, rfl, by decide, by decide, by decide⟩
  | infinity negative =>
    cases negative with
    | false => exact ⟨'I', _, rfl, by decide, by decide, by decide⟩
    | true => exact ⟨'-', _, rfl, by decide, by decide, by decide⟩
  | str s => exact ⟨'"', _, rfl, by decide, by decide, by decide⟩
  | arr items =>
    cases items with
    | nil => exact ⟨'[', _, rfl, by decide, by decide, by decide⟩
    | cons item rest => exact ⟨'[', _, rfl, by decide, by decide, by decide⟩
  | obj members =>
    cases members with
    | nil => exact ⟨'{', _, rfl, by decide, by decide, by decide⟩
    | cons member rest => exact ⟨'{', _, rfl, by decide, by decide, by decide⟩

lemma noSpace_write (layout : Layout) (depth : Nat) (j : Json) (rest : List Char) :
    NoSpace (write layout depth j ++ rest) := by
  obtain ⟨c, more, htext, hopens⟩ := write_eq_cons layout depth j
  rw [htext]
  exact noSpace_cons hopens.noSpace _

/-- A character that may follow a value: white space, a comma or a closing bracket. -/
def FollowsValue (c : Char) : Prop :=
  Cursor.isSpace c = true ∨ c ∈ [',', ']', '}']

lemma endsNumber_of_head {rest : List Char} (h : ∀ c ∈ rest.head?, FollowsValue c) :
    EndsNumber rest := by
  have hmarks : ∀ c, FollowsValue c → c.isDigit = false ∧ c ≠ '.' ∧ c ≠ 'e' ∧ c ≠ 'E' := by
    intro c hc
    simp only [FollowsValue, Cursor.isSpace, Bool.or_eq_true, beq_iff_eq, List.mem_cons,
      List.not_mem_nil, or_false] at hc
    rcases hc with (((rfl | rfl) | rfl) | rfl) | rfl | rfl | rfl <;> decide
  exact ⟨fun c hc => (hmarks c (h c hc)).1, fun c hc => (hmarks c (h c hc)).2.1,
    fun c hc => (hmarks c (h c hc)).2.2⟩

lemma endsNumber_cons {c : Char} (h : FollowsValue c) (rest : List Char) :
    EndsNumber (c :: rest) := by
  refine endsNumber_of_head fun d hd => ?_
  obtain rfl : c = d := Option.some.inj hd
  exact h

lemma followsValue_tail (layout : Layout) (depth : Nat) {close : Char}
    (hclose : close ∈ [']', '}']) (rest : List Char) :
    ∀ c ∈ (tail layout depth ++ close :: rest).head?, FollowsValue c := by
  intro c hc
  rcases htail : tail layout depth with _ | ⟨d, more⟩ <;> rw [htail] at hc
  · obtain rfl : close = c := Option.some.inj hc
    exact Or.inr (List.mem_cons_of_mem _ hclose)
  · obtain rfl : d = c := Option.some.inj hc
    exact Or.inl (isSpace_of_mem_tail (by rw [htail]; exact List.mem_cons_self))

lemma endsNumber_items (layout : Layout) (depth deeper : Nat) (others : List Json)
    (rest : List Char) :
    EndsNumber (writeItems layout deeper others ++ (tail layout depth ++ ']' :: rest)) := by
  cases others with
  | nil => exact endsNumber_of_head (followsValue_tail layout depth (by decide) rest)
  | cons item more => exact endsNumber_cons (Or.inr List.mem_cons_self) _

lemma endsNumber_members (layout : Layout) (depth deeper : Nat)
    (others : List (String × Json)) (rest : List Char) :
    EndsNumber (writeMembers layout deeper others ++ (tail layout depth ++ '}' :: rest)) := by
  cases others with
  | nil => exact endsNumber_of_head (followsValue_tail layout depth (by decide) rest)
  | cons member more => exact endsNumber_cons (Or.inr List.mem_cons_self) _

/-! ### Values -/

variable {m : Machine}

/-- The text of a value inside `depth` arrays and objects is read back, whatever follows it, with
steps for twice its length. -/
def Reads (m : Machine) (layout : Layout) (depth : Nat) (j : Json) : Prop :=
  ∀ (n pos : Nat) (rest : List Char), 2 * (write layout depth j).length ≤ n → EndsNumber rest →
    value m n depth ⟨pos, write layout depth j ++ rest⟩ =
      .ok (j, ⟨pos + (write layout depth j).length, rest⟩)

/-- A value takes at least one step. -/
lemma Reads.of_succ {layout : Layout} {depth : Nat} {j : Json}
    (h : ∀ (n pos : Nat) (rest : List Char), 2 * (write layout depth j).length ≤ n + 1 →
      EndsNumber rest → value m (n + 1) depth ⟨pos, write layout depth j ++ rest⟩ =
        .ok (j, ⟨pos + (write layout depth j).length, rest⟩)) : Reads m layout depth j := by
  intro n pos rest hn hrest
  obtain ⟨c, more, htext, -⟩ := write_eq_cons layout depth j
  have hpos : 1 ≤ (write layout depth j).length := by simp [htext]
  obtain ⟨k, rfl⟩ : ∃ k, n = k + 1 := ⟨n - 1, by omega⟩
  exact h k pos rest hn hrest

/-- A text that starts like a number is read as a scalar. -/
lemma value_number (n depth pos : Nat) {c : Char} {more : List Char} (h : OpensNumber c) :
    value m (n + 1) depth ⟨pos, c :: more⟩ = scalar m ⟨pos, c :: more⟩ := by
  apply value_scalar <;> (rintro rfl; revert h; simp [OpensNumber])

section Scalars

variable (layout : Layout) (depth : Nat)

lemma reads_null : Reads m layout depth .null :=
  Reads.of_succ fun _ _ _ _ _ => rfl

lemma reads_bool (b : Bool) : Reads m layout depth (.bool b) := by
  cases b with
  | false => exact Reads.of_succ fun _ _ _ _ _ => rfl
  | true => exact Reads.of_succ fun _ _ _ _ _ => rfl

lemma reads_nan : Reads m layout depth .nan :=
  Reads.of_succ fun _ _ _ _ _ => rfl

lemma reads_infinity (negative : Bool) : Reads m layout depth (.infinity negative) := by
  cases negative with
  | false => exact Reads.of_succ fun _ _ _ _ _ => rfl
  | true => exact Reads.of_succ fun _ _ _ _ _ => rfl

lemma value_writeInt (k : Int) (n pos : Nat) {rest : List Char} (h : EndsNumber rest) :
    value m (n + 1) depth ⟨pos, writeInt k ++ rest⟩ =
      if within m.digits (writeNat k.natAbs).length then
        .ok (.int k, ⟨pos + (writeInt k).length, rest⟩)
      else .error (.limit .digits) := by
  obtain ⟨c, more, htext, hc⟩ := writeInt_eq_cons k
  have hvalue : value m (n + 1) depth ⟨pos, writeInt k ++ rest⟩ =
      scalar m ⟨pos, writeInt k ++ rest⟩ := by
    rw [htext]
    exact value_number n depth pos hc
  exact hvalue.trans (scalar_writeInt k pos h)

lemma reads_int {k : Int} (hdigits : within m.digits (writeNat k.natAbs).length = true) :
    Reads m layout depth (.int k) :=
  Reads.of_succ fun n pos _ _ hrest => (value_writeInt depth k n pos hrest).trans (if_pos hdigits)

lemma reads_decimal {d : Decimal} (hd : d.fraction ≠ [] ∨ d.exponent ≠ none)
    (hkeep : m.keep d = some d) : Reads m layout depth (.decimal d) := by
  refine Reads.of_succ fun n pos rest _ hrest => ?_
  obtain ⟨c, more, htext, hc⟩ := writeDecimal_eq_cons d
  have hvalue : value m (n + 1) depth ⟨pos, writeDecimal d ++ rest⟩ =
      scalar m ⟨pos, writeDecimal d ++ rest⟩ := by
    rw [htext]
    exact value_number n depth pos hc
  exact hvalue.trans (scalar_writeDecimal hd hkeep pos hrest)

lemma writeString_append (ascii : Bool) (s : String) (rest : List Char) :
    writeString ascii s ++ rest = '"' :: (s.toList.flatMap (writeChar ascii) ++ '"' :: rest) := by
  simp [writeString]

lemma reads_str (s : String) : Reads m layout depth (.str s) := by
  refine Reads.of_succ fun n pos rest _ _ => ?_
  change value m (n + 1) depth ⟨pos, writeString layout.ascii s ++ rest⟩ =
    .ok (.str s, ⟨pos + (writeString layout.ascii s).length, rest⟩)
  have hskip : (Cursor.mk pos (writeString layout.ascii s ++ rest)).skip 1 =
      ⟨pos + 1, s.toList.flatMap (writeChar layout.ascii) ++ '"' :: rest⟩ := by
    rw [writeString_append]
    rfl
  have hvalue : value m (n + 1) depth ⟨pos, writeString layout.ascii s ++ rest⟩ =
      (string m ((Cursor.mk pos (writeString layout.ascii s ++ rest)).skip 1)).map
        fun r => (.str r.1, r.2) := by
    rw [writeString_append]
    rfl
  rw [hvalue, hskip, string_write]
  rfl

end Scalars

/-! ### Arrays -/

lemma length_writeItems_cons (layout : Layout) (deeper : Nat) (item : Json) (others : List Json) :
    (writeItems layout deeper (item :: others)).length =
      1 + (lead layout false deeper).length + (write layout deeper item).length +
        (writeItems layout deeper others).length := by
  simp [writeItems_cons, Nat.add_assoc, Nat.add_comm]

/-- Behind an item and a comma the reader goes on with the next item. -/
lemma items_next {layout : Layout} {deeper : Nat} {item : Json} (h : Reads m layout deeper item)
    (next : Json) (more : List Json) {n : Nat} (pos : Nat) (acc : List Json) (rest : List Char)
    (hn : 2 * (write layout deeper item).length ≤ n) :
    items m (n + 1) deeper acc ⟨pos, write layout deeper item ++
        (writeItems layout deeper (next :: more) ++ rest)⟩ =
      items m n deeper (item :: acc)
        ⟨pos + (write layout deeper item).length + 1 + (lead layout false deeper).length,
          write layout deeper next ++ (writeItems layout deeper more ++ rest)⟩ := by
  rw [writeItems_cons]
  simp only [List.cons_append, List.append_assoc]
  have hread := h n pos _ hn (endsNumber_cons (show FollowsValue ',' from Or.inr (by simp))
    (lead layout false deeper ++ (write layout deeper next ++
      (writeItems layout deeper more ++ rest))))
  have hcomma := skipSpace_of_noSpace (pos + (write layout deeper item).length)
    (noSpace_cons (show Cursor.isSpace ',' = false by decide)
      (lead layout false deeper ++ (write layout deeper next ++
        (writeItems layout deeper more ++ rest))))
  have hlead := skipSpace_lead layout false deeper (pos + (write layout deeper item).length + 1)
    (noSpace_write layout deeper next (writeItems layout deeper more ++ rest))
  rw [items, hread]
  simp only [hcomma, Cursor.skip, List.drop_succ_cons, List.drop_zero, hlead]

/-- The items of an array are read back, in order behind those that were read before. -/
lemma items_write {layout : Layout} (depth : Nat) {deeper : Nat} (item : Json) (others : List Json)
    (h : ∀ j ∈ item :: others, Reads m layout deeper j) (n pos : Nat) (acc : List Json)
    (rest : List Char)
    (hn : 2 * (write layout deeper item).length + 2 * (writeItems layout deeper others).length
      < n) :
    items m n deeper acc ⟨pos, write layout deeper item ++
        (writeItems layout deeper others ++ (tail layout depth ++ ']' :: rest))⟩ =
      .ok (acc.reverse ++ item :: others, ⟨pos + (write layout deeper item).length +
        (writeItems layout deeper others).length + (tail layout depth).length + 1, rest⟩) := by
  induction others generalizing item n pos acc with
  | nil =>
    obtain ⟨k, rfl⟩ : ∃ k, n = k + 1 := ⟨n - 1, by omega⟩
    have hread := h item List.mem_cons_self k pos _ (by omega)
      (endsNumber_items layout depth deeper [] rest)
    have htail := skipSpace_tail layout depth (pos + (write layout deeper item).length)
      (noSpace_cons (show Cursor.isSpace ']' = false by decide) rest)
    rw [items, hread]
    simp only [writeItems, List.nil_append, htail]
    simp [Cursor.skip]
  | cons next more ih =>
    obtain ⟨k, rfl⟩ : ∃ k, n = k + 1 := ⟨n - 1, by omega⟩
    have hlength := length_writeItems_cons layout deeper next more
    rw [items_next (h item List.mem_cons_self) next more pos acc _ (by omega),
      ih next (fun j hj => h j (List.mem_cons_of_mem _ hj)) k _ _ (by omega), hlength]
    simp [Nat.add_assoc, Nat.add_comm, Nat.add_left_comm]

/-- Behind its bracket a written array goes on with its items. -/
lemma value_arr {layout : Layout} {depth : Nat} (hroom : within m.reading (depth + 1) = true)
    (item : Json) (others : List Json) (n pos : Nat) (rest : List Char) :
    value m (n + 1) depth ⟨pos, write layout depth (.arr (item :: others)) ++ rest⟩ =
      (items m n (depth + 1) [] ⟨pos + 1 + (lead layout true (depth + 1)).length,
        write layout (depth + 1) item ++ (writeItems layout (depth + 1) others ++
          (tail layout depth ++ ']' :: rest))⟩).map fun r => (.arr r.1, r.2) := by
  have hlead := skipSpace_lead layout true (depth + 1) (pos + 1)
    (noSpace_write layout (depth + 1) item
      (writeItems layout (depth + 1) others ++ (tail layout depth ++ ']' :: rest)))
  obtain ⟨c, more, htext, hopens⟩ := write_eq_cons layout (depth + 1) item
  have hbracket := hopens.noBracket
  rw [write_arr_cons]
  simp only [List.cons_append, List.append_assoc, List.nil_append]
  rw [value_bracket, if_pos hroom, hlead, htext, List.cons_append]
  unfold arrayFrom
  split
  · rename_i heq
    exact absurd (List.cons.inj heq).1 hbracket
  · rfl

lemma length_write_arr (layout : Layout) (depth : Nat) (item : Json) (others : List Json) :
    (write layout depth (.arr (item :: others))).length =
      1 + (lead layout true (depth + 1)).length + (write layout (depth + 1) item).length +
        (writeItems layout (depth + 1) others).length + (tail layout depth).length + 1 := by
  simp [write_arr_cons, Nat.add_assoc, Nat.add_comm, Nat.add_left_comm]

lemma reads_arr {layout : Layout} {depth : Nat} {items : List Json}
    (hroom : within m.reading (depth + 1) = true)
    (h : ∀ j ∈ items, Reads m layout (depth + 1) j) : Reads m layout depth (.arr items) := by
  refine Reads.of_succ fun n pos rest hn _ => ?_
  cases items with
  | nil => exact (value_bracket n depth pos (']' :: rest)).trans (if_pos hroom)
  | cons item others =>
    have hlength := length_write_arr layout depth item others
    rw [value_arr hroom, items_write depth item others h n _ [] rest (by omega), hlength]
    simp [Except.map, Nat.add_assoc]

/-! ### Objects -/

/-- A new name goes to the end. -/
lemma insert_of_notMem {name : String} (value : Json) {members : List (String × Json)}
    (h : name ∉ members.map Prod.fst) :
    insert name value members = members ++ [(name, value)] := by
  induction members with
  | nil => rfl
  | cons m more ih =>
    rw [List.map_cons, List.mem_cons, not_or] at h
    rw [insert, if_neg (Ne.symm h.1), ih h.2]
    rfl

lemma insert_of_nodup {name : String} {value : Json} {members others : List (String × Json)}
    (h : ((members ++ (name, value) :: others).map Prod.fst).Nodup) :
    insert name value members = members ++ [(name, value)] := by
  rw [List.map_append] at h
  refine insert_of_notMem value fun hmem => ?_
  exact (List.nodup_append.mp h).2.2 _ hmem _ List.mem_cons_self rfl

/-- The text of a member up to the end of its value. -/
def memberText (layout : Layout) (depth : Nat) (name : String) (value : Json) : List Char :=
  writeString layout.ascii name ++ ':' :: ' ' :: write layout depth value

lemma write_obj_memberText (layout : Layout) (depth : Nat) (name : String) (value : Json)
    (others : List (String × Json)) :
    write layout depth (.obj ((name, value) :: others)) =
      '{' :: lead layout true (depth + 1) ++ memberText layout (depth + 1) name value ++
        writeMembers layout (depth + 1) others ++ tail layout depth ++ ['}'] := by
  rw [write_obj_cons]
  simp [memberText]

lemma writeMembers_memberText (layout : Layout) (depth : Nat) (name : String) (value : Json)
    (others : List (String × Json)) :
    writeMembers layout depth ((name, value) :: others) =
      ',' :: lead layout false depth ++ memberText layout depth name value ++
        writeMembers layout depth others := by
  rw [writeMembers_cons]
  simp [memberText]

lemma length_write_le_memberText (layout : Layout) (depth : Nat) (name : String) (value : Json) :
    (write layout depth value).length ≤ (memberText layout depth name value).length := by
  simp only [memberText, List.length_append, List.length_cons]
  omega

lemma memberText_eq_cons (layout : Layout) (depth : Nat) (name : String) (value : Json) :
    ∃ more, memberText layout depth name value = '"' :: more := by
  rw [memberText, writeString_append]
  exact ⟨_, rfl⟩

lemma noSpace_memberText (layout : Layout) (depth : Nat) (name : String) (value : Json)
    (rest : List Char) : NoSpace (memberText layout depth name value ++ rest) := by
  obtain ⟨more, htext⟩ := memberText_eq_cons layout depth name value
  rw [htext]
  exact noSpace_cons (by decide) _

/-- The reader of members goes past a name and its colon. -/
lemma members_memberText {layout : Layout} {deeper : Nat} (name : String) (value : Json)
    (n pos : Nat) (acc : List (String × Json)) (rest : List Char) :
    members m (n + 1) deeper acc ⟨pos, memberText layout deeper name value ++ rest⟩ =
      match Json.value m n deeper ⟨pos + (writeString layout.ascii name).length + 1 + 1,
        write layout deeper value ++ rest⟩ with
      | .error stop => .error stop
      | .ok (x, c) => membersBehind m n deeper (insert name x acc) c.skipSpace := by
  have hstring := string_write (m := m) layout.ascii name pos
    (':' :: ' ' :: (write layout deeper value ++ rest))
  have hcolon := skipSpace_of_noSpace (pos + (writeString layout.ascii name).length)
    (noSpace_cons (show Cursor.isSpace ':' = false by decide)
      (' ' :: (write layout deeper value ++ rest)))
  have hblank : ∀ c ∈ [' '], Cursor.isSpace c = true := by simp [Cursor.isSpace]
  have hspace := skipSpace_append (pos + (writeString layout.ascii name).length + 1) hblank
    (noSpace_write layout deeper value rest)
  simp only [List.cons_append, List.nil_append, List.length_singleton] at hspace
  rw [memberText, List.append_assoc, writeString_append, members_quote]
  match hvalue : Json.value m n deeper ⟨pos + (writeString layout.ascii name).length + 1 + 1,
      write layout deeper value ++ rest⟩ with
  | .error _ | .ok _ =>
    simp only [List.cons_append, hstring, hcolon, membersFrom, Cursor.skip, List.drop_succ_cons,
      List.drop_zero, hspace, hvalue]

lemma length_memberText (layout : Layout) (depth : Nat) (name : String) (value : Json) :
    (memberText layout depth name value).length =
      (writeString layout.ascii name).length + 1 + 1 + (write layout depth value).length := by
  simp [memberText, Nat.add_assoc, Nat.add_comm, Nat.add_left_comm]

lemma length_writeMembers_cons (layout : Layout) (deeper : Nat) (member : String × Json)
    (others : List (String × Json)) :
    (writeMembers layout deeper (member :: others)).length =
      1 + (lead layout false deeper).length +
        (memberText layout deeper member.1 member.2).length +
          (writeMembers layout deeper others).length := by
  obtain ⟨name, value⟩ := member
  simp [writeMembers_memberText, Nat.add_assoc, Nat.add_comm]

/-- Behind a member and a comma the reader goes on with the next member. -/
lemma members_next {layout : Layout} {deeper : Nat} (name : String) {value : Json}
    (h : Reads m layout deeper value) (next : String × Json) (more : List (String × Json))
    {n : Nat} (pos : Nat) (acc : List (String × Json)) (rest : List Char)
    (hn : 2 * (write layout deeper value).length ≤ n) :
    members m (n + 1) deeper acc ⟨pos, memberText layout deeper name value ++
        (writeMembers layout deeper (next :: more) ++ rest)⟩ =
      members m n deeper (insert name value acc)
        ⟨pos + (memberText layout deeper name value).length + 1 +
            (lead layout false deeper).length,
          memberText layout deeper next.1 next.2 ++ (writeMembers layout deeper more ++ rest)⟩ := by
  obtain ⟨nextName, nextValue⟩ := next
  rw [writeMembers_memberText]
  simp only [List.cons_append, List.append_assoc]
  have hread := h n (pos + (writeString layout.ascii name).length + 1 + 1) _ hn
    (endsNumber_cons (show FollowsValue ',' from Or.inr (by simp))
      (lead layout false deeper ++ (memberText layout deeper nextName nextValue ++
        (writeMembers layout deeper more ++ rest))))
  have hcomma := skipSpace_of_noSpace (pos + (memberText layout deeper name value).length)
    (noSpace_cons (show Cursor.isSpace ',' = false by decide)
      (lead layout false deeper ++ (memberText layout deeper nextName nextValue ++
        (writeMembers layout deeper more ++ rest))))
  have hlead := skipSpace_lead layout false deeper
    (pos + (memberText layout deeper name value).length + 1)
    (noSpace_memberText layout deeper nextName nextValue (writeMembers layout deeper more ++ rest))
  rw [length_memberText, ← Nat.add_assoc, ← Nat.add_assoc, ← Nat.add_assoc] at hcomma hlead ⊢
  rw [members_memberText, hread]
  simp only [hcomma, membersBehind, Cursor.skip, List.drop_succ_cons, List.drop_zero, hlead]

/-- The members of an object are read back, in order behind those that were read before. -/
lemma members_write {layout : Layout} (depth : Nat) {deeper : Nat} (name : String) (value : Json)
    (others : List (String × Json)) (h : ∀ e ∈ (name, value) :: others, Reads m layout deeper e.2)
    (n pos : Nat) (acc : List (String × Json)) (rest : List Char)
    (hnames : ((acc ++ (name, value) :: others).map Prod.fst).Nodup)
    (hn : 2 * (memberText layout deeper name value).length +
      2 * (writeMembers layout deeper others).length < n) :
    members m n deeper acc ⟨pos, memberText layout deeper name value ++
        (writeMembers layout deeper others ++ (tail layout depth ++ '}' :: rest))⟩ =
      .ok (acc ++ (name, value) :: others, ⟨pos + (memberText layout deeper name value).length +
        (writeMembers layout deeper others).length + (tail layout depth).length + 1, rest⟩) := by
  induction others generalizing name value n pos acc with
  | nil =>
    obtain ⟨k, rfl⟩ : ∃ k, n = k + 1 := ⟨n - 1, by omega⟩
    have hvalue : Reads m layout deeper value := h (name, value) List.mem_cons_self
    have hfits := length_write_le_memberText layout deeper name value
    have hread := hvalue k (pos + (writeString layout.ascii name).length + 1 + 1) _ (by omega)
      (endsNumber_members layout depth deeper [] rest)
    have htail := skipSpace_tail layout depth (pos + (writeString layout.ascii name).length + 1 +
      1 + (write layout deeper value).length)
      (noSpace_cons (show Cursor.isSpace '}' = false by decide) rest)
    rw [members_memberText, hread]
    simp only [writeMembers, List.nil_append, htail, membersBehind, insert_of_nodup hnames]
    simp [Cursor.skip, length_memberText, Nat.add_assoc]
  | cons next more ih =>
    obtain ⟨k, rfl⟩ : ∃ k, n = k + 1 := ⟨n - 1, by omega⟩
    obtain ⟨nextName, nextValue⟩ := next
    have hvalue : Reads m layout deeper value := h (name, value) List.mem_cons_self
    have hfits := length_write_le_memberText layout deeper name value
    have hlength := length_writeMembers_cons layout deeper (nextName, nextValue) more
    dsimp only at hlength
    rw [members_next name hvalue _ more pos acc _ (by omega), insert_of_nodup hnames,
       ih nextName nextValue (fun e he => h e (List.mem_cons_of_mem _ he)) k
        _ _ (by rwa [List.append_assoc]) (by omega), hlength]
    simp [Nat.add_assoc, Nat.add_comm, Nat.add_left_comm]

/-- Behind its brace a written object goes on with its members. -/
lemma value_obj {layout : Layout} {depth : Nat} (hroom : within m.reading (depth + 1) = true)
    (member : String × Json) (others : List (String × Json)) (n pos : Nat) (rest : List Char) :
    value m (n + 1) depth ⟨pos, write layout depth (.obj (member :: others)) ++ rest⟩ =
      (members m n (depth + 1) [] ⟨pos + 1 + (lead layout true (depth + 1)).length,
        memberText layout (depth + 1) member.1 member.2 ++
          (writeMembers layout (depth + 1) others ++ (tail layout depth ++ '}' :: rest))⟩).map fun r => (.obj r.1, r.2) := by
  obtain ⟨name, value⟩ := member
  have hlead := skipSpace_lead layout true (depth + 1) (pos + 1)
    (noSpace_memberText layout (depth + 1) name value
      (writeMembers layout (depth + 1) others ++ (tail layout depth ++ '}' :: rest)))
  obtain ⟨more, htext⟩ := memberText_eq_cons layout (depth + 1) name value
  rw [write_obj_memberText]
  simp only [List.cons_append, List.append_assoc, List.nil_append]
  rw [value_brace, if_pos hroom, hlead, htext, List.cons_append]
  rfl

lemma length_write_obj (layout : Layout) (depth : Nat) (member : String × Json)
    (others : List (String × Json)) :
    (write layout depth (.obj (member :: others))).length =
      1 + (lead layout true (depth + 1)).length +
        (memberText layout (depth + 1) member.1 member.2).length +
          (writeMembers layout (depth + 1) others).length + (tail layout depth).length + 1 := by
  obtain ⟨name, value⟩ := member
  simp [write_obj_memberText, Nat.add_assoc, Nat.add_comm, Nat.add_left_comm]

lemma reads_obj {layout : Layout} {depth : Nat} {members : List (String × Json)}
    (hnames : (members.map Prod.fst).Nodup) (hroom : within m.reading (depth + 1) = true)
    (h : ∀ e ∈ members, Reads m layout (depth + 1) e.2) : Reads m layout depth (.obj members) := by
  refine Reads.of_succ fun n pos rest hn _ => ?_
  cases members with
  | nil => exact (value_brace n depth pos ('}' :: rest)).trans (if_pos hroom)
  | cons member others =>
    have hlength := length_write_obj layout depth member others
    rw [value_obj hroom, members_write depth member.1 member.2 others h n _ [] rest hnames
      (by omega), hlength]
    simp [Except.map, Nat.add_assoc]

/-! ### The whole text -/

theorem reads_write {j : Json} (h : WellFormed j) (layout : Layout) {depth : Nat}
    (hfits : Fits m.digits m.reading depth j) (hheld : m.Holds j) : Reads m layout depth j := by
  induction h generalizing depth with
  | null => exact reads_null layout depth
  | bool b => exact reads_bool layout depth b
  | int n => exact reads_int layout depth hfits.allowed
  | decimal parts => exact reads_decimal layout depth parts (hheld 0 _ (.here _))
  | nan => exact reads_nan layout depth
  | infinity negative => exact reads_infinity layout depth negative
  | str s => exact reads_str layout depth s
  | arr _ ih =>
    obtain ⟨hroom, heach⟩ := fits_arr_iff.mp hfits
    exact reads_arr hroom fun j hj => ih j hj (heach j hj) (hheld.item hj)
  | obj names _ ih =>
    obtain ⟨hroom, heach⟩ := fits_obj_iff.mp hfits
    exact reads_obj names hroom fun e he => ih e he (heach e he) (hheld.member he)

/-- A value is what its text, with white space behind it, is read as. -/
theorem read_write {j : Json} (h : WellFormed j) (hfits : Fits m.digits m.reading 0 j)
    (hheld : m.Holds j) (layout : Layout) {ws : List Char}
    (hws : ∀ c ∈ ws, Cursor.isSpace c = true) : m.read (write layout 0 j ++ ws) = .ok j := by
  have hends : EndsNumber ws :=
    endsNumber_of_head fun c hc => Or.inl (hws c (List.mem_of_mem_head? hc))
  have hsteps : 2 * (write layout 0 j).length ≤ 2 * (write layout 0 j ++ ws).length + 2 := by
    rw [List.length_append]
    omega
  have hread := reads_write h layout hfits hheld _ 0 ws hsteps hends
  have hstart := skipSpace_of_noSpace 0 (noSpace_write layout 0 j ws)
  have hstop := skipSpace_append (0 + (write layout 0 j).length) hws
    (show NoSpace [] by simp [NoSpace])
  rw [List.append_nil] at hstop
  obtain ⟨c, more, htext, hopens⟩ := write_eq_cons layout 0 j
  rw [Machine.read]
  · simp only [hstart, hread, hstop, List.isEmpty_nil, if_true]
  · intro rest heq
    rw [htext] at heq
    exact hopens.noMark (List.cons.inj heq).1

/-- Without bounds, any value is what its text is read as. -/
theorem parse_write {j : Json} (h : WellFormed j) (layout : Layout) {ws : List Char}
    (hws : ∀ c ∈ ws, Cursor.isSpace c = true) : parse (write layout 0 j ++ ws) = .ok j :=
  read_write h (fits_none 0 j) (Machine.holds_of_keep rfl j) layout hws

end PhpCatalog.Json
