/-
# The settings file over a run of requests

A directory and its settings file are a store of one value.  A request is refused and nothing
changes, if its value does not pass the checks or is beyond the bounds of what is written.  Any
other value is written as a whole.  What is written comes back (`Json.read_unifyBreaks_pretty`), so
after any run of requests loading gives the last value that was stored, over the defaults, or stops
at a bound of what is read.
-/
import Mathlib.Data.List.Induction
import Mathlib.Tactic.Lemma
import PhpCatalog.Proofs.Json.Order
import PhpCatalog.Proofs.Settings.Loading

namespace PhpCatalog.Settings

variable {m : Json.Machine}

/-- What a run of requests leaves behind. -/
def saveAll (m : Json.Machine) (v : Volume) (root : Path) (requests : List Json) : Volume :=
  requests.foldl (fun v j => (save m v root j).volume) v

/-- Whether a value passes the checks. -/
def accepts (j : Json) : Bool :=
  (validate j).toBool

/-- Whether a value passes the checks and is within the bounds of what is written. -/
def stores (m : Json.Machine) (j : Json) : Bool :=
  accepts j && decide (j.Fits m.digits m.writing 0)

/-- The last value of a run that is stored. -/
def lastStored (m : Json.Machine) (requests : List Json) : Option Json :=
  (requests.filter (stores m)).getLast?

/-- The bytes of a settings file. -/
def fileBytes (j : Json) : ByteArray :=
  (j.pretty ++ "\n").toUTF8

/-- The directory is there, and its settings file is missing or holds the value that was stored. -/
structure Holds (v : Volume) (root : Path) (stored : Option Json) : Prop where
  directory : ∃ entries, v.locate root = .ok (.directory entries)
  content : match stored with
    | none => v.ask (file root) = .error .notFound
    | some j => v.locate (file root) = .ok (.file (fileBytes j))

section Holds

variable {v : Volume} {root : Path} {stored : Option Json}

lemma Holds.not_directory (h : Holds v root stored) (entries : List (String × Entry)) :
    v.locate (file root) ≠ .ok (.directory entries) := by
  intro hloc
  have hcontent := h.content
  cases stored with
  | none => simp [Volume.ask_eq_ok_iff.mpr hloc] at hcontent
  | some j => simp [hloc] at hcontent

lemma Holds.not_tooLong (h : Holds v root stored) :
    v.ask (file root) ≠ .error .nameTooLong := by
  intro hask
  have hcontent := h.content
  cases stored with
  | none => simp [hask] at hcontent
  | some j => simp [Volume.ask_eq_ok_iff.mpr hcontent] at hask

end Holds

/-! ### One request -/

lemma accepts_iff {j : Json} : accepts j = true ↔ validate j = .ok () := by
  cases h : validate j <;> simp [accepts, h, Except.toBool]

/-- A value that does not pass the checks is refused, and nothing changes. -/
lemma save_of_not_accepts {j : Json} (h : accepts j = false) (v : Volume) (root : Path) :
    ∃ e, save m v root j = ⟨v, some (.failure (.settings e))⟩ := by
  cases hv : validate j with
  | error e => exact ⟨e, by rw [save, hv]⟩
  | ok u => simp [accepts, hv, Except.toBool] at h

/-- A value beyond the bounds is not written, and nothing changes. -/
lemma save_of_not_fits {j : Json} (h : accepts j = true) (hfits : ¬ j.Fits m.digits m.writing 0)
    (v : Volume) (root : Path) : ∃ l, save m v root j = ⟨v, some (.crash (.limit l))⟩ := by
  obtain ⟨l, hl⟩ := Json.print_of_not_fits hfits ⟨true, false⟩
  exact ⟨l, by simp only [save, accepts_iff.mp h, Json.Machine.pretty, hl]⟩

/-- Any other value is stored. -/
lemma save_of_fits {j : Json} (h : accepts j = true) (hfits : j.Fits m.digits m.writing 0)
    {v : Volume} {root : Path} {stored : Option Json} (hv : Holds v root stored) :
    (save m v root j).refused = none ∧ Holds (save m v root j).volume root (some j) := by
  have hname : IsEntryName settingsName := by
    simp [IsEntryName, settingsName]
  obtain ⟨entries, hdir⟩ := hv.directory
  obtain ⟨v', hwrite, hfile, hdir'⟩ :=
    Volume.write_child hname hdir hv.not_directory hv.not_tooLong (fileBytes j)
  have hprint : m.pretty j = .ok j.pretty := Json.print_of_fits hfits ⟨true, false⟩
  have hsave : save m v root j = ⟨v', none⟩ := by
    change v.write (file root) (j.pretty ++ "\n").toUTF8 = .ok v' at hwrite
    simp only [save, accepts_iff.mp h, hprint, hwrite]
  rw [hsave]
  exact ⟨rfl, hdir', hfile⟩

/-- How a request ends. -/
lemma save_cases {v : Volume} {root : Path} {stored : Option Json} (h : Holds v root stored)
    (j : Json) :
    (∃ e, save m v root j = ⟨v, some (.failure (.settings e))⟩ ∧ accepts j = false) ∨
    (∃ l, save m v root j = ⟨v, some (.crash (.limit l))⟩ ∧ accepts j = true ∧
      ¬ j.Fits m.digits m.writing 0) ∨
    ((save m v root j).refused = none ∧ Holds (save m v root j).volume root (some j) ∧
      accepts j = true ∧ j.Fits m.digits m.writing 0) := by
  cases hj : accepts j with
  | false =>
    obtain ⟨e, hsave⟩ := save_of_not_accepts hj v root
    exact Or.inl ⟨e, hsave, rfl⟩
  | true =>
    by_cases hfits : j.Fits m.digits m.writing 0
    · obtain ⟨hdone, hholds⟩ := save_of_fits hj hfits h
      exact Or.inr (Or.inr ⟨hdone, hholds, rfl, hfits⟩)
    · obtain ⟨l, hsave⟩ := save_of_not_fits hj hfits v root
      exact Or.inr (Or.inl ⟨l, hsave, rfl, hfits⟩)

/-- What a request leaves in the file is the value it stores, or else what was stored before. -/
lemma Holds.save {v : Volume} {root : Path} {stored : Option Json} (h : Holds v root stored)
    (j : Json) : Holds (save m v root j).volume root (if stores m j then some j else stored) := by
  rcases save_cases (m := m) h j with ⟨e, hsave, hj⟩ | ⟨l, hsave, -, hfits⟩ | ⟨-, hholds, hj, hfits⟩
  · simpa [stores, hj, hsave] using h
  · simpa [stores, hfits, hsave] using h
  · simpa [stores, hj, hfits] using hholds

/-! ### A run of requests -/

lemma saveAll_concat (v : Volume) (root : Path) (requests : List Json) (j : Json) :
    saveAll m v root (requests ++ [j]) = (save m (saveAll m v root requests) root j).volume := by
  simp [saveAll]

lemma lastStored_concat (requests : List Json) (j : Json) :
    lastStored m (requests ++ [j]) = if stores m j then some j else lastStored m requests := by
  by_cases h : stores m j = true
  · simp [lastStored, h]
  · simp [lastStored, h]

/-- After a run the file holds the last value that was stored. -/
lemma holds_saveAll {v : Volume} {root : Path} (h : Holds v root none) (requests : List Json) :
    Holds (saveAll m v root requests) root (lastStored m requests) := by
  induction requests using List.reverseRecOn with
  | nil => exact h
  | append_singleton requests j ih =>
    rw [saveAll_concat, lastStored_concat]
    exact ih.save j

/-! ### What comes back -/

section Stored

variable {v : Volume} {root : Path} {j : Json}

lemma load_of_holds (h : Holds v root (some j)) :
    load m v root =
      ofText m (file root) (String.ofList (Text.unifyBreaks (j.pretty ++ "\n").toList)) :=
  load_of_readText h.content (Volume.readText_of_file h.content (Volume.fromUTF8?_toUTF8 _))

/-- The value of the file comes back over the defaults. -/
lemma load_of_stored (hj : j.WellFormed) (haccepts : accepts j = true)
    (hfits : j.Fits m.digits m.reading 0) (hheld : m.Holds j) (h : Holds v root (some j)) :
    (load m v root).map toJson = .ok (overDefaults (some j)) := by
  obtain ⟨members, rfl, hadmits, hof⟩ := ofJson_of_validate (accepts_iff.mp haccepts)
  have hread := Json.read_unifyBreaks_pretty hj hfits hheld
  rw [load_of_holds h, ofText, String.toList_ofList, hread, ← toJson_overlay hadmits]
  simp [hof, Except.mapError, Except.map]

/-- A value of the file that is beyond the bounds of what is read does not come back. -/
lemma load_of_stored_of_not_fits (hj : j.WellFormed) (hfits : ¬ j.Fits m.digits m.reading 0)
    (hheld : m.Holds j) (h : Holds v root (some j)) :
    ∃ l, load m v root = .error (.crash (.limit l)) := by
  obtain ⟨l, hl⟩ := Json.read_unifyBreaks_pretty_of_not_fits hj hfits hheld
  exact ⟨l, by rw [load_of_holds h, ofText, String.toList_ofList, hl]⟩

end Stored

/-- **A run of requests to save settings.**  From a directory without a settings file, each request
is refused as wrong settings and changes nothing, or stops at a bound of what is written and changes
nothing, or succeeds, as the checks and the bounds say.  Loading then gives the defaults with the
known members of the last value that was stored, and of no other, in their places, unless this value
is beyond the bounds of what is read.

Every decimal in the requests is a number that the machine has. -/
theorem load_saveAll (m : Json.Machine) (v : Volume) (root : Path)
    {entries : List (String × Entry)} (hdir : v.locate root = .ok (.directory entries))
    (hnew : v.ask (file root) = .error .notFound) (requests : List Json)
    (hrequests : ∀ j ∈ requests, j.WellFormed ∧ m.Holds j) :
    (∀ before j after, requests = before ++ j :: after →
      (∃ e, save m (saveAll m v root before) root j =
        ⟨saveAll m v root before, some (.failure (.settings e))⟩ ∧ accepts j = false) ∨
      (∃ l, save m (saveAll m v root before) root j =
        ⟨saveAll m v root before, some (.crash (.limit l))⟩ ∧ accepts j = true ∧
          ¬ j.Fits m.digits m.writing 0) ∨
      ((save m (saveAll m v root before) root j).refused = none ∧ accepts j = true ∧
        j.Fits m.digits m.writing 0)) ∧
    (lastStored m requests = none →
      (load m (saveAll m v root requests) root).map toJson = .ok (overDefaults none)) ∧
    ∀ j, lastStored m requests = some j →
      (j.Fits m.digits m.reading 0 →
        (load m (saveAll m v root requests) root).map toJson = .ok (overDefaults (some j))) ∧
      (¬ j.Fits m.digits m.reading 0 →
        ∃ l, load m (saveAll m v root requests) root = .error (.crash (.limit l))) := by
  have hstart : Holds v root none := ⟨⟨entries, hdir⟩, hnew⟩
  have hend := holds_saveAll (m := m) hstart requests
  refine ⟨fun before j after _ => ?_, fun hlast => ?_, fun j hlast => ?_⟩
  · rcases save_cases (holds_saveAll hstart before) j with hrefused | hstopped | ⟨hdone, -, hj⟩
    · exact Or.inl hrefused
    · exact Or.inr (Or.inl hstopped)
    · exact Or.inr (Or.inr ⟨hdone, hj⟩)
  · rw [hlast] at hend
    rw [load_of_absent (Volume.probe_of_notFound hend.content)]
    exact congrArg Except.ok toJson_default
  · rw [hlast] at hend
    obtain ⟨hmem, hstores⟩ := List.mem_filter.mp (List.mem_of_getLast? hlast)
    obtain ⟨hwell, hheld⟩ := hrequests j hmem
    rw [stores, Bool.and_eq_true] at hstores
    exact ⟨fun hfits => load_of_stored hwell hstores.1 hfits hheld hend,
      fun hfits => load_of_stored_of_not_fits hwell hfits hheld hend⟩

/-- An empty project, which is the current directory. -/
def emptyProject : Volume where
  root := .directory [("project", .directory [])]
  here := ["project"]

/-- A value with line breaks and a member of its own, then two that are refused. -/
def mixedRequests : List Json :=
  [.obj [("note", .decimal ⟨true, 5, [], some 3⟩), ("include_vendor", .bool true),
      ("exclude", .arr [.str "a\r\nb", .str "é"])],
    .obj [("include_vendor", .int 2)], .arr [.null]]

theorem load_mixedRequests :
    (load {} (saveAll {} emptyProject ⟨.relative, ["..", "project"]⟩ mixedRequests)
        ⟨.relative, ["..", "project"]⟩).map toJson =
      .ok (.obj [("exclude", .arr [.str "a\r\nb", .str "é"]), ("include_templates", .bool false),
        ("include_vendor", .bool true), ("max_file_size", .int 1000000)]) := by
  have hwell : ∀ j ∈ mixedRequests, j.WellFormed ∧ Json.Machine.Holds {} j := by
    intro j hj
    refine ⟨?_, Json.Machine.holds_of_keep rfl j⟩
    simp only [mixedRequests, List.mem_cons, List.not_mem_nil, or_false] at hj
    rcases hj with rfl | rfl | rfl
    · refine .obj (by decide) ?_
      simp only [List.mem_cons, List.not_mem_nil, or_false]
      rintro m (rfl | rfl | rfl)
      · exact .decimal (Or.inr (by decide))
      · exact .bool true
      · refine .arr ?_
        simp only [List.mem_cons, List.not_mem_nil, or_false]
        rintro j (rfl | rfl)
        · exact .str _
        · exact .str _
    · refine .obj (by decide) ?_
      simp only [List.mem_cons, List.not_mem_nil, or_false]
      rintro m rfl
      exact .int 2
    · refine .arr ?_
      simp only [List.mem_cons, List.not_mem_nil, or_false]
      rintro j rfl
      exact .null
  have hlast : lastStored {} mixedRequests = some mixedRequests[0] := rfl
  have hload := (load_saveAll {} emptyProject ⟨.relative, ["..", "project"]⟩ rfl rfl mixedRequests
    hwell).2.2 _ hlast
  exact hload.1 (by decide +kernel)

/-- Not every request is refused as wrong settings or succeeds: a member may have an integer of too
many digits, or arrays that are nested too deep. -/
theorem save_outsized :
    save {} emptyProject ⟨.relative, []⟩ (.obj [("x", .int (10 ^ 4300))]) =
      ⟨emptyProject, some (.crash (.limit .digits))⟩ ∧
    save {} emptyProject ⟨.relative, []⟩ (.obj [("x", Json.nested 991)]) =
      ⟨emptyProject, some (.crash (.limit .nesting))⟩ := by
  have hsave : ∀ {j : Json} {l : Json.Limit}, Json.overrun? {} 1 j = some l →
      save {} emptyProject ⟨.relative, []⟩ (.obj [("x", j)]) =
        ⟨emptyProject, some (.crash (.limit l))⟩ := by
    intro j l hl
    have hprint : Json.Machine.pretty {} (.obj [("x", j)]) = .error l := by
      simp [Json.Machine.pretty, Json.Machine.print, Json.overrun?, Json.overrunMembers?, hl]
    have hvalid : validate (.obj [("x", j)]) = .ok () := rfl
    simp only [save, hvalid, hprint]
  exact ⟨hsave (Json.overrun?_tenPower rfl (by decide) 1),
    hsave (Json.overrun?_nested rfl (Nat.le_refl 992))⟩

end PhpCatalog.Settings
