/-
# Loading settings

What passes the checks of `Settings.validate` is an object whose four known members, where they are
there, have their form (`Admits`).  The settings it stands for are the defaults with these members
in their places (`toJson_overlay`), so settings that were loaded pass the checks in turn.

Loading gives such settings or refuses the file as wrong, with few exceptions (`Obstacle`): a path
that is too long and a file that is spoiled crash it.
-/
import Mathlib.Tactic.Lemma
import PhpCatalog.Command.Run
import PhpCatalog.Proofs.Volume.Reading

namespace PhpCatalog.Settings

/-- The defaults, as the members of an object. -/
def defaults : List (String × Json) :=
  [("exclude", .arr []), ("include_templates", .bool false), ("include_vendor", .bool false),
    ("max_file_size", .int 1000000)]

/-- The defaults with the members of a value, if there is one, in the places of those it has. -/
def overDefaults (j : Option Json) : Json :=
  .obj (defaults.map fun m => (m.1, (j.bind (Json.get? · m.1)).getD m.2))

/-! ### What the checks admit -/

/-- The known members of an object have their forms. -/
structure Admits (members : List (String × Json)) : Prop where
  exclude : allows members "exclude" isTexts = true
  includeTemplates : allows members "include_templates" isFlag = true
  includeVendor : allows members "include_vendor" isFlag = true
  maxFileSize : allows members "max_file_size" isSize = true

/-- A check that is passed leaves the checks behind it. -/
lemma check_eq_ok_iff {good : Bool} {e : SettingsFault} {others : Except SettingsFault Unit} :
    (if !good then .error e else others) = .ok () ↔ good = true ∧ others = .ok () := by
  cases good <;> simp

lemma validate_eq_ok_iff {j : Json} :
    validate j = .ok () ↔ ∃ members, j = .obj members ∧ Admits members := by
  cases j with
  | obj members =>
    simp only [validate, check_eq_ok_iff, and_true]
    constructor
    · rintro ⟨hexclude, htemplates, hvendor, hsize⟩
      exact ⟨members, rfl, hexclude, htemplates, hvendor, hsize⟩
    · rintro ⟨_, ⟨⟩, h⟩
      exact ⟨h.exclude, h.includeTemplates, h.includeVendor, h.maxFileSize⟩
  | _ => simp [validate]

lemma allows_iff {members : List (String × Json)} {name : String} {good : Json → Bool} :
    allows members name good = true ↔
      Json.lookup name members = none ∨ ∃ j, Json.lookup name members = some j ∧ good j = true := by
  cases h : Json.lookup name members <;> simp [allows, h]

lemma arr_textsOf {j : Json} (h : isTexts j = true) : Json.arr ((textsOf j).map .str) = j := by
  cases j with
  | arr items =>
    simp only [isTexts, List.all_eq_true] at h
    congr 1
    change (items.filterMap Json.str?).map Json.str = items
    induction items with
    | nil => rfl
    | cons item rest ih =>
      have hitem := h item List.mem_cons_self
      have hrest := ih fun j hj => h j (List.mem_cons_of_mem _ hj)
      cases item with
      | str s => exact congrArg (Json.str s :: ·) hrest
      | _ => simp [Json.str?] at hitem
  | _ => simp [isTexts] at h

lemma bool_isTruthy {j : Json} (h : isFlag j = true) : Json.bool j.isTruthy = j := by
  cases j with
  | bool b => rfl
  | _ => simp [isFlag] at h

lemma isSize_iff {j : Json} : isSize j = true ↔ ∃ n : Int, 0 < n ∧ j = .int n := by
  cases j <;> simp [isSize]

lemma isTexts_map_str (texts : List String) : isTexts (.arr (texts.map .str)) = true := by
  simp [isTexts, Json.str?]

/-! ### The settings of an object -/

lemma toJson_default : toJson {} = overDefaults none := rfl

/-- The settings of an object are the defaults with its known members in their places. -/
lemma toJson_overlay {members : List (String × Json)} (h : Admits members) :
    (overlay {} members).toJson = overDefaults (some (.obj members)) := by
  have hexclude : Json.arr ((overlay {} members).exclude.map .str) =
      (Json.lookup "exclude" members).getD (.arr []) := by
    rcases allows_iff.mp h.exclude with hj | ⟨j, hj, hgood⟩
    · simp [overlay, hj]
    · simpa [overlay, hj] using arr_textsOf hgood
  have htemplates : Json.bool (overlay {} members).includeTemplates =
      (Json.lookup "include_templates" members).getD (.bool false) := by
    rcases allows_iff.mp h.includeTemplates with hj | ⟨j, hj, hgood⟩
    · simp [overlay, hj]
    · simpa [overlay, hj] using bool_isTruthy hgood
  have hvendor : Json.bool (overlay {} members).includeVendor =
      (Json.lookup "include_vendor" members).getD (.bool false) := by
    rcases allows_iff.mp h.includeVendor with hj | ⟨j, hj, hgood⟩
    · simp [overlay, hj]
    · simpa [overlay, hj] using bool_isTruthy hgood
  have hsize : Json.int (overlay {} members).maxFileSize =
      (Json.lookup "max_file_size" members).getD (.int 1000000) := by
    rcases allows_iff.mp h.maxFileSize with hj | ⟨j, hj, hgood⟩
    · simp [overlay, hj]
    · obtain ⟨n, -, rfl⟩ := isSize_iff.mp hgood
      simp [overlay, hj]
  rw [toJson, hexclude, htemplates, hvendor, hsize]
  rfl

lemma maxFileSize_overlay_pos {members : List (String × Json)} (h : Admits members) :
    0 < (overlay {} members).maxFileSize := by
  rcases allows_iff.mp h.maxFileSize with hj | ⟨j, hj, hgood⟩
  · simp [overlay, hj]
  · obtain ⟨n, hn, rfl⟩ := isSize_iff.mp hgood
    simpa [overlay, hj] using hn

lemma validate_toJson {s : Settings} (h : 0 < s.maxFileSize) : validate s.toJson = .ok () := by
  refine validate_eq_ok_iff.mpr ⟨_, rfl, isTexts_map_str s.exclude, rfl, rfl, ?_⟩
  exact isSize_iff.mpr ⟨s.maxFileSize, h, rfl⟩

lemma ofJson_of_validate {j : Json} (h : validate j = .ok ()) :
    ∃ members, j = .obj members ∧ Admits members ∧ ofJson j = .ok (overlay {} members) := by
  obtain ⟨members, rfl, hadmits⟩ := validate_eq_ok_iff.mp h
  exact ⟨members, rfl, hadmits, by rw [ofJson, h]⟩

lemma maxFileSize_pos_of_ofJson {j : Json} {s : Settings} (h : ofJson j = .ok s) :
    0 < s.maxFileSize := by
  have hvalid : validate j = .ok () := by
    cases hv : validate j with
    | error e => simp [ofJson, hv] at h
    | ok u => rfl
  obtain ⟨members, rfl, hadmits, hs⟩ := ofJson_of_validate hvalid
  obtain rfl : overlay {} members = s := Except.ok.inj (hs.symm.trans h)
  exact maxFileSize_overlay_pos hadmits

/-! ### The settings file -/

/-- What crashes the loading of settings, and with which crash. -/
inductive Obstacle (m : Json.Machine) (v : Volume) (root : Path) : Crash → Prop where
  /-- The system does not say what is at the place of the settings file. -/
  | place {f : AccessFault} (unknown : v.probe (file root) = .error f) :
      Obstacle m v root (.access f)
  /-- The settings file cannot be read as a value or as none. -/
  | content {c : Crash} (spoiled : v.Spoiled m (file root) c) : Obstacle m v root c

section File

variable {m : Json.Machine} {v : Volume} {root : Path} {bytes : ByteArray}

lemma load_of_absent (h : v.probe (file root) = .ok none) : load m v root = .ok {} := by
  simp [load, h]

lemma load_of_readText {e : Entry} (h : v.locate (file root) = .ok e) {text : String}
    (htext : v.readText (file root) = .ok text) : load m v root = ofText m (file root) text := by
  simp [load, Volume.probe_of_locate h, htext]

lemma Obstacle.load_eq {c : Crash} (h : Obstacle m v root c) :
    load m v root = .error (.crash c) := by
  cases h with
  | place unknown => simp [load, unknown]
  | content spoiled =>
    obtain ⟨bytes, hfile⟩ := spoiled.locate
    rcases spoiled.readText_cases with ⟨hread, rfl⟩ | ⟨text, l, hread, hstops, rfl⟩
    · simp [load, Volume.probe_of_locate hfile, hread, TextFault.crash]
    · rw [load_of_readText hfile hread, ofText, hstops]

end File

/-- Settings that pass the checks, as an object with exactly the known members. -/
def Sound (s : Settings) : Prop :=
  validate s.toJson = .ok () ∧
    ∃ members, s.toJson = .obj members ∧ members.map Prod.fst = defaults.map Prod.fst

lemma sound_of_pos {s : Settings} (h : 0 < s.maxFileSize) : Sound s :=
  ⟨validate_toJson h, _, rfl, rfl⟩

/-- A text within the bounds stands for settings or is refused. -/
lemma ofText_cases {m : Json.Machine} {text : String}
    (h : ∀ l, m.read text.toList ≠ .error (.limit l)) (path : Path) :
    (∃ s, ofText m path text = .ok s ∧ Sound s) ∨
      ∃ e, ofText m path text = .error (.failure (.settings e)) := by
  rcases hread : m.read text.toList with (fault | l) | j
  · exact Or.inr ⟨_, by rw [ofText, hread]⟩
  · exact absurd hread (h l)
  · rw [ofText, hread]
    cases hj : ofJson j with
    | error e => exact Or.inr ⟨e, by simp [hj, Except.mapError]⟩
    | ok s =>
      exact Or.inl ⟨s, by simp [hj, Except.mapError], sound_of_pos (maxFileSize_pos_of_ofJson hj)⟩

/-- Loading meets an obstacle, gives settings, or refuses the file. -/
lemma load_cases {m : Json.Machine} {v : Volume} {root : Path}
    (hfile : ∀ entries, v.locate (file root) ≠ .ok (.directory entries)) :
    (∃ c, Obstacle m v root c) ∨ (∃ s, load m v root = .ok s ∧ Sound s) ∨
      ∃ e, load m v root = .error (.failure (.settings e)) := by
  rcases hprobe : v.probe (file root) with f | (_ | bytes | entries)
  · exact Or.inl ⟨_, .place hprobe⟩
  · exact Or.inr (Or.inl ⟨{}, load_of_absent hprobe, sound_of_pos (by decide)⟩)
  · have hplace := Volume.probe_eq_ok_some_iff.mp hprobe
    rcases Volume.spoiled_or_text m hplace with ⟨c, hspoiled⟩ | ⟨text, htext, hlimit⟩
    · exact Or.inl ⟨c, .content hspoiled⟩
    · have hunified : ∀ l, m.read (String.ofList (Text.unifyBreaks text.toList)).toList ≠
          .error (.limit l) := by
        intro l
        rw [String.toList_ofList, Ne, Json.read_unifyBreaks_limit_iff]
        exact hlimit l
      rw [load_of_readText hplace (Volume.readText_of_file hplace htext)]
      exact Or.inr (ofText_cases hunified _)
  · exact absurd (Volume.probe_eq_ok_some_iff.mp hprobe) (hfile entries)

/-- A scan ends where its settings do. -/
lemma scan_of_settingsFor {s : Command.Surroundings} {text : String} {a : Abort}
    (h : Command.settingsFor s.machine s.volume (Path.ofString text) = .error a)
    (json list : Bool) : Command.scan s json list text = { ended := some a } := by
  have hsurvey : Command.survey s (Path.ofString text) = ⟨[], .error a⟩ := by
    rw [Command.survey, h]
  delta Command.scan
  rw [hsurvey]

/-- **Loading settings, whatever the settings file holds.**  Where the file is absent, or any bytes,
loading crashes exactly at the obstacles.  Without any it gives settings with exactly the four known
members, which pass the checks, or it refuses the file.  A scan crashes where loading does, and it
exits with code 2 where the file is refused. -/
theorem load_settings_or_refuse (m : Json.Machine) (v : Volume) (root : Path)
    (hfile : ∀ entries, v.locate (file root) ≠ .ok (.directory entries)) :
    (∀ c, load m v root = .error (.crash c) ↔ Obstacle m v root c) ∧
    ((∀ c, ¬ Obstacle m v root c) → (∃ s, load m v root = .ok s ∧ Sound s) ∨
      ∃ e, load m v root = .error (.failure (.settings e))) ∧
    ∀ (s : Command.Surroundings) (json list verbose : Bool) (text : String), s.machine = m →
      s.volume = v → (findRoot v (Path.ofString text)).getD (Path.ofString text) = root →
      (∀ e, load m v root = .error (.failure (.settings e)) →
        ((Command.scan s json list text).outcome verbose).exitCode = 2 ∧
        ((Command.scan s json list text).outcome verbose).crash = none) ∧
      ∀ c, Obstacle m v root c →
        ((Command.scan s json list text).outcome verbose).crash = some c := by
  refine ⟨fun c => ⟨fun hload => ?_, Obstacle.load_eq⟩,
    fun hnone => (load_cases hfile).resolve_left fun ⟨c, hc⟩ => hnone c hc, ?_⟩
  · rcases load_cases (m := m) hfile with ⟨c', hc⟩ | ⟨_, hok, -⟩ | ⟨_, hrefused⟩
    · obtain rfl : c' = c := by simpa using hc.load_eq.symm.trans hload
      exact hc
    · cases hok.symm.trans hload
    · cases hrefused.symm.trans hload
  rintro s json list verbose text rfl rfl hroot
  have hsettings : Command.settingsFor s.machine s.volume (Path.ofString text) =
      load s.machine s.volume root := by
    rw [Command.settingsFor, hroot]
  constructor
  · intro e hload
    rw [scan_of_settingsFor (hsettings.trans hload)]
    exact ⟨rfl, rfl⟩
  · intro c hc
    rw [scan_of_settingsFor (hsettings.trans hc.load_eq)]
    rfl

/-- A project whose settings file has the given bytes. -/
def projectOf (bytes : ByteArray) : Volume where
  root := .directory [("project", .directory [(settingsName, .file bytes)])]
  here := []

/-- A settings file of one byte that no text has, and one of a number with more digits than are
read. -/
theorem load_illegibleProject :
    load {} (projectOf ⟨#[0xff]⟩) ⟨.root, ["project"]⟩ = .error (.crash .encoding) ∧
    load { digits := some 3 } (projectOf "1000".toUTF8) ⟨.root, ["project"]⟩ =
      .error (.crash (.limit .digits)) := by
  have hplace : ∀ bytes, (projectOf bytes).locate (file ⟨.root, ["project"]⟩) =
      .ok (.file bytes) := fun _ => rfl
  have hfile : ∀ bytes entries, (projectOf bytes).locate (file ⟨.root, ["project"]⟩) ≠
      .ok (.directory entries) := by
    intro bytes entries h
    cases (hplace bytes).symm.trans h
  constructor
  · have hbytes : ¬ ByteArray.IsValidUTF8 ⟨#[0xff]⟩ := by decide +kernel
    exact ((load_settings_or_refuse _ _ _ (hfile _)).1 _).mpr
      (.content (.encoding (hplace _) hbytes))
  · exact ((load_settings_or_refuse _ _ _ (hfile _)).1 _).mpr
      (.content (.limit (hplace _) (Volume.fromUTF8?_toUTF8 _) rfl))

end PhpCatalog.Settings
