/-
# Loading a manifest

The place of a project's manifest may be empty, be a directory or hold any bytes.  The manifest is
the object that the bytes denote, and the project has none in every other case, with a log that is
silent only where nothing is there.  Some obstacles crash the loading instead (`Obstacle`): a path
to the project that is too long, a null character in it, and a file that is spoiled.  There are no
others (`load_object_or_none`).
-/
import Mathlib.Tactic.Lemma
import PhpCatalog.Manifest.Insights
import PhpCatalog.Proofs.Volume.Reading

namespace PhpCatalog.Manifest

/-- Where the manifest of a project is. -/
def file (v : Volume) (project : Path) : Path :=
  (projectRoot v project).child fileName

/-- The manifest of a project is a file whose text is that of an object. -/
def HoldsObject (m : Json.Machine) (v : Volume) (project : Path)
    (members : List (String × Json)) : Prop :=
  ∃ bytes text, v.locate (file v project) = .ok (.file bytes) ∧
    String.fromUTF8? bytes = some text ∧ m.read text.toList = .ok (.obj members)

/-- What crashes the loading of a manifest, and with which crash. -/
inductive Obstacle (m : Json.Machine) (v : Volume) (project : Path) : Crash → Prop where
  /-- The system does not say what the project is. -/
  | project {f : AccessFault} (unknown : v.probe project = .error f) :
      Obstacle m v project (.access f)
  /-- The path of the manifest has a null character. -/
  | nul {known : Option Entry} {f : AccessFault} (probe : v.probe project = .ok known)
      (hasNul : (file v project).hasNul = true) (refused : v.read (file v project) = .error f) :
      Obstacle m v project .nul
  /-- The manifest is a file that cannot be read as a value or as none. -/
  | content {known : Option Entry} {c : Crash} (probe : v.probe project = .ok known)
      (spoiled : v.Spoiled m (file v project) c) : Obstacle m v project c

section Cases

variable {m : Json.Machine} {v : Volume} {project : Path} {known : Option Entry}
  {bytes : ByteArray} {text : String}

lemma load_of_readText (hprobe : v.probe project = .ok known)
    (hread : v.readText (file v project) = .ok text) :
    load m v project = match m.read text.toList with
      | .error (.limit l) => .error (.limit l)
      | .error (.fault e) =>
        .ok (none, [⟨.warning, .manifest, "Ignoring unreadable " ++ (file v project).text ++ ": " ++
          e.message text.toList⟩])
      | .ok (.obj members) => .ok (some (.obj members), [])
      | .ok _ => .ok (none, [⟨.warning, .manifest, "Ignoring " ++ (file v project).text ++
          ": top level is not an object"⟩]) := by
  rw [file] at hread ⊢
  match hparsed : m.read text.toList with
  | .error (.limit _) | .error (.fault _) => simp [load, hprobe, hread, hparsed]
  | .ok (.obj _) => simp [load, hprobe, hread, hparsed]
  | .ok .null | .ok (.bool _) | .ok (.int _) | .ok (.decimal _) | .ok .nan | .ok (.infinity _)
  | .ok (.str _) | .ok (.arr _) => simp [load, hprobe, hread, hparsed]

lemma load_of_obstacle {c : Crash} (h : Obstacle m v project c) : load m v project = .error c := by
  cases h with
  | project unknown => simp [load, unknown]
  | nul probe hasNul refused =>
    have hread : v.readText (file v project) = .error .nul := by
      simp [Volume.readText, refused, hasNul]
    rw [file] at hread
    simp [load, probe, hread]
  | content probe spoiled =>
    rcases spoiled.readText_cases with ⟨hread, rfl⟩ | ⟨text, l, hread, hstops, rfl⟩
    · rw [file] at hread
      simp [load, probe, hread]
    · rw [load_of_readText probe hread, hstops]

/-- What is no file is no manifest, and the log is silent only where nothing is there. -/
lemma load_of_refused (hprobe : v.probe project = .ok known) {f : AccessFault}
    (hread : v.read (file v project) = .error f) (hnul : (file v project).hasNul = false) :
    ∃ log, load m v project = .ok (none, log) ∧ (log = [] ↔ f.cause = .notFound) := by
  have htext : v.readText (file v project) = .error (.access f) := by
    simp [Volume.readText, hread, hnul]
  rw [file] at htext
  by_cases hcause : f.cause = .notFound
  · exact ⟨[], by simp [load, hprobe, htext, hcause]⟩
  · exact ⟨_, by simp [load, hprobe, htext, hcause]; rfl, by simp [hcause]⟩

lemma load_of_object (hprobe : v.probe project = .ok known)
    (hfile : v.locate (file v project) = .ok (.file bytes))
    (htext : String.fromUTF8? bytes = some text) {members : List (String × Json)}
    (hobject : m.read text.toList = .ok (.obj members)) :
    load m v project = .ok (some (.obj members), []) := by
  rw [load_of_readText hprobe (Volume.readText_of_file hfile htext), String.toList_ofList,
    (Json.read_unifyBreaks_iff _ _).mpr hobject]

/-- A text that is that of no object is no manifest, and the log says so. -/
lemma load_of_no_object (hprobe : v.probe project = .ok known)
    (hfile : v.locate (file v project) = .ok (.file bytes))
    (htext : String.fromUTF8? bytes = some text)
    (hlimit : ∀ l, m.read text.toList ≠ .error (.limit l))
    (hobject : ∀ members, m.read text.toList ≠ .ok (.obj members)) :
    ∃ r, load m v project = .ok (none, [r]) := by
  rw [load_of_readText hprobe (Volume.readText_of_file hfile htext), String.toList_ofList]
  rcases hread : m.read (Text.unifyBreaks text.toList) with (fault | l) | j
  · exact ⟨_, rfl⟩
  · exact absurd ((Json.read_unifyBreaks_limit_iff _ _).mp hread) (hlimit l)
  · have hj := (Json.read_unifyBreaks_iff _ _).mp hread
    cases j with
    | obj members => exact absurd hj (hobject members)
    | _ => exact ⟨_, rfl⟩

end Cases

/-- What a file holds is an object only if its text is that of one. -/
lemma read_of_holdsObject {m : Json.Machine} {v : Volume} {project : Path} {bytes : ByteArray}
    {text : String} (hfile : v.locate (file v project) = .ok (.file bytes))
    (htext : String.fromUTF8? bytes = some text) {members : List (String × Json)}
    (h : HoldsObject m v project members) : m.read text.toList = .ok (.obj members) := by
  obtain ⟨bytes', text', hfile', htext', hobject⟩ := h
  obtain rfl : bytes = bytes' := by simpa [hfile] using hfile'
  obtain rfl : text = text' := by simpa [htext] using htext'
  exact hobject

/-- How loading a manifest ends: at an obstacle, with the object it holds, or with none. -/
def Ends (m : Json.Machine) (v : Volume) (project : Path) : Prop :=
  (∃ c, Obstacle m v project c) ∨
  (∃ members, HoldsObject m v project members ∧
    load m v project = .ok (some (.obj members), [])) ∨
  (∀ members, ¬ HoldsObject m v project members) ∧
    ∃ log, load m v project = .ok (none, log) ∧
      (log = [] ↔ v.ask (file v project) = .error .notFound)

lemma ends_of_refused {m : Json.Machine} {v : Volume} {project : Path} {known : Option Entry}
    {f : AccessFault} (hprobe : v.probe project = .ok known)
    (hread : v.read (file v project) = .error f)
    (hcause : f.cause = .notFound ↔ v.ask (file v project) = .error .notFound) :
    Ends m v project := by
  cases hnul : (file v project).hasNul with
  | true => exact Or.inl ⟨_, .nul hprobe hnul hread⟩
  | false =>
    obtain ⟨log, hload, hlog⟩ := load_of_refused (m := m) hprobe hread hnul
    refine Or.inr (Or.inr ⟨?_, log, hload, hlog.trans hcause⟩)
    rintro members ⟨bytes, _, hfile, -⟩
    simp [Volume.read, Volume.ask_eq_ok_iff.mpr hfile] at hread

lemma ends_of_file {m : Json.Machine} {v : Volume} {project : Path} {known : Option Entry}
    {bytes : ByteArray} (hprobe : v.probe project = .ok known)
    (hfile : v.locate (file v project) = .ok (.file bytes)) : Ends m v project := by
  rcases Volume.spoiled_or_text m hfile with ⟨c, hspoiled⟩ | ⟨text, htext, hlimit⟩
  · exact Or.inl ⟨c, .content hprobe hspoiled⟩
  by_cases hobject : ∃ members, m.read text.toList = .ok (.obj members)
  · obtain ⟨members, hobject⟩ := hobject
    exact Or.inr (Or.inl ⟨members, ⟨bytes, text, hfile, htext, hobject⟩,
      load_of_object hprobe hfile htext hobject⟩)
  · rw [not_exists] at hobject
    obtain ⟨r, hload⟩ := load_of_no_object hprobe hfile htext hlimit hobject
    exact Or.inr (Or.inr ⟨fun members h => hobject members (read_of_holdsObject hfile htext h),
      [r], hload, by simp [Volume.ask_eq_ok_iff.mpr hfile]⟩)

lemma ends (m : Json.Machine) (v : Volume) (project : Path) : Ends m v project := by
  rcases hprobe : v.probe project with f | known
  · exact Or.inl ⟨_, .project hprobe⟩
  rcases hask : v.ask (file v project) with cause | bytes | entries
  · exact ends_of_refused (f := ⟨cause, _⟩) hprobe (by rw [Volume.read, hask]) (by simp [hask])
  · exact ends_of_file hprobe (Volume.ask_eq_ok_iff.mp hask)
  · exact ends_of_refused (f := ⟨.isDirectory, _⟩) hprobe (by rw [Volume.read, hask])
      (by simp [hask])

/-- **Loading a manifest, whatever is at its place.**  Loading crashes exactly at the obstacles.
Without any it gives the object that the manifest holds, or none where it holds no object, and the
log is then silent exactly where nothing is there. -/
theorem load_object_or_none (m : Json.Machine) (v : Volume) (project : Path) :
    (∀ c, load m v project = .error c ↔ Obstacle m v project c) ∧
    ((∀ c, ¬ Obstacle m v project c) →
      (∃ members, HoldsObject m v project members ∧
        load m v project = .ok (some (.obj members), [])) ∨
      (∀ members, ¬ HoldsObject m v project members) ∧
        ∃ log, load m v project = .ok (none, log) ∧
          (log = [] ↔ v.ask (file v project) = .error .notFound)) := by
  refine ⟨fun c => ⟨fun hload => ?_, load_of_obstacle⟩, fun hnone => ?_⟩
  · rcases ends m v project with ⟨c', hc⟩ | ⟨_, -, hok⟩ | ⟨-, _, hok, -⟩
    · obtain rfl : c' = c := Except.error.inj ((load_of_obstacle hc).symm.trans hload)
      exact hc
    · cases hok.symm.trans hload
    · cases hok.symm.trans hload
  · exact (ends m v project).resolve_left fun ⟨c, hc⟩ => hnone c hc

/-- A project with the given bytes as its manifest. -/
def projectOf (bytes : ByteArray) : Volume where
  root := .directory [("project", .directory [(fileName, .file bytes)])]
  here := []

/-- A manifest of two braces with a break between them, one of a byte that no text has, and one of a
number with more digits than are read. -/
theorem load_projectOf :
    (∃ members, HoldsObject {} (projectOf "\x7b\r\n\x7d".toUTF8) ⟨.root, ["project"]⟩ members ∧
      load {} (projectOf "\x7b\r\n\x7d".toUTF8) ⟨.root, ["project"]⟩ =
        .ok (some (.obj members), [])) ∧
    load {} (projectOf ⟨#[0xff]⟩) ⟨.root, ["project"]⟩ = .error .encoding ∧
    load { digits := some 3 } (projectOf "1000".toUTF8) ⟨.root, ["project"]⟩ =
      .error (.limit .digits) := by
  have hfile : ∀ bytes, (projectOf bytes).locate (file (projectOf bytes) ⟨.root, ["project"]⟩) =
      .ok (.file bytes) := fun _ => rfl
  have hprobe : ∀ bytes, (projectOf bytes).probe ⟨.root, ["project"]⟩ =
      .ok (some (.directory [(fileName, .file bytes)])) := fun _ => rfl
  refine ⟨?_, ?_, ?_⟩
  · have hobject : HoldsObject {} (projectOf "\x7b\r\n\x7d".toUTF8) ⟨.root, ["project"]⟩ [] :=
      ⟨_, _, hfile _, Volume.fromUTF8?_toUTF8 _, rfl⟩
    have hload := load_of_object (hprobe _) (hfile _) (Volume.fromUTF8?_toUTF8 _)
      (read_of_holdsObject (hfile _) (Volume.fromUTF8?_toUTF8 _) hobject)
    have hclear : ∀ c, ¬ Obstacle {} (projectOf "\x7b\r\n\x7d".toUTF8) ⟨.root, ["project"]⟩ c := by
      intro c hc
      cases hload.symm.trans (((load_object_or_none _ _ _).1 c).mpr hc)
    rcases (load_object_or_none _ _ _).2 hclear with hobject | ⟨hnone, -⟩
    · exact hobject
    · exact absurd hobject (hnone [])
  · have hbytes : ¬ ByteArray.IsValidUTF8 ⟨#[0xff]⟩ := by decide +kernel
    exact ((load_object_or_none _ _ _).1 _).mpr (.content (hprobe _) (.encoding (hfile _) hbytes))
  · exact ((load_object_or_none _ _ _).1 _).mpr
      (.content (hprobe _) (.limit (hfile _) (Volume.fromUTF8?_toUTF8 _) rfl))

end PhpCatalog.Manifest
