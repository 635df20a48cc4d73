/-
# Asking for an extraction

An extraction is asked for with the options of the program, the command, its kinds and, behind a
double dash, its paths.  Whatever the paths look like, these words are read as they were meant
(`readWords_extractArgs`).  If the kinds are known and the paths lead to files, the program
extracts; without any path it refuses, whichever kinds are asked for (`run_extractWords`).
-/
import Mathlib.Tactic.Lemma
import PhpCatalog.Command.Run

namespace PhpCatalog.Command

/-- The arguments of the command: kinds, and behind a double dash the paths. -/
def extractArgs (kinds paths : List String) : List String :=
  kinds.flatMap (fun kind => ["--kind", kind]) ++ "--" :: paths

/-- The options of the program, the command and its arguments. -/
def extractWords (json verbose : Bool) (kinds paths : List String) : List String :=
  (if json then ["--json"] else []) ++ (if verbose then ["--verbose"] else []) ++
    "extract" :: extractArgs kinds paths

/-! ### The first pass -/

/-- The value of a kind is taken as it is, also if it looks like an option. -/
lemma readWords_kind (kind : String) (rest : List String) :
    readWords .extract ("--kind" :: kind :: rest) =
      (readWords .extract rest).map (·.addOption .kind kind) := by
  have hsplit : splitValue "--kind" = ("--kind", none) := by decide +kernel
  have hform : Page.extract.options.find? (·.long == "--kind") =
      some ⟨.kind, "--kind", none, true⟩ := by decide +kernel
  have hoption : ("--kind".toList.head? = some '-' && "--kind" != "-") = true := by decide +kernel
  rw [readWords, if_neg (by decide), if_pos hoption, hsplit]
  simp only [hform, if_pos]

lemma readWords_extractArgs (kinds paths : List String) :
    readWords .extract (extractArgs kinds paths) = .ok ⟨kinds.map (.kind, ·), paths⟩ := by
  induction kinds with
  | nil => simp [extractArgs, readWords]
  | cons kind rest ih =>
    have hwords : extractArgs (kind :: rest) paths =
        "--kind" :: kind :: extractArgs rest paths := rfl
    rw [hwords, readWords_kind, ih]
    rfl

/-- An option of the program that takes no value. -/
lemma readWords_flag {arg : String} {flag : Flag}
    (h : (arg, flag) ∈ [("--json", Flag.json), ("--verbose", Flag.verbose)]) (rest : List String) :
    readWords .top (arg :: rest) = (readWords .top rest).map (·.addOption flag "") := by
  have hflags : ∀ p ∈ [("--json", Flag.json), ("--verbose", Flag.verbose)],
      p.1 ≠ "--" ∧ (p.1.toList.head? = some '-' && p.1 != "-") = true ∧
        splitValue p.1 = (p.1, none) ∧ ∃ o, Page.top.options.find? (·.long == p.1) = some o ∧
          o.takesValue = false ∧ o.flag = p.2 := by
    simp only [List.forall_mem_cons, List.not_mem_nil, false_imp_iff, implies_true, and_true]
    refine ⟨⟨by decide, by decide, by decide +kernel, ⟨.json, "--json", none, false⟩, ?_⟩,
      ⟨by decide, by decide, by decide +kernel, ⟨.verbose, "--verbose", some 'v', false⟩, ?_⟩⟩
    all_goals decide +kernel
  obtain ⟨hdash, hoption, hsplit, o, hform, hvalue, rfl⟩ := hflags _ h
  rw [readWords, if_neg hdash, if_pos hoption, hsplit]
  simp only [hform, hvalue]
  rfl

/-- The options of the program. -/
def programOptions (json verbose : Bool) : List (Flag × String) :=
  (if json then [(.json, "")] else []) ++ if verbose then [(.verbose, "")] else []

lemma readWords_extractWords (json verbose : Bool) (kinds paths : List String) :
    readWords .top (extractWords json verbose kinds paths) =
      .ok ⟨programOptions json verbose, "extract" :: extractArgs kinds paths⟩ := by
  have hcommand : ∀ args, readWords .top ("extract" :: args) = .ok ⟨[], "extract" :: args⟩ := by
    intro args
    rw [readWords, if_neg (by decide), if_neg (by decide)]
    rfl
  cases json <;> cases verbose <;>
    simp [extractWords, programOptions, readWords_flag, hcommand, Except.map, Words.addOption]

/-! ### The second pass -/

lemma checkKinds_eq_ok {kinds paths : List String} (h : ∀ kind ∈ kinds, kind ∈ conceptTypes) :
    checkKinds ⟨kinds.map (.kind, ·), paths⟩ = .ok kinds := by
  have hkinds : (kinds.map (Flag.kind, ·)).filterMap
      (fun o => if o.1 = Flag.kind then some o.2 else none) = kinds := by
    rw [List.filterMap_map]
    exact List.filterMap_some
  have hknown : kinds.find? (fun k => !conceptTypes.contains k) = none := by
    simpa using h
  simp only [checkKinds, hkinds, hknown]

lemma eager?_kinds (kinds paths : List String) :
    eager? .extract ⟨kinds.map (.kind, ·), paths⟩ = none := by
  simp [eager?, List.findSome?_map, Function.comp_def]

lemma checkFiles_eq_ok {v : Volume} {paths : List String}
    (h : ∀ path ∈ paths, ∃ source, v.locateText path = .ok (.file source)) :
    checkFiles v paths = .ok () := by
  induction paths with
  | nil => rfl
  | cons path rest ih =>
    obtain ⟨⟨source, hfile⟩, hrest⟩ := List.forall_mem_cons.mp h
    rw [checkFiles, hfile]
    exact ih hrest

section Request

variable {v : Volume} {kinds paths : List String}

lemma extractRequest_eq (known : ∀ kind ∈ kinds, kind ∈ conceptTypes) (hne : paths ≠ [])
    (files : ∀ path ∈ paths, ∃ source, v.locateText path = .ok (.file source)) :
    extractRequest v (extractArgs kinds paths) = .ok (.extract kinds paths) := by
  have hfilled : paths.isEmpty = false := by simpa using hne
  simp only [extractRequest, readWords_extractArgs, eager?_kinds, checkKinds_eq_ok known,
    checkFiles_eq_ok files, hfilled, bind, Except.bind]
  rfl

lemma extractRequest_nil (known : ∀ kind ∈ kinds, kind ∈ conceptTypes) :
    extractRequest v (extractArgs kinds []) = .error .noPaths := by
  simp only [extractRequest, readWords_extractArgs, eager?_kinds, checkKinds_eq_ok known, bind,
    Except.bind]
  rfl

/-- The words make the request that the command makes of its arguments. -/
lemma parse_extractWords (json verbose : Bool) :
    parse v (extractWords json verbose kinds paths) =
      match extractRequest v (extractArgs kinds paths) with
      | .error f => .error (.usage f)
      | .ok request => .ok ⟨json, verbose, request⟩ := by
  have hne : (extractWords json verbose kinds paths).isEmpty = false := by
    simp [extractWords]
  have heager : eager? .top ⟨programOptions json verbose, "extract" :: extractArgs kinds paths⟩ =
      none := by
    cases json <;> cases verbose <;> rfl
  have hjson : (programOptions json verbose).any (fun o => o.1 = .json) = json := by
    cases json <;> cases verbose <;> rfl
  have hverbose : (programOptions json verbose).any (fun o => o.1 = .verbose) = verbose := by
    cases json <;> cases verbose <;> rfl
  simp only [parse, hne, readWords_extractWords, heager, hjson, hverbose, commandRequest]
  rfl

end Request

section Run

variable {s : Surroundings} {kinds paths : List String}

/-- With known kinds and paths that lead to files, the program extracts, unless there is no path. -/
theorem run_extractWords (known : ∀ kind ∈ kinds, kind ∈ conceptTypes)
    (files : ∀ path ∈ paths, ∃ source, s.volume.locateText path = .ok (.file source))
    (json verbose : Bool) :
    run s (extractWords json verbose kinds paths) =
      if paths = [] then (Refusal.usage .noPaths).outcome
      else (extract s json kinds paths).outcome verbose := by
  rw [run, parse_extractWords]
  by_cases hpaths : paths = []
  · rw [if_pos hpaths, hpaths, extractRequest_nil known]
  · rw [if_neg hpaths, extractRequest_eq known hpaths files]
    rfl

end Run

end PhpCatalog.Command
