/-
# Discovered files are supported

Discovery looks at the name of a file in lower case and takes the suffix of that; extraction takes
the suffix of the whole path and then its lower case.  Both come to the same, so what discovery
keeps has a language, and what it leaves out without being told to has none or is minified.
-/
import PhpCatalog.Proofs.Discovery.Keeping
import PhpCatalog.Proofs.Extraction.Recorded
import PhpCatalog.Proofs.Language.Lowering

namespace PhpCatalog

/-! ### Languages and skipped files -/

lemma ofPath?_eq_some_iff {path : String} :
    Language.ofPath? path = some .php ↔ suffix (lower (baseName path.toList)) ∈ phpSuffixes := by
  rw [suffix_lower, suffix_baseName, Language.ofPath?, Language.ofPathBy?]
  simp

lemma ofPath?_eq_none_iff {path : String} :
    Language.ofPath? path = none ↔ suffix (lower (baseName path.toList)) ∉ phpSuffixes := by
  rw [suffix_lower, suffix_baseName, Language.ofPath?, Language.ofPathBy?]
  simp

/-- A file with the name of another one has its language. -/
lemma ofPath?_congr {path other : String} (h : baseName path.toList = baseName other.toList) :
    Language.ofPath? path = Language.ofPath? other := by
  have hsuffix : suffix path.toList = suffix other.toList := by
    rw [← suffix_baseName, h, suffix_baseName]
  rw [Language.ofPath?, Language.ofPath?, Language.ofPathBy?, Language.ofPathBy?, hsuffix]

section Skips

variable {s : Settings} {path : String}

/-- What is not left out has a language. -/
lemma ofPath?_of_not_skips (h : s.skips path = false) : Language.ofPath? path = some .php := by
  exact ofPath?_eq_some_iff.mpr (passes_iff.mp h).supported

/-- Without rules of the settings, a file is left out that has no language or is minified. -/
lemma skips_iff_of_permissive (hexclude : s.exclude = []) (htemplates : s.includeTemplates = true)
    (hvendor : s.includeVendor = true) :
    s.skips path = true ↔
      Language.ofPath? path = none ∨ minifiedSuffix <:+ lower (baseName path.toList) := by
  rw [ofPath?_eq_none_iff, ← Bool.not_eq_false, passes_iff]
  constructor
  · intro hleft
    by_contra hneither
    rw [not_or, not_not] at hneither
    exact hleft ⟨hneither.1, hneither.2, fun _ => htemplates, fun _ => hvendor, by simp [hexclude]⟩
  · rintro (hlanguage | hminified) hpasses
    · exact hlanguage hpasses.supported
    · exact hpasses.unminified hminified

lemma sourceLanguage_of_ofPath? (h : Language.ofPath? path = some .php) :
    sourceLanguage path none = .ok .php := by
  simp [sourceLanguage, h]

end Skips

/-! ### Extraction of discovered files -/

/-- A file with a language has a name that leads down. -/
lemma isEntryName_lastName {path : String} (h : Language.ofPath? path = some .php) :
    IsEntryName (lastName path) := by
  have hno : ∀ name ∈ ["", ".", ".."], Language.ofPath? name = none := by decide
  have hlast : Language.ofPath? (lastName path) = some .php := by
    rw [← h]
    refine ofPath?_congr ?_
    rw [lastName, String.toList_ofList, baseName_of_notMem (slash_notMem_baseName _)]
  have hne : ∀ name ∈ ["", ".", ".."], lastName path ≠ name := by
    intro name hname heq
    rw [heq, hno name hname] at hlast
    cases hlast
  exact ⟨hne _ (by simp), hne _ (by simp), hne _ (by simp)⟩

lemma extractSource_ne_file {record : String} (h : Language.ofPath? record = some .php)
    (read : ByteArray → Node) (source : ByteArray) (name : String) :
    extractSource read source record none ≠ .error (.file name) := by
  simp only [extractSource, sourceLanguage_of_ofPath? h]
  cases Catalog.walk (read source) source record <;> simp

lemma abort_eq_unsupported {e : SourceFault} {name : String}
    (h : e.abort = .failure (.unsupportedFile name)) : e = .file name := by
  cases e <;> simp_all [SourceFault.abort]

/-- Extraction below a directory refuses no file whose path has a language. -/
lemma extractListed_ne_unsupported {v : Volume} {root : Path} {entries : List (String × Entry)}
    (hroot : v.locate root = .ok (.directory entries)) {path : String}
    (h : Language.ofPath? path = some .php) (read : ByteArray → Node) (name : String) :
    extractListed read v root path ≠ .error (.failure (.unsupportedFile name)) := by
  intro hrefused
  have hfile : extractFile read v (root.join (Path.ofString path)) (some root) =
      .error (.failure (.unsupportedFile name)) := by
    rw [extractListed] at hrefused
    split at hrefused
    · cases hrefused
    · exact hrefused
  rcases hrecord : recordedPath v (root.join (Path.ofString path)) (some root) with e | record
  · rw [recordedPath_error hrecord] at hrecord
    simp [extractFile, hrecord] at hfile
  rcases hread : v.read (root.join (Path.ofString path)) with f | source
  · simp [extractFile, hrecord, hread] at hfile
  rcases recordedPath_cases (isEntryName_lastName h) hrecord with hname | hresolve
  · have hlanguage : Language.ofPath? record = some .php := (ofPath?_congr hname).trans h
    have hsource := extractSource_ne_file hlanguage read source name
    simp only [extractFile, hrecord, hread] at hfile
    rcases hresult : extractSource read source record none with e | found
    · rw [hresult] at hfile hsource
      exact hsource (congrArg _ (abort_eq_unsupported (Except.error.inj hfile)))
    · rw [hresult] at hfile
      cases hfile
  · -- the path leads back to the root, which is no file
    cases Volume.locate_unique (Volume.read_eq_ok_iff.mp hread) hroot hresolve

lemma not_skips_of_mem_discover {v : Volume} {listing : Listing} {root : Path} {s : Settings}
    {path : String} (h : path ∈ discover v listing root s) : s.skips path = false := by
  obtain ⟨-, hkeeps⟩ := mem_discover_iff.mp h
  exact passes_iff.mpr (keeps_iff.mp hkeeps).1

/-- **Discovery and extraction agree on what a PHP file is.**  Whatever way names are written in
lower case: a path that is not left out has a language, and so an extractor; where the settings
leave nothing out and include everything, a path is left out only if it has no language or is
minified; and extraction refuses no path that was discovered in a directory. -/
theorem not_skips_supported (l : Lowering) (s : Settings) (path : String) :
    (s.skipsBy l.text path = s.skips path ∧
      Language.ofPathBy? l.text path = Language.ofPath? path) ∧
    (s.skips path = false →
      Language.ofPath? path = some .php ∧ sourceLanguage path none = .ok .php) ∧
    (s.exclude = [] → s.includeTemplates = true → s.includeVendor = true →
      (s.skips path = true ↔
        Language.ofPath? path = none ∨ minifiedSuffix <:+ l.text (baseName path.toList))) ∧
    ∀ (v : Volume) (listing : Listing) (root : Path) (entries : List (String × Entry)),
      v.locate root = .ok (.directory entries) → path ∈ discover v listing root s →
      ∀ (read : ByteArray → Node) (name : String),
        extractListed read v root path ≠ .error (.failure (.unsupportedFile name)) := by
  refine ⟨⟨l.skipsBy_eq s path, l.ofPathBy?_eq path⟩, ?_, ?_, ?_⟩
  · intro hkept
    have hlanguage := ofPath?_of_not_skips hkept
    exact ⟨hlanguage, sourceLanguage_of_ofPath? hlanguage⟩
  · intro hexclude htemplates hvendor
    have hminified : minifiedSuffix <:+ l.text (baseName path.toList) ↔
        minifiedSuffix <:+ lower (baseName path.toList) :=
      l.isSuffix_behind_iff (by decide) [] _
    rw [hminified]
    exact skips_iff_of_permissive hexclude htemplates hvendor
  · intro v listing root entries hroot hmem read name
    have hlanguage := ofPath?_of_not_skips (not_skips_of_mem_discover hmem)
    exact extractListed_ne_unsupported hroot hlanguage read name

/-- The lower case of ASCII and of the two characters outside it that become letters of ASCII: the
Kelvin sign becomes a `k`, and the capital `I` with a dot an `i` with a dot behind it. -/
def kelvinLowering : Lowering where
  image _ c _ :=
    if c.toNat < 128 then [c.toLower]
    else if c = '\u212a' then ['k']
    else if c = '\u0130' then ['i', '\u0307']
    else [c]
  ascii _ c _ h := if_pos h
  foreign _ c _ h := by
    rw [if_neg (by omega)]
    by_cases hk : c = '\u212a'
    · exact ⟨[], 'k', by simp [hk]⟩
    · by_cases hi : c = '\u0130'
      · exact ⟨['i'], '\u0307', by simp [hi]⟩
      · exact ⟨[], c, by simp [hk, hi, h]⟩

/-- A directory `src` with an empty file in it. -/
def kelvinProject : Volume where
  root := .directory [("src", .directory [("\u212a\u0130.PhP", .file ⟨#[]⟩)])]
  here := []

theorem not_skips_kelvinNames :
    let s : Settings := { includeTemplates := true, includeVendor := true }
    kelvinLowering.text "\u212a\u0130.Min.PhP".toList = "ki\u0307.min.php".toList ∧
    s.skipsBy kelvinLowering.text "src/\u212a\u0130.PhP" = false ∧
    Language.ofPathBy? kelvinLowering.text "src/\u212a\u0130.PhP" = some .php ∧
    s.skips "src/\u212a\u0130.Min.PhP" = true ∧
    ∀ (read : ByteArray → Node) (name : String),
      extractListed read kelvinProject ⟨.relative, []⟩ "src/\u212a\u0130.PhP" ≠
        .error (.failure (.unsupportedFile name)) := by
  intro s
  have hkept : s.skips "src/\u212a\u0130.PhP" = false := by decide +kernel
  obtain ⟨⟨hskips, hlanguage⟩, hsupported, -, hextract⟩ :=
    not_skips_supported kelvinLowering s "src/\u212a\u0130.PhP"
  obtain ⟨-, -, hminified, -⟩ := not_skips_supported kelvinLowering s "src/\u212a\u0130.Min.PhP"
  refine ⟨by decide +kernel, hskips.trans hkept, hlanguage.trans (hsupported hkept).1, ?_, ?_⟩
  · exact (hminified rfl rfl rfl).mpr (Or.inr (by decide +kernel))
  · exact hextract kelvinProject (.output 0 "src/\u212a\u0130.PhP\n") ⟨.relative, []⟩ _ rfl
      (by decide +kernel)

end PhpCatalog
