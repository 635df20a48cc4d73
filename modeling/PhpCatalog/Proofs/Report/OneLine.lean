/-
# When a concept takes one line

A listing is meant to give each concept a line.  Most of what the line of a concept shows comes from
the source as it stands: the name, the visibility, the types and the traits.  Blanks are taken off
their ends, but a text may have breaks inside, as a type that runs over two lines does, and nothing
replaces them.  So a concept takes one line exactly if none of these texts has a break in it
(`conceptLine_oneLine_iff`).
-/
import PhpCatalog.Proofs.Command.Sections
import PhpCatalog.Proofs.Declaration.Bundle

namespace PhpCatalog

/-! ### Texts without breaks -/

/-- A text without line feeds and carriage returns. -/
def OneLine (s : String) : Prop :=
  '\n' ∉ s.toList ∧ '\r' ∉ s.toList

instance (s : String) : Decidable (OneLine s) :=
  inferInstanceAs (Decidable (_ ∧ _))

lemma oneLine_append {a b : String} : OneLine (a ++ b) ↔ OneLine a ∧ OneLine b := by
  simp only [OneLine, String.toList_append, List.mem_append, not_or]
  tauto

lemma oneLine_intercalate {sep : String} (h : OneLine sep) {parts : List String} :
    OneLine (sep.intercalate parts) ↔ ∀ p ∈ parts, OneLine p := by
  induction parts with
  | nil => simp [OneLine]
  | cons p rest ih =>
    cases rest with
    | nil => simp
    | cons q more =>
      rw [String.intercalate_cons_cons, oneLine_append, oneLine_append, ih]
      simp [h]

lemma oneLine_toString (n : Int) : OneLine (toString n) := by
  have hdigits : ∀ m : Nat, OneLine (Nat.repr m) := by
    intro m
    rw [show Nat.repr m = String.ofList (Nat.toDigits 10 m) from rfl, OneLine, String.toList_ofList]
    have hdigit : ∀ c ∈ Nat.toDigits 10 m, c.isDigit = true :=
      fun c hc => Nat.isDigit_of_mem_toDigits (by decide) (by decide) hc
    exact ⟨fun hc => by simpa using hdigit _ hc, fun hc => by simpa using hdigit _ hc⟩
  cases n with
  | ofNat m => exact hdigits m
  | negSucc m => exact oneLine_append.mpr ⟨by decide, hdigits (m + 1)⟩

/-- Taking terminal commands out of a text keeps its breaks. -/
lemma oneLine_plain (s : String) : OneLine (Text.plain s) ↔ OneLine s := by
  rw [OneLine, OneLine, Text.mem_plain_iff (by decide), Text.mem_plain_iff (by decide)]

namespace Report

/-! ### The line of a concept -/

lemma oneLine_shortType {conceptType : String} (h : conceptType ∈ conceptTypes) :
    OneLine (shortType conceptType) := by
  have hshort : ∀ t ∈ conceptTypes, OneLine (shortType t) := by decide +kernel
  exact hshort conceptType h

lemma oneLine_flags (c : Concept) :
    (∀ flag ∈ flags c, OneLine flag) ↔ ∀ key ∈ flagKeys, ∀ value ∈ filled c key, OneLine value := by
  have hkeys : ∀ key ∈ flagKeys, OneLine key := by decide +kernel
  have htrue : OneLine "true" := by decide +kernel
  have heach : ∀ key ∈ flagKeys, ∀ value : String,
      OneLine (if value = "true" then key else value) ↔ OneLine value := by
    intro key hkey value
    split
    · next heq => simp [heq, hkeys key hkey, htrue]
    · rfl
  constructor
  · intro h key hkey value hvalue
    refine (heach key hkey value).mp (h _ (List.mem_filterMap.mpr ⟨key, hkey, ?_⟩))
    rw [Option.mem_def.mp hvalue]
    rfl
  · intro h flag hflag
    obtain ⟨key, hkey, hmap⟩ := List.mem_filterMap.mp hflag
    obtain ⟨value, hvalue, rfl⟩ := Option.map_eq_some_iff.mp hmap
    exact (heach key hkey value).mpr (h key hkey value hvalue)

/-- The line of a concept has no break if none of its parts has one. -/
lemma oneLine_conceptLine (c : Concept) :
    OneLine (conceptLine c) ↔ OneLine (shortType c.conceptType) ∧ OneLine c.name ∧
      (∀ key ∈ flagKeys ++ ["type", "return_type", "traits"], ∀ value ∈ filled c key,
        OneLine value) ∧ OneLine c.filePath := by
  have hspaces : OneLine "  " ∧ OneLine " " ∧ OneLine "-> " ∧ OneLine "uses " ∧ OneLine ":" := by
    decide +kernel
  obtain ⟨hdouble, hsingle, harrow, huses, hcolon⟩ := hspaces
  have hflags : (∀ part ∈ (if (flags c).isEmpty then [] else [" ".intercalate (flags c)]),
      OneLine part) ↔ ∀ flag ∈ flags c, OneLine flag := by
    rcases hshown : flags c with _ | ⟨flag, rest⟩
    · simp
    · simp [oneLine_intercalate hsingle]
  have hprefixed : ∀ (mark : String), OneLine mark → ∀ value : Option String,
      (∀ part ∈ (value.map (mark ++ ·)).toList, OneLine part) ↔ ∀ v ∈ value, OneLine v := by
    intro mark hmark value
    cases value <;> simp [oneLine_append, hmark]
  have htype : ∀ value : Option String,
      (∀ part ∈ value.toList, OneLine part) ↔ ∀ v ∈ value, OneLine v := by
    intro value
    cases value <;> simp
  have hlocation : OneLine (location c.filePath (some c.lines.start)) ↔ OneLine c.filePath := by
    rw [location, oneLine_append, oneLine_append]
    exact ⟨fun h => h.1.1, fun h => ⟨⟨h, hcolon⟩, oneLine_toString _⟩⟩
  rw [conceptLine, oneLine_intercalate hdouble]
  simp only [List.forall_mem_append, hflags, hprefixed "-> " harrow, hprefixed "uses " huses, htype,
    oneLine_flags, List.forall_mem_cons, hlocation, List.not_mem_nil, false_imp_iff, implies_true,
    and_true, and_assoc]

end Report

/-! ### What the line of a declaration shows -/

/-- An empty text has no break, so leaving it out makes no difference. -/
lemma forall_oneLine_filter {p : String → Bool} (hp : ∀ v, v ≠ "" → p v = true)
    (value : Option String) :
    (∀ v ∈ value.filter p, OneLine v) ↔ ∀ v ∈ value, OneLine v := by
  constructor
  · intro h v hv
    by_cases hempty : v = ""
    · exact hempty ▸ (by decide)
    · exact h v (Option.mem_filter_iff.mpr ⟨hv, hp v hempty⟩)
  · exact fun h v hv => h v (Option.mem_filter_iff.mp hv).1

namespace Site

variable {s : Site} {n : Node} {source : ByteArray} {filePath : String} {c : Concept}

/-- The texts of a declaration that are shown in its line. -/
def shownTexts (s : Site) (source : ByteArray) (filePath : String) (n : Node) : List String :=
  (n.name? source filePath).toList ++ (s.node.visibility source).toList ++
    (s.node.typeAnnotation source).toList ++ (s.node.returnType source).toList ++
    if s.node.kind = "class_declaration" then n.traits source else []

lemma normalizeType_eq_class_iff {kind : String} {rule : DeclarationRule}
    (h : declarationRule? kind = some rule) :
    normalizeType rule.label = "class" ↔ kind = "class_declaration" := by
  unfold declarationRule? at h
  split at h <;> cases h
  all_goals decide

lemma oneLine_traits {conceptType : String} :
    (∀ value ∈ (n.metadata s source conceptType).get? "traits", OneLine value) ↔
      (conceptType = "class" → ∀ t ∈ n.traits source, OneLine t) := by
  by_cases hclass : conceptType = "class"
  · rw [hclass, Node.get?_traits, forall_oneLine_filter (by simp)]
    simp [oneLine_intercalate (show OneLine "," by decide)]
  · simp [Node.get?_traits_of_ne hclass, hclass]

/-- What the metadata of a declaration brings to its line. -/
lemma oneLine_values (h : s.Declares source filePath n c) :
    (∀ key ∈ Report.flagKeys ++ ["type", "return_type", "traits"],
      ∀ value ∈ Report.filled c key, OneLine value) ↔
    (∀ t ∈ s.node.visibility source, OneLine t) ∧ (∀ t ∈ s.node.typeAnnotation source, OneLine t) ∧
      (∀ t ∈ s.node.returnType source, OneLine t) ∧
      (s.node.kind = "class_declaration" → ∀ t ∈ n.traits source, OneLine t) := by
  obtain ⟨rule, hrule, -, hconcept⟩ := h
  obtain ⟨-, htype, hmetadata⟩ := Node.declaredBy_of_concept hconcept
  have hinherits : c.metadata.Inherits s source := hmetadata ▸ Node.inherits_metadata
  have hfilled : ∀ key, (∀ value ∈ Report.filled c key, OneLine value) ↔
      ∀ value ∈ c.metadata.get? key, OneLine value :=
    fun key => forall_oneLine_filter (by simp) _
  have hflags : ∀ flag ∈ flagModifiers, ∀ value ∈ c.metadata.get? flag, OneLine value := by
    intro flag hflag value hvalue
    rw [hinherits.modifiers flag hflag] at hvalue
    split at hvalue
    · obtain rfl := Option.some.inj hvalue
      decide
    · cases hvalue
  have htraits : (∀ value ∈ c.metadata.get? "traits", OneLine value) ↔
      (s.node.kind = "class_declaration" → ∀ t ∈ n.traits source, OneLine t) := by
    rw [← normalizeType_eq_class_iff hrule, hmetadata]
    exact oneLine_traits
  have htypes : ∀ value : Option String,
      (∀ t ∈ value.filter (· ≠ ""), OneLine t) ↔ ∀ t ∈ value, OneLine t :=
    fun value => forall_oneLine_filter (by simp) value
  have hparts : Report.flagKeys ++ ["type", "return_type", "traits"] =
      ["visibility"] ++ flagModifiers ++ ["type", "return_type", "traits"] := rfl
  have hnone : ∀ key ∈ ([] : List String), ∀ value ∈ c.metadata.get? key, OneLine value := by simp
  simp only [hparts, hfilled, List.forall_mem_append, List.forall_mem_cons, hinherits.visibility,
    hinherits.type, hinherits.returnType, htypes, htraits]
  constructor
  · rintro ⟨⟨⟨hvisibility, -⟩, -⟩, htype, hreturn, htraits, -⟩
    exact ⟨hvisibility, htype, hreturn, htraits⟩
  · rintro ⟨hvisibility, htype, hreturn, htraits⟩
    exact ⟨⟨⟨hvisibility, hnone⟩, hflags⟩, htype, hreturn, htraits, hnone⟩

/-- The line of a declaration has no break if neither the path nor a text that is shown has one. -/
lemma oneLine_conceptLine (h : s.Declares source filePath n c) :
    OneLine (Report.conceptLine c) ↔
      OneLine filePath ∧ ∀ t ∈ s.shownTexts source filePath n, OneLine t := by
  have hvalues := oneLine_values h
  obtain ⟨rule, hrule, -, hconcept⟩ := h
  obtain ⟨hdeclared, htype, -⟩ := Node.declaredBy_of_concept hconcept
  have hshort : OneLine (Report.shortType c.conceptType) :=
    Report.oneLine_shortType (htype ▸ normalizeType_mem hrule)
  have htraits : (∀ t ∈ (if s.node.kind = "class_declaration" then n.traits source else []),
      OneLine t) ↔ (s.node.kind = "class_declaration" → ∀ t ∈ n.traits source, OneLine t) := by
    by_cases hclass : s.node.kind = "class_declaration" <;> simp [hclass]
  rw [Report.oneLine_conceptLine, hvalues, hdeclared.filePath_eq]
  simp only [shownTexts, hdeclared.name_eq, List.forall_mem_append, htraits, Option.mem_toList,
    Option.some.injEq, forall_eq', Option.mem_def]
  constructor
  · rintro ⟨-, hname, ⟨hvisibility, hannotation, hreturn, htraits⟩, hpath⟩
    exact ⟨hpath, ⟨⟨⟨hname, hvisibility⟩, hannotation⟩, hreturn⟩, htraits⟩
  · rintro ⟨hpath, ⟨⟨⟨hname, hvisibility⟩, hannotation⟩, hreturn⟩, htraits⟩
    exact ⟨hshort, hname, ⟨hvisibility, hannotation, hreturn, htraits⟩, hpath⟩

end Site

/-! ### The line in a listing -/

namespace Command

lemma showAll_cons (text : String) (texts : List String) :
    showAll (text :: texts) = show_ text ++ showAll texts := by
  simp [showAll]

/-- Lines of a section are shown as lines of their own. -/
lemma showAll_section (title : String) (lines : List String) :
    showAll [Report.section_ title lines] = showAll (title :: lines) := by
  induction lines generalizing title with
  | nil => rfl
  | cons line more ih =>
    have hfeed : Report.section_ title (line :: more) =
        title ++ "\n" ++ Report.section_ line more := by
      rw [Report.section_, String.intercalate_cons_cons]
      rfl
    have hshow : show_ (title ++ "\n" ++ Report.section_ line more) =
        show_ title ++ show_ (Report.section_ line more) := by
      rw [show_, Text.plain_append_feed]
      simp only [show_, String.append_assoc]
    rw [hfeed, showAll_cons title, ← ih, showAll_cons, showAll_cons, hshow, String.append_assoc]

lemma showAll_append (a b : List String) : showAll (a ++ b) = showAll a ++ showAll b := by
  simp [showAll]

/-- The line of a concept in a listing. -/
def listedLine (c : Concept) : String :=
  "  " ++ Report.conceptLine c

/-- A text is shown as one line if it has no break. -/
lemma show_eq_line_iff (text : String) :
    (∃ line, OneLine line ∧ show_ text = line ++ "\n") ↔ OneLine text := by
  rw [← oneLine_plain]
  constructor
  · rintro ⟨line, hline, heq⟩
    rw [show_, String.append_left_inj] at heq
    exact heq ▸ hline
  · exact fun h => ⟨_, h, rfl⟩

lemma listedLine_mem_fileLines {f : FileExtraction} {c : Concept} (h : c ∈ f.concepts) :
    listedLine c ∈ fileLines f := by
  have hline : listedLine c ∈ f.concepts.flatMap conceptLines :=
    List.mem_flatMap.mpr ⟨c, h, List.mem_cons_self⟩
  exact List.mem_cons_of_mem _ (List.mem_append_left _ hline)

/-- The listing of an extraction shows the line of every concept. -/
lemma exists_showAll_extractLines {files : List FileExtraction} {c : Concept}
    (h : c ∈ files.flatMap FileExtraction.concepts) :
    ∃ before after, showAll (extractLines files) = showAll (before ++ listedLine c :: after) := by
  obtain ⟨f, hf, hc⟩ := List.mem_flatMap.mp h
  obtain ⟨before, after, heq⟩ :=
    List.append_of_mem (mem_extractLines hf (listedLine_mem_fileLines hc))
  exact ⟨before, after, by rw [heq]⟩

lemma exists_showAll_surveyedFile {f : FileExtraction} {c : Concept} (h : c ∈ f.concepts) :
    ∃ before after, showAll [surveyedFile true f] = showAll (before ++ listedLine c :: after) := by
  have hfile : surveyedFile true f = Report.section_
      (f.filePath ++ " (" ++ toString f.concepts.length ++ ")")
      (f.concepts.map listedLine ++ f.errors.map ("  ! " ++ ·)) := by
    rw [surveyedFile, if_pos rfl]
    rfl
  have hline : listedLine c ∈ f.concepts.map listedLine := List.mem_map_of_mem h
  obtain ⟨before, after, heq⟩ := List.append_of_mem
    (List.mem_append_left (f.errors.map ("  ! " ++ ·)) hline)
  refine ⟨(f.filePath ++ " (" ++ toString f.concepts.length ++ ")") :: before, after, ?_⟩
  rw [hfile, showAll_section, heq, List.cons_append]

/-- The listing of a scan shows it so too. -/
lemma exists_showAll_lines {found : Survey} {c : Concept} (h : c ∈ found.concepts) :
    ∃ before after, showAll (found.lines true) = showAll (before ++ listedLine c :: after) := by
  obtain ⟨f, hf, hc⟩ := List.mem_flatMap.mp h
  have hfile : surveyedFile true f ∈ found.lines true :=
    List.mem_append_right _ (List.mem_map_of_mem hf)
  obtain ⟨front, back, hlines⟩ := List.append_of_mem hfile
  obtain ⟨before, after, hsection⟩ := exists_showAll_surveyedFile hc
  refine ⟨front ++ before, after ++ back, ?_⟩
  calc showAll (found.lines true)
      = showAll front ++ showAll [surveyedFile true f] ++ showAll back := by
        rw [hlines, ← showAll_append, ← showAll_append, List.append_assoc, List.singleton_append]
    _ = showAll (front ++ before ++ listedLine c :: (after ++ back)) := by
        rw [hsection, ← showAll_append, ← showAll_append]
        simp only [List.append_assoc, List.cons_append]

end Command

open Command in
/-- **When a concept takes one line.**  The line of a concept has a line break exactly if the path
of its file has one or one of the texts that its declaration brings to the line: the name, the
visibility, the type, the type of the result, the traits of a class.  Both listings show this line,
behind two spaces and with its breaks, in the place of the concept. -/
theorem conceptLine_oneLine_iff (initial : List Concept) (root : Node) (source : ByteArray)
    (filePath : String) :
    ∃ new, (Catalog.walkOnto initial root source filePath).found.concepts = initial ++ new ∧
      ∀ c ∈ new, (∃ s ∈ root.preorder [], ∃ n, s.Declares source filePath n c) ∧
        (∀ (s : Site) n, s.Declares source filePath n c →
          (OneLine (Report.conceptLine c) ↔
            OneLine filePath ∧ ∀ t ∈ s.shownTexts source filePath n, OneLine t)) ∧
        ((∃ line, OneLine line ∧ show_ (listedLine c) = line ++ "\n") ↔
          OneLine (Report.conceptLine c)) ∧
        (∀ files, c ∈ files.flatMap FileExtraction.concepts → ∃ before after,
          showAll (extractLines files) = showAll (before ++ listedLine c :: after)) ∧
        ∀ found : Survey, c ∈ found.concepts → ∃ before after,
          showAll (found.lines true) = showAll (before ++ listedLine c :: after) := by
  obtain ⟨new, hnew, hsites⟩ := Catalog.walkOnto_concepts_wellFormed source filePath initial root
  refine ⟨new, hnew, fun c hc => ⟨?_, fun s n => Site.oneLine_conceptLine, ?_,
    fun files => exists_showAll_extractLines, fun found => exists_showAll_lines⟩⟩
  · obtain ⟨s, hs, hemitted, -⟩ := hsites c hc
    exact ⟨s, hs, Site.exists_declares_of_emitted hemitted⟩
  · rw [show_eq_line_iff, listedLine, oneLine_append]
    simp [OneLine]

/-- A function with a name of one byte and the type of its result behind it. -/
def typedFunction (start stop : Nat) : Node where
  kind := "function_definition"
  start := start
  stop := stop
  startPoint := ⟨0, start⟩
  stopPoint := ⟨0, stop⟩
  children := [
    { kind := "name", start := start, stop := start + 1, startPoint := ⟨0, start⟩,
      stopPoint := ⟨0, start + 1⟩, field := some "name" },
    { kind := "union_type", start := start + 1, stop := stop, startPoint := ⟨0, start + 1⟩,
      stopPoint := ⟨0, stop⟩, field := some "return_type" }]

/-- A type that runs over two lines breaks the line of the function `f`.  The break behind the type
of `g` does not, for it is taken off. -/
theorem conceptLine_typedFunctions :
    -- the bytes of `fa`, a line feed, `|bgA` and another line feed
    let source : ByteArray := ⟨#[102, 97, 10, 124, 98, 103, 65, 10]⟩
    let root : Node :=
      { kind := "program", start := 0, stop := 8, startPoint := ⟨0, 0⟩, stopPoint := ⟨0, 8⟩
        children := [typedFunction 0 5, typedFunction 5 8] }
    ∃ f g, (Catalog.walkOnto [] root source "a.php").found.concepts = [f, g] ∧
      Report.conceptLine f = "fn  f  -> a\n|b  a.php:1" ∧ ¬ OneLine (Report.conceptLine f) ∧
      Report.conceptLine g = "fn  g  -> A  a.php:1" ∧ OneLine (Report.conceptLine g) := by
  intro source root
  let first : Site := ⟨typedFunction 0 5, []⟩
  let second : Site := ⟨typedFunction 5 8, [typedFunction 0 5]⟩
  obtain ⟨new, hnew, hlines⟩ := conceptLine_oneLine_iff [] root source "a.php"
  have hconcepts : new = first.emitted source "a.php" ++ second.emitted source "a.php" := by
    rw [← List.nil_append new, ← hnew, Catalog.walkOnto_eq]
    decide +kernel
  have hshown : (first.emitted source "a.php").map Report.conceptLine =
        ["fn  f  -> a\n|b  a.php:1"] ∧
      (second.emitted source "a.php").map Report.conceptLine = ["fn  g  -> A  a.php:1"] := by
    decide +kernel
  obtain ⟨f, hf, hfLine⟩ := List.map_eq_singleton_iff.mp hshown.1
  obtain ⟨g, hg, hgLine⟩ := List.map_eq_singleton_iff.mp hshown.2
  have hdeclares : ∀ (s : Site) c, s.declarators = [s.node] → s.emitted source "a.php" = [c] →
      s.Declares source "a.php" s.node c := by
    intro s c hself hemitted
    obtain ⟨n, rule, hrule, hn, hconcept⟩ :=
      Site.exists_declares_of_emitted (hemitted ▸ List.mem_singleton_self c)
    obtain rfl : n = s.node := by simpa [hself] using hn
    exact ⟨rule, hrule, hself ▸ List.mem_singleton_self _, hconcept⟩
  have hnew' : new = [f, g] := by rw [hconcepts, hf, hg, List.singleton_append]
  obtain ⟨-, hfirst, -⟩ := hlines f (by simp [hnew'])
  obtain ⟨-, hsecond, -⟩ := hlines g (by simp [hnew'])
  refine ⟨f, g, by rw [hnew, hnew', List.nil_append], hfLine, ?_, hgLine, ?_⟩
  · rw [hfirst first _ (hdeclares first f rfl hf)]
    decide +kernel
  · rw [hsecond second _ (hdeclares second g rfl hg)]
    decide +kernel

end PhpCatalog
