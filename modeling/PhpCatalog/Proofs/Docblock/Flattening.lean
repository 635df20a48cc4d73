/-
# What metadata keeps of a docblock

As metadata, the parameters of a docblock are one string, with bars between them, and so are its
exceptions.  A type may hold bars of its own.  The parameters can be told apart all the same: each
has its first space right behind its type, and what counts as its name ends at the next bar.  The
exceptions cannot, for an exception with a bar reads like two of them.

So two docblocks that say the same as metadata have the same description, parameters and result, and
exceptions with the same parts between bars (`sameMetadata_parse_iff`).
-/
import PhpCatalog.Proofs.Declaration.Lookup
import PhpCatalog.Proofs.Docblock.Rendering

namespace PhpCatalog.Docblock

open Text (isBlank isWord)

/-- Under every key, two docblocks say the same. -/
def SameMetadata (a b : Docblock) : Prop :=
  ∀ key, Metadata.get? a.toMetadata key = Metadata.get? b.toMetadata key

/-- A list as metadata keeps it; an empty list is left out. -/
def joined (parts : List String) : Option String :=
  if parts.isEmpty then none else some ("|".intercalate parts)

/-- The parts of a text between its bars. -/
def barParts (text : String) : List (List Char) :=
  text.toList.splitOn '|'

/-! ### The keys -/

/-- Under every key, the part of the docblock that the key stands for. -/
lemma get?_toMetadata (d : Docblock) (key : String) :
    Metadata.get? d.toMetadata key =
      (((if key = "docblock.description" then (some d.description).filter (· ≠ "") else none).or
        (if key = "docblock.params" then joined d.params else none)).or
        (if key = "docblock.return" then d.returns else none)).or
        (if key = "docblock.throws" then joined d.throws else none) := by
  obtain ⟨description, params, returns, throws⟩ := d
  simp only [toMetadata, Metadata.get?_append, joined]
  congr 1
  · congr 1
    · congr 1
      · by_cases h : description = "" <;>
          simp [h, Metadata.get?_nil, Metadata.get?_cons, Option.filter]
      · by_cases h : params.isEmpty <;> simp [h, Metadata.get?_nil, Metadata.get?_cons]
    · cases returns <;> simp [Metadata.get?_nil, Metadata.get?_cons]
  · by_cases h : throws.isEmpty <;> simp [h, Metadata.get?_nil, Metadata.get?_cons]

/-- Docblocks say the same if their parts are the same as metadata keeps them. -/
lemma sameMetadata_iff {a b : Docblock} :
    SameMetadata a b ↔ a.description = b.description ∧ joined a.params = joined b.params ∧
      a.returns = b.returns ∧ joined a.throws = joined b.throws := by
  constructor
  · intro h
    have hdescription := h "docblock.description"
    have hparams := h "docblock.params"
    have hreturns := h "docblock.return"
    have hthrows := h "docblock.throws"
    simp only [get?_toMetadata] at hdescription hparams hreturns hthrows
    refine ⟨?_, by simpa using hparams, by simpa using hreturns, by simpa using hthrows⟩
    have hfilter : (some a.description).filter (· ≠ "") = (some b.description).filter (· ≠ "") := by
      simpa using hdescription
    by_cases ha : a.description = "" <;> by_cases hb : b.description = "" <;>
      simp_all [Option.filter]
  · rintro ⟨hdescription, hparams, hreturns, hthrows⟩ key
    rw [get?_toMetadata, get?_toMetadata, hdescription, hparams, hreturns, hthrows]

/-! ### Joining with bars -/

/-- A bar, the first part, a bar, the second part, and so on. -/
def barred (parts : List String) : List Char :=
  parts.flatMap fun p => '|' :: p.toList

lemma cons_intercalate {parts : List String} (h : parts ≠ []) :
    '|' :: ("|".intercalate parts).toList = barred parts := by
  rw [String.toList_intercalate]
  change '|' :: ['|'].intercalate (parts.map String.toList) = barred parts
  induction parts with
  | nil => exact absurd rfl h
  | cons p rest ih =>
    by_cases hrest : rest = []
    · simp [hrest, barred]
    · rw [List.map_cons, List.intercalate_cons_of_ne_nil (by simpa using hrest), List.append_assoc,
        List.singleton_append, ih hrest]
      rfl

lemma joined_eq_iff {a b : List String} : joined a = joined b ↔ barred a = barred b := by
  rcases a with _ | ⟨p, a⟩ <;> rcases b with _ | ⟨q, b⟩
  · simp
  · simp [joined, barred]
  · simp [joined, barred]
  · rw [← cons_intercalate (List.cons_ne_nil p a), ← cons_intercalate (List.cons_ne_nil q b),
      List.cons_inj_right, String.toList_inj]
    exact Option.some_inj

/-! ### Parameters -/

section Params

variable {type name other name' : List Char}

/-- The type ends at its first space, and the name where no word character follows. -/
lemma param_append_inj {s t : List Char} (htype : IsType type) (hother : IsType other)
    (hname : IsName name) (hname' : IsName name') (hs : ∀ c ∈ s.head?, isWord c = false)
    (ht : ∀ c ∈ t.head?, isWord c = false)
    (h : type ++ [' ', '$'] ++ name ++ s = other ++ [' ', '$'] ++ name' ++ t) :
    type = other ∧ name = name' ∧ s = t := by
  have hspace : ∀ more : List Char, ∀ c ∈ (' ' :: more).head?, isBlank c = true := by
    rintro more c ⟨⟩
    rfl
  have hword : word (type ++ ' ' :: '$' :: (name ++ s)) =
      word (other ++ ' ' :: '$' :: (name' ++ t)) := by simpa using congrArg word h
  rw [word_of_isType htype _ (hspace _), word_of_isType hother _ (hspace _)] at hword
  obtain ⟨rfl, hrest⟩ := Prod.mk.inj hword
  have hnames : name ++ s = name' ++ t := by simpa using hrest
  have hend : ∀ {n r : List Char}, IsName n → (∀ c ∈ r.head?, isWord c = false) →
      (n ++ r).takeWhile isWord = n := by
    intro n r hn hr
    rw [List.takeWhile_append_of_pos hn.2]
    cases r with
    | nil => simp
    | cons c more => simp [hr c rfl]
  have hname_eq := congrArg (List.takeWhile isWord) hnames
  rw [hend hname hs, hend hname' ht] at hname_eq
  subst hname_eq
  exact ⟨rfl, rfl, List.append_cancel_left hnames⟩

lemma isWord_head_barred (parts : List String) : ∀ c ∈ (barred parts).head?, isWord c = false := by
  cases parts with
  | nil => simp [barred]
  | cons p rest =>
    rintro c ⟨⟩
    rfl

/-- Parameters can be told apart behind their bars. -/
lemma barred_inj {ps qs : List String} (hps : ∀ p ∈ ps, IsParam p) (hqs : ∀ q ∈ qs, IsParam q)
    (h : barred ps = barred qs) : ps = qs := by
  induction ps generalizing qs with
  | nil =>
    cases qs with
    | nil => rfl
    | cons q qs => simp [barred] at h
  | cons p ps ih =>
    cases qs with
    | nil => simp [barred] at h
    | cons q qs =>
      obtain ⟨⟨type, name, htype, hname, hp⟩, hps⟩ := List.forall_mem_cons.mp hps
      obtain ⟨⟨other, name', hother, hname', hq⟩, hqs⟩ := List.forall_mem_cons.mp hqs
      have htext : type ++ [' ', '$'] ++ name ++ barred ps =
          other ++ [' ', '$'] ++ name' ++ barred qs := by
        rw [← hp, ← hq]
        exact (List.cons.inj h).2
      obtain ⟨rfl, rfl, hrest⟩ := param_append_inj htype hother hname hname'
        (isWord_head_barred ps) (isWord_head_barred qs) htext
      have hhead : p = q := String.toList_inj.mp (hp.trans hq.symm)
      rw [hhead, ih hps hqs hrest]

end Params

/-- What metadata keeps of the parameters determines them. -/
lemma joined_params_eq_iff (first second : List Char) :
    joined (parse first).params = joined (parse second).params ↔
      (parse first).params = (parse second).params := by
  rw [joined_eq_iff]
  refine ⟨barred_inj ?_ ?_, fun h => by rw [h]⟩
  · exact isParam_of_mem_params (entries_wellFormed first)
  · exact isParam_of_mem_params (entries_wellFormed second)

/-! ### Exceptions -/

/-- Each bar ends a part, whether it stands between two texts or inside one. -/
lemma splitOn_append_barred (s : List Char) (parts : List String) :
    (s ++ barred parts).splitOn '|' = s.splitOn '|' ++ parts.flatMap barParts := by
  induction parts generalizing s with
  | nil => simp [barred]
  | cons p rest ih =>
    have hcons : s ++ barred (p :: rest) = s ++ '|' :: (p.toList ++ barred rest) := rfl
    have hbar : (s ++ '|' :: (p.toList ++ barred rest)).splitOn '|' =
        s.splitOn '|' ++ (p.toList ++ barred rest).splitOn '|' := by
      simp only [List.splitOn_eq_splitOnP]
      exact List.splitOnP_append_cons s _ (beq_self_eq_true '|')
    rw [hcons, hbar, ih, List.flatMap_cons]
    rfl

/-- What metadata keeps of some exceptions determines their parts, and nothing more. -/
lemma joined_eq_iff_parts {a b : List String} :
    joined a = joined b ↔ a.flatMap barParts = b.flatMap barParts := by
  have hsplit : ∀ parts, (barred parts).splitOn '|' = [[]] ++ parts.flatMap barParts :=
    splitOn_append_barred []
  rw [joined_eq_iff]
  constructor
  · intro h
    have hparts := congrArg (List.splitOn '|') h
    rw [hsplit, hsplit] at hparts
    exact List.append_cancel_left hparts
  · intro h
    calc barred a
        = ['|'].intercalate ((barred a).splitOn '|') := (List.intercalate_splitOn '|').symm
      _ = ['|'].intercalate ((barred b).splitOn '|') := by rw [hsplit, hsplit, h]
      _ = barred b := List.intercalate_splitOn '|'

/-- **Metadata determines the docblock up to bars in exceptions.**  Two comments say the same as
metadata exactly if they have the same description, the same parameters and the same result, and the
parts of their exceptions between bars are the same; and what is kept of the parameters alone
determines these. -/
theorem sameMetadata_parse_iff (first second : List Char) :
    (SameMetadata (parse first) (parse second) ↔
      (parse first).description = (parse second).description ∧
      (parse first).params = (parse second).params ∧
      (parse first).returns = (parse second).returns ∧
      (parse first).throws.flatMap barParts = (parse second).throws.flatMap barParts) ∧
    (joined (parse first).params = joined (parse second).params ↔
      (parse first).params = (parse second).params) := by
  refine ⟨?_, joined_params_eq_iff first second⟩
  rw [sameMetadata_iff, joined_params_eq_iff, joined_eq_iff_parts]

/-- One exception with a bar, or two. -/
example : (parse "@throws A|B".toList).toMetadata =
    (parse "@throws A\n@throws B".toList).toMetadata := by decide +kernel

end PhpCatalog.Docblock
