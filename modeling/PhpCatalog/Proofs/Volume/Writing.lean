/-
# Reading a file that was written

A path may lead up with `..`, so an access keeps the directories it has entered, while a write goes
to the names that are left when each `..` has taken one away.  The two meet where the access
succeeds (`Trail`): the directories it has entered are those of the names that are left.

* **`Entry.Trail.descend_of_kept`**: names that lead to a directory lead to one in any tree that
  keeps the directories.
* **`Volume.write_child`**: a file written into a directory is there afterwards, and so is the
  directory.
-/
import Mathlib.Tactic.Lemma
import PhpCatalog.Volume

namespace PhpCatalog

/-- A name that leads down. -/
def IsEntryName (name : String) : Prop :=
  name ≠ "" ∧ name ≠ "." ∧ name ≠ ".."

namespace Entry

/-! ### The entries of a directory -/

@[simp]
lemma find?_set_self (name : String) (e : Entry) (entries : List (String × Entry)) :
    find? name (set name e entries) = some e := by
  induction entries with
  | nil => simp [set, find?]
  | cons first rest ih =>
    obtain ⟨k, old⟩ := first
    by_cases hk : k = name
    · simp [set, find?, hk]
    · simp [set, find?, hk, ih]

lemma find?_set_of_ne {name other : String} (h : other ≠ name) (e : Entry)
    (entries : List (String × Entry)) :
    find? other (set name e entries) = find? other entries := by
  induction entries with
  | nil => simp [set, find?, Ne.symm h]
  | cons first rest ih =>
    obtain ⟨k, old⟩ := first
    by_cases hk : k = name
    · simp [set, find?, hk, Ne.symm h]
    · simp [set, find?, hk, ih]

/-- The entry at some names, each of which leads down. -/
def at? : List String → Entry → Option Entry
  | [], e => some e
  | name :: rest, .directory entries => (find? name entries).bind (at? rest)
  | _ :: _, .file _ => none

lemma at?_append (names more : List String) (e : Entry) :
    at? (names ++ more) e = (at? names e).bind (at? more) := by
  induction names generalizing e with
  | nil => rfl
  | cons name rest ih =>
    cases e with
    | file bytes => rfl
    | directory entries =>
      cases hfind : find? name entries with
      | none => simp [at?, hfind]
      | some inner => simp [at?, hfind, ih]

/-! ### Putting an entry into a tree -/

/-- What is put below a directory is found there. -/
lemma at?_put_self (new : Entry) (names : List String) (name : String) {t : Entry}
    {entries : List (String × Entry)} (h : at? names t = some (.directory entries)) :
    at? (names ++ [name]) (put new (names ++ [name]) t) = some new := by
  induction names generalizing t with
  | nil =>
    obtain rfl : t = .directory entries := Option.some.inj h
    simp [put, at?]
  | cons first rest ih =>
    cases t with
    | file bytes => simp [at?] at h
    | directory inner =>
      obtain ⟨e, hfind, he⟩ := Option.bind_eq_some_iff.mp h
      simp [put, at?, hfind, ih he]

/-- Every directory of one tree is a directory of the other. -/
def Kept (t t' : Entry) : Prop :=
  ∀ names entries, at? names t = some (.directory entries) →
    ∃ entries', at? names t' = some (.directory entries')

/-- Putting an entry where there is no directory keeps all directories. -/
lemma kept_put (new : Entry) {target : List String} {t : Entry}
    (h : ∀ entries, at? target t ≠ some (.directory entries)) : Kept t (put new target t) := by
  intro names
  induction target generalizing names t with
  | nil =>
    intro entries hnames
    cases t with
    | file bytes => cases names <;> simp [at?] at hnames
    | directory inner => exact absurd rfl (h inner)
  | cons first rest ih =>
    intro entries hnames
    cases t with
    | file bytes => exact ⟨entries, hnames⟩
    | directory inner =>
      cases names with
      | nil => exact ⟨_, rfl⟩
      | cons name more =>
        obtain ⟨e, hfind, he⟩ := Option.bind_eq_some_iff.mp hnames
        by_cases hname : name = first
        · -- the way down is shared: the entry below it changes
          subst hname
          have hbelow : ∀ entries, at? rest e ≠ some (.directory entries) := by
            simpa [at?, hfind] using h
          obtain ⟨entries', he'⟩ := ih hbelow more entries he
          exact ⟨entries', by simpa [put, at?, hfind] using he'⟩
        · exact ⟨entries, by simpa [put, at?, find?_set_of_ne hname, hfind] using he⟩

/-! ### One name -/

section Step

variable {name : String}

/-- A name stays in place, leads up or leads down. -/
lemma name_cases (name : String) : (name = "" ∨ name = ".") ∨ name = ".." ∨ IsEntryName name := by
  simp only [IsEntryName]
  grind

lemma collapseStep_stay (h : name = "" ∨ name = ".") (stack : List String) :
    Path.collapseStep true stack name = stack := by
  simp [Path.collapseStep, h]

lemma collapseStep_up {top : String} (h : IsEntryName top) (below : List String) :
    Path.collapseStep true (top :: below) ".." = below := by
  simp [Path.collapseStep, h.2.2]

lemma collapseStep_down {rooted : Bool} (h : IsEntryName name) (stack : List String) :
    Path.collapseStep rooted stack name = name :: stack := by
  simp [Path.collapseStep, h.1, h.2.1, h.2.2]

variable {above : List Entry} {entries : List (String × Entry)} {rest : List String}

lemma descend_stay (h : name = "" ∨ name = ".") :
    descend above (.directory entries) (name :: rest) =
      descend above (.directory entries) rest := by
  simp [descend, h]

lemma descend_top :
    descend [] (.directory entries) (".." :: rest) = descend [] (.directory entries) rest := by
  simp [descend]

lemma descend_up {up : Entry} :
    descend (up :: above) (.directory entries) (".." :: rest) = descend above up rest := by
  simp [descend]

lemma descend_down (h : IsEntryName name) {e : Entry} (hfind : find? name entries = some e) :
    descend above (.directory entries) (name :: rest) =
      descend (.directory entries :: above) e rest := by
  simp [descend, h.1, h.2.1, h.2.2, hfind]

lemma descend_missing (h : IsEntryName name) (hfind : find? name entries = none) :
    descend above (.directory entries) (name :: rest) = .error .notFound := by
  simp [descend, h.1, h.2.1, h.2.2, hfind]

end Step

/-! ### Following names -/

/-- Following names from the root has led to `here` through the directories `above`, and `stack`
holds the names that lead there, the last on top. -/
inductive Trail (root : Entry) : List String → List Entry → Entry → Prop where
  | start : Trail root [] [] root
  | down {stack : List String} {above : List Entry} {entries : List (String × Entry)}
      {name : String} {e : Entry} (before : Trail root stack above (.directory entries))
      (hname : IsEntryName name) (hfind : find? name entries = some e) :
      Trail root (name :: stack) (.directory entries :: above) e

lemma Trail.at?_eq {root : Entry} {stack : List String} {above : List Entry} {here : Entry}
    (h : Trail root stack above here) : at? stack.reverse root = some here := by
  induction h with
  | start => rfl
  | down before hname hfind ih => simp [at?_append, ih, at?, hfind]

/-- The names that are left lead where the access leads. -/
lemma Trail.descend {root : Entry} {stack : List String} {above : List Entry} {here e : Entry}
    (h : Trail root stack above here) {names : List String}
    (hdescend : descend above here names = .ok e) :
    ∃ above', Trail root (names.foldl (Path.collapseStep true) stack) above' e := by
  induction names generalizing stack above here with
  | nil =>
    obtain rfl : here = e := Except.ok.inj hdescend
    exact ⟨above, h⟩
  | cons name rest ih =>
    rw [List.foldl_cons]
    cases here with
    | file bytes => simp [Entry.descend] at hdescend
    | directory entries =>
      rcases name_cases name with hstay | rfl | hdown
      · rw [descend_stay hstay] at hdescend
        rw [collapseStep_stay hstay]
        exact ih h hdescend
      · cases h with
        | start =>
          rw [descend_top] at hdescend
          exact ih .start hdescend
        | down before hname hfind =>
          rw [descend_up] at hdescend
          rw [collapseStep_up hname]
          exact ih before hdescend
      · rw [collapseStep_down hdown]
        cases hfind : find? name entries with
        | none => simp [descend_missing hdown hfind] at hdescend
        | some next =>
          rw [descend_down hdown hfind] at hdescend
          exact ih (h.down hdown hfind) hdescend

/-- Where only a directory can be followed further, a successful access that ends in one has met
nothing but directories. -/
lemma isDirectory_of_descend {above : List Entry} {here : Entry} {names : List String}
    {entries : List (String × Entry)} (h : descend above here names = .ok (.directory entries)) :
    ∃ inner, here = .directory inner := by
  cases here with
  | directory inner => exact ⟨inner, rfl⟩
  | file bytes => cases names <;> simp [descend] at h

/-- Names that lead to a directory lead to one in any tree that keeps the directories. -/
lemma Trail.descend_of_kept {t t' : Entry} (hkept : Kept t t') {stack : List String}
    {above above' : List Entry} {here : Entry} {inner' : List (String × Entry)}
    (h : Trail t stack above here) (h' : Trail t' stack above' (.directory inner'))
    {names : List String} {entries : List (String × Entry)}
    (hdescend : Entry.descend above here names = .ok (.directory entries)) :
    ∃ entries', Entry.descend above' (.directory inner') names = .ok (.directory entries') := by
  induction names generalizing stack above above' here inner' with
  | nil => exact ⟨inner', rfl⟩
  | cons name rest ih =>
    obtain ⟨inner, rfl⟩ := isDirectory_of_descend hdescend
    rcases name_cases name with hstay | rfl | hdown
    · rw [descend_stay hstay] at hdescend ⊢
      exact ih h h' hdescend
    · cases h with
      | start =>
        cases h' with
        | start =>
          rw [descend_top] at hdescend ⊢
          exact ih .start .start hdescend
      | down before hname hfind =>
        cases h' with
        | down before' hname' hfind' =>
          rw [descend_up] at hdescend ⊢
          exact ih before before' hdescend
    · cases hfind : find? name inner with
      | none => simp [descend_missing hdown hfind] at hdescend
      | some next =>
        rw [descend_down hdown hfind] at hdescend
        obtain ⟨below, rfl⟩ := isDirectory_of_descend hdescend
        -- the tree keeps the directory that the name leads to
        have hat : at? (stack.reverse ++ [name]) t = some (.directory below) := by
          simp [at?_append, h.at?_eq, at?, hfind]
        obtain ⟨below', hat'⟩ := hkept _ _ hat
        have hfind' : find? name inner' = some (.directory below') := by
          simpa [at?_append, h'.at?_eq, at?] using hat'
        rw [descend_down hdown hfind']
        exact ih (h.down hdown hfind) (h'.down hdown hfind') hdescend

/-- The first name leads to some place from which the others are followed, or it ends the access
whatever comes behind it. -/
lemma descend_cons_cases (above : List Entry) (here : Entry) (name : String) :
    (∃ above' here', ∀ rest, descend above here (name :: rest) = descend above' here' rest) ∨
      ∃ cause, ∀ rest, descend above here (name :: rest) = .error cause := by
  cases here with
  | file bytes => exact Or.inr ⟨_, fun _ => rfl⟩
  | directory entries =>
    rcases name_cases name with hstay | rfl | hdown
    · exact Or.inl ⟨_, _, fun _ => descend_stay hstay⟩
    · cases above with
      | nil => exact Or.inl ⟨_, _, fun _ => descend_top⟩
      | cons up higher => exact Or.inl ⟨_, _, fun _ => descend_up⟩
    · cases hfind : find? name entries with
      | none => exact Or.inr ⟨_, fun _ => descend_missing hdown hfind⟩
      | some e => exact Or.inl ⟨_, _, fun _ => descend_down hdown hfind⟩

/-- A name that leads down, at the end of the way. -/
lemma descend_snoc {above : List Entry} {here : Entry} {names : List String} {name : String}
    (hname : IsEntryName name) {entries : List (String × Entry)}
    (h : descend above here names = .ok (.directory entries)) :
    descend above here (names ++ [name]) =
      match find? name entries with
      | none => .error .notFound
      | some e => .ok e := by
  induction names generalizing above here with
  | nil =>
    obtain rfl : here = .directory entries := Except.ok.inj h
    rw [List.nil_append]
    cases hfind : find? name entries with
    | none => exact descend_missing hname hfind
    | some e => exact descend_down hname hfind
  | cons first rest ih =>
    rw [List.cons_append]
    rcases descend_cons_cases above here first with ⟨above', here', hstep⟩ | ⟨cause, hstep⟩
    · rw [hstep] at h ⊢
      exact ih h
    · simp [hstep] at h

/-- Names that are followed by others lead to a directory, where the access succeeds. -/
lemma isDirectory_of_descend_append {above : List Entry} {here e : Entry} {names : List String}
    {name : String} {rest : List String}
    (h : descend above here (names ++ name :: rest) = .ok e) :
    ∃ entries, descend above here names = .ok (.directory entries) := by
  induction names generalizing above here with
  | nil =>
    cases here with
    | file bytes => simp [descend] at h
    | directory entries => exact ⟨entries, rfl⟩
  | cons first others ih =>
    rw [List.cons_append] at h
    rcases descend_cons_cases above here first with ⟨above', here', hstep⟩ | ⟨cause, hstep⟩
    · rw [hstep] at h ⊢
      exact ih h
    · simp [hstep] at h

/-- An entry put below the directory that names lead to is found by these names, and the directory
is still there. -/
theorem descend_put (new : Entry) {t : Entry} {names : List String} {name : String}
    (hname : IsEntryName name) {entries : List (String × Entry)}
    (hdir : descend [] t names = .ok (.directory entries))
    (hfree : ∀ inner, descend [] t (names ++ [name]) ≠ .ok (.directory inner)) :
    descend [] (put new (Path.collapse true (names ++ [name])) t) (names ++ [name]) = .ok new ∧
    ∃ entries', descend [] (put new (Path.collapse true (names ++ [name])) t) names =
      .ok (.directory entries') := by
  have htarget : Path.collapse true (names ++ [name]) = Path.collapse true names ++ [name] := by
    simp [Path.collapse, collapseStep_down hname]
  rw [htarget]
  obtain ⟨above, htrail⟩ := Trail.start.descend hdir
  have hat : at? (Path.collapse true names) t = some (.directory entries) := htrail.at?_eq
  have hnone : ∀ inner, at? (Path.collapse true names ++ [name]) t ≠ some (.directory inner) := by
    intro inner hinner
    have hfind : find? name entries = some (.directory inner) := by
      simpa [at?_append, hat, at?] using hinner
    exact hfree inner (by rw [descend_snoc hname hdir, hfind])
  have hkept := kept_put new hnone
  have hself := at?_put_self new (Path.collapse true names) name hat
  generalize put new (Path.collapse true names ++ [name]) t = t' at hkept hself ⊢
  -- the root is a directory before and after
  obtain ⟨top, rfl⟩ := isDirectory_of_descend hdir
  obtain ⟨top', htop⟩ := hkept [] top rfl
  obtain rfl : t' = .directory top' := Option.some.inj htop
  obtain ⟨entries', hdir'⟩ := Trail.start.descend_of_kept hkept .start hdir
  obtain ⟨above', htrail'⟩ := Trail.start.descend hdir'
  have hat' : at? (Path.collapse true names) (.directory top') = some (.directory entries') :=
    htrail'.at?_eq
  have hfind' : find? name entries' = some new := by
    simpa [at?_append, hat', at?] using hself
  exact ⟨by rw [descend_snoc hname hdir', hfind'], entries', hdir'⟩

end Entry

namespace Volume

variable {v : Volume}

/-- The names that a path stands for from the root on. -/
def names (v : Volume) (p : Path) : List String :=
  if p.anchor = .relative then v.here ++ p.parts else p.parts

lemma locate_eq_descend (v : Volume) (p : Path) : v.locate p = v.root.descend [] (v.names p) := by
  by_cases h : p.anchor = .relative <;> simp [locate, follow, names, h]

lemma names_child (v : Volume) (p : Path) (name : String) :
    v.names (p.child name) = v.names p ++ [name] := by
  by_cases h : p.anchor = .relative <;> simp [names, Path.child, h]

lemma put_child_root (v : Volume) (p : Path) (name : String) (e : Entry) :
    (v.put (p.child name) e).root =
      Entry.put e (Path.collapse true (v.names p ++ [name])) v.root := by
  rw [← names_child]
  rfl

/-! ### What the system says of a path -/

section Ask

variable {p : Path} {e : Entry}

/-- An entry that is there is given. -/
lemma ask_eq_ok_iff : v.ask p = .ok e ↔ v.locate p = .ok e := by
  unfold ask
  split
  · rename_i heq
    rw [heq]
  · rename_i heq
    simp [heq]

lemma probe_of_locate (h : v.locate p = .ok e) : v.probe p = .ok (some e) := by
  rw [probe, ask_eq_ok_iff.mpr h]

lemma probe_of_notFound (h : v.ask p = .error .notFound) : v.probe p = .ok none := by
  rw [probe, h]

/-- Where there is an answer, it is the entry if there is one. -/
lemma probe_eq_ok_some_iff : v.probe p = .ok (some e) ↔ v.locate p = .ok e := by
  refine ⟨fun h => ?_, probe_of_locate⟩
  rw [← ask_eq_ok_iff]
  unfold probe at h
  split at h
  · rename_i heq
    obtain rfl := Option.some.inj (Except.ok.inj h)
    exact heq
  · split at h <;> cases h
  · cases h

/-- What can be read is what a file holds. -/
lemma read_eq_ok_iff {bytes : ByteArray} :
    v.read p = .ok bytes ↔ v.locate p = .ok (.file bytes) := by
  rw [← ask_eq_ok_iff, read]
  rcases v.ask p with cause | content | entries <;> simp

end Ask

/-- **A file written into a directory is there afterwards, and so is the directory.** -/
theorem write_child {dir : Path} {name : String} (hname : IsEntryName name)
    {entries : List (String × Entry)} (hdir : v.locate dir = .ok (.directory entries))
    (hfree : ∀ inner, v.locate (dir.child name) ≠ .ok (.directory inner))
    (hshort : v.ask (dir.child name) ≠ .error .nameTooLong) (bytes : ByteArray) :
    ∃ v', v.write (dir.child name) bytes = .ok v' ∧
      v'.locate (dir.child name) = .ok (.file bytes) ∧
      ∃ entries', v'.locate dir = .ok (.directory entries') := by
  have hparent : (dir.child name).parent = dir := by
    simp [Path.parent, Path.child]
  have hwrite : v.write (dir.child name) bytes = .ok (v.put (dir.child name) (.file bytes)) := by
    rw [write, hparent, hdir]
    rcases hold : v.ask (dir.child name) with (_ | _ | _ | _) | old | inner
    · rfl
    · rfl
    · rfl
    · exact absurd hold hshort
    · rfl
    · exact absurd (ask_eq_ok_iff.mp hold) (hfree inner)
  have hnames : ∀ p, (v.put (dir.child name) (.file bytes)).names p = v.names p := fun _ => rfl
  refine ⟨_, hwrite, ?_⟩
  simp only [locate_eq_descend, names_child, hnames, put_child_root] at hdir hfree ⊢
  exact Entry.descend_put (.file bytes) hname hdir hfree

end Volume

end PhpCatalog
