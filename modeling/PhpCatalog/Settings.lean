/-
# Settings of a project

A project may hold a settings file in its top directory: glob patterns of files to leave out,
whether to include templates and vendored packages, and the largest file to read.  The file is an
object of JSON.  What it says about these four is checked, in a fixed order, before any of it is
used; other members are kept in the file and have no effect.
-/
import PhpCatalog.Abort
import PhpCatalog.Json.Printer
import PhpCatalog.Json.Reader

namespace PhpCatalog

/-- What a project says about the files to catalog. -/
structure Settings where
  /-- Patterns of paths to leave out. -/
  exclude : List String := []
  includeTemplates : Bool := false
  includeVendor : Bool := false
  /-- The size in bytes of the largest file to read. -/
  maxFileSize : Int := 1000000
  deriving Repr, DecidableEq

namespace Settings

/-- Whether a value is a list of strings. -/
def isTexts : Json → Bool
  | .arr items => items.all fun j => j.str?.isSome
  | _ => false

/-- Whether a value is true or false. -/
def isFlag : Json → Bool
  | .bool _ => true
  | _ => false

/-- Whether a value is a positive whole number. -/
def isSize : Json → Bool
  | .int n => 0 < n
  | _ => false

/-- Whether a member is as it should be, or not there. -/
def allows (members : List (String × Json)) (name : String) (good : Json → Bool) : Bool :=
  match Json.lookup name members with
  | some j => good j
  | none => true

/-- Checks what a value says; the first member that is wrong, in the order of the checks, is
reported. -/
def validate : Json → Except SettingsFault Unit
  | .obj members =>
    if !allows members "exclude" isTexts then .error .exclude
    else if !allows members "include_templates" isFlag then .error (.flag "include_templates")
    else if !allows members "include_vendor" isFlag then .error (.flag "include_vendor")
    else if !allows members "max_file_size" isSize then .error .fileSize
    else .ok ()
  | _ => .error .notAnObject

/-- The strings of a list. -/
def textsOf : Json → List String
  | .arr items => items.filterMap Json.str?
  | _ => []

/-- The settings with the members of an object put over them. -/
def overlay (s : Settings) (members : List (String × Json)) : Settings where
  exclude := ((Json.lookup "exclude" members).map textsOf).getD s.exclude
  includeTemplates :=
    ((Json.lookup "include_templates" members).map Json.isTruthy).getD s.includeTemplates
  includeVendor := ((Json.lookup "include_vendor" members).map Json.isTruthy).getD s.includeVendor
  maxFileSize := match Json.lookup "max_file_size" members with
    | some (.int n) => n
    | _ => s.maxFileSize

/-- The settings a value stands for, over the defaults. -/
def ofJson (j : Json) : Except SettingsFault Settings :=
  match validate j with
  | .error e => .error e
  | .ok () =>
    match j with
    | .obj members => .ok (({} : Settings).overlay members)
    | _ => .ok {}

/-- Settings as JSON. -/
def toJson (s : Settings) : Json :=
  .obj [("exclude", .arr (s.exclude.map Json.str)), ("include_templates", .bool s.includeTemplates),
    ("include_vendor", .bool s.includeVendor), ("max_file_size", .int s.maxFileSize)]

/-- Where the settings of a directory are. -/
def file (root : Path) : Path :=
  root.child settingsName

/-- The settings that a text stands for; `path` names the text in messages. -/
def ofText (m : Json.Machine) (path : Path) (text : String) : Except Abort Settings :=
  match m.read text.toList with
  | .error (.limit l) => .error (.crash (.limit l))
  | .error (.fault e) =>
    .error (.failure (.settings (.invalidJson path.text (e.message text.toList))))
  | .ok j => (ofJson j).mapError fun e => .failure (.settings e)

/-- The settings of a directory; without a settings file, the defaults. -/
def load (m : Json.Machine) (v : Volume) (root : Path) : Except Abort Settings :=
  match v.probe (file root) with
  | .error f => .error (.crash (.access f))
  | .ok none => .ok {}
  | .ok (some _) =>
    match v.readText (file root) with
    | .error f => .error (.crash f.crash)
    | .ok text => ofText m (file root) text

/-- What a request to write settings leaves behind: the volume, and why the request was refused, if
it was. -/
structure Saving where
  volume : Volume
  refused : Option Abort := none

/-- Writes a settings file.  What does not pass the checks, or has no text on the machine, is
refused before anything is written. -/
def save (m : Json.Machine) (v : Volume) (root : Path) (settings : Json) : Saving :=
  match validate settings with
  | .error e => ⟨v, some (.failure (.settings e))⟩
  | .ok () =>
    match m.pretty settings with
    | .error l => ⟨v, some (.crash (.limit l))⟩
    | .ok text =>
      match v.write (file root) (text ++ "\n").toUTF8 with
      | .error f => ⟨v, some (.crash (.access f))⟩
      | .ok v' => ⟨v', none⟩

end Settings

/-- A list and what remains of it after dropping from its front, down to nothing. -/
def tails : List String → List (List String)
  | [] => [[]]
  | name :: rest => (name :: rest) :: tails rest

/-- A path and the directories above it, the nearest first. -/
def Path.ancestors (p : Path) : List Path :=
  (tails p.parts.reverse).map fun names => ⟨p.anchor, names.reverse⟩

/-- The nearest directory with a settings file, from a path upwards. -/
def Settings.findRoot (v : Volume) (start : Path) : Option Path :=
  (start.resolve v.here).ancestors.find? fun dir => v.has (Settings.file dir)

end PhpCatalog
