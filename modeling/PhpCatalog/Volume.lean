/-
# Volumes

A volume is what the program sees of a file system: directories of named entries, files of bytes,
and the current directory.  Access follows the names of a path one by one from the root, so a file
in the middle of a path is refused before a missing name behind it is noticed, and `..` leads to
the directory that was actually entered.

What a volume holds is under names that the system allows.  A path that is too long, or that has a
null character, leads nowhere and is refused for that (`Volume.ask`, `Volume.probe`); the bounds are
the system's, and so is the size of a directory.
-/
import PhpCatalog.Path
import PhpCatalog.Text.Lines
import PhpCatalog.Text.Quote

namespace PhpCatalog

/-- A file or a directory. -/
inductive Entry where
  | file (bytes : ByteArray)
  | directory (entries : List (String × Entry))

instance : Inhabited Entry := ⟨.directory []⟩

/-- Why an access is refused. -/
inductive AccessFault.Cause where
  | notFound
  | notDirectory
  | isDirectory
  | nameTooLong
  deriving Repr, DecidableEq

/-- The wording of a cause. -/
def AccessFault.Cause.message : AccessFault.Cause → String
  | .notFound => "[Errno 2] No such file or directory"
  | .notDirectory => "[Errno 20] Not a directory"
  | .isDirectory => "[Errno 21] Is a directory"
  | .nameTooLong => "[Errno 36] File name too long"

/-- A refused access. -/
structure AccessFault where
  cause : AccessFault.Cause
  path : String
  deriving Repr, DecidableEq

/-- A refused access in words. -/
def AccessFault.message (f : AccessFault) : String :=
  f.cause.message ++ ": " ++ Text.quoted f.path

/-- Why a text cannot be read from a file. -/
inductive TextFault where
  | access (f : AccessFault)
  /-- The path has a null character. -/
  | nul
  /-- The bytes are no text in UTF-8. -/
  | encoding
  deriving Repr, DecidableEq

namespace Entry

/-- The entry of a name in a list of entries. -/
def find? (name : String) : List (String × Entry) → Option Entry
  | [] => none
  | (k, e) :: rest => if k = name then some e else find? name rest

/-- Sets the entry of a name: in place if it is present, at the end if it is new. -/
def set (name : String) (entry : Entry) : List (String × Entry) → List (String × Entry)
  | [] => [(name, entry)]
  | (k, e) :: rest => if k = name then (k, entry) :: rest else (k, e) :: set name entry rest

/-- The entry at some names below `here`, where `above` holds the directories that were entered
before, the nearest first.  An empty name and a dot stay in place, which only a directory allows. -/
def descend (above : List Entry) (here : Entry) : List String → Except AccessFault.Cause Entry
  | [] => .ok here
  | name :: rest =>
    match here with
    | .file _ => .error .notDirectory
    | .directory entries =>
      if name = "" || name = "." then descend above here rest
      else if name = ".." then
        match above with
        | [] => descend [] here rest
        | up :: higher => descend higher up rest
      else
        match find? name entries with
        | none => .error .notFound
        | some e => descend (here :: above) e rest

/-- Puts an entry at some names.  Directories on the way are made where they are missing. -/
def put (new : Entry) : List String → Entry → Entry
  | [], _ => new
  | name :: rest, .directory entries =>
    .directory (set name (put new rest ((find? name entries).getD (.directory []))) entries)
  | _ :: _, .file bytes => .file bytes

/-- Takes away the entry at some names. -/
def remove : List String → Entry → Entry
  | [name], .directory entries => .directory (entries.filter fun e => e.1 != name)
  | name :: rest, .directory entries =>
    match find? name entries with
    | none => .directory entries
    | some e => .directory (set name (remove rest e) entries)
  | _, e => e

/-- The size of an entry in bytes, if directories have the given one. -/
def size (directorySize : Nat) : Entry → Nat
  | .file bytes => bytes.size
  | .directory _ => directorySize

end Entry

/-- A file system and the current directory, as the names that lead to it from the root. -/
structure Volume where
  root : Entry
  here : List String
  /-- The size of a directory in bytes. -/
  directorySize : Nat := 4096
  /-- The most bytes of a name. -/
  longestName : Nat := 255
  /-- The number of bytes from which a path is too long. -/
  pathLimit : Nat := 4096

/-- Whether a path has a null character. -/
def Path.hasNul (p : Path) : Bool :=
  p.parts.any fun name => name.toList.contains '\x00'

namespace Volume

/-- Follows names from the root, or from the current directory. -/
def follow (v : Volume) (fromRoot : Bool) (names : List String) :
    Except AccessFault.Cause Entry :=
  v.root.descend [] (if fromRoot then names else v.here ++ names)

/-- The entry of a path. -/
def locate (v : Volume) (p : Path) : Except AccessFault.Cause Entry :=
  v.follow (p.anchor != .relative) p.parts

/-- Whether a path is too long: as a whole, or in the first of its names that is, if the names
before that lead to a directory. -/
def isTooLong (v : Volume) (p : Path) : Bool :=
  let allowed := p.parts.takeWhile fun name => name.utf8ByteSize ≤ v.longestName
  v.pathLimit ≤ p.text.utf8ByteSize ||
    allowed.length < p.parts.length &&
      match v.follow (p.anchor != .relative) allowed with
      | .ok (.directory _) => true
      | _ => false

/-- The entry of a path, or why the system refuses it. -/
def ask (v : Volume) (p : Path) : Except AccessFault.Cause Entry :=
  match v.locate p with
  | .ok e => .ok e
  | .error cause => .error (if v.isTooLong p then .nameTooLong else cause)

/-- What a path leads to, if anything.  A path with a null character leads nowhere, but one that is
too long has no answer. -/
def probe (v : Volume) (p : Path) : Except AccessFault (Option Entry) :=
  match v.ask p with
  | .ok e => .ok (some e)
  | .error .nameTooLong => if p.hasNul then .ok none else .error ⟨.nameTooLong, p.text⟩
  | .error _ => .ok none

/-- The entry of a path as someone wrote it: an empty text names nothing, and a slash at the end
asks for a directory. -/
def locateText (v : Volume) (s : String) : Except AccessFault.Cause Entry :=
  if s = "" then .error .notFound
  else v.follow (Anchor.ofText s.toList != .relative) ((splitSlashes s.toList).map String.ofList)

/-- Whether a path leads to anything. -/
def has (v : Volume) (p : Path) : Bool :=
  match v.locate p with
  | .ok _ => true
  | .error _ => false

/-- Whether a path leads to a file. -/
def isFile (v : Volume) (p : Path) : Bool :=
  match v.locate p with
  | .ok (.file _) => true
  | _ => false

/-- The size of what a path leads to. -/
def size? (v : Volume) (p : Path) : Option Nat :=
  match v.locate p with
  | .ok e => some (e.size v.directorySize)
  | .error _ => none

/-- The bytes of a file. -/
def read (v : Volume) (p : Path) : Except AccessFault ByteArray :=
  match v.ask p with
  | .ok (.file bytes) => .ok bytes
  | .ok (.directory _) => .error ⟨.isDirectory, p.text⟩
  | .error cause => .error ⟨cause, p.text⟩

/-- The text of a file in UTF-8, every line break read as a line feed. -/
def readText (v : Volume) (p : Path) : Except TextFault String :=
  match v.read p with
  | .error f => .error (if p.hasNul then .nul else .access f)
  | .ok bytes =>
    match String.fromUTF8? bytes with
    | none => .error .encoding
    | some s => .ok (String.ofList (Text.unifyBreaks s.toList))

/-- Puts an entry at a path, with the directories that lead to it. -/
def put (v : Volume) (p : Path) (e : Entry) : Volume :=
  { v with root := Entry.put e (p.resolve v.here).parts v.root }

/-- Takes away what a path leads to. -/
def remove (v : Volume) (p : Path) : Volume :=
  { v with root := v.root.remove (p.resolve v.here).parts }

/-- Writes a file into a directory that is there. -/
def write (v : Volume) (p : Path) (bytes : ByteArray) : Except AccessFault Volume :=
  match v.locate p.parent with
  | .error cause => .error ⟨cause, p.text⟩
  | .ok (.file _) => .error ⟨.notDirectory, p.text⟩
  | .ok (.directory _) =>
    match v.ask p with
    | .ok (.directory _) => .error ⟨.isDirectory, p.text⟩
    | .error .nameTooLong => .error ⟨.nameTooLong, p.text⟩
    | _ => .ok (v.put p (.file bytes))

end Volume

end PhpCatalog
