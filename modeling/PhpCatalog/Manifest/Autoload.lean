/-
# Namespaces of a manifest

A manifest maps namespaces to the directories that hold their classes, by two standards and for
two purposes.  The entries are read in a fixed order: the newer standard before the older one,
and within each the sections for use before those for development.  A section or a map that is no
object is passed over.  The paths of a namespace are one string, a list of which only the strings
count, or the names of an object; any other value ends the reading.
-/
import PhpCatalog.Abort
import PhpCatalog.Json.Basic

namespace PhpCatalog.Manifest

/-- The standards that map namespaces to directories, in the order they are read. -/
def standards : List String := ["psr-4", "psr-0"]

/-- The sections that hold such maps, in the order they are read. -/
def sections : List String := ["autoload", "autoload-dev"]

/-- The members of a value that is an object; anything else has none. -/
def membersOf : Option Json → List (String × Json)
  | some (.obj members) => members
  | _ => []

/-- The paths that a value lists. -/
def pathsOf : Json → Except ManifestFault (List String)
  | .str s => .ok [s]
  | .arr items => .ok (items.filterMap Json.str?)
  | .obj members => .ok (members.map Prod.fst)
  | _ => .error .noEntries

/-- The entries of one map, in order. -/
def mapEntries : List (String × Json) → Except ManifestFault (List (String × List String))
  | [] => .ok []
  | (name, value) :: rest =>
    match pathsOf value with
    | .error e => .error e
    | .ok paths =>
      match mapEntries rest with
      | .error e => .error e
      | .ok entries => .ok ((name, paths) :: entries)

/-- The members of all maps of a manifest, in the order they are read. -/
def mapMembers (config : List (String × Json)) : List (String × Json) :=
  standards.flatMap fun standard =>
    sections.flatMap fun name =>
      membersOf (Json.lookup standard (membersOf (Json.lookup name config)))

/-- The namespaces of a manifest, each time one is mentioned, with the paths of that mention. -/
def entries (config : List (String × Json)) : Except ManifestFault (List (String × List String)) :=
  mapEntries (mapMembers config)

/-- A path as it is reported: the empty path is a dot, backslashes are slashes, and one step in
place at the start is dropped. -/
def fragment (s : String) : String :=
  if s = "" then "."
  else
    match (forwardSlashes s).toList with
    | '.' :: '/' :: rest => String.ofList rest
    | cs => String.ofList cs

/-- Adds paths to a list, those that are new. -/
def addPaths (known new : List String) : List String :=
  new.foldl (fun acc p => if acc.contains p then acc else acc ++ [p]) known

/-- Adds the paths of a namespace; a new namespace goes to the end, even without paths. -/
def addNamespace (name : String) (paths : List String) :
    List (String × List String) → List (String × List String)
  | [] => [(name, addPaths [] paths)]
  | (k, known) :: rest =>
    if k = name then (k, addPaths known paths) :: rest
    else (k, known) :: addNamespace name paths rest

/-- The namespaces of some entries, with their paths. -/
def namespaces (entries : List (String × List String)) : List (String × List String) :=
  entries.foldl (fun acc e => addNamespace e.1 (e.2.map fragment) acc) []

end PhpCatalog.Manifest
