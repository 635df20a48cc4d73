/-
# Insights from a manifest

What a manifest tells about a project: its namespaces with their paths, the frameworks it hints
at, and the directories worth looking at first.  Such a priority path pairs a namespace with a
directory; of two spellings of one directory the first is kept.
-/
import PhpCatalog.Json.Reader
import PhpCatalog.Manifest.Autoload
import PhpCatalog.Manifest.Framework

namespace PhpCatalog

/-- A directory of a namespace. -/
structure PriorityPath where
  owner : String
  relative : String
  absolute : String
  deriving Repr, DecidableEq

/-- Whether a directory comes before another: by its namespace, then by its path. -/
def PriorityPath.le (a b : PriorityPath) : Bool :=
  decide (a.owner < b.owner) || (a.owner == b.owner && decide (a.relative ≤ b.relative))

/-- What a manifest tells about a project. -/
structure Insights where
  namespaces : List (String × List String) := []
  frameworks : List String := []
  priorityPaths : List PriorityPath := []
  deriving Repr, DecidableEq

namespace Manifest

/-- The name of a manifest. -/
def fileName : String := "composer.json"

/-- Where a path of a manifest leads, from the root of the project. -/
def locationOf (root : Path) (relative : String) : String :=
  (root.join (Path.ofString relative)).normal.text

/-- The directory of a path of a namespace. -/
def priorityPath (root : Path) (owner raw : String) : PriorityPath :=
  ⟨owner, fragment raw, locationOf root (fragment raw)⟩

/-- Adds a directory unless its namespace has it already. -/
def addPriority (acc : List PriorityPath) (p : PriorityPath) : List PriorityPath :=
  if acc.any fun q => q.owner = p.owner && q.absolute = p.absolute then acc else acc ++ [p]

/-- The directories of some entries, in order. -/
def priorityPaths (root : Path) (entries : List (String × List String)) : List PriorityPath :=
  let all := entries.flatMap fun e => e.2.map (priorityPath root e.1)
  (all.foldl addPriority []).mergeSort PriorityPath.le

/-- What a manifest tells; one that is empty in any form tells nothing. -/
def insights (root : Path) (config : Json) : Except ManifestFault Insights :=
  if !config.isTruthy then .ok {}
  else
    match config with
    | .obj members =>
      match entries members with
      | .error e => .error e
      | .ok found =>
        match frameworksOf members with
        | .error e => .error e
        | .ok hints => .ok ⟨namespaces found, hints, priorityPaths root found⟩
    | _ => .error .notAnObject

/-- The directory a project path stands for: a file stands for the directory it is in. -/
def projectRoot (v : Volume) (project : Path) : Path :=
  if v.isFile project then project.parent else project

/-- The manifest of a project, with the log.  One that is missing, unreadable or no object is
none; the log says so, unless it is just missing. -/
def load (m : Json.Machine) (v : Volume) (project : Path) :
    Except Crash (Option Json × List Record) :=
  let path := (projectRoot v project).child fileName
  let unreadable (detail : String) : Option Json × List Record :=
    (none, [⟨.warning, .manifest, "Ignoring unreadable " ++ path.text ++ ": " ++ detail⟩])
  match v.probe project with
  | .error f => .error (.access f)
  | .ok _ =>
    match v.readText path with
    | .error .encoding => .error .encoding
    | .error .nul => .error .nul
    | .error (.access f) =>
      .ok (if f.cause = .notFound then (none, []) else unreadable f.message)
    | .ok text =>
      match m.read text.toList with
      | .error (.limit l) => .error (.limit l)
      | .error (.fault e) => .ok (unreadable (e.message text.toList))
      | .ok (.obj members) => .ok (some (.obj members), [])
      | .ok _ =>
        .ok (none,
          [⟨.warning, .manifest, "Ignoring " ++ path.text ++ ": top level is not an object"⟩])

end Manifest

/-- Insights as JSON. -/
def Insights.toJson (i : Insights) : Json :=
  .obj [("namespaces", .obj (i.namespaces.map fun n => (n.1, .arr (n.2.map Json.str)))),
    ("framework_hints", .arr (i.frameworks.map Json.str)),
    ("priority_paths", .arr (i.priorityPaths.map fun p =>
      .obj [("namespace", .str p.owner), ("relative_path", .str p.relative),
        ("absolute_path", .str p.absolute)]))]

end PhpCatalog
