/-
# Discovery

The files to catalog: of those listed, the ones that the settings do not skip and whose size is
within the limit, in the order of their paths.  A path that is listed twice stays twice.  A path
that leads nowhere has no size and is dropped.  A path with a null character cannot even be asked
for: unless it is skipped, it ends the discovery.
-/
import PhpCatalog.Abort
import PhpCatalog.Discovery.Listing
import PhpCatalog.Discovery.Skip
import PhpCatalog.Text.Order

namespace PhpCatalog

/-- The paths that are listed, with slashes between their names. -/
def listed (v : Volume) (listing : Listing) (root : Path) : List String :=
  (listing.tracked?.getD (v.walk root)).map forwardSlashes

/-- Whether a listed path is cataloged. -/
def Settings.keeps (s : Settings) (v : Volume) (root : Path) (path : String) : Bool :=
  !s.skips path &&
    match v.size? (root.join (Path.ofString path)) with
    | some size => (size : Int) ≤ s.maxFileSize
    | none => false

/-- The files of a project to catalog, by their paths below it, if all that are not skipped can be
asked for. -/
def discover (v : Volume) (listing : Listing) (root : Path) (s : Settings) : List String :=
  let top := root.resolve v.here
  Text.sortTexts ((listed v listing top).filter (s.keeps v top))

/-- Whether a listed path cannot be asked for, and is not skipped. -/
def Settings.stumbles (s : Settings) (root : Path) (path : String) : Bool :=
  !s.skips path && (root.join (Path.ofString path)).hasNul

/-- The files of a project to catalog, unless a listed path ends the discovery. -/
def tryDiscover (v : Volume) (listing : Listing) (root : Path) (s : Settings) :
    Except Crash (List String) :=
  let top := root.resolve v.here
  if (listed v listing top).any (s.stumbles top) then .error .nul
  else .ok (discover v listing root s)

end PhpCatalog
