/-
# What a run looks at

A run sees the disk as a volume, and only a part of the disk matters to it: the paths it was
given, the settings of the directories above them, their manifests, and the files that are listed
for them.  Any argument may be such a path, and so may the current directory.
-/
import PhpCatalog.Discovery.Listing
import PhpCatalog.Manifest.Insights
import PhpCatalog.Settings

namespace PhpCatalog.Command

/-- The paths that matter when a path is given, with the listing of the project. -/
def consultedFor (here : List String) (listing : Listing) (path : Path) : List Path :=
  path.ancestors ++ path.child Manifest.fileName ::
    (path.resolve here).ancestors.map Settings.file ++
    (listing.tracked?.getD []).map fun p => path.join (Path.ofString (forwardSlashes p))

/-- The paths that matter to a run. -/
def consulted (here : List String) (listing : Listing) (args : List String) : List Path :=
  ("." :: args).flatMap fun arg => consultedFor here listing (Path.ofString arg)

/-- Notes on a volume what a path leads to, if anything.  What is already there stays. -/
def note (v : Volume) (path : Path) (entry : Option Entry) : Volume :=
  match entry with
  | some e => if v.has path then v else v.put path e
  | none => v

end PhpCatalog.Command
