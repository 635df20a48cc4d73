/-
# Files that are left out

Of the files of a project only PHP sources are cataloged, and of these not every one: minified
files never, templates and vendored packages only if the settings say so, and nothing that matches
one of the settings' patterns.  The rules look at the path of a file alone.
-/
import PhpCatalog.Path
import PhpCatalog.Settings
import PhpCatalog.Text.Glob

namespace PhpCatalog

/-- How the names of minified files end. -/
def minifiedSuffix : List Char := ".min.php".toList

/-- How the names of templates end. -/
def templateSuffix : List Char := ".blade.php".toList

/-- The name of a directory of packages from elsewhere. -/
def vendorName : List Char := "vendor".toList

/-- Whether a file is left out, by its path below the project; `fold` writes its name in lower
case. -/
def Settings.skipsBy (fold : List Char → List Char) (s : Settings) (path : String) : Bool :=
  let pieces := splitSlashes path.toList
  let name := fold (pieces.getLastD [])
  !phpSuffixes.contains (suffix name) ||
    minifiedSuffix.isSuffixOf name ||
    (templateSuffix.isSuffixOf name && !s.includeTemplates) ||
    (pieces.dropLast.contains vendorName && !s.includeVendor) ||
    s.exclude.any fun pattern => Text.Glob.accepts pattern path

/-- Whether a file is left out, by its path below the project. -/
def Settings.skips (s : Settings) (path : String) : Bool :=
  s.skipsBy lower path

end PhpCatalog
