/-
# Frameworks of a manifest

The packages that a manifest requires hint at the frameworks a project uses.  Some packages stand
for a framework by their full name; of the others, some vendors do.
-/
import PhpCatalog.Abort
import PhpCatalog.Json.Basic
import PhpCatalog.Text.Order

namespace PhpCatalog.Manifest

/-- The packages that stand for a framework. -/
def frameworkPackages : List (String × String) :=
  [("laravel/framework", "laravel"), ("laravel/lumen-framework", "lumen"),
    ("symfony/symfony", "symfony"), ("symfony/http-kernel", "symfony"),
    ("symfony/console", "symfony"), ("cakephp/cakephp", "cakephp"),
    ("codeigniter4/framework", "codeigniter"), ("yiisoft/yii2", "yii"),
    ("drupal/core", "drupal"), ("wordpress/wordpress", "wordpress"),
    ("johnpbloch/wordpress-core", "wordpress"), ("woocommerce/woocommerce", "woocommerce")]

/-- The vendors that stand for a framework, by how the names of their packages start. -/
def frameworkVendors : List (String × String) :=
  [("symfony/", "symfony"), ("laravel/", "laravel"), ("drupal/", "drupal")]

/-- The frameworks a package hints at. -/
def hintsOf (package : String) : List String :=
  match frameworkPackages.lookup package with
  | some hint => [hint]
  | none =>
    (frameworkVendors.filter fun vendor => vendor.1.toList.isPrefixOf package.toList).map Prod.snd

/-- The packages of a section.  A section that is missing or empty in any form has none; one that
is filled has to be an object. -/
def packagesOf (config : List (String × Json)) (name : String) :
    Except ManifestFault (List String) :=
  match Json.lookup name config with
  | none => .ok []
  | some (.obj members) => .ok (members.map Prod.fst)
  | some j => if j.isTruthy then .error .noEntries else .ok []

/-- The frameworks a manifest hints at, each once, in the order of their names. -/
def frameworksOf (config : List (String × Json)) : Except ManifestFault (List String) :=
  match packagesOf config "require" with
  | .error e => .error e
  | .ok required =>
    match packagesOf config "require-dev" with
    | .error e => .error e
    | .ok dev => .ok (Text.sortDistinct ((required ++ dev).flatMap hintsOf))

/-- The frameworks of a manifest, which has to be an object. -/
def frameworks : Json → Except ManifestFault (List String)
  | .obj members => frameworksOf members
  | _ => .error .notAnObject

end PhpCatalog.Manifest
