import PhpCatalog.Main
import PhpCatalog.Proofs.Syntax.Preorder
import PhpCatalog.Proofs.Catalog.Walk
import PhpCatalog.Proofs.Docblock.Shape
import PhpCatalog.Proofs.Declaration.Metadata
import PhpCatalog.Proofs.Catalog.WellFormed
import PhpCatalog.Proofs.Catalog.Relevance
import PhpCatalog.Proofs.Catalog.Order
import PhpCatalog.Proofs.Docblock.Rendering
import PhpCatalog.Proofs.Docblock.Possible
import PhpCatalog.Proofs.Json.Number
import PhpCatalog.Proofs.Json.Quoted
import PhpCatalog.Proofs.Json.RoundTrip
import PhpCatalog.Proofs.Json.Characters
import PhpCatalog.Proofs.Json.Alike
import PhpCatalog.Proofs.Json.Stopping
import PhpCatalog.Proofs.Json.Breaks
import PhpCatalog.Proofs.Volume.Reading
import PhpCatalog.Proofs.Settings.Loading
import PhpCatalog.Proofs.Settings.Store
import PhpCatalog.Proofs.Language.Lowering
import PhpCatalog.Proofs.Extraction.Recorded
import PhpCatalog.Proofs.Discovery.Supported
import PhpCatalog.Proofs.Text.Order
import PhpCatalog.Proofs.Discovery.Tree
import PhpCatalog.Proofs.Discovery.Discover
import PhpCatalog.Proofs.Extraction.Concepts
import PhpCatalog.Proofs.Json.Canonical
import PhpCatalog.Proofs.Manifest.Namespaces
import PhpCatalog.Proofs.Manifest.Declared
import PhpCatalog.Proofs.Command.Report
import PhpCatalog.Proofs.Command.Printing
import PhpCatalog.Proofs.Command.Accounting
import PhpCatalog.Proofs.Command.Completion
import PhpCatalog.Proofs.Declaration.Unreadable
import PhpCatalog.Proofs.Docblock.Search
import PhpCatalog.Proofs.Json.Order
import PhpCatalog.Proofs.Extraction.Isolation
import PhpCatalog.Proofs.Docblock.Joining
import PhpCatalog.Proofs.Declaration.Lookup
import PhpCatalog.Proofs.Declaration.Bundle
import PhpCatalog.Proofs.Traits.Clauses
import PhpCatalog.Proofs.Traits.Nested
import PhpCatalog.Proofs.Manifest.Loading
import PhpCatalog.Proofs.Docblock.Margin
import PhpCatalog.Proofs.Docblock.Tags
import PhpCatalog.Proofs.Docblock.Flattening
import PhpCatalog.Proofs.Path.Normal
import PhpCatalog.Proofs.Manifest.Fragment
import PhpCatalog.Proofs.Manifest.Priority
import PhpCatalog.Proofs.Manifest.Faults
import PhpCatalog.Proofs.Manifest.Stability
import PhpCatalog.Proofs.Manifest.Frameworks
import PhpCatalog.Proofs.Discovery.Reading
import PhpCatalog.Proofs.Discovery.Keeping
import PhpCatalog.Proofs.Discovery.Printed
import PhpCatalog.Proofs.Docblock.Wordless
import PhpCatalog.Proofs.Report.OneLine
import PhpCatalog.Proofs.Command.AllOrNothing
import PhpCatalog.Proofs.Command.Kinds
import PhpCatalog.Proofs.Catalog.Identity
import PhpCatalog.Proofs.Settings.Root
