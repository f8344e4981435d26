import VariantSelection.Pom
import VariantSelection.Metadata.Component
import VariantSelection.Json.Tree
import VariantSelection.Json.Number
import VariantSelection.Attribute.Standard
import VariantSelection.Diagnostic
import VariantSelection.Report.Outgoing
import VariantSelection.Report.Schema
import VariantSelection.Files.System
import VariantSelection.Catalog.Loading
import VariantSelection.Toml.Document
import VariantSelection.Toml.Layout
import VariantSelection.Toml.Record
import VariantSelection.Manifest.Document
import VariantSelection.Manifest.Schema
import VariantSelection.Session.Loading
import VariantSelection.Report.Resolution
import VariantSelection.Report.Configurations
import VariantSelection.Scaffold
import VariantSelection.Main
import VariantSelection.Proofs.Selection.Justified
import VariantSelection.Proofs.Selection.Reordered
import VariantSelection.Proofs.Selection.Removal
import VariantSelection.Proofs.Selection.Derived
import VariantSelection.Proofs.Selection.Exact
import VariantSelection.Proofs.Selection.Insertion
import VariantSelection.Proofs.Catalog.Loading
import VariantSelection.Proofs.Selection.Files
import VariantSelection.Proofs.Catalog.Duplicate
import VariantSelection.Proofs.Conversion
import VariantSelection.Proofs.Resolution
import VariantSelection.Proofs.Session
import VariantSelection.Proofs.Catalog.Typing
import VariantSelection.Proofs.Selection.Registration
import VariantSelection.Proofs.Selection.Unrequested
import VariantSelection.Proofs.Catalog.Superseded
import VariantSelection.Proofs.Registry.Tables
import VariantSelection.Proofs.Registry.Run
import VariantSelection.Proofs.Rule.Accepts
import VariantSelection.Proofs.Toml.Number
import VariantSelection.Proofs.Toml.Layout
import VariantSelection.Proofs.Coordinate
import VariantSelection.Proofs.Capability
import VariantSelection.Proofs.Pom
import VariantSelection.Proofs.Toml.Record
import VariantSelection.Proofs.Toml.Table
import VariantSelection.Proofs.Manifest.Document
import VariantSelection.Proofs.Files.Node
import VariantSelection.Proofs.Files.Action
import VariantSelection.Proofs.Files.Listing
import VariantSelection.Proofs.Scaffold
import VariantSelection.Proofs.Scaffold.Resolves
import VariantSelection.Proofs.Match.Partition
import VariantSelection.Proofs.Selection.Relaxed
import VariantSelection.Proofs.Disambiguation.Plain
import VariantSelection.Proofs.Selection.Lowest
import VariantSelection.Proofs.Disambiguation.Convergence
import VariantSelection.Proofs.Registry.Order
import VariantSelection.Proofs.Registry.Declaration
import VariantSelection.Proofs.Manifest.Schema
import VariantSelection.Proofs.Metadata.Component
import VariantSelection.Proofs.Component.Building
import VariantSelection.Proofs.Report.Configurations
import VariantSelection.Proofs.Diagnostic
import VariantSelection.Proofs.Report.Ranking
import VariantSelection.Proofs.Value.Comparison
import VariantSelection.Proofs.Rule.Extreme
import VariantSelection.Proofs.Report.Schema
import VariantSelection.Proofs.Files.Collect
import VariantSelection.Proofs.Attribute.Set
import VariantSelection.Proofs.Report.Outgoing
import VariantSelection.Proofs.Report.Resolution
import VariantSelection.Proofs.Command
import VariantSelection.Proofs.Command.Arguments
