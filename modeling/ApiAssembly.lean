import ApiAssembly.Config.Session
import ApiAssembly.Main
import ApiAssembly.Proofs.Normal.Schema
import ApiAssembly.Proofs.Keyed.Sorted
import ApiAssembly.Proofs.Normal.Slots
import ApiAssembly.Proofs.Normal.Search
import ApiAssembly.Proofs.Normal.Used
import ApiAssembly.Proofs.Normal.Stability
import ApiAssembly.Proofs.Document.Texts
import ApiAssembly.Proofs.Document.Info
import ApiAssembly.Proofs.Partition.ByKey
import ApiAssembly.Proofs.Normal.References
import ApiAssembly.Proofs.Assembly.InputWarnings
import ApiAssembly.Proofs.Assembly.Handed
import ApiAssembly.Proofs.Assembly.History
import ApiAssembly.Proofs.Assembly.Answers
import ApiAssembly.Proofs.Assembly.Settling
import ApiAssembly.Proofs.Assembly.Faults
import ApiAssembly.Proofs.Text.Replacing
import ApiAssembly.Proofs.Text.Splitting
import ApiAssembly.Proofs.Placeholder.Filling
import ApiAssembly.Proofs.Output.Names
import ApiAssembly.Proofs.Keyed.Entries
import ApiAssembly.Proofs.Normal.Canonical
import ApiAssembly.Proofs.Merge.Slots
import ApiAssembly.Proofs.Partition.Order
import ApiAssembly.Proofs.Normal.Form
import ApiAssembly.Proofs.Document.Written
import ApiAssembly.Proofs.Document.Paths
import ApiAssembly.Proofs.Partition.Common
import ApiAssembly.Proofs.Merge.References
import ApiAssembly.Proofs.Reading.ReadsBack
import ApiAssembly.Proofs.Document.KeysApart
import ApiAssembly.Proofs.Document.Resolving
import ApiAssembly.Proofs.Placeholder.Passes
import ApiAssembly.Proofs.Placeholder.Defaults
import ApiAssembly.Proofs.Reading.Row
import ApiAssembly.Proofs.Reading.Texts
import ApiAssembly.Proofs.Document.KeepsTexts
import ApiAssembly.Proofs.Assembly.Unresolved
import ApiAssembly.Proofs.Reading.Expanded
import ApiAssembly.Proofs.Document.ExpandedKeys
import ApiAssembly.Proofs.Placeholder.References
import ApiAssembly.Proofs.Assembly.Ungrouped
import ApiAssembly.Proofs.Schema.Meaning
import ApiAssembly.Proofs.Normal.Meaning
import ApiAssembly.Proofs.Reading.Roles
import ApiAssembly.Proofs.Document.Kept
import ApiAssembly.Proofs.Files.Paths
import ApiAssembly.Proofs.Files.Without
import ApiAssembly.Proofs.Files.Broken
import ApiAssembly.Proofs.Assembly.Broken
import ApiAssembly.Proofs.Keyed.FirstWins
import ApiAssembly.Proofs.Merge.Union
import ApiAssembly.Proofs.Merge.Inline
import ApiAssembly.Proofs.Merge.Endpoints
import ApiAssembly.Proofs.Merge.Documents
import ApiAssembly.Proofs.Json.Same
import ApiAssembly.Proofs.Normal.Content
import ApiAssembly.Proofs.Normal.Frame
import ApiAssembly.Proofs.Assembly.Visits
import ApiAssembly.Proofs.Document.Served
import ApiAssembly.Proofs.Naming.InStep
import ApiAssembly.Proofs.Output.Tokens
import ApiAssembly.Proofs.CommandLine.LatinSlugs
import ApiAssembly.Proofs.Output.Directory
import ApiAssembly.Proofs.Output.Destinations
import ApiAssembly.Proofs.Assembly.Accounts
import ApiAssembly.Proofs.Config.GroupSettings
import ApiAssembly.Proofs.Config.TypeRules
import ApiAssembly.Proofs.Config.Layouts
import ApiAssembly.Proofs.Document.Mismatches
import ApiAssembly.Proofs.Placeholder.Substitution
import ApiAssembly.Proofs.Reading.InOrder
import ApiAssembly.Proofs.Json.Grammar
import ApiAssembly.Proofs.Json.Lexemes
import ApiAssembly.Proofs.Json.Language
import ApiAssembly.Proofs.Document.WholeTexts
import ApiAssembly.Proofs.Config.PackageRules
import ApiAssembly.Proofs.Config.EnvironmentLayer
import ApiAssembly.Proofs.Config.Flattening
