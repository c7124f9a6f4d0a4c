import ImportResolution.Alias
import ImportResolution.Artifact
import ImportResolution.Budget
import ImportResolution.BuildContext
import ImportResolution.Cache.Codec
import ImportResolution.Cache.Entry
import ImportResolution.Cache.Memory
import ImportResolution.Cache.Persisted
import ImportResolution.Cache.Store
import ImportResolution.Command
import ImportResolution.Command.Arguments
import ImportResolution.Decimal
import ImportResolution.Diagnosis
import ImportResolution.Digest.Sha256
import ImportResolution.Disk
import ImportResolution.Disk.View
import ImportResolution.Existence.Bloom
import ImportResolution.Existence.Index
import ImportResolution.External
import ImportResolution.Failure
import ImportResolution.FileSet
import ImportResolution.Gate
import ImportResolution.Glob
import ImportResolution.Glob.Reader
import ImportResolution.Graph
import ImportResolution.Hashes
import ImportResolution.IgnoreRules
import ImportResolution.Importer
import ImportResolution.Json
import ImportResolution.Json.Fields
import ImportResolution.Json.Printer
import ImportResolution.Json.Reader
import ImportResolution.Json.Relaxed
import ImportResolution.Language.Bare
import ImportResolution.Language.Dotted
import ImportResolution.Language.Include
import ImportResolution.Language.Label
import ImportResolution.Language.PathLike
import ImportResolution.Language.Python
import ImportResolution.Language.Relative
import ImportResolution.Language.Search
import ImportResolution.Location
import ImportResolution.Main
import ImportResolution.Manifest
import ImportResolution.PackageEntry
import ImportResolution.Path
import ImportResolution.Probe
import ImportResolution.Reason
import ImportResolution.Relations
import ImportResolution.Report
import ImportResolution.Report.Configuration
import ImportResolution.Report.Evidence
import ImportResolution.Report.Names
import ImportResolution.Run
import ImportResolution.Run.Compute
import ImportResolution.Run.Resolve
import ImportResolution.Run.State
import ImportResolution.Settings.Basic
import ImportResolution.Settings.Environment
import ImportResolution.Settings.Printer
import ImportResolution.Settings.Reader
import ImportResolution.Settings.Store
import ImportResolution.Specifier
import ImportResolution.Stage
import ImportResolution.Table
import ImportResolution.Text
import ImportResolution.Text.Case
import ImportResolution.Text.CaseTable
import ImportResolution.Text.WordTable
import ImportResolution.Timestamp
import ImportResolution.Toml.Exchange
import ImportResolution.Toml.Node
import ImportResolution.Toml.Printer
import ImportResolution.Toml.Reader
import ImportResolution.Toml.Scalar
import ImportResolution.Toml.Value
import ImportResolution.TsConfig.Chain
import ImportResolution.TsConfig.Loader
import ImportResolution.TsConfig.Options
import ImportResolution.TsConfig.PathRule
import ImportResolution.TsConfig.Profile
import ImportResolution.TsConfig.Reader
import ImportResolution.Walk
import ImportResolution.Proofs.Segments
import ImportResolution.Proofs.Governing
import ImportResolution.Proofs.Keys
import ImportResolution.Proofs.Search
import ImportResolution.Proofs.Settling
import ImportResolution.Proofs.Trace
import ImportResolution.Proofs.Assembly
import ImportResolution.Proofs.Taxonomy
import ImportResolution.Proofs.Accounting
import ImportResolution.Proofs.Meaning
import ImportResolution.Proofs.Recall
import ImportResolution.Proofs.Comparison
import ImportResolution.Proofs.Edits
import ImportResolution.Proofs.Reuse
import ImportResolution.Proofs.Staleness
import ImportResolution.Proofs.Upkeep
import ImportResolution.Proofs.Sequence
import ImportResolution.Proofs.Indexed
import ImportResolution.Proofs.Reasons
import ImportResolution.Proofs.Expiry
import ImportResolution.Proofs.Folding
import ImportResolution.Proofs.Unindexed
import ImportResolution.Proofs.Idempotence
import ImportResolution.Proofs.Parts
import ImportResolution.Proofs.Profiles
import ImportResolution.Proofs.AliasOrder
import ImportResolution.Proofs.FileSetChange
import ImportResolution.Proofs.Existence
import ImportResolution.Proofs.Trees
import ImportResolution.Proofs.Acceleration
import ImportResolution.Proofs.Closure
import ImportResolution.Proofs.Links
import ImportResolution.Proofs.Fallbacks
import ImportResolution.Proofs.Candidates
import ImportResolution.Proofs.Spellings
import ImportResolution.Proofs.ScanOrder
import ImportResolution.Proofs.Versions
import ImportResolution.Proofs.JsonText
import ImportResolution.Proofs.CacheText
import ImportResolution.Proofs.Homes
import ImportResolution.Proofs.CacheFile
import ImportResolution.Proofs.Lookup
import ImportResolution.Proofs.Budgets
import ImportResolution.Proofs.Confinement
import ImportResolution.Proofs.ByteOrder
import ImportResolution.Proofs.Offers
import ImportResolution.Proofs.Shuffles
import ImportResolution.Proofs.Eviction
import ImportResolution.Proofs.Nearest
import ImportResolution.Proofs.NormalForms
import ImportResolution.Proofs.PathRules
import ImportResolution.Proofs.DirectPlaces
import ImportResolution.Proofs.Ancestry
import ImportResolution.Proofs.Inheritance
import ImportResolution.Proofs.Pointing
import ImportResolution.Proofs.Climbing
import ImportResolution.Proofs.AliasTargets
import ImportResolution.Proofs.Emission
import ImportResolution.Proofs.Leaving
import ImportResolution.Proofs.Lifetimes
import ImportResolution.Proofs.LongestStart
import ImportResolution.Proofs.Inner
import ImportResolution.Proofs.Counterparts
import ImportResolution.Proofs.Nesting
import ImportResolution.Proofs.Labels
import ImportResolution.Proofs.Legality
import ImportResolution.Proofs.MemberOrder
import ImportResolution.Proofs.Canonical
