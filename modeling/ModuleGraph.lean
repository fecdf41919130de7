import ModuleGraph.Analysis.Plan
import ModuleGraph.Analysis.Project
import ModuleGraph.Analysis.Run
import ModuleGraph.Binary.Codec
import ModuleGraph.Binary64.Basic
import ModuleGraph.Binary64.Decimal
import ModuleGraph.Cache.Basic
import ModuleGraph.Cache.Digest
import ModuleGraph.Cache.Key
import ModuleGraph.Change.Basic
import ModuleGraph.Change.Git
import ModuleGraph.Change.NameStatus
import ModuleGraph.CommandLine.Invocation
import ModuleGraph.CommandLine.Options
import ModuleGraph.CommandLine.Run
import ModuleGraph.Count
import ModuleGraph.Extraction.Inquiry
import ModuleGraph.Extraction.Outcome
import ModuleGraph.Extraction.Pool
import ModuleGraph.Extraction.Run
import ModuleGraph.FileSystem.Basic
import ModuleGraph.FileSystem.Change
import ModuleGraph.Glob.Matching
import ModuleGraph.Glob.Pattern
import ModuleGraph.Graph.Basic
import ModuleGraph.Graph.Closure
import ModuleGraph.Graph.Component
import ModuleGraph.Graph.Cycle
import ModuleGraph.Graph.Document
import ModuleGraph.Graph.Rank
import ModuleGraph.Graph.Reach
import ModuleGraph.Graph.Summary
import ModuleGraph.Graph.Unexplored
import ModuleGraph.Import.Basic
import ModuleGraph.Import.Python
import ModuleGraph.Import.Source
import ModuleGraph.Import.Tree
import ModuleGraph.Json.Basic
import ModuleGraph.Json.Draft
import ModuleGraph.Json.Reading
import ModuleGraph.Json.Token
import ModuleGraph.LineMetrics
import ModuleGraph.Main
import ModuleGraph.OrderedMap
import ModuleGraph.Path
import ModuleGraph.Proofs.Analysis.Agreement
import ModuleGraph.Proofs.Analysis.Dependencies
import ModuleGraph.Proofs.Analysis.Metrics
import ModuleGraph.Proofs.Analysis.Plan
import ModuleGraph.Proofs.Analysis.Reapplication
import ModuleGraph.Proofs.Analysis.Repetition
import ModuleGraph.Proofs.Analysis.Run
import ModuleGraph.Proofs.Analysis.Sharing
import ModuleGraph.Proofs.Analysis.Site
import ModuleGraph.Proofs.Analysis.Stale
import ModuleGraph.Proofs.Analysis.Totals
import ModuleGraph.Proofs.Binary.Codec
import ModuleGraph.Proofs.Binary.Range
import ModuleGraph.Proofs.Binary.Truncation
import ModuleGraph.Proofs.Cache.Collision
import ModuleGraph.Proofs.Cache.Eviction
import ModuleGraph.Proofs.Cache.Files
import ModuleGraph.Proofs.Cache.Key
import ModuleGraph.Proofs.Cache.Log
import ModuleGraph.Proofs.Cache.Lookup
import ModuleGraph.Proofs.Cache.Memory
import ModuleGraph.Proofs.Cache.Refinement
import ModuleGraph.Proofs.Cache.Retention
import ModuleGraph.Proofs.Candidates
import ModuleGraph.Proofs.Change
import ModuleGraph.Proofs.Change.NameStatus
import ModuleGraph.Proofs.Enumeration
import ModuleGraph.Proofs.Extraction.Accounts
import ModuleGraph.Proofs.Extraction.Edges
import ModuleGraph.Proofs.Extraction.Inquiry
import ModuleGraph.Proofs.Extraction.Isolation
import ModuleGraph.Proofs.Extraction.Outcome
import ModuleGraph.Proofs.Extraction.Partial
import ModuleGraph.Proofs.Extraction.Pool
import ModuleGraph.Proofs.Extraction.Run
import ModuleGraph.Proofs.Extraction.Targets
import ModuleGraph.Proofs.FileSystem.Directory
import ModuleGraph.Proofs.FileSystem.Flat
import ModuleGraph.Proofs.FileSystem.Folder
import ModuleGraph.Proofs.FileSystem.Likeness
import ModuleGraph.Proofs.FileSystem.LinkFree
import ModuleGraph.Proofs.FileSystem.Location
import ModuleGraph.Proofs.FileSystem.Lookup
import ModuleGraph.Proofs.FileSystem.Making
import ModuleGraph.Proofs.FileSystem.Tree
import ModuleGraph.Proofs.FileSystem.Writing
import ModuleGraph.Proofs.Graph.Acyclic
import ModuleGraph.Proofs.Graph.Closure
import ModuleGraph.Proofs.Graph.Component
import ModuleGraph.Proofs.Graph.Course
import ModuleGraph.Proofs.Graph.Cycle
import ModuleGraph.Proofs.Graph.Degree
import ModuleGraph.Proofs.Graph.Document
import ModuleGraph.Proofs.Graph.History
import ModuleGraph.Proofs.Graph.IndexGraph
import ModuleGraph.Proofs.Graph.Operations
import ModuleGraph.Proofs.Graph.Order
import ModuleGraph.Proofs.Graph.Outcomes
import ModuleGraph.Proofs.Graph.Rank
import ModuleGraph.Proofs.Graph.Reach
import ModuleGraph.Proofs.Graph.Recursion
import ModuleGraph.Proofs.Graph.Rendering
import ModuleGraph.Proofs.Graph.Representation
import ModuleGraph.Proofs.Graph.Similarity
import ModuleGraph.Proofs.Graph.Summary
import ModuleGraph.Proofs.Graph.Text
import ModuleGraph.Proofs.Halting
import ModuleGraph.Proofs.Import.Extraction
import ModuleGraph.Proofs.Import.Rendering
import ModuleGraph.Proofs.Import.Span
import ModuleGraph.Proofs.Import.Spelling
import ModuleGraph.Proofs.Import.Syntax
import ModuleGraph.Proofs.Import.Traversal
import ModuleGraph.Proofs.Import.WellFormed
import ModuleGraph.Proofs.Json.Draft
import ModuleGraph.Proofs.Json.Fields
import ModuleGraph.Proofs.Json.Layout
import ModuleGraph.Proofs.Json.Reading
import ModuleGraph.Proofs.Json.Scanning
import ModuleGraph.Proofs.Json.Script
import ModuleGraph.Proofs.Json.Token
import ModuleGraph.Proofs.LineMetrics
import ModuleGraph.Proofs.OrderedMap
import ModuleGraph.Proofs.Path.Ids
import ModuleGraph.Proofs.Path.Likeness
import ModuleGraph.Proofs.Path.Names
import ModuleGraph.Proofs.Path.Parent
import ModuleGraph.Proofs.Path.Steps
import ModuleGraph.Proofs.Resolution
import ModuleGraph.Proofs.Resolution.Containment
import ModuleGraph.Proofs.Resolution.Decision
import ModuleGraph.Proofs.Resolution.Likeness
import ModuleGraph.Proofs.Resolution.Memory
import ModuleGraph.Proofs.Selection
import ModuleGraph.Proofs.Snapshot.Codec
import ModuleGraph.Proofs.Snapshot.Dependency
import ModuleGraph.Proofs.Snapshot.History
import ModuleGraph.Proofs.Snapshot.Merge
import ModuleGraph.Proofs.Sorting
import ModuleGraph.Proofs.SourceFilter
import ModuleGraph.Proofs.Text.Lines
import ModuleGraph.Proofs.Text.Split
import ModuleGraph.Proofs.Text.Utf8
import ModuleGraph.Resolution
import ModuleGraph.Settings
import ModuleGraph.Settings.Reading
import ModuleGraph.Snapshot.Codec
import ModuleGraph.Snapshot.Dependency
import ModuleGraph.Snapshot.Metrics
import ModuleGraph.SortedSet
import ModuleGraph.SourceFilter
import ModuleGraph.Text.Blank
import ModuleGraph.Text.Split
import ModuleGraph.Text.Utf8
import ModuleGraph.Text.WordChar
import ModuleGraph.Toml.Basic
import ModuleGraph.Toml.Document
import ModuleGraph.Toml.Reader
import ModuleGraph.Toml.Text
import ModuleGraph.Toml.Value
