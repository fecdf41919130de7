import ModuleGraph.Analysis.Run
import ModuleGraph.Cache.Basic
import ModuleGraph.Change.Git
import ModuleGraph.CommandLine.Invocation
import ModuleGraph.Graph.Document
import ModuleGraph.Settings.Reading

/-!
What the program does: it extracts the graph of a project, or brings kept snapshots up to date with
the history that Git knows. A run changes the files, prints lines, and ends well or with a failure
and its causes.
-/
namespace ModuleGraph.CommandLine
open Text (utf8Bytes)

/-- Why a run fails: what was tried, and the causes from the outermost to the innermost. -/
structure Failure where
  attempt : String
  causes : List String
  deriving DecidableEq

namespace Failure

/-- A cause under a heading of its own; further lines are indented to its text. -/
def causeLines (heading margin cause : String) : List String :=
  match cause.splitOn "\n" with
  | [] => [heading]
  | first :: rest => (heading ++ first) :: rest.map (margin ++ ·)

/-- Causes with their numbers. -/
def numbered : Nat → List String → List String
  | _, [] => []
  | n, cause :: rest =>
    let digits := toString n
    let heading := String.ofList (List.replicate (5 - digits.length) ' ') ++ digits ++ ": "
    causeLines heading "       " cause ++ numbered (n + 1) rest

/-- The report of a failure. One cause stands alone, several are numbered. -/
def report (f : Failure) : List String :=
  ("Error: " ++ f.attempt).splitOn "\n" ++
    match f.causes with
    | [] => []
    | [cause] => ["", "Caused by:"] ++ causeLines "    " "    " cause
    | causes => ["", "Caused by:"] ++ numbered 0 causes

end Failure

/-! ## Causes -/

/-- The causes behind an error of an extraction. -/
def runCauses (e : RunError) : List String :=
  match e with
  | .rootNotFound _ => [e.message]
  | .invalidGlob inner => [e.message, inner.cause.message inner.pattern]
  | .threadPool inner => e.message :: inner.message :: inner.causes

/-- The causes behind an error in reading settings. -/
def settingsCauses (e : SettingsError) : List String :=
  match e with
  | .unreadable inner => [e.message, inner.message]
  | .malformed => [e.message]

/-- The causes behind an error of the store. -/
def cacheCauses (e : CacheError) : List String :=
  match e with
  | .fileError inner => [e.message, inner.message]
  | .undecodable => [e.message]

/-! ## Runs -/

/-- What a run works with beside the files. -/
structure Tools (σ : Type) where
  git : Git σ
  /-- The grammar of Python, or why it is not at hand. -/
  grammar : Except String Grammar
  workers : Workers

/-- The files, the state of Git, and the lines printed so far. -/
structure Session (σ : Type) where
  files : FileSystem
  git : σ
  output : List String

/-- A part of a run. -/
abbrev Action (σ α : Type) : Type := ExceptT Failure (StateM (Session σ)) α

variable {σ : Type}

/-- Prints a line. -/
def say (line : String) : Action σ Unit := modify fun s => { s with output := s.output ++ [line] }

/-- The value of something that may fail. -/
def attempt {ε α : Type} (name : String) (causes : ε → List String) : Except ε α → Action σ α
  | .ok a => pure a
  | .error e => throw ⟨name, causes e⟩

/-- Writes a text to a file. -/
def writeText (path : Path) (text : String) : Action σ Unit := do
  let files ← attempt ("failed to write " ++ path.text) (fun e => [e.message])
    ((← get).files.write path (utf8Bytes text))
  modify fun s => { s with files }

/-- Loads the settings from a file that is given, or those of a project. -/
def loadSettings (config : Option Path) (root : Path) : Action σ Settings := do
  let files := (← get).files
  match config with
  | some path =>
    attempt ("failed to load configuration from " ++ path.text) settingsCauses
      (Settings.ofFile files path)
  | none =>
    attempt ("failed to load " ++ Settings.fileName) settingsCauses (Settings.discover files root)

/-- The settings with those that the command line gives in their place. -/
def ExtractOptions.applyTo (o : ExtractOptions) (s : ExtractionSettings) : ExtractionSettings :=
  { s with
    included := if o.included.isEmpty then s.included else o.included
    excluded := if o.excluded.isEmpty then s.excluded else o.excluded
    searchRoots := s.searchRoots ++ o.searchRoots }

/-- Extracts the graph of a project and writes it, and a summary if one is wanted. -/
def runExtract (tools : Tools σ) (config : Option Path) (o : ExtractOptions) : Action σ Unit := do
  let root := o.root.getD ⟨"."⟩
  let output := o.output.getD ⟨"dependency_graph.json"⟩
  let settings ← loadSettings config root
  let pipeline := Pipeline.ofSettings (o.applyTo settings.extraction) (Python.extractor tools.grammar) tools.workers
  let (result, pipeline) := pipeline.extract (← get).files root
  let graph ← attempt ("failed to analyze " ++ root.text) runCauses result
  writeText output graph.toText
  say ("Wrote " ++ toString graph.nodeCount ++ " modules and " ++ toString graph.edgeCount ++
    " dependencies to " ++ output.text)
  if let some path := o.summary then
    let summary := Summary.ofGraph graph (o.top.getD Summary.defaultTop)
    writeText path summary.toJson.text
    say ("Summary: " ++ path.text)
    if summary.hasCycles then
      say ("Found " ++ toString summary.cycles.length ++ " import cycles")
  if !pipeline.failures.isEmpty then
    say (toString pipeline.failures.length ++ " files had errors, see the log for details")

/-! ## Incremental analysis -/

/-- What an analysis works on: the files, the store of snapshots, and the state of Git. -/
structure Workspace (σ : Type) where
  files : FileSystem
  cache : SnapshotCache
  git : σ

/-- Asks Git. What it does not answer is missing. -/
def askGit {α : Type} (git : Git σ) (repository : Path) (query : GitQuery α) :
    StateM (Workspace σ) (Option α) := do
  let w ← get
  let (answer, state) := query.ask git repository w.git
  set { w with git := state }
  return answer.toOption

/-- The surroundings of an analysis with a store and Git as the history. -/
def surroundings (git : Git σ) (repository : Path) : Surroundings (Workspace σ) where
  files := Workspace.files
  listKeys := return some (← get).cache.listKeys
  getSnapshot key := do
    let w ← get
    let (answer, cache) := w.cache.get w.files key
    set { w with cache }
    return answer.toOption.join
  setSnapshot key snapshot := modify fun w =>
    let (_, cache, files) := w.cache.set w.files key snapshot
    { w with cache, files }
  latestRevision := return (← askGit git repository .latestRevision).join
  changes source target := askGit git repository (.changes source target)
  currentCommit := askGit git repository .currentCommit

/-- Runs an analysis on the files of the session. -/
def analyze {α : Type} (cache : SnapshotCache)
    (run : StateM (Workspace σ) (Except RunError α)) :
    Action σ (Except RunError α × SnapshotCache) := do
  let s ← get
  let (result, w) := StateT.run run ⟨s.files, cache, s.git⟩
  set { s with files := w.files, git := w.git }
  return (result, w.cache)

/-- A commit as JSON. -/
def commitJson (c : Commit) : Json :=
  .object [("revision", .string c.revision), ("author", .string c.author), ("date", .string c.date),
    ("summary", .string c.summary)]

/-- A dependency snapshot as JSON. -/
def snapshotJson (s : DependencySnapshot) : Json :=
  .object [("dependencies", .object (s.dependencies.entries.map fun (id, targets) =>
      (id, .strings targets))),
    ("metrics", .object [("module_count", .number s.moduleCount),
      ("total_dependencies", .number s.totalDependencies),
      ("last_updated", s.lastUpdated.elim .null commitJson)])]

/-- The result of an analysis of dependencies as JSON. -/
def runJson (run : AnalysisRun DependencySnapshot) : Json :=
  .object [("mode", .string run.mode.name), ("revision", run.revision.elim .null .string),
    ("snapshot", snapshotJson run.snapshot)]

/-- Brings the snapshots of a project up to date. -/
def runIncremental (tools : Tools σ) (config : Option Path) (o : IncrementalOptions) : Action σ Unit := do
  let root := o.root.getD ⟨"."⟩
  let settings ← loadSettings config root
  let directory := settings.cache.directoryIn root
  let (opened, files) := SnapshotCache.openAt (← get).files directory
  modify fun s => { s with files }
  let cache ← attempt ("failed to open cache at " ++ directory.text) cacheCauses opened
  let project : Project := ⟨root, settings.extraction, Python.extractor tools.grammar, tools.workers⟩
  let s := surroundings tools.git root
  let (result, cache) ← analyze (cache.withMaxEntries settings.cache.maxSnapshots)
    (project.analyzeDependencies s o.forceFull)
  let dependencies ← attempt ("failed to analyze " ++ root.text) runCauses result
  say ("Dependencies (" ++ dependencies.mode.name ++ "): " ++
    toString dependencies.snapshot.moduleCount ++ " modules, " ++
    toString dependencies.snapshot.totalDependencies ++ " dependencies")
  if o.metrics then
    let (result, _) ← analyze cache (project.analyzeMetrics s o.forceFull)
    let metrics ← attempt "failed to collect file metrics" runCauses result
    say ("Metrics (" ++ metrics.mode.name ++ "): " ++ toString metrics.snapshot.totalFiles ++
      " files, " ++ toString metrics.snapshot.totalLines ++ " lines")
  if let some output := o.output then
    writeText output (runJson dependencies).text
    say ("Snapshot: " ++ output.text)

/-! ## The program -/

/-- The name and the version of the program. -/
def versionLine : String := "depwatch 0.1.0"

/-- How to use the program. -/
def usage : List String :=
  ["Usage: depwatch [OPTIONS] <COMMAND>",
    "",
    "Commands:",
    "  extract      Build the full dependency graph of a project",
    "  incremental  Update cached snapshots from the changes since the last analyzed revision"]

/-- What is left of a run. -/
structure Transcript (σ : Type) where
  exitCode : Nat
  output : List String
  errors : List String
  files : FileSystem
  git : σ

/-- What is left of a run that starts with given files. -/
def Transcript.ofAction (files : FileSystem) (git : σ) (action : Action σ Unit) : Transcript σ :=
  let (result, s) := StateT.run (ExceptT.run action) ⟨files, git, []⟩
  match result with
  | .ok _ => ⟨0, s.output, [], s.files, s.git⟩
  | .error failure => ⟨1, s.output, failure.report, s.files, s.git⟩

/-- Runs the program with the words of a command line. -/
def run (tools : Tools σ) (files : FileSystem) (state : σ) (words : List String) : Transcript σ :=
  match Invocation.parse words with
  | none => ⟨2, [], usage, files, state⟩
  | some (.notice .help) => ⟨0, usage, [], files, state⟩
  | some (.notice .version) => ⟨0, [versionLine], [], files, state⟩
  | some (.extract config options) => .ofAction files state (runExtract tools config options)
  | some (.incremental config options) => .ofAction files state (runIncremental tools config options)

end ModuleGraph.CommandLine
