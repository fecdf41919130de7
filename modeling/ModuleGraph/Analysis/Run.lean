import ModuleGraph.Analysis.Plan
import ModuleGraph.Analysis.Project

/-!
One run of an analysis at the current revision. A run either starts anew or brings a kept snapshot
up to date, and keeps its result under the current revision. Only the analysis itself can fail,
never the store or the history.
-/
namespace ModuleGraph

/-- How a run got its result. -/
inductive RunMode where
  | full
  | incremental
  deriving DecidableEq

/-- The name of a mode. -/
def RunMode.name : RunMode → String
  | .full => "full"
  | .incremental => "incremental"

/-- The result of a run. -/
structure AnalysisRun (α : Type) where
  mode : RunMode
  /-- The revision that the snapshot stands for, missing before the first commit. -/
  revision : Option String
  snapshot : α
  deriving DecidableEq

namespace Analysis
variable {α σ : Type}

/-- The kept snapshot at a revision, if it can be decoded. -/
def load (a : Analysis α) (s : Surroundings σ) (revision : String) : StateM σ (Option α) := do
  let bytes ← s.getSnapshot (.of a.kind revision)
  return bytes.bind a.codec.decode

/-- Keeps a snapshot. -/
def store (a : Analysis α) (s : Surroundings σ) (revision : String) (snapshot : α) :
    StateM σ Unit :=
  s.setSnapshot (.of a.kind revision) (a.codec.write snapshot)

/-- Runs an analysis anew. -/
def runFull (a : Analysis α) (s : Surroundings σ) (revision : Option String) :
    StateM σ (Except RunError (AnalysisRun α)) := do
  match a.full (s.files (← get)) with
  | .error e => return .error e
  | .ok snapshot =>
    let snapshot := a.restamp snapshot (← s.currentCommit)
    if let some revision := revision then a.store s revision snapshot
    return .ok ⟨.full, revision, snapshot⟩

/-- Loads the snapshot of the current revision, or else of a base, and says whether it is that of
    the base. -/
def loadLatest (a : Analysis α) (s : Surroundings σ) (current base : String) :
    StateM σ (Option (α × Bool)) := do
  match ← a.load s current with
  | some snapshot => return some (snapshot, false)
  | none => return (← a.load s base).map (·, true)

/-- Brings a loaded snapshot up to date. Without relevant changes it is taken as it is, its stamp
    included. -/
def runIncremental (a : Analysis α) (s : Surroundings σ) (current : String) (snapshot : α)
    (isBase : Bool) (relevant : ChangeSet) : StateM σ (Except RunError (AnalysisRun α)) := do
  if relevant.isEmpty then
    if isBase then a.store s current snapshot
    return .ok ⟨.incremental, some current, snapshot⟩
  match a.update (s.files (← get)) snapshot relevant with
  | .error e => return .error e
  | .ok snapshot =>
    let snapshot := a.restamp snapshot (← s.currentCommit)
    a.store s current snapshot
    return .ok ⟨.incremental, some current, snapshot⟩

/-- Runs an analysis; changes of files without the source extension are not relevant to it. -/
def run (a : Analysis α) (s : Surroundings σ) (sourceExtension : String) (forced : Bool) :
    StateM σ (Except RunError (AnalysisRun α)) := do
  let revision ← s.latestRevision
  match ← Plan.choose s a.kind revision forced, revision with
  | .full _, revision => a.runFull s revision
  | .incremental .., none => a.runFull s none
  | .incremental base changes, some current =>
    match ← a.loadLatest s current base with
    | none => a.runFull s (some current)
    | some (snapshot, isBase) =>
      a.runIncremental s current snapshot isBase (changes.filtered sourceExtension)

end Analysis

namespace Project
variable {σ : Type}

/-- Runs the analysis of dependencies. -/
def analyzeDependencies (p : Project) (s : Surroundings σ) (forced : Bool) :
    StateM σ (Except RunError (AnalysisRun DependencySnapshot)) :=
  p.dependencyAnalysis.run s p.settings.sourceExtension forced

/-- Runs the analysis of metrics. -/
def analyzeMetrics (p : Project) (s : Surroundings σ) (forced : Bool) :
    StateM σ (Except RunError (AnalysisRun MetricsSnapshot)) :=
  p.metricsAnalysis.run s p.settings.sourceExtension forced

end Project
end ModuleGraph
