import ModuleGraph.Cache.Key
import ModuleGraph.Extraction.Run
import ModuleGraph.Snapshot.Codec

/-!
The analyses of a project. Each computes its snapshot anew or brings one up to date with changes,
and then looks only at the files that changed.
-/
namespace ModuleGraph

/-- A kind of analysis: its snapshots, how they are computed and how they are kept. -/
structure Analysis (α : Type) where
  kind : AnalysisKind
  codec : Codec α
  /-- The snapshot with its totals counted and a stamp. -/
  restamp : α → Option Commit → α
  full : FileSystem → Except RunError α
  update : FileSystem → α → ChangeSet → Except RunError α

/-- A project, how its files are read and who does the work. -/
structure Project where
  root : Path
  settings : ExtractionSettings
  extractor : Extractor
  workers : Workers

namespace Project

/-! ## Dependencies -/

/-- What extracts the project. -/
def pipeline (p : Project) : Pipeline := .ofSettings p.settings p.extractor p.workers

theorem extract_fst {p : Project} {fs : FileSystem} {outcomes : List Outcome}
    (run : Extraction.whole fs p.settings p.extractor p.root p.settings.included p.settings.excluded = .ok outcomes) :
    (p.pipeline.extract fs p.root).1 = p.workers.perform p.settings.threads (.ofOutcomes outcomes) := by
  rw [pipeline, Pipeline.extract, Pipeline.extractWith, Pipeline.ofSettings]
  simp only [run, Pipeline.settle_fst]

theorem extractFiles_fst {p : Project} {fs : FileSystem} {names : List String} {outcomes : List Outcome}
    (run : Extraction.part fs p.settings p.extractor p.root names = .ok outcomes) :
    (p.pipeline.extractFiles fs p.root names).1 = p.workers.perform p.settings.threads (.ofOutcomes outcomes) := by
  rw [pipeline, Pipeline.extractFiles, Pipeline.ofSettings]
  simp only [run, Pipeline.settle_fst]

/-- The dependencies of all source files. -/
def fullDependencies (p : Project) (fs : FileSystem) : Except RunError DependencySnapshot :=
  (p.pipeline.extract fs p.root).1.map .ofGraph

/-- The snapshot without the modules of deleted files. -/
def removeModules (s : DependencySnapshot) (deleted : SortedSet) : DependencySnapshot :=
  deleted.toList.foldl (fun s path => s.remove (Path.normalised path)) s

/-- A dependency snapshot brought up to date: first without the deleted files, then with the lists
    of the changed ones replaced. -/
def updateDependencies (p : Project) (fs : FileSystem) (s : DependencySnapshot)
    (changes : ChangeSet) : Except RunError DependencySnapshot :=
  let s := removeModules s changes.deleted
  let changed := changes.changedFiles
  if changed.isEmpty then .ok s
  else (p.pipeline.extractFiles fs p.root changed.toList).1.map s.merge

/-- The analysis of dependencies. -/
def dependencyAnalysis (p : Project) : Analysis DependencySnapshot where
  kind := .dependencies
  codec := DependencySnapshot.codec
  restamp := DependencySnapshot.restamp
  full := p.fullDependencies
  update := p.updateDependencies

/-! ## Metrics -/

/-- The test for the source files of a project. -/
def sourceFilter (p : Project) : Except RunError SourceFilter :=
  match SourceFilter.ofPatterns p.settings.included p.settings.excluded
      p.settings.sourceExtension with
  | .ok filter => .ok filter
  | .error e => .error (.invalidGlob e)

/-- The counts of the files that can be read. -/
def collectMetrics (fs : FileSystem) (files : List SourceFile) : OrderedMap String LineMetrics :=
  .ofList (files.filterMap fun file =>
    (LineMetrics.ofFile fs file.path).toOption.map fun metrics => (file.moduleId, metrics))

/-- The metrics of all source files. -/
def fullMetrics (p : Project) (fs : FileSystem) : Except RunError MetricsSnapshot := do
  let filter ← p.sourceFilter
  match filter.scan? fs p.root with
  | none => .error (.rootNotFound p.root)
  | some files => .ok (MetricsSnapshot.empty.merge (collectMetrics fs files))

/-- The snapshot without the deleted files. -/
def removeFiles (s : MetricsSnapshot) (deleted : SortedSet) : MetricsSnapshot :=
  deleted.toList.foldl (fun s path => s.remove (Path.normalised path)) s

/-- The snapshot without the files that have no fresh counts. -/
def removeStale (s : MetricsSnapshot) (files : List SourceFile)
    (fresh : OrderedMap String LineMetrics) : MetricsSnapshot :=
  files.foldl (fun s file => if fresh.contains file.moduleId then s else s.remove file.moduleId) s

/-- A metrics snapshot brought up to date: first without the deleted files, then with the counts of
    the changed ones replaced, or dropped where there are none any more. -/
def updateMetrics (p : Project) (fs : FileSystem) (s : MetricsSnapshot) (changes : ChangeSet) :
    Except RunError MetricsSnapshot := do
  let s := removeFiles s changes.deleted
  let filter ← p.sourceFilter
  let files := filter.select fs p.root changes.changedFiles.toList
  let fresh := collectMetrics fs files
  .ok ((removeStale s files fresh).merge fresh)

/-- The analysis of metrics. -/
def metricsAnalysis (p : Project) : Analysis MetricsSnapshot where
  kind := .metrics
  codec := MetricsSnapshot.codec
  restamp := MetricsSnapshot.restamp
  full := p.fullMetrics
  update := p.updateMetrics

end Project
end ModuleGraph
