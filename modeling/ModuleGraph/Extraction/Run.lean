import ModuleGraph.Extraction.Outcome
import ModuleGraph.Settings

/-!
Extraction of a whole project, or of a list of its files. The outcomes of the files are put together
in the order of the files: first all scanned modules, then the edges and records of each. A file
that fails is left out and reported. A run that is to have workers of its own fails if they do not start.
-/
namespace ModuleGraph

/-- Why workers do not start: an error, and what is behind it from the outermost cause to the innermost. -/
structure PoolError where
  message : String
  causes : List String
  deriving DecidableEq

/-- Why nothing can be extracted at all. -/
inductive RunError where
  | rootNotFound (root : Path)
  | invalidGlob (cause : GlobError)
  | threadPool (cause : PoolError)
  deriving DecidableEq

namespace RunError

/-- The wording of an error. -/
def message : RunError → String
  | .rootNotFound root => "source root not found: " ++ root.text
  | .invalidGlob e => "invalid glob pattern: " ++ e.cause.message e.pattern
  | .threadPool e => "failed to build worker pool: " ++ e.message

end RunError

/-- A way to start workers, given their number. -/
abbrev Workers : Type := Nat → Except PoolError Unit

namespace Workers
variable {α β : Type}

/-- Workers that are always there. -/
def ready : Workers := fun _ => .ok ()

/-- The result of work, which needs workers of its own if a number of them is wanted. -/
def perform (workers : Workers) (threads : Nat) (result : α) : Except RunError α :=
  if threads = 0 then .ok result
  else
    match workers threads with
    | .ok () => .ok result
    | .error e => .error (.threadPool e)

@[simp] theorem perform_zero (workers : Workers) (result : α) : workers.perform 0 result = .ok result := rfl

/-- Whether workers start does not depend on their work. -/
theorem map_perform (workers : Workers) (threads : Nat) (f : α → β) (result : α) :
    (workers.perform threads result).map f = workers.perform threads (f result) := by
  unfold perform
  split
  · rfl
  · split <;> rfl

theorem eq_of_perform_eq_ok {workers : Workers} {threads : Nat} {result done : α}
    (ok : workers.perform threads result = .ok done) : result = done := by
  unfold perform at ok
  split at ok
  · exact Except.ok.inj ok
  · split at ok
    · exact Except.ok.inj ok
    · cases ok

/-- Workers that start for one piece of work start for any other. -/
theorem perform_eq_ok_of_ok {workers : Workers} {threads : Nat} {result done : α}
    (ok : workers.perform threads result = .ok done) (other : β) : workers.perform threads other = .ok other := by
  unfold perform at ok ⊢
  split at ok
  · rw [if_pos ‹_›]
  · split at ok
    · rw [if_neg ‹_›]
    · cases ok

end Workers

namespace Graph

/-- Adds the modules whose imports were read. -/
def addScanned (g : Graph) (outcomes : List Outcome) : Graph :=
  outcomes.foldl (fun g o =>
    match o.info with
    | some info => g.addNode o.moduleId info
    | none => g) g

/-- Adds the edges and records of one file. -/
def addOutcome (g : Graph) (o : Outcome) : Graph :=
  let g := o.edges.foldl (fun g (target, label) => (g.addEdge o.moduleId target label).1) g
  let g := o.unresolved.foldl (·.addUnresolved o.moduleId ·) g
  o.external.foldl (·.addExternal o.moduleId ·) g

/-- The graph of the outcomes of files. -/
def ofOutcomes (outcomes : List Outcome) : Graph :=
  outcomes.foldl addOutcome (empty.addScanned outcomes)

end Graph

namespace Extraction

/-- The outcomes of files, one after the other with one memory. -/
def outcomes (fs : FileSystem) (extractor : Extractor) (search : SearchPath) (root : Path) :
    Memo → List SourceFile → List Outcome
  | _, [] => []
  | memo, file :: rest =>
    let (o, memo) := (Outcome.ofImports root file (extractor fs file.path)).runWith fs search memo
    o :: outcomes fs extractor search root memo rest

/-- The project root without links, dots and repeated slashes. -/
def canonicalRoot (fs : FileSystem) (root : Path) : Except RunError Path :=
  match fs.canonical root with
  | .ok path => if fs.isDirectory path then .ok path else .error (.rootNotFound root)
  | .error _ => .error (.rootNotFound root)

/-- The extra roots that exist, seen from the project root. -/
def extraRoots (fs : FileSystem) (root : Path) (configured : List Path) : List Path :=
  configured.filterMap fun path => (fs.canonical (root.join path)).toOption

/-- The outcomes of the files of a project, each with its imports looked up. -/
def run (fs : FileSystem) (settings : ExtractionSettings) (extractor : Extractor) (root : Path)
    (files : List SourceFile) : List Outcome :=
  let search :=
    SearchPath.ofRoots root (extraRoots fs root settings.searchRoots) settings.sourceExtension
  outcomes fs extractor search root [] files

/-- The outcomes of all source files below a root, with given patterns. -/
def whole (fs : FileSystem) (settings : ExtractionSettings) (extractor : Extractor) (root : Path)
    (included excluded : List String) : Except RunError (List Outcome) := do
  let canonical ← canonicalRoot fs root
  match SourceFilter.ofPatterns included excluded settings.sourceExtension with
  | .error e => .error (.invalidGlob e)
  | .ok filter =>
    match filter.scan? fs canonical with
    | none => .error (.rootNotFound canonical)
    | some files => .ok (run fs settings extractor canonical files)

/-- The outcomes of the source files among names relative to a root. -/
def part (fs : FileSystem) (settings : ExtractionSettings) (extractor : Extractor) (root : Path)
    (names : List String) : Except RunError (List Outcome) := do
  let canonical ← canonicalRoot fs root
  match SourceFilter.ofPatterns settings.included settings.excluded settings.sourceExtension with
  | .error e => .error (.invalidGlob e)
  | .ok filter => .ok (run fs settings extractor canonical (filter.select fs canonical names))

end Extraction

/-- A way to extract projects, and the failures of the last run that got to the files. -/
structure Pipeline where
  settings : ExtractionSettings
  extractor : Extractor
  workers : Workers
  failures : List FileFailure

namespace Pipeline
variable {p : Pipeline} {outcomes : List Outcome} {g : Graph}

/-- A pipeline before its first run. -/
def ofSettings (settings : ExtractionSettings) (extractor : Extractor) (workers : Workers) : Pipeline :=
  ⟨settings, extractor, workers, []⟩

/-- The graph of outcomes, whose failures replace those of the run before. Those are forgotten even if the
    workers do not start. -/
def settle (p : Pipeline) : Except RunError (List Outcome) → Except RunError Graph × Pipeline
  | .error e => (.error e, p)
  | .ok outcomes =>
    match p.workers.perform p.settings.threads outcomes with
    | .error e => (.error e, { p with failures := [] })
    | .ok outcomes => (.ok (.ofOutcomes outcomes), { p with failures := outcomes.flatMap (·.failures) })

theorem settle_fst (p : Pipeline) (outcomes : List Outcome) :
    (p.settle (.ok outcomes)).1 = p.workers.perform p.settings.threads (.ofOutcomes outcomes) := by
  rw [settle, ← Workers.map_perform _ _ Graph.ofOutcomes]
  cases p.workers.perform p.settings.threads outcomes <;> rfl

theorem failures_settle (p : Pipeline) (outcomes : List Outcome) : (p.settle (.ok outcomes)).2.failures =
    if (p.workers.perform p.settings.threads ()).isOk then outcomes.flatMap (·.failures) else [] := by
  rw [settle, ← Workers.map_perform _ _ fun _ => outcomes]
  cases p.workers.perform p.settings.threads () <;> rfl

/-- A run that gives a graph gives the graph of its outcomes and their failures. -/
theorem settle_eq_ok (ok : (p.settle (.ok outcomes)).1 = .ok g) :
    Graph.ofOutcomes outcomes = g ∧ (p.settle (.ok outcomes)).2.failures = outcomes.flatMap (·.failures) := by
  rw [settle_fst] at ok
  refine ⟨Workers.eq_of_perform_eq_ok ok, ?_⟩
  rw [failures_settle, Workers.perform_eq_ok_of_ok ok ()]
  rfl

/-- Extracts all source files below a root, with given patterns. -/
def extractWith (p : Pipeline) (fs : FileSystem) (root : Path) (included excluded : List String) :
    Except RunError Graph × Pipeline :=
  p.settle (Extraction.whole fs p.settings p.extractor root included excluded)

/-- Extracts all source files below a root. -/
def extract (p : Pipeline) (fs : FileSystem) (root : Path) : Except RunError Graph × Pipeline :=
  p.extractWith fs root p.settings.included p.settings.excluded

/-- Extracts the source files among names relative to a root. -/
def extractFiles (p : Pipeline) (fs : FileSystem) (root : Path) (names : List String) :
    Except RunError Graph × Pipeline :=
  p.settle (Extraction.part fs p.settings p.extractor root names)

end Pipeline
end ModuleGraph
