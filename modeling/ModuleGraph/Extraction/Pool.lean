import ModuleGraph.Extraction.Run

/-!
The files of a project side by side. Each file is a task, and the tasks take turns in any order. They share one
memory: to look whether an answer is remembered is one turn and to remember a new one is another, so that in
between other tasks may look for the same answer, miss it too, and remember it first.
-/
namespace ModuleGraph

/-- The work that is left of a task. -/
inductive Task (α : Type) where
  | working (rest : Inquiry α)
  /-- The answer to a question was not remembered when the task looked for it. -/
  | missed (q : Query) (next : Except ResolutionError Resolution → Inquiry α)

namespace Task
variable {α : Type}

/-- The result of a task that is done. -/
def result? : Task α → Option α
  | .working (.done result) => some result
  | _ => none

/-- A turn of a task, and the memory behind it. -/
def turn (fs : FileSystem) (search : SearchPath) (memo : Memo) : Task α → Task α × Memo
  | .working (.done result) => (.working (.done result), memo)
  | .working (.ask q next) =>
    match memo.find? q with
    | some known => (.working (next (.ok known)), memo)
    | none => (.missed q next, memo)
  | .missed q next =>
    match Resolution.resolve fs search q with
    | .ok found => (.working (next (.ok found)), (q, found) :: memo)
    | .error e => (.working (next (.error e)), memo)

end Task

/-- Tasks and the memory that they share. -/
structure Pool (α : Type) where
  tasks : List (Task α)
  memo : Memo

namespace Pool
variable {α : Type}

/-- Work that has not begun, with nothing remembered. -/
def start (work : List (Inquiry α)) : Pool α := ⟨work.map .working, []⟩

/-- A turn of the task with a number, if there is one. -/
def turn (fs : FileSystem) (search : SearchPath) (p : Pool α) (n : Nat) : Pool α :=
  match p.tasks[n]? with
  | none => p
  | some task =>
    let (task, memo) := task.turn fs search p.memo
    ⟨p.tasks.set n task, memo⟩

/-- Turns of the tasks with the given numbers. -/
def run (fs : FileSystem) (search : SearchPath) (p : Pool α) (schedule : List Nat) : Pool α :=
  schedule.foldl (turn fs search) p

/-- The results in the order of the tasks, once all of them are done. -/
def results? (p : Pool α) : Option (List α) := p.tasks.mapM Task.result?

end Pool

namespace Extraction

/-- The outcomes of files that take turns. -/
def scheduled (fs : FileSystem) (settings : ExtractionSettings) (extractor : Extractor) (root : Path)
    (files : List SourceFile) (schedule : List Nat) : Option (List Outcome) :=
  let search :=
    SearchPath.ofRoots root (extraRoots fs root settings.searchRoots) settings.sourceExtension
  let work := files.map fun file => Outcome.ofImports root file (extractor fs file.path)
  ((Pool.start work).run fs search schedule).results?

end Extraction
end ModuleGraph
