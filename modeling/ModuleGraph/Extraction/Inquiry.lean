import ModuleGraph.Resolution

/-!
Work that depends on where imports lead. An inquiry is the work up to its next question, so it does
not matter who answers the questions, from what memory, or what else is asked in between.
-/
namespace ModuleGraph

/-- A result, or a question and what to do with its answer. -/
inductive Inquiry (α : Type) where
  | done (result : α)
  | ask (q : Query) (next : Except ResolutionError Resolution → Inquiry α)

namespace Inquiry
variable {α β : Type}

/-- One inquiry after another. -/
def bind (first : Inquiry α) (second : α → Inquiry β) : Inquiry β :=
  match first with
  | .done result => second result
  | .ask q next => .ask q fun answer => (next answer).bind second

/-- The result when every question is answered by a function. -/
def run (answer : Query → Except ResolutionError Resolution) : Inquiry α → α
  | .done result => result
  | .ask q next => (next (answer q)).run answer

/-- The result when questions are answered from a memory that grows. -/
def runWith (fs : FileSystem) (search : SearchPath) (memo : Memo) : Inquiry α → α × Memo
  | .done result => (result, memo)
  | .ask q next =>
    let (answer, memo) := memo.resolve fs search q
    (next answer).runWith fs search memo

end Inquiry
end ModuleGraph
