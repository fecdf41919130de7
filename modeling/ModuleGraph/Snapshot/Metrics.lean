import ModuleGraph.Binary64.Basic
import ModuleGraph.Change.Basic
import ModuleGraph.Count
import ModuleGraph.LineMetrics
import ModuleGraph.OrderedMap

/-!
What is kept of a metrics analysis: the line counts of each file, and totals.
-/
namespace ModuleGraph

/-- The line counts of each file. -/
structure MetricsSnapshot where
  files : OrderedMap String LineMetrics
  totalFiles : Nat
  totalLines : Nat
  averageLines : Binary64
  lastUpdated : Option Commit
  deriving DecidableEq

namespace MetricsSnapshot

/-- The snapshot of no file. -/
def empty : MetricsSnapshot := ⟨.empty, 0, 0, .zero, none⟩

instance : Inhabited MetricsSnapshot := ⟨empty⟩

/-- The snapshot without a file. -/
def remove (s : MetricsSnapshot) (file : String) : MetricsSnapshot :=
  { s with files := s.files.erase file }

/-- The snapshot with the counts of some files, old or new. -/
def merge (s : MetricsSnapshot) (part : OrderedMap String LineMetrics) : MetricsSnapshot :=
  { s with files := s.files.insertAll part.entries }

/-- The number of lines of all files, as a word of 64 bits. -/
def countLines (files : OrderedMap String LineMetrics) : Nat :=
  total (files.values.map (·.lines)) % wordLimit

/-- The snapshot with its totals counted and a stamp. -/
def restamp (s : MetricsSnapshot) (stamp : Option Commit) : MetricsSnapshot where
  files := s.files
  totalFiles := s.files.size
  totalLines := countLines s.files
  averageLines := .average (countLines s.files) s.files.size
  lastUpdated := stamp

end MetricsSnapshot
end ModuleGraph
