import ModuleGraph.Binary.Codec
import ModuleGraph.Snapshot.Dependency
import ModuleGraph.Snapshot.Metrics

/-!
The bytes of snapshots, field by field in the order of the structures.
-/
namespace ModuleGraph

/-- The bytes of a commit. -/
def Commit.codec : Codec Commit :=
  (Codec.text.pair (Codec.text.pair (Codec.text.pair Codec.text))).via
    (fun c => (c.revision, c.author, c.date, c.summary))
    fun (revision, author, date, summary) => ⟨revision, author, date, summary⟩

/-- The bytes of line counts. -/
def LineMetrics.codec : Codec LineMetrics :=
  (Codec.word.pair (Codec.word.pair (Codec.word.pair (Codec.word.pair
    (Codec.word.pair Codec.word))))).via
    (fun m => (m.lines, m.codeLines, m.commentLines, m.blankLines, m.functions, m.classes))
    fun (lines, codeLines, commentLines, blankLines, functions, classes) =>
      ⟨lines, codeLines, commentLines, blankLines, functions, classes⟩

/-- The bytes of a dependency snapshot. -/
def DependencySnapshot.codec : Codec DependencySnapshot :=
  ((Codec.text.map Codec.text.list).pair (Codec.word.pair (Codec.word.pair
    Commit.codec.option))).via
    (fun s => (s.dependencies, s.moduleCount, s.totalDependencies, s.lastUpdated))
    fun (dependencies, moduleCount, totalDependencies, lastUpdated) =>
      ⟨dependencies, moduleCount, totalDependencies, lastUpdated⟩

/-- The bytes of a metrics snapshot. -/
def MetricsSnapshot.codec : Codec MetricsSnapshot :=
  ((Codec.text.map LineMetrics.codec).pair (Codec.word.pair (Codec.word.pair (Codec.float.pair
    Commit.codec.option)))).via
    (fun s => (s.files, s.totalFiles, s.totalLines, s.averageLines, s.lastUpdated))
    fun (files, totalFiles, totalLines, averageLines, lastUpdated) =>
      ⟨files, totalFiles, totalLines, averageLines, lastUpdated⟩

end ModuleGraph
