import ModuleGraph.Proofs.Extraction.Edges

/-!
What one file contributes. Whatever its imports, the outcome is that of the file (`moduleId_ofImports`),
its questions are about the file (`source_of_mem_queries`) and each of its edges leads to a module that a
question was answered with (`edges_ofImports`). A file without readable imports has no edges.
-/
namespace ModuleGraph.Outcome
variable {root source : Path} {answer : Query → Except ResolutionError Resolution} {file : SourceFile}
  {imports : Except SourceError (List Import)} {q : Query}

/-- All questions of a file are about that file. -/
theorem source_of_mem_queries (asked : q ∈ (ofImports root file imports).queries answer) :
    q.source = some file.path := by
  cases imports with
  | error e => cases asked
  | ok imports =>
    rw [queries_ofImports, List.mem_flatMap] at asked
    obtain ⟨i, -, member⟩ := asked
    exact Import.source_of_mem_asked member

@[simp] theorem ofImports_error (e : SourceError) : (ofImports root file (.error e)).run answer =
    (start file.moduleId).fail .extraction e.message := rfl

@[simp] theorem moduleId_ofImports :
    ((ofImports root file imports).run answer).moduleId = file.moduleId := by
  cases imports with
  | error e => rfl
  | ok imports => rw [run_ofImports_eq]

private theorem exists_failure {imports : List Import} {failure : FileFailure}
    (member : failure ∈ ((ofImports root file (.ok imports)).run answer).failures) :
    ∃ e : ResolutionError, failure = ⟨file.moduleId, .resolution, e.message⟩ := by
  rw [run_ofImports_eq] at member
  obtain ⟨i, -, own⟩ := List.mem_flatMap.mp member
  obtain ⟨q, -, failed⟩ := List.mem_filterMap.mp own
  obtain ⟨e, -, same⟩ := Import.failure?_eq_some_iff.mp failed
  exact ⟨e, same⟩

/-- The failures of a file are reported under its id. -/
theorem file_of_mem_failures {failure : FileFailure}
    (member : failure ∈ ((ofImports root file imports).run answer).failures) : failure.file = file.moduleId := by
  cases imports with
  | error e =>
    rw [ofImports_error, fail, start, List.nil_append] at member
    rw [List.mem_singleton.mp member]
  | ok imports =>
    obtain ⟨e, rfl⟩ := exists_failure member
    rfl

/-- The failures of a file whose imports were read concern these imports. -/
theorem kind_of_mem_failures {imports : List Import} {failure : FileFailure}
    (member : failure ∈ ((ofImports root file (.ok imports)).run answer).failures) : failure.kind = .resolution := by
  obtain ⟨e, rfl⟩ := exists_failure member
  rfl

/-- Each edge leads to a module that a question of the file was answered with. -/
theorem edges_ofImports {edge : String × EdgeLabel}
    (member : edge ∈ ((ofImports root file imports).run answer).edges) :
    ∃ q path, q.source = some file.path ∧ answer q = .ok (.resolved path) ∧
      edge.1 = Path.moduleId root path := by
  cases imports with
  | error e => simp [start, fail] at member
  | ok imports =>
    rw [edges_run_ofImports] at member
    obtain ⟨i, -, own⟩ := List.mem_flatMap.mp member
    obtain ⟨q, asked, answered⟩ := List.mem_filterMap.mp own
    obtain ⟨path, given, rfl⟩ := Import.edge?_eq_some_iff.mp answered
    exact ⟨q, path, Import.source_of_mem_asked asked, given, rfl⟩

end ModuleGraph.Outcome
