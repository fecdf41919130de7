import ModuleGraph.Extraction.Outcome
import ModuleGraph.Proofs.Extraction.Inquiry

/-!
What a file contributes, import by import. An import asks for its names as modules and, if that is needed, for its
module (`Import.asked`, `queries_ofImports`). Each question that is answered with a file gives an edge and each one
that fails a failure; that there is no such file is recorded of the module alone (`run_ofImports_eq`). So every import
leaves something (`Import.leaves`).
-/
namespace ModuleGraph

namespace Import

/-- The question whether a name is a module inside the module of an import. -/
def nameQuery (source : Path) (i : Import) (name : String) : Query :=
  ⟨Outcome.submodule i.modulePath name, some source, i.level⟩

/-- The question for the module of an import. -/
def moduleQuery (source : Path) (i : Import) : Query := ⟨i.modulePath, some source, i.level⟩

/-- Whether an answer says that a name is no module. -/
def misses : Except ResolutionError Resolution → Bool
  | .ok (.resolved _) => false
  | .ok _ => true
  | .error _ => false

/-- Whether the module of an import is asked for. -/
def needsModule (source : Path) (answer : Query → Except ResolutionError Resolution) (i : Import) : Bool :=
  i.names.isEmpty || i.names.any fun name => misses (answer (i.nameQuery source name))

/-- The questions that an import leads to, in order. -/
def asked (source : Path) (answer : Query → Except ResolutionError Resolution) (i : Import) : List Query :=
  i.names.map (i.nameQuery source) ++ if i.needsModule source answer then [i.moduleQuery source] else []

/-- The edge that the answer to a question gives. -/
def edge? (root : Path) (answer : Query → Except ResolutionError Resolution) (i : Import) (q : Query) :
    Option (String × EdgeLabel) :=
  match answer q with
  | .ok (.resolved path) => some (Path.moduleId root path, ⟨q.specifier, i.kind, i.line⟩)
  | _ => none

/-- The edges of an import. -/
def edges (root source : Path) (answer : Query → Except ResolutionError Resolution) (i : Import) :
    List (String × EdgeLabel) := (i.asked source answer).filterMap (i.edge? root answer)

/-- The failure that the answer to a question gives, under the id of a file. -/
def failure? (id : String) (answer : Query → Except ResolutionError Resolution) (q : Query) : Option FileFailure :=
  match answer q with
  | .error e => some ⟨id, .resolution, e.message⟩
  | .ok _ => none

/-- The failures of an import. -/
def failures (id : String) (source : Path) (answer : Query → Except ResolutionError Resolution) (i : Import) :
    List FileFailure := (i.asked source answer).filterMap (failure? id answer)

/-- The module of an import as it is written, if it is asked for and the answer is the given one. -/
def recorded (source : Path) (answer : Query → Except ResolutionError Resolution) (found : Resolution)
    (i : Import) : List String :=
  if i.needsModule source answer = true ∧ answer (i.moduleQuery source) = .ok found then
    [(i.moduleQuery source).specifier]
  else []

variable {root source path : Path} {answer : Query → Except ResolutionError Resolution} {i : Import} {q : Query}
  {edge : String × EdgeLabel}

theorem edge?_eq_some_iff : i.edge? root answer q = some edge ↔ ∃ path, answer q = .ok (.resolved path) ∧
    edge = (Path.moduleId root path, ⟨q.specifier, i.kind, i.line⟩) := by
  rw [edge?]
  rcases answer q with e | path | _ | _ <;> simp [eq_comm]

theorem asked_cases (member : q ∈ i.asked source answer) :
    q = i.moduleQuery source ∨ ∃ name ∈ i.names, q = i.nameQuery source name := by
  rcases List.mem_append.mp member with names | module
  · obtain ⟨name, listed, rfl⟩ := List.mem_map.mp names
    exact .inr ⟨name, listed, rfl⟩
  · split at module
    · exact .inl (List.mem_singleton.mp module)
    · cases module

theorem source_of_mem_asked (member : q ∈ i.asked source answer) : q.source = some source := by
  rcases asked_cases member with rfl | ⟨name, -, rfl⟩ <;> rfl

theorem failure?_eq_some_iff {id : String} {failure : FileFailure} :
    failure? id answer q = some failure ↔ ∃ e, answer q = .error e ∧ failure = ⟨id, .resolution, e.message⟩ := by
  rw [failure?]
  cases answer q <;> simp [eq_comm]

end Import

namespace Outcome
variable {root source : Path} {answer : Query → Except ResolutionError Resolution} {file : SourceFile}
  {i : Import} {o : Outcome}

/-! ## Questions -/

private theorem queries_resolveNames (names : List String) (needed : Bool) :
    (resolveNames root source i names o needed).queries answer = names.map (i.nameQuery source) := by
  induction names generalizing o needed with
  | nil => rfl
  | cons name rest ih =>
    rw [resolveNames, Inquiry.queries, List.map_cons]
    refine congrArg (i.nameQuery source name :: ·) ?_
    split
    · exact ih needed
    · exact ih true
    · exact ih needed

/-! ## Results -/

/-- An outcome after questions of an import have been answered. -/
private def answered (o : Outcome) (root : Path) (answer : Query → Except ResolutionError Resolution)
    (i : Import) (asked : List Query) : Outcome :=
  { o with
    edges := o.edges ++ asked.filterMap (i.edge? root answer)
    failures := o.failures ++ asked.filterMap (Import.failure? o.moduleId answer) }

private theorem answered_nil : o.answered root answer i [] = o := by
  simp [answered]

private theorem answered_answered (front back : List Query) :
    (o.answered root answer i front).answered root answer i back = o.answered root answer i (front ++ back) := by
  simp [answered]

private theorem answered_resolved {q : Query} {path : Path} (given : answer q = .ok (.resolved path)) :
    o.answered root answer i [q] =
      { o with edges := o.edges ++ [(Path.moduleId root path, ⟨q.specifier, i.kind, i.line⟩)] } := by
  simp [answered, Import.edge?, Import.failure?, given]

private theorem answered_error {q : Query} {e : ResolutionError} (given : answer q = .error e) :
    o.answered root answer i [q] = o.fail .resolution e.message := by
  simp [answered, Import.edge?, Import.failure?, given, fail]

private theorem answered_missed {q : Query} (given : answer q = .ok .external ∨ answer q = .ok .unresolved) :
    o.answered root answer i [q] = o := by
  rcases given with given | given <;> simp [answered, Import.edge?, Import.failure?, given]

private theorem run_resolveNames (names : List String) (needed : Bool) :
    (resolveNames root source i names o needed).run answer =
      (o.answered root answer i (names.map (i.nameQuery source)),
        needed || names.any fun name => Import.misses (answer (i.nameQuery source name))) := by
  -- Each name adds to what the names before it have left, hence any outcome and any need.
  induction names generalizing o needed with
  | nil => simp [resolveNames, Inquiry.run, answered_nil]
  | cons name rest ih =>
    have shape : (⟨submodule i.modulePath name, some source, i.level⟩ : Query) = i.nameQuery source name := rfl
    rw [resolveNames, Inquiry.run, shape, List.map_cons, List.any_cons, ← List.singleton_append,
      ← answered_answered]
    cases given : answer (i.nameQuery source name) with
    | error e =>
      rw [answered_error given]
      exact ih needed
    | ok found =>
      cases found with
      | resolved path =>
        rw [answered_resolved given]
        exact ih needed
      | external =>
        rw [answered_missed (.inl given)]
        simpa [Import.misses] using ih (o := o) true
      | unresolved =>
        rw [answered_missed (.inr given)]
        simpa [Import.misses] using ih (o := o) true

/-- An outcome with what one more import gives. -/
private def withImport (root source : Path) (answer : Query → Except ResolutionError Resolution) (o : Outcome)
    (i : Import) : Outcome :=
  { o with
    edges := o.edges ++ i.edges root source answer
    unresolved := o.unresolved ++ i.recorded source answer .unresolved
    external := o.external ++ i.recorded source answer .external
    failures := o.failures ++ i.failures o.moduleId source answer }

private theorem run_resolveModule (needed : i.needsModule source answer = true) :
    (resolveModule root source i (o.answered root answer i (i.names.map (i.nameQuery source)))).run answer =
      o.withImport root source answer i := by
  have shape : (⟨i.modulePath, some source, i.level⟩ : Query) = i.moduleQuery source := rfl
  have spelled : specifier i.modulePath i.level = (i.moduleQuery source).specifier := rfl
  have asked : i.asked source answer = i.names.map (i.nameQuery source) ++ [i.moduleQuery source] := by
    rw [Import.asked, if_pos needed]
  rw [resolveModule, Inquiry.run, shape, withImport, Import.edges, Import.failures, asked]
  cases given : answer (i.moduleQuery source) with
  | error e => simp [Inquiry.run, answered, fail, Import.recorded, Import.edge?, Import.failure?, given]
  | ok found =>
    cases found <;>
      simp [Inquiry.run, answered, addEdge, Import.recorded, Import.edge?, Import.failure?, given, needed, spelled]

private theorem run_resolveImport :
    (resolveImport root source i o).run answer = o.withImport root source answer i := by
  rw [resolveImport, Inquiry.run_bind, run_resolveNames]
  simp only
  split
  · rename_i needed
    exact run_resolveModule needed
  · rename_i spared
    have none : i.needsModule source answer = false := Bool.eq_false_iff.mpr spared
    have asked : i.asked source answer = i.names.map (i.nameQuery source) := by
      rw [Import.asked, none]
      exact List.append_nil _
    simp [Inquiry.run, answered, withImport, Import.edges, Import.failures, Import.recorded, asked, none]

private theorem queries_resolveImport :
    (resolveImport root source i o).queries answer = i.asked source answer := by
  rw [resolveImport, Inquiry.queries_bind, queries_resolveNames, run_resolveNames, Import.asked]
  refine congrArg (i.names.map (i.nameQuery source) ++ ·) ?_
  simp only
  split
  · rename_i needed
    have asks : i.needsModule source answer = true := needed
    rw [if_pos asks]
    rfl
  · rename_i spared
    have spares : ¬i.needsModule source answer = true := spared
    rw [if_neg spares]
    rfl

private theorem resolveImports_eq (imports : List Import) :
    (resolveImports root source imports o).queries answer = imports.flatMap (·.asked source answer) ∧
      (resolveImports root source imports o).run answer = imports.foldl (withImport root source answer) o := by
  induction imports generalizing o with
  | nil => exact ⟨rfl, rfl⟩
  | cons i rest ih =>
    rw [resolveImports, Inquiry.queries_bind, Inquiry.run_bind, queries_resolveImport, run_resolveImport]
    exact ⟨congrArg (i.asked source answer ++ ·) ih.1, ih.2⟩

private theorem foldl_withImport (imports : List Import) :
    imports.foldl (withImport root source answer) o =
      { o with
        edges := o.edges ++ imports.flatMap (·.edges root source answer)
        unresolved := o.unresolved ++ imports.flatMap (·.recorded source answer .unresolved)
        external := o.external ++ imports.flatMap (·.recorded source answer .external)
        failures := o.failures ++ imports.flatMap (·.failures o.moduleId source answer) } := by
  induction imports generalizing o with
  | nil => simp
  | cons i rest ih =>
    rw [List.foldl_cons, ih]
    simp [withImport]

theorem run_ofImports (imports : List Import) : (ofImports root file (.ok imports)).run answer =
    { (resolveImports root file.path imports (start file.moduleId)).run answer with
      info := some (.scanned imports) } := by
  rw [ofImports, Inquiry.run_bind]
  rfl

/-- The questions of a file are those of its imports, in order. -/
theorem queries_ofImports (imports : List Import) :
    (ofImports root file (.ok imports)).queries answer = imports.flatMap (·.asked file.path answer) := by
  rw [ofImports, Inquiry.queries_bind, (resolveImports_eq imports).1]
  exact List.append_nil _

/-- What a file contributes is what its imports give, in order. -/
theorem run_ofImports_eq (imports : List Import) : (ofImports root file (.ok imports)).run answer =
    { moduleId := file.moduleId
      info := some (.scanned imports)
      edges := imports.flatMap (·.edges root file.path answer)
      unresolved := imports.flatMap (·.recorded file.path answer .unresolved)
      external := imports.flatMap (·.recorded file.path answer .external)
      failures := imports.flatMap (·.failures file.moduleId file.path answer) } := by
  rw [run_ofImports, (resolveImports_eq imports).2, foldl_withImport]
  simp [start]

/-- The edges of a file are those of its imports, in order. -/
theorem edges_run_ofImports (imports : List Import) : ((ofImports root file (.ok imports)).run answer).edges =
    imports.flatMap (·.edges root file.path answer) := by
  rw [run_ofImports_eq]

end Outcome

namespace Import
variable {root source path : Path} {answer : Query → Except ResolutionError Resolution} {i : Import} {q : Query}

private theorem edges_ne_nil (member : q ∈ i.asked source answer) (given : answer q = .ok (.resolved path)) :
    i.edges root source answer ≠ [] := by
  have edge : i.edge? root answer q = some _ := edge?_eq_some_iff.mpr ⟨path, given, rfl⟩
  exact List.ne_nil_of_mem (List.mem_filterMap.mpr ⟨q, member, edge⟩)

private theorem failures_ne_nil {id : String} {e : ResolutionError} (member : q ∈ i.asked source answer)
    (given : answer q = .error e) : i.failures id source answer ≠ [] := by
  have failure : failure? id answer q = some _ := failure?_eq_some_iff.mpr ⟨e, given, rfl⟩
  exact List.ne_nil_of_mem (List.mem_filterMap.mpr ⟨q, member, failure⟩)

private theorem leaves_of_needsModule (i : Import) (id : String) (root : Path)
    (needed : i.needsModule source answer = true) :
    i.edges root source answer ≠ [] ∨ i.recorded source answer .external ≠ [] ∨
      i.recorded source answer .unresolved ≠ [] ∨ i.failures id source answer ≠ [] := by
  have last : i.moduleQuery source ∈ i.asked source answer := by simp [asked, needed]
  cases given : answer (i.moduleQuery source) with
  | error e => exact .inr (.inr (.inr (failures_ne_nil last given)))
  | ok found =>
    cases found with
    | resolved path => exact .inl (edges_ne_nil last given)
    | external => exact .inr (.inl (by simp [recorded, needed, given]))
    | unresolved => exact .inr (.inr (.inl (by simp [recorded, needed, given])))

/-- Every import leaves something: an edge, a record of its module or a failure. -/
theorem leaves (i : Import) (id : String) (root source : Path)
    (answer : Query → Except ResolutionError Resolution) :
    i.edges root source answer ≠ [] ∨ i.recorded source answer .external ≠ [] ∨
      i.recorded source answer .unresolved ≠ [] ∨ i.failures id source answer ≠ [] := by
  -- The module decides, unless the first name is a module or its question fails.
  have settle : i.needsModule source answer = true → _ := i.leaves_of_needsModule id root
  cases names : i.names with
  | nil => exact settle (by simp [needsModule, names])
  | cons name rest =>
    have first : i.nameQuery source name ∈ i.asked source answer := by simp [asked, names]
    cases given : answer (i.nameQuery source name) with
    | error e => exact .inr (.inr (.inr (failures_ne_nil first given)))
    | ok found =>
      cases found with
      | resolved path => exact .inl (edges_ne_nil first given)
      | external => exact settle (by simp [needsModule, names, given, misses])
      | unresolved => exact settle (by simp [needsModule, names, given, misses])

end Import

end ModuleGraph
