import ModuleGraph.Extraction.Pool
import ModuleGraph.Proofs.Enumeration
import ModuleGraph.Proofs.Extraction.Run
import ModuleGraph.Proofs.FileSystem.Flat
import ModuleGraph.Proofs.Import.Traversal

/-!
Files that take turns. Whatever the order of the turns, a task is always on the way to the result that it has on
its own (`Task.OnCourse.turn`), because the shared memory only ever holds right answers. So by induction on the
schedule the tasks are done after as many turns as they have looks to make, and their results are those of the
files one by one (`Pool.results?_run`). The graph of a project and the failures that are reported therefore do not
depend on the schedule (`Pipeline.settle_scheduled`).
-/
namespace ModuleGraph

namespace Task
variable {α : Type} {fs : FileSystem} {search : SearchPath} {memo : Memo} {paths : List Path} {task : Task α}
  {result : α}

/-- The work of a task, with the question that it has just missed. -/
def inquiry : Task α → Inquiry α
  | .working rest => rest
  | .missed q next => .ask q next

/-- The number of turns that a task takes if nothing is remembered for it. -/
def turnsLeft (answer : Query → Except ResolutionError Resolution) : Task α → Nat
  | .working rest => 2 * (rest.queries answer).length
  | .missed q next => 2 * ((next (answer q)).queries answer).length + 1

/-- A task asks about files on given paths and comes to a result. -/
structure OnCourse (fs : FileSystem) (search : SearchPath) (paths : List Path) (result : α) (task : Task α) :
    Prop where
  ends : task.inquiry.run (Resolution.resolve fs search) = result
  about : ∀ q ∈ task.inquiry.queries (Resolution.resolve fs search), ∃ path ∈ paths, q.source = some path

/-- A turn keeps a task on course and the memory right, and leaves a turn less to take. -/
theorem OnCourse.turn (course : task.OnCourse fs search paths result) (sound : memo.Sound fs search paths)
    (differ : ∀ p ∈ paths, ∀ p' ∈ paths, p.components = p'.components → p = p') :
    (task.turn fs search memo).1.OnCourse fs search paths result ∧
      (task.turn fs search memo).2.Sound fs search paths ∧
      (task.turn fs search memo).1.turnsLeft (Resolution.resolve fs search) ≤
        task.turnsLeft (Resolution.resolve fs search) - 1 := by
  obtain ⟨ends, about⟩ := course
  match task with
  | .working (.done _) => exact ⟨⟨ends, about⟩, sound, Nat.zero_le _⟩
  | .working (.ask q next) =>
    simp only [inquiry, Inquiry.queries, List.mem_cons, forall_eq_or_imp] at about
    rw [Task.turn]
    cases hit : memo.find? q with
    | none =>
      refine ⟨⟨ends, ?_⟩, sound, ?_⟩
      · simpa only [inquiry, Inquiry.queries, List.mem_cons, forall_eq_or_imp] using about
      · simp only [turnsLeft, Inquiry.queries, List.length_cons]
        omega
    | some known =>
      have right := sound.find? differ about.1 hit
      simp only [inquiry, Inquiry.run, right] at ends
      rw [right] at about
      refine ⟨⟨ends, about.2⟩, sound, ?_⟩
      simp only [turnsLeft, Inquiry.queries, List.length_cons, right]
      omega
  | .missed q next =>
    simp only [inquiry, Inquiry.queries, List.mem_cons, forall_eq_or_imp] at about
    rw [Task.turn]
    cases found : Resolution.resolve fs search q with
    | ok known =>
      simp only [inquiry, Inquiry.run, found] at ends
      rw [found] at about
      refine ⟨⟨ends, about.2⟩, sound.cons found about.1, ?_⟩
      simp only [turnsLeft, found]
      omega
    | error e =>
      simp only [inquiry, Inquiry.run, found] at ends
      rw [found] at about
      refine ⟨⟨ends, about.2⟩, sound, ?_⟩
      simp only [turnsLeft, found]
      omega

theorem OnCourse.eq_of_done (course : task.OnCourse fs search paths result) {other : α}
    (done : task.result? = some other) : other = result := by
  match task with
  | .working (.done _) =>
    cases done
    exact course.ends
  | .working (.ask q next) => cases done
  | .missed q next => cases done

theorem OnCourse.done (course : task.OnCourse fs search paths result)
    (none : task.turnsLeft (Resolution.resolve fs search) = 0) : task.result? = some result := by
  match task with
  | .working (.done _) => exact congrArg some course.ends
  | .working (.ask q next) =>
    simp [turnsLeft, Inquiry.queries] at none
  | .missed q next =>
    simp [turnsLeft] at none

end Task

namespace Pool
variable {α : Type} {fs : FileSystem} {search : SearchPath} {paths : List Path} {p : Pool α}
  {work : List (Inquiry α)} {schedule : List Nat}

/-- The tasks of a pool are on course behind a schedule of turns. -/
structure Along (fs : FileSystem) (search : SearchPath) (paths : List Path) (work : List (Inquiry α))
    (schedule : List Nat) (p : Pool α) : Prop where
  length : p.tasks.length = work.length
  sound : p.memo.Sound fs search paths
  task : ∀ n i task, work[n]? = some i → p.tasks[n]? = some task →
    task.OnCourse fs search paths (i.run (Resolution.resolve fs search)) ∧
      task.turnsLeft (Resolution.resolve fs search) ≤
        2 * (i.queries (Resolution.resolve fs search)).length - schedule.count n

theorem along_start (about : ∀ i ∈ work, ∀ q ∈ i.queries (Resolution.resolve fs search),
    ∃ path ∈ paths, q.source = some path) : (start work).Along fs search paths work [] where
  length := by simp [start]
  sound := Memo.sound_nil
  task n i task known there := by
    simp only [start, List.getElem?_map, known, Option.map_some, Option.some.injEq] at there
    subst there
    exact ⟨⟨rfl, about i (List.mem_of_getElem? known)⟩, by simp [Task.turnsLeft]⟩

theorem Along.turn (along : p.Along fs search paths work schedule)
    (differ : ∀ p ∈ paths, ∀ p' ∈ paths, p.components = p'.components → p = p') (n : Nat) :
    (p.turn fs search n).Along fs search paths work (schedule ++ [n]) := by
  rw [Pool.turn]
  cases there : p.tasks[n]? with
  | none =>
    -- A turn for a task that is not there is counted for no piece of work.
    refine ⟨along.length, along.sound, fun m i task known present => ?_⟩
    have other : m ≠ n := by
      rintro rfl
      rw [there] at present
      cases present
    rw [List.count_append, List.count_singleton, if_neg (by simpa using other.symm), Nat.add_zero]
    exact along.task m i task known present
  | some first =>
    have inside : n < p.tasks.length := (List.getElem?_eq_some_iff.mp there).1
    have own : ∃ i, work[n]? = some i :=
      ⟨_, List.getElem?_eq_getElem (along.length ▸ inside)⟩
    obtain ⟨i, known⟩ := own
    obtain ⟨course, left⟩ := along.task n i first known there
    obtain ⟨course', sound, less⟩ := course.turn along.sound differ
    refine ⟨by simp [along.length], sound, fun m j task known' present => ?_⟩
    rw [List.getElem?_set] at present
    rw [List.count_append, List.count_singleton]
    split at present
    · rename_i same
      subst same
      cases present
      cases known.symm.trans known'
      simp only [beq_self_eq_true, if_true]
      exact ⟨course', by omega⟩
    · rename_i differ
      rw [if_neg (by simpa using differ), Nat.add_zero]
      exact along.task m j task known' present

theorem Along.run (along : p.Along fs search paths work [])
    (differ : ∀ p ∈ paths, ∀ p' ∈ paths, p.components = p'.components → p = p') (schedule : List Nat) :
    (p.run fs search schedule).Along fs search paths work schedule := by
  induction schedule using List.reverseRecOn with
  | nil => exact along
  | append_singleton front n ih =>
    rw [Pool.run, List.foldl_append]
    exact ih.turn differ n

theorem results?_eq_some_iff {results : List α} :
    p.results? = some results ↔ p.tasks.map Task.result? = results.map some := by
  rw [results?]
  induction p.tasks generalizing results with
  | nil => cases results <;> simp
  | cons task rest ih =>
    rw [List.mapM_cons, List.map_cons]
    cases done : task.result? with
    | none => cases results <;> simp
    | some result =>
      cases results with
      | nil => cases rest.mapM Task.result? <;> simp
      | cons first others =>
        rw [List.map_cons, List.cons.injEq, Option.some.injEq, ← ih]
        cases rest.mapM Task.result? <;> simp

theorem Along.exists_task {n : Nat} {i : Inquiry α} (along : p.Along fs search paths work schedule)
    (known : work[n]? = some i) : ∃ task, p.tasks[n]? = some task := by
  have inside : n < p.tasks.length := along.length ▸ (List.getElem?_eq_some_iff.mp known).1
  exact ⟨_, List.getElem?_eq_getElem inside⟩

theorem Along.eq_of_results? {results : List α} (along : p.Along fs search paths work schedule)
    (done : p.results? = some results) : results = work.map (·.run (Resolution.resolve fs search)) := by
  have each := results?_eq_some_iff.mp done
  refine List.ext_getElem? fun n => ?_
  rw [List.getElem?_map]
  cases known : work[n]? with
  | none =>
    have length : results.length = work.length := by simpa [along.length] using (congrArg List.length each).symm
    rw [Option.map_none, List.getElem?_eq_none_iff, length]
    exact List.getElem?_eq_none_iff.mp known
  | some i =>
    obtain ⟨task, there⟩ := along.exists_task known
    have at_n := congrArg (·[n]?) each
    simp only [List.getElem?_map, there, Option.map_some] at at_n
    cases result : results[n]? with
    | none =>
      rw [result] at at_n
      cases at_n
    | some own =>
      rw [result, Option.map_some, Option.some.injEq] at at_n
      rw [Option.map_some, (along.task n i task known there).1.eq_of_done at_n]

theorem Along.results?_of_enough (along : p.Along fs search paths work schedule)
    (enough : ∀ n i, work[n]? = some i →
      2 * (i.queries (Resolution.resolve fs search)).length ≤ schedule.count n) :
    p.results? = some (work.map (·.run (Resolution.resolve fs search))) := by
  refine results?_eq_some_iff.mpr (List.ext_getElem? fun n => ?_)
  rw [List.getElem?_map, List.getElem?_map, List.getElem?_map]
  cases known : work[n]? with
  | none =>
    have outside : p.tasks[n]? = none := by
      rw [List.getElem?_eq_none_iff, along.length]
      exact List.getElem?_eq_none_iff.mp known
    rw [outside]
    rfl
  | some i =>
    obtain ⟨task, there⟩ := along.exists_task known
    obtain ⟨course, left⟩ := along.task n i task known there
    have spent := enough n i known
    rw [there, Option.map_some, course.done (by omega)]
    rfl

/-- When all tasks are done, their results are those of each piece of work on its own; and they are done after
    two turns for each of their questions. -/
theorem results?_run (about : ∀ i ∈ work, ∀ q ∈ i.queries (Resolution.resolve fs search),
      ∃ path ∈ paths, q.source = some path)
    (differ : ∀ p ∈ paths, ∀ p' ∈ paths, p.components = p'.components → p = p') (schedule : List Nat) :
    (∀ results, ((start work).run fs search schedule).results? = some results →
      results = work.map (·.run (Resolution.resolve fs search))) ∧
    ((∀ n i, work[n]? = some i → 2 * (i.queries (Resolution.resolve fs search)).length ≤ schedule.count n) →
      ((start work).run fs search schedule).results? = some (work.map (·.run (Resolution.resolve fs search)))) := by
  have along := (along_start about).run differ schedule
  exact ⟨fun results done => along.eq_of_results? done, along.results?_of_enough⟩

end Pool

/-! ## Files of a project -/

namespace Extraction
variable {fs : FileSystem} {settings : ExtractionSettings} {extractor : Extractor} {root top : Path}
  {f : SourceFilter} {files : List SourceFile}

/-- The outcome of a file that is processed alone, with nothing remembered. -/
def alone (fs : FileSystem) (settings : ExtractionSettings) (extractor : Extractor) (top : Path)
    (file : SourceFile) : Outcome :=
  ((inquiry fs extractor top file).runWith fs (searchPath fs settings top) []).1

/-- The number of turns that the imports of a file take if nothing is remembered. -/
def turns (fs : FileSystem) (settings : ExtractionSettings) (extractor : Extractor) (top : Path)
    (file : SourceFile) : Nat :=
  2 * ((inquiry fs extractor top file).queries (answer fs settings top)).length

private theorem about_inquiry (file : SourceFile) (q : Query)
    (asked : q ∈ (inquiry fs extractor top file).queries (answer fs settings top)) :
    q.source = some file.path := Outcome.source_of_mem_queries asked

theorem alone_eq_outcome (file : SourceFile) :
    alone fs settings extractor top file = outcome fs settings extractor top file := by
  have about : ∀ q ∈ (inquiry fs extractor top file).queries (answer fs settings top),
      ∃ path ∈ [file.path], q.source = some path := by
    intro q asked
    exact ⟨file.path, by simp, about_inquiry file q asked⟩
  have single : ∀ p ∈ [file.path], ∀ p' ∈ [file.path], p.components = p'.components → p = p' := by
    intro p here p' here' _
    rw [List.mem_singleton.mp here, List.mem_singleton.mp here']
  exact (Inquiry.runWith_eq_run _ Memo.sound_nil single about).1

/-- Different files of a project are on paths with different components. -/
theorem eq_of_components (named : fs.WellNamed) (found : canonicalRoot fs root = .ok top)
    (listed : f.Lists fs top files) : ∀ p ∈ files.map (·.path), ∀ p' ∈ files.map (·.path),
      p.components = p'.components → p = p' := by
  intro p member p' member' same
  obtain ⟨loc, isName, rfl, -⟩ := exists_location_of_canonicalRoot named found
  obtain ⟨file, inside, rfl⟩ := List.mem_map.mp member
  obtain ⟨file', inside', rfl⟩ := List.mem_map.mp member'
  obtain ⟨steps, ok, shape⟩ := listed.exists_steps named (FileSystem.areSteps_location isName) inside
  obtain ⟨steps', ok', shape'⟩ := listed.exists_steps named (FileSystem.areSteps_location isName) inside'
  rw [shape, shape'] at same ⊢
  rw [Path.absolute_injective ok ok' same]

/-- The files of a project have the outcomes that each has alone, be they extracted one after the other or in
    turns. -/
theorem scheduled_eq_alone (extractor : Extractor) (settings : ExtractionSettings) (named : fs.WellNamed)
    (found : canonicalRoot fs root = .ok top) (listed : f.Lists fs top files) (schedule : List Nat) :
    run fs settings extractor top files = files.map (alone fs settings extractor top) ∧
    (∀ outcomes, scheduled fs settings extractor top files schedule = some outcomes →
      outcomes = files.map (alone fs settings extractor top)) ∧
    ((∀ n file, files[n]? = some file → turns fs settings extractor top file ≤ schedule.count n) →
      (scheduled fs settings extractor top files schedule).isSome) := by
  have differ := eq_of_components named found listed
  have paths : ∀ file ∈ files, file.path ∈ files.map (·.path) := fun file member => List.mem_map_of_mem member
  have same : files.map (alone fs settings extractor top) =
      (files.map (inquiry fs extractor top)).map (·.run (answer fs settings top)) := by
    rw [List.map_map]
    exact List.map_congr_left fun file _ => alone_eq_outcome file
  have about : ∀ i ∈ files.map (inquiry fs extractor top), ∀ q ∈ i.queries (answer fs settings top),
      ∃ path ∈ files.map (·.path), q.source = some path := by
    intro i member q asked
    obtain ⟨file, inside, rfl⟩ := List.mem_map.mp member
    exact ⟨file.path, paths file inside, about_inquiry file q asked⟩
  obtain ⟨right, enough⟩ := Pool.results?_run about differ schedule
  rw [same]
  refine ⟨?_, right, fun turnsTaken => ?_⟩
  · rw [List.map_map]
    exact outcomes_eq_map Memo.sound_nil differ paths
  · have done := enough fun n i known => by
      rw [List.getElem?_map, Option.map_eq_some_iff] at known
      obtain ⟨file, there, rfl⟩ := known
      exact turnsTaken n file there
    exact Option.isSome_iff_exists.mpr ⟨_, done⟩

end Extraction

namespace Pipeline
variable {fs : FileSystem} {root top : Path} {f : SourceFilter} {files : List SourceFile}

/-- The graph of a project and the failures that are reported are those of its files one by one, each alone and in
    the order in which they are listed, whatever the schedule; and every schedule with enough turns comes to an
    end. -/
theorem settle_scheduled (p : Pipeline) (named : fs.WellNamed) (found : Extraction.canonicalRoot fs root = .ok top)
    (listed : f.Lists fs top files) (schedule : List Nat) :
    (∀ outcomes, Extraction.scheduled fs p.settings p.extractor top files schedule = some outcomes →
      p.settle (.ok outcomes) =
        p.settle (.ok (files.map (Extraction.alone fs p.settings p.extractor top)))) ∧
    p.settle (.ok (Extraction.run fs p.settings p.extractor top files)) =
      p.settle (.ok (files.map (Extraction.alone fs p.settings p.extractor top))) ∧
    ((∀ n file, files[n]? = some file →
        Extraction.turns fs p.settings p.extractor top file ≤ schedule.count n) →
      (Extraction.scheduled fs p.settings p.extractor top files schedule).isSome) := by
  obtain ⟨whole, right, enough⟩ :=
    Extraction.scheduled_eq_alone p.extractor p.settings named found listed schedule
  refine ⟨fun outcomes done => ?_, ?_, enough⟩
  · rw [right outcomes done]
  · rw [whole]

/-- Two modules that import each other. -/
def mutualFiles : OrderedMap String (List UInt8) :=
  .ofList [("a.py", Text.utf8Bytes "import b\n"), ("b.py", Text.utf8Bytes "import a\n")]

/-- A pipeline with the default settings. -/
def plainPipeline : Pipeline := .ofSettings default Python.lineExtractor .ready

/-- Turns in which each module is looked at before the other one is done. -/
def mutualSchedule : List Nat := [0, 1, 1, 0]

theorem settle_scheduled_mutual :
    (FileSystem.flat mutualFiles).WellNamed ∧
      Extraction.canonicalRoot (.flat mutualFiles) ⟨"/p"⟩ = .ok ⟨"/p"⟩ ∧
      ∃ files, SourceFilter.Lists ⟨none, [], "py"⟩ (.flat mutualFiles) ⟨"/p"⟩ files ∧
        ∀ outcomes, Extraction.scheduled (.flat mutualFiles) plainPipeline.settings plainPipeline.extractor ⟨"/p"⟩ files
            mutualSchedule = some outcomes →
          plainPipeline.settle (.ok outcomes) = plainPipeline.settle (.ok (files.map
            (Extraction.alone (.flat mutualFiles) plainPipeline.settings plainPipeline.extractor ⟨"/p"⟩))) := by
  have proper : ∀ name ∈ mutualFiles.keys, Path.IsName name ∧ name.utf8ByteSize ≤ FileSystem.nameLimit := by
    decide
  have named : (FileSystem.flat mutualFiles).WellNamed := (FileSystem.isLinkFree_flat proper).wellNamed
  have found : Extraction.canonicalRoot (.flat mutualFiles) ⟨"/p"⟩ = .ok ⟨"/p"⟩ :=
    Extraction.canonicalRoot_of_tree ["p"] (FileSystem.isTree_flat proper)
  refine ⟨named, found, _, .selected ["a.py", "b.py"], ?_⟩
  exact (plainPipeline.settle_scheduled named found (.selected _) mutualSchedule).1

end Pipeline
end ModuleGraph
