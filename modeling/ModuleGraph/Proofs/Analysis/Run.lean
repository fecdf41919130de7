import ModuleGraph.Analysis.Run
import ModuleGraph.CommandLine.Run
import ModuleGraph.Proofs.Analysis.Metrics
import ModuleGraph.Proofs.Analysis.Plan
import ModuleGraph.Proofs.Snapshot.Codec

/-!
What a run does when anything it asks for may fail. A run first decides on a course and then follows
it (`Analysis.run_eq`); deciding only reads, and the course is to start anew exactly in doubt
(`Analysis.course_cases`). Only the analysis itself can make a run fail, and then nothing has been
written (`Analysis.follow_of_error`).
-/
namespace ModuleGraph
open Text (utf8Bytes)

/-- What a run does once it has read what is kept. -/
inductive Course (α : Type) where
  | full (revision : Option String)
  | incremental (current : String) (snapshot : α) (isBase : Bool) (changes : ChangeSet)

namespace Course
variable {α : Type}

/-- The mode of a run on a course. -/
def mode : Course α → RunMode
  | .full _ => .full
  | .incremental .. => .incremental

/-- The revision of a run on a course. -/
def revision : Course α → Option String
  | .full revision => revision
  | .incremental current .. => some current

end Course

/-- The surroundings with a store that holds nothing, whatever is written to it. -/
def Surroundings.withEmptyStore {σ : Type} (s : Surroundings σ) : Surroundings σ :=
  { s with
    listKeys := pure (some [])
    getSnapshot := fun _ => pure none
    setSnapshot := fun _ _ => pure () }

/-- The mode of a run, its revision, and the data of its snapshot. -/
def AnalysisRun.outline {α δ : Type} (data : α → δ) (run : AnalysisRun α) :
    RunMode × Option String × δ := (run.mode, run.revision, data run.snapshot)

namespace Analysis
variable {α δ σ : Type} {a : Analysis α} {s : Surroundings σ} {forced : Bool} {state before : σ}
  {current base sourceExtension : String}

/-! ## Loading -/

/-- The snapshot of the current revision counts first, then that of the base. -/
theorem loadLatest_cases (a : Analysis α) (s : Surroundings σ) (current base : String) (state : σ) :
    (∃ snapshot, (a.load s current state).1 = some snapshot ∧
        a.loadLatest s current base state = (some (snapshot, false), (a.load s current state).2)) ∨
      (a.load s current state).1 = none ∧
        a.loadLatest s current base state =
          ((a.load s base (a.load s current state).2).1.map (·, true),
            (a.load s base (a.load s current state).2).2) := by
  have told : a.load s current state = ((a.load s current state).1, (a.load s current state).2) := rfl
  simp only [loadLatest, bind, StateT.bind, pure]
  rw [told]
  cases (a.load s current state).1 with
  | none => exact .inr ⟨rfl, rfl⟩
  | some snapshot => exact .inl ⟨snapshot, rfl, rfl⟩

theorem loadLatest_eq_none_iff : (a.loadLatest s current base state).1 = none ↔
    (a.load s current state).1 = none ∧ (a.load s base (a.load s current state).2).1 = none := by
  rcases a.loadLatest_cases s current base state with ⟨snapshot, found, loaded⟩ | ⟨first, loaded⟩
  · rw [loaded, found]
    simp
  · rw [loaded, Option.map_eq_none_iff]
    exact (and_iff_right first).symm

theorem reads_loadLatest (a : Analysis α) (current base : String) (reads : s.Reads before state) :
    s.Reads before (a.loadLatest s current base state).2 := by
  rcases a.loadLatest_cases s current base state with ⟨snapshot, -, loaded⟩ | ⟨-, loaded⟩
  · rw [loaded]
    exact reads.snapshot _
  · rw [loaded]
    exact (reads.snapshot _).snapshot _

/-! ## The course of a run -/

/-- Why a run starts anew: that is its plan, or neither snapshot can be loaded. -/
inductive Doubt (a : Analysis α) (s : Surroundings σ) (forced : Bool) (state : σ) : Prop
  | planned (doubt : s.Doubt a.kind forced state)
  | noSnapshot {current base : String} (based : s.Based a.kind state current base)
      (first : (a.load s current (s.changesAt state base current).2).1 = none)
      (second : (a.load s base (a.load s current (s.changesAt state base current).2).2).1 = none)

/-- The course that a plan leads to. -/
def courseOf (a : Analysis α) (s : Surroundings σ) : Option String → Plan → StateM σ (Course α)
  | revision, .full _ => return .full revision
  | none, .incremental .. => return .full none
  | some current, .incremental base changes => do
    match ← a.loadLatest s current base with
    | none => return .full (some current)
    | some (snapshot, isBase) => return .incremental current snapshot isBase changes

/-- The course of a run. -/
def course (a : Analysis α) (s : Surroundings σ) (forced : Bool) : StateM σ (Course α) := do
  let revision ← s.latestRevision
  a.courseOf s revision (← Plan.choose s a.kind revision forced)

/-- Follows a course. -/
def follow (a : Analysis α) (s : Surroundings σ) (sourceExtension : String) :
    Course α → StateM σ (Except RunError (AnalysisRun α))
  | .full revision => a.runFull s revision
  | .incremental current snapshot isBase changes =>
    a.runIncremental s current snapshot isBase (changes.filtered sourceExtension)

theorem run_eq (a : Analysis α) (s : Surroundings σ) (sourceExtension : String) (forced : Bool) :
    a.run s sourceExtension forced = a.course s forced >>= a.follow s sourceExtension := by
  simp only [run, course, bind_assoc]
  refine bind_congr fun revision => bind_congr fun plan => ?_
  cases plan with
  | full reason => simp [courseOf, follow]
  | incremental base changes =>
    cases revision with
    | none => simp [courseOf, follow]
    | some current =>
      simp only [courseOf, bind_assoc]
      refine bind_congr fun loaded => ?_
      cases loaded <;> simp [follow]

theorem run_of_course {course : Course α} {after : σ} (decided : a.course s forced state = (course, after)) :
    a.run s sourceExtension forced state = a.follow s sourceExtension course after := by
  rw [run_eq]
  simp only [bind, StateT.bind, decided]

/-- A course is to start anew with doubt, or to update the snapshot that was loaded. -/
theorem course_cases (a : Analysis α) (s : Surroundings σ) (forced : Bool) (state : σ) :
    ∃ course after, a.course s forced state = (course, after) ∧ s.Reads state after ∧
      (course = .full (s.latestRevision state).1 ∧ a.Doubt s forced state ∨
        ∃ current base changes snapshot isBase,
          course = .incremental current snapshot isBase changes ∧
          s.Updatable a.kind forced state current base changes ∧
          (a.loadLatest s current base (s.changesAt state base current).2).1 =
            some (snapshot, isBase)) := by
  have planned : a.course s forced state =
      a.courseOf s (s.latestRevision state).1 (Plan.chosen s a.kind forced state).1
        (Plan.chosen s a.kind forced state).2 := rfl
  rw [planned]
  rcases Plan.chosen_cases s a.kind forced state with
    ⟨reason, after, plan, reads, doubt⟩ | ⟨current, base, changes, ready, plan⟩
  · rw [plan]
    refine ⟨.full (s.latestRevision state).1, after, ?_, reads, .inl ⟨rfl, .planned doubt⟩⟩
    cases (s.latestRevision state).1 <;> rfl
  · rw [plan, ready.revision]
    simp only [courseOf, bind, StateT.bind, pure]
    have reads := a.reads_loadLatest current base (.changesAt s state base current)
    rcases loaded : a.loadLatest s current base (s.changesAt state base current).2 with
      ⟨_ | ⟨snapshot, isBase⟩, after⟩ <;> rw [loaded] at reads
    · obtain ⟨first, second⟩ := loadLatest_eq_none_iff.mp (congrArg Prod.fst loaded)
      exact ⟨_, _, rfl, reads, .inl ⟨rfl, .noSnapshot ready.toBased first second⟩⟩
    · refine ⟨_, _, rfl, reads, .inr ⟨current, base, changes, snapshot, isBase, rfl, ready, ?_⟩⟩
      rw [loaded]

/-- A snapshot that can be updated leaves no doubt. -/
theorem not_doubt_of_loaded {changes : ChangeSet} {loaded : α × Bool}
    (ready : s.Updatable a.kind forced state current base changes)
    (found : (a.loadLatest s current base (s.changesAt state base current).2).1 = some loaded) :
    ¬a.Doubt s forced state := by
  intro doubt
  cases doubt with
  | planned doubt => exact ready.not_doubt doubt
  | noSnapshot based first second =>
    obtain ⟨rfl, rfl⟩ := ready.toBased.unique based
    cases found.symm.trans (loadLatest_eq_none_iff.mpr ⟨first, second⟩)

/-! ## The result of a run -/

/-- What a course computes from the files. -/
def computed (a : Analysis α) (files : FileSystem) (sourceExtension : String) :
    Course α → Except RunError α
  | .full _ => a.full files
  | .incremental _ snapshot _ changes =>
    if (changes.filtered sourceExtension).isEmpty then .ok snapshot
    else a.update files snapshot (changes.filtered sourceExtension)

/-- The state behind a snapshot that is kept under a revision, if there is one. -/
def storeAt (a : Analysis α) (s : Surroundings σ) (revision : Option String) (snapshot : α) (state : σ) : σ :=
  match revision with
  | none => state
  | some revision => (a.store s revision snapshot state).2

section
variable {course : Course α} {data : α → δ} {e : RunError} {fresh snapshot : α} {revision : Option String}
  {isBase : Bool} {relevant : ChangeSet}

/-- A run that starts anew stamps what it computes and keeps it. -/
theorem runFull_of_ok (done : a.full (s.files state) = .ok fresh) : a.runFull s revision state =
    (.ok ⟨.full, revision, a.restamp fresh (s.currentCommit state).1⟩,
      a.storeAt s revision (a.restamp fresh (s.currentCommit state).1) (s.currentCommit state).2) := by
  simp only [runFull, bind, StateT.bind, get, getThe, MonadStateOf.get, StateT.get, pure, done]
  cases revision <;> rfl

/-- Without relevant changes a snapshot is taken as it is, and kept if it is that of the base. -/
theorem runIncremental_of_idle (idle : relevant.isEmpty = true) :
    a.runIncremental s current snapshot isBase relevant state = (.ok ⟨.incremental, some current, snapshot⟩,
      a.storeAt s (if isBase then some current else none) snapshot state) := by
  simp only [runIncremental, idle, if_true]
  cases isBase <;> rfl

/-- With relevant changes a snapshot is brought up to date, stamped and kept. -/
theorem runIncremental_of_ok (busy : relevant.isEmpty = false)
    (done : a.update (s.files state) snapshot relevant = .ok fresh) :
    a.runIncremental s current snapshot isBase relevant state =
      (.ok ⟨.incremental, some current, a.restamp fresh (s.currentCommit state).1⟩,
        a.storeAt s (some current) (a.restamp fresh (s.currentCommit state).1) (s.currentCommit state).2) := by
  simp only [runIncremental, busy, Bool.false_eq_true, if_false]
  simp only [bind, StateT.bind, get, getThe, MonadStateOf.get, StateT.get, pure, done]
  rfl

/-- Without relevant changes nothing is computed that could fail. -/
theorem busy_of_error {files : FileSystem} {snapshot : α} {isBase : Bool} {changes : ChangeSet}
    (failed : a.computed files sourceExtension (.incremental current snapshot isBase changes) = .error e) :
    (changes.filtered sourceExtension).isEmpty = false ∧
      a.update files snapshot (changes.filtered sourceExtension) = .error e := by
  rw [computed] at failed
  split at failed
  · cases failed
  · exact ⟨Bool.eq_false_iff.mpr ‹_›, failed⟩

/-- What fails is the analysis, and then nothing has been written. -/
theorem follow_of_error (failed : a.computed (s.files state) sourceExtension course = .error e) :
    a.follow s sourceExtension course state = (.error e, state) := by
  cases course with
  | full revision =>
    have failed : a.full (s.files state) = .error e := failed
    simp only [follow, runFull, bind, StateT.bind, get, getThe, MonadStateOf.get, StateT.get, pure,
      failed]
    rfl
  | incremental current snapshot isBase changes =>
    obtain ⟨busy, failed⟩ := busy_of_error failed
    simp only [follow, runIncremental, busy, Bool.false_eq_true, if_false]
    simp only [bind, StateT.bind, get, getThe, MonadStateOf.get, StateT.get, pure, failed]
    rfl

theorem follow_of_ok (restamped : ∀ snapshot stamp, data (a.restamp snapshot stamp) = data snapshot)
    (done : a.computed (s.files state) sourceExtension course = .ok fresh) :
    ∃ run after, a.follow s sourceExtension course state = (.ok run, after) ∧
      run.outline data = (course.mode, course.revision, data fresh) := by
  have outline : ∀ stamp, (⟨course.mode, course.revision, a.restamp fresh stamp⟩ :
      AnalysisRun α).outline data = (course.mode, course.revision, data fresh) := by
    intro stamp
    rw [AnalysisRun.outline, restamped]
  cases course with
  | full revision =>
    have done : a.full (s.files state) = .ok fresh := done
    exact ⟨_, _, runFull_of_ok done, outline _⟩
  | incremental current snapshot isBase changes =>
    cases busy : (changes.filtered sourceExtension).isEmpty with
    | true =>
      obtain rfl : snapshot = fresh := by simpa [computed, busy] using done
      exact ⟨_, _, runIncremental_of_idle busy, rfl⟩
    | false =>
      have done : a.update (s.files state) snapshot (changes.filtered sourceExtension) = .ok fresh := by
        simpa [computed, busy] using done
      exact ⟨_, _, runIncremental_of_ok busy done, outline _⟩

theorem outline_follow (restamped : ∀ snapshot stamp, data (a.restamp snapshot stamp) = data snapshot)
    (s : Surroundings σ) (sourceExtension : String) (course : Course α) (state : σ) :
    (a.follow s sourceExtension course state).1.map (·.outline data) =
      (a.computed (s.files state) sourceExtension course).map fun fresh =>
        (course.mode, course.revision, data fresh) := by
  cases result : a.computed (s.files state) sourceExtension course with
  | error e =>
    rw [follow_of_error result]
    rfl
  | ok fresh =>
    obtain ⟨run, after, followed, outline⟩ := follow_of_ok restamped result
    rw [followed]
    exact congrArg Except.ok outline

end

/-! ## Caution -/

/-- A call that runs an analysis trusts what is kept only where there is no doubt, and fails only as
    the analysis does. -/
structure Cautious (a : Analysis α) (data : α → δ) (sourceExtension : String)
    (call : Surroundings σ → Bool → StateM σ (Except RunError (AnalysisRun α)))
    (s : Surroundings σ) : Prop where
  /-- In doubt the project is analysed anew. -/
  anew : ∀ forced state, a.Doubt s forced state →
    (call s forced state).1.map (·.outline data) =
      (a.full (s.files state)).map fun snapshot =>
        (.full, (s.latestRevision state).1, data snapshot)
  /-- In doubt the answer is that with an empty store. -/
  asEmpty : ∀ forced state, a.Doubt s forced state →
    (call s forced state).1.map (·.outline data) =
      (call s.withEmptyStore forced state).1.map (·.outline data)
  /-- Without doubt the plan is to update from the base, and the snapshot of the current revision, or
      else of the base, is updated by the changes since the base. -/
  updated : ∀ forced state, ¬a.Doubt s forced state → ∃ current base changes snapshot isBase,
    s.Updatable a.kind forced state current base changes ∧
    (Plan.choose s a.kind (s.latestRevision state).1 forced (s.latestRevision state).2).1 =
      .incremental base changes ∧
    (a.loadLatest s current base (s.changesAt state base current).2).1 = some (snapshot, isBase) ∧
    (call s forced state).1.map (·.outline data) =
      (if (changes.filtered sourceExtension).isEmpty then .ok snapshot
        else a.update (s.files state) snapshot (changes.filtered sourceExtension)).map
        fun fresh => (.incremental, some current, data fresh)
  /-- An error is one of the analysis, and all that was done before is reading. -/
  failed : ∀ forced state e, (call s forced state).1 = .error e →
    (a.full (s.files state) = .error e ∨
        ∃ snapshot relevant, a.update (s.files state) snapshot relevant = .error e) ∧
      s.Reads state (call s forced state).2

theorem reads_of_withEmptyStore {after : σ} (reads : s.withEmptyStore.Reads before after) :
    s.Reads before after := by
  induction reads with
  | here => exact .here
  | revision _ ih => exact ih.revision
  | keys _ ih => exact ih
  | changes _ old new ih => exact ih.changes old new
  | snapshot _ _ ih => exact ih

theorem doubt_withEmptyStore (a : Analysis α) (s : Surroundings σ) (forced : Bool) (state : σ) :
    a.Doubt s.withEmptyStore forced state :=
  .planned (.noKeyOfKind (rfl : (s.withEmptyStore.keysAt state).1 = some []) (by simp))

section
variable {data : α → δ}

theorem outline_run_of_doubt (keeps : s.Keeps s.files)
    (restamped : ∀ snapshot stamp, data (a.restamp snapshot stamp) = data snapshot)
    (doubt : a.Doubt s forced state) :
    (a.run s sourceExtension forced state).1.map (·.outline data) =
      (a.full (s.files state)).map fun snapshot =>
        (.full, (s.latestRevision state).1, data snapshot) := by
  obtain ⟨course, after, decided, reads, ⟨rfl, -⟩ |
    ⟨current, base, changes, snapshot, isBase, -, ready, loaded⟩⟩ := a.course_cases s forced state
  · rw [run_of_course decided, outline_follow restamped, keeps state after reads]
    rfl
  · exact absurd doubt (not_doubt_of_loaded ready loaded)

theorem run_cautious (keeps : s.Keeps s.files)
    (restamped : ∀ snapshot stamp, data (a.restamp snapshot stamp) = data snapshot) :
    a.Cautious data sourceExtension (fun s forced => a.run s sourceExtension forced) s where
  anew forced state doubt := outline_run_of_doubt keeps restamped doubt
  asEmpty forced state doubt := by
    have keepsEmpty : s.withEmptyStore.Keeps s.files := fun before after reads =>
      keeps before after (reads_of_withEmptyStore reads)
    rw [outline_run_of_doubt keeps restamped doubt]
    exact (outline_run_of_doubt (s := s.withEmptyStore) keepsEmpty restamped
      (a.doubt_withEmptyStore s forced state)).symm
  updated forced state trusted := by
    obtain ⟨course, after, decided, reads, ⟨-, doubt⟩ |
      ⟨current, base, changes, snapshot, isBase, rfl, ready, loaded⟩⟩ := a.course_cases s forced state
    · exact absurd doubt trusted
    · refine ⟨current, base, changes, snapshot, isBase, ready, ?_, loaded, ?_⟩
      · exact congrArg Prod.fst (ready.chosen)
      · rw [run_of_course decided, outline_follow restamped, keeps state after reads]
        rfl
  failed forced state e failed := by
    obtain ⟨course, after, decided, reads, -⟩ := a.course_cases s forced state
    rw [run_of_course decided] at failed ⊢
    cases result : a.computed (s.files after) sourceExtension course with
    | ok fresh =>
      obtain ⟨run, final, followed, -⟩ := follow_of_ok restamped result
      rw [followed] at failed
      cases failed
    | error other =>
      rw [follow_of_error result] at failed ⊢
      cases failed
      refine ⟨?_, reads⟩
      rw [keeps state after reads] at result
      cases course with
      | full revision => exact .inl result
      | incremental current snapshot isBase changes => exact .inr ⟨_, _, (busy_of_error result).2⟩

end

end Analysis

/-! ## The analyses of a project -/

theorem CommandLine.surroundings_keeps_files {σ : Type} (git : Git σ) (repository : Path) :
    (surroundings git repository).Keeps Workspace.files := by
  intro before after reads
  induction reads with
  | here => rfl
  | revision _ ih => exact ih
  | keys _ ih => exact ih
  | changes _ _ _ ih => exact ih
  | snapshot _ _ ih => exact ih

namespace Project

/-- Whatever the store and the history answer, both analyses start anew in doubt and give what they
    give with an empty store, update what is kept otherwise, and fail only as the analysis of the
    files does, with nothing written. -/
theorem analyze_cautious {σ : Type} (p : Project) (s : Surroundings σ) (keeps : s.Keeps s.files) :
    p.dependencyAnalysis.Cautious (·.dependencies) p.settings.sourceExtension
        (fun s forced => p.analyzeDependencies s forced) s ∧
      p.metricsAnalysis.Cautious (·.files) p.settings.sourceExtension
        (fun s forced => p.analyzeMetrics s forced) s :=
  ⟨Analysis.run_cautious keeps fun _ _ => rfl, Analysis.run_cautious keeps fun _ _ => rfl⟩

/-! ## A history that answers -/

/-- A snapshot of one module. -/
def modules : DependencySnapshot := ⟨.ofList [("a.py", [])], 0, 0, none⟩

/-- The counts of one line. -/
def counts : MetricsSnapshot := ⟨.ofList [("a.py", ⟨1, 1, 0, 0, 0, 0⟩)], 0, 0, .zero, none⟩

theorem fits_modules : (modules.restamp none).Fits :=
  ⟨by decide, by decide, by decide, by decide, by decide, by decide⟩

theorem fits_counts : (counts.restamp none).Fits :=
  ⟨by decide, by decide, by decide, by decide, by decide, by decide⟩

/-- The module is gone. -/
def gone : ChangeSet := ⟨.empty, .empty, .ofList ["a.py"]⟩

/-- A history in which the module is deleted behind the first revision. -/
def removal : Git Unit := fun state arguments =>
  (.ok (match arguments.drop 2 with
    | "rev-parse" :: _ => ⟨0, utf8Bytes "r2\n", []⟩
    | "diff" :: _ => ⟨0, utf8Bytes "D\x00a.py\x00", []⟩
    | _ => ⟨128, [], []⟩), state)

/-- A store that keeps what was found at the first revision, in a project without files. -/
def recorded : CommandLine.Workspace Unit where
  files := .flat .empty
  cache :=
    { SnapshotCache.inMemory with
      manifest := [.of .dependencies "r1", .of .metrics "r1"]
      memory := .ofList [(.of .dependencies "r1", DependencySnapshot.codec.write (modules.restamp none)),
        (.of .metrics "r1", MetricsSnapshot.codec.write (counts.restamp none))] }
  git := ()

def remembered : Surroundings (CommandLine.Workspace Unit) := CommandLine.surroundings removal plain.root

private theorem latestRevision_recorded : remembered.latestRevision recorded = (some "r2", recorded) := by
  have answer : GitQuery.latestRevision.read ⟨0, utf8Bytes "r2\n", []⟩ = .ok (some "r2") := by decide
  have asked : GitQuery.latestRevision.ask removal plain.root () = (.ok (some "r2"), ()) := congrArg (·, ()) answer
  simp only [remembered, CommandLine.surroundings, CommandLine.askGit, bind, StateT.bind, get, getThe,
    MonadStateOf.get, StateT.get, pure, recorded, asked]
  rfl

private theorem changesAt_recorded : remembered.changesAt recorded "r1" "r2" = (some gone, recorded) := by
  have answer : (GitQuery.changes "r1" "r2").read ⟨0, utf8Bytes "D\x00a.py\x00", []⟩ = .ok gone := by
    decide +kernel
  have asked : (GitQuery.changes "r1" "r2").ask removal plain.root () = (.ok gone, ()) := congrArg (·, ()) answer
  have listed : (remembered.keysAt recorded).2 = recorded := by
    rw [Surroundings.keysAt, latestRevision_recorded]
    rfl
  rw [Surroundings.changesAt, listed]
  simp only [remembered, CommandLine.surroundings, CommandLine.askGit, bind, StateT.bind, get, getThe,
    MonadStateOf.get, StateT.get, pure, recorded, asked]
  rfl

private theorem updatable_recorded (kind : AnalysisKind) :
    remembered.Updatable kind false recorded "r2" "r1" gone := by
  have listed : (remembered.keysAt recorded).1 = some [.of .dependencies "r1", .of .metrics "r1"] := by
    rw [Surroundings.keysAt, latestRevision_recorded]
    rfl
  have last : Plan.lastRevision? kind [.of .dependencies "r1", .of .metrics "r1"] = some "r1" := by
    cases kind <;> decide
  have based : remembered.Based kind recorded "r2" "r1" :=
    Plan.based_iff.mpr ⟨congrArg Prod.fst latestRevision_recorded, _, listed, last⟩
  exact ⟨based, rfl, congrArg Prod.fst changesAt_recorded, by decide⟩

/-- A snapshot that is kept for the first revision only is loaded as that of the base. -/
private theorem loadLatest_recorded {α : Type} {a : Analysis α} {snapshot : α}
    (missing : remembered.getSnapshot (.of a.kind "r2") recorded = (none, recorded))
    (kept : (remembered.getSnapshot (.of a.kind "r1") recorded).1 = some (a.codec.write snapshot))
    (decoded : a.codec.decode (a.codec.write snapshot) = some snapshot) :
    (a.loadLatest remembered "r2" "r1" (remembered.changesAt recorded "r1" "r2").2).1 = some (snapshot, true) := by
  have none : a.load remembered "r2" recorded = (none, recorded) := by
    simp only [Analysis.load, bind, StateT.bind, missing]
    rfl
  have found : (a.load remembered "r1" recorded).1 = some snapshot := by
    change (remembered.getSnapshot (.of a.kind "r1") recorded).1.bind a.codec.decode = some snapshot
    rw [kept]
    exact decoded
  rw [changesAt_recorded]
  rcases a.loadLatest_cases remembered "r2" "r1" recorded with ⟨_, first, -⟩ | ⟨-, loaded⟩
  · rw [none] at first
    cases first
  · rw [loaded, none, found]
    rfl

/-- What is updated from such a snapshot. -/
private theorem outline_recorded {α δ : Type} {a : Analysis α} {data : α → δ} {snapshot updated : α}
    {call : Surroundings (CommandLine.Workspace Unit) → Bool →
      StateM (CommandLine.Workspace Unit) (Except RunError (AnalysisRun α))}
    (cautious : a.Cautious data "py" call remembered)
    (loaded : (a.loadLatest remembered "r2" "r1" (remembered.changesAt recorded "r1" "r2").2).1 =
      some (snapshot, true))
    (done : a.update (.flat .empty) snapshot (gone.filtered "py") = .ok updated) :
    (call remembered false recorded).1.map (·.outline data) = .ok (.incremental, some "r2", data updated) := by
  have ready := updatable_recorded a.kind
  obtain ⟨current, base, changes, snapshot', isBase, ready', -, loaded', outline⟩ :=
    cautious.updated false recorded (Analysis.not_doubt_of_loaded ready loaded)
  obtain ⟨rfl, rfl⟩ := ready.toBased.unique ready'.toBased
  obtain rfl := Option.some.inj (ready'.changed.symm.trans ready.changed)
  cases loaded'.symm.trans loaded
  have busy : (gone.filtered "py").isEmpty = false := by decide
  have files : remembered.files recorded = .flat .empty := rfl
  rw [outline, busy, files, if_neg Bool.false_ne_true, done]
  rfl

theorem analyze_cautious_remembered :
    remembered.Keeps CommandLine.Workspace.files ∧
      (plain.analyzeDependencies remembered false recorded).1.map (·.outline (·.dependencies)) =
        .ok (.incremental, some "r2", .empty) ∧
      (plain.analyzeMetrics remembered false recorded).1.map (·.outline (·.files)) =
        .ok (.incremental, some "r2", .empty) := by
  have keeps : remembered.Keeps CommandLine.Workspace.files := CommandLine.surroundings_keeps_files removal plain.root
  obtain ⟨dependencies, metrics⟩ := plain.analyze_cautious remembered keeps
  refine ⟨keeps, ?_, ?_⟩
  · have loaded := loadLatest_recorded (a := plain.dependencyAnalysis) rfl rfl
      (DependencySnapshot.readsBack_codec fits_modules).decode
    have done : plain.updateDependencies (.flat .empty) (modules.restamp none) (gone.filtered "py") =
        .ok ⟨.empty, 1, 0, none⟩ := rfl
    exact outline_recorded dependencies loaded done
  · have loaded := loadLatest_recorded (a := plain.metricsAnalysis) rfl rfl
      (MetricsSnapshot.readsBack_codec fits_counts).decode
    have done (average : Binary64) :
        plain.updateMetrics (.flat .empty) ⟨counts.files, 1, 1, average, none⟩ (gone.filtered "py") =
          .ok ⟨.empty, 1, 1, average, none⟩ := by cbv
    exact outline_recorded metrics loaded (done _)

end Project
end ModuleGraph
