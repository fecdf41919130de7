import ModuleGraph.Proofs.Analysis.Sharing
import ModuleGraph.Proofs.Cache.Collision
import ModuleGraph.Proofs.Extraction.Partial
import ModuleGraph.Proofs.Snapshot.Codec

/-!
The totals of snapshots. A snapshot is counted when it is stamped, and one that is taken over without a new stamp was
counted when it was stored. So the snapshots that runs return are tallied if those that the store holds are, and then
those that the store holds behind the runs are (`Site.run_upholds`). From a store that holds nothing this is true of
all of them (`Project.visits_tallied`), whatever the files, the history and the answers to questions are at each run,
and even if keys share files or the store fails.
-/
namespace ModuleGraph

/-! ## Tallied snapshots -/

/-- The totals of a dependency snapshot are those of its lists. -/
structure DependencySnapshot.Tallied (s : DependencySnapshot) : Prop where
  modules : s.moduleCount = s.dependencies.keys.length
  dependencies : s.totalDependencies = total (s.dependencies.values.map (·.length))

/-- The totals of a metrics snapshot are those of its counts. -/
structure MetricsSnapshot.Tallied (s : MetricsSnapshot) : Prop where
  files : s.totalFiles = s.files.keys.length
  lines : s.totalLines = total (s.files.values.map (·.lines))

/-- The numbers of a metrics snapshot, the sum of its lines included, are numbers of 64 bits. -/
structure MetricsSnapshot.Countable (s : MetricsSnapshot) : Prop extends s.Fits where
  lines : total (s.files.values.map (·.lines)) < Codec.wordLimit

theorem DependencySnapshot.tallied_restamp (s : DependencySnapshot) (stamp : Option Commit) :
    (s.restamp stamp).Tallied where
  modules := by simp [restamp, OrderedMap.size, OrderedMap.keys]
  dependencies := rfl

theorem MetricsSnapshot.tallied_restamp {s : MetricsSnapshot} {stamp : Option Commit}
    (countable : (s.restamp stamp).Countable) : (s.restamp stamp).Tallied where
  files := by simp [restamp, OrderedMap.size, OrderedMap.keys]
  lines := Nat.mod_eq_of_lt countable.lines

/-- What is returned by a run, its bytes included, can be counted in words. -/
structure AnalysisRun.Countable {α : Type} (codec : Codec α) (fits : α → Prop) (run : AnalysisRun α) : Prop where
  revision : ∀ revision ∈ run.revision, revision.utf8ByteSize < Codec.wordLimit
  snapshot : fits run.snapshot
  bytes : (codec.write run.snapshot).length < Codec.wordLimit

/-- A condition on snapshots that stamping establishes, and that can be told from what is held of them. -/
structure Analysis.Upholds {α : Type} (a : Analysis α) (fits holds : α → Prop) (held : SnapshotCache.Held) : Prop where
  restamp : ∀ snapshot stamp, fits (a.restamp snapshot stamp) → holds (a.restamp snapshot stamp)
  write : ∀ revision snapshot, fits snapshot → holds snapshot → held (.of a.kind revision) (a.codec.write snapshot)
  decode : ∀ revision bytes snapshot, held (.of a.kind revision) bytes → a.codec.decode bytes = some snapshot →
    holds snapshot

namespace Site
variable {α : Type} {a : Analysis α} {P : SnapshotCache.Held} {fits tallied : α → Prop} {loc : Location}
  {x y : Site} {changes : String → String → Option ChangeSet} {key : CacheKey} {bytes : List UInt8}
  {revision : String} {forced : Bool}

/-- Whatever the store of a site holds may be held at its key. -/
def Holds (P : SnapshotCache.Held) (loc : Location) (site : Site) : Prop := site.cache.Holds P loc site.disk

/-! ## One run -/

theorem Holds.ask (held : x.Holds P loc) (key : CacheKey) :
    (∀ bytes ∈ (x.ask key).1, P key bytes) ∧ (x.ask key).2.Holds P loc := by
  obtain ⟨⟨found, answer, allowed⟩, kept⟩ := SnapshotCache.Holds.get held key
  have asked : x.ask key = (found, { x with cache := (x.cache.get x.disk key).2 }) := by
    rw [Site.ask]
    rcases told : x.cache.get x.disk key with ⟨answer', cache⟩
    obtain rfl : answer' = .ok found := by rw [← answer, told]
    rfl
  rw [asked]
  exact ⟨allowed, kept⟩

/-- Whether or not the store fails, it holds nothing else behind. -/
theorem Holds.keep (held : x.Holds P loc) (short : key.Fits) (fits : bytes.length < Codec.wordLimit)
    (new : P key bytes) : (x.keep key bytes).Holds P loc := by
  have behind : (x.cache.set x.disk key bytes).2.1.Holds P loc (x.cache.set x.disk key bytes).2.2 := by
    rcases SnapshotCache.Holds.set held short fits new fun _ _ _ old => old with ⟨e, failed⟩ | written
    · rw [failed]
      exact held
    · exact written
  rw [Site.keep]
  rcases done : x.cache.set x.disk key bytes with ⟨result, cache, disk⟩
  rw [done] at behind
  cases result <;> exact behind

theorem Holds.reads (held : x.Holds P loc) (reads : (surroundings changes).Reads x y) : y.Holds P loc := by
  induction reads with
  | here => exact held
  | revision _ ih => exact ih
  | keys _ ih => exact ih
  | changes _ _ _ ih => exact ih
  | snapshot _ key ih => exact (ih.ask key).2

theorem Holds.load (held : x.Holds P loc) (upholds : a.Upholds fits tallied P) (revision : String) :
    ∀ snapshot ∈ (a.load (surroundings changes) revision x).1, tallied snapshot := by
  intro snapshot loaded
  obtain ⟨bytes, found, decoded⟩ := Option.bind_eq_some_iff.mp
    (loaded : (x.ask (.of a.kind revision)).1.bind a.codec.decode = some snapshot)
  exact upholds.decode revision bytes snapshot ((held.ask _).1 bytes found) decoded

theorem Holds.loadLatest (held : x.Holds P loc) (upholds : a.Upholds fits tallied P) {current base : String}
    {snapshot : α} {isBase : Bool}
    (loaded : (a.loadLatest (surroundings changes) current base x).1 = some (snapshot, isBase)) :
    tallied snapshot := by
  rcases a.loadLatest_cases (surroundings changes) current base x with ⟨found, first, same⟩ | ⟨-, same⟩
  · rw [same] at loaded
    cases loaded
    exact held.load upholds current snapshot first
  · rw [same] at loaded
    obtain ⟨found, second, rebased⟩ := Option.map_eq_some_iff.mp loaded
    cases rebased
    have between : (a.load (surroundings changes) current x).2.Holds P loc := (held.ask _).2
    exact between.load upholds base snapshot second

/-- A course fails and does nothing, or it returns a snapshot with a new stamp or the one that was loaded, and keeps
    nothing or that snapshot under the revision that it returns. -/
theorem follow_cases (a : Analysis α) (changes : String → String → Option ChangeSet) (sourceExtension : String)
    (course : Course α) (x : Site) :
    (∃ e, a.follow (surroundings changes) sourceExtension course x = (.error e, x)) ∨
      ∃ run after, a.follow (surroundings changes) sourceExtension course x = (.ok run, after) ∧
        ((∃ fresh, run.snapshot = a.restamp fresh x.commit) ∨
          ∃ current isBase changed, course = .incremental current run.snapshot isBase changed) ∧
        (after = x ∨ ∃ revision, run.revision = some revision ∧
          after = x.keep (.of a.kind revision) (a.codec.write run.snapshot)) := by
  cases computed : a.computed x.tree sourceExtension course with
  | error e => exact .inl ⟨e, Analysis.follow_of_error computed⟩
  | ok fresh =>
    right
    cases course with
    | full revision =>
      have done : a.full ((surroundings changes).files x) = .ok fresh := computed
      refine ⟨_, _, Analysis.runFull_of_ok done, .inl ⟨fresh, rfl⟩, ?_⟩
      cases revision with
      | none => exact .inl rfl
      | some revision => exact .inr ⟨revision, rfl, rfl⟩
    | incremental current snapshot isBase changed =>
      cases idle : (changed.filtered sourceExtension).isEmpty with
      | true =>
        refine ⟨_, _, Analysis.runIncremental_of_idle idle, .inr ⟨_, _, _, rfl⟩, ?_⟩
        cases isBase with
        | true => exact .inr ⟨current, rfl, rfl⟩
        | false => exact .inl rfl
      | false =>
        rw [Analysis.computed, if_neg (by simp [idle])] at computed
        exact ⟨_, _, Analysis.runIncremental_of_ok idle computed, .inl ⟨fresh, rfl⟩, .inr ⟨current, rfl, rfl⟩⟩

/-- A run at a site whose store holds tallied snapshots returns a tallied snapshot and leaves the store so. -/
theorem run_upholds (held : x.Holds P loc) (upholds : a.Upholds fits tallied P) {sourceExtension : String}
    (countable : ∀ run, (a.run (surroundings changes) sourceExtension forced x).1 = .ok run →
      run.Countable a.codec fits) :
    (∀ run, (a.run (surroundings changes) sourceExtension forced x).1 = .ok run → tallied run.snapshot) ∧
      (a.run (surroundings changes) sourceExtension forced x).2.Holds P loc := by
  obtain ⟨course, after, decided, reads, outcome⟩ := a.course_cases (surroundings changes) forced x
  have held' := held.reads reads
  rw [Analysis.run_of_course decided] at countable ⊢
  rcases follow_cases a changes sourceExtension course after with
    ⟨e, failed⟩ | ⟨run, final, followed, origin, keeping⟩
  · rw [failed]
    exact ⟨nofun, held'⟩
  rw [followed] at countable ⊢
  have known := countable run rfl
  have sound : tallied run.snapshot := by
    rcases origin with ⟨fresh, stamped⟩ | ⟨current, isBase, changed, loaded⟩
    · rw [stamped]
      exact upholds.restamp fresh after.commit (stamped ▸ known.snapshot)
    · rcases outcome with ⟨full, -⟩ | ⟨current', base, changed', snapshot, isBase', incremental, -, found⟩
      · cases full.symm.trans loaded
      · cases incremental.symm.trans loaded
        exact (held.reads (.changesAt (surroundings changes) x base current)).loadLatest upholds found
  refine ⟨fun other returned => ?_, ?_⟩
  · cases returned
    exact sound
  · rcases keeping with rfl | ⟨revision, dated, rfl⟩
    · exact held'
    · have short : (CacheKey.of a.kind revision).Fits := by
        refine ⟨?_, known.revision revision dated⟩
        simp only [CacheKey.of]
        cases a.kind <;> decide
      exact held'.keep short known.bytes (upholds.write revision run.snapshot known.snapshot sound)

private theorem reads_frame (reads : (surroundings changes).Reads x y) : y.tree = x.tree ∧ y.commit = x.commit := by
  induction reads with
  | here => exact ⟨rfl, rfl⟩
  | revision _ ih => exact ih
  | keys _ ih => exact ih
  | changes _ _ _ ih => exact ih
  | @snapshot z _ key ih =>
    obtain ⟨faults, asked⟩ := z.ask_eq key
    have after : ((surroundings changes).getSnapshot key z).2 = (z.ask key).2 := rfl
    rw [after, asked]
    exact ih

/-- Where no changes are known, a run starts anew. -/
theorem run_of_unknown (a : Analysis α) (unknown : ∀ old new, changes old new = none) {sourceExtension : String} :
    (a.run (surroundings changes) sourceExtension forced x).1 =
      (a.full x.tree).map fun snapshot => ⟨.full, x.revision, a.restamp snapshot x.commit⟩ := by
  obtain ⟨course, after, decided, reads, outcome⟩ := a.course_cases (surroundings changes) forced x
  obtain ⟨tree, commit⟩ := reads_frame reads
  rcases outcome with ⟨rfl, -⟩ | ⟨current, base, changed, -, -, -, ready, -⟩
  · rw [Analysis.run_of_course decided, ← tree, ← commit]
    cases computed : a.full after.tree with
    | error e =>
      have failed : a.computed ((surroundings changes).files after) sourceExtension
        (.full ((surroundings changes).latestRevision x).1) = .error e := computed
      rw [Analysis.follow_of_error failed]
      rfl
    | ok fresh =>
      have done : a.full ((surroundings changes).files after) = .ok fresh := computed
      exact congrArg Prod.fst (Analysis.runFull_of_ok done)
  · have told : some changed = changes base current := ready.changed.symm
    rw [unknown] at told
    cases told

end Site

/-! ## Runs in a row -/

/-- What a run finds: the files, and what the history answers, which may be nothing. -/
structure Visit where
  kind : AnalysisKind
  forced : Bool
  tree : FileSystem
  revision : Option String
  commit : Option Commit
  changes : String → String → Option ChangeSet

/-- The site as a visit finds it. -/
def Site.foundBy (site : Site) (v : Visit) : Site :=
  { site with tree := v.tree, revision := v.revision, commit := v.commit }

/-- A visit does not change what is held. -/
theorem Site.Ready.foundBy {α : Type} {a : Analysis α} {changes : String → String → Option ChangeSet} {x : Site}
    {revision : String} {snapshot : α} {changed : ChangeSet} (ready : x.Ready a changes revision snapshot changed)
    (v : Visit) : (x.foundBy v).Ready a changes revision snapshot changed :=
  ⟨ready.based, ready.few, ready.held⟩

/-- What is held of a snapshot: bytes that are decoded as a tallied one, under a key of its kind. -/
inductive Aggregated : SnapshotCache.Held
  | dependencies {revision : String} {bytes : List UInt8} {s : DependencySnapshot}
      (decoded : DependencySnapshot.codec.decode bytes = some s) (tallied : s.Tallied) :
      Aggregated (.of .dependencies revision) bytes
  | metrics {revision : String} {bytes : List UInt8} {s : MetricsSnapshot}
      (decoded : MetricsSnapshot.codec.decode bytes = some s) (tallied : s.Tallied) :
      Aggregated (.of .metrics revision) bytes

namespace SiteReport

/-- What a run returned can be counted in words. -/
def Countable : SiteReport → Prop
  | .dependencies result => ∀ run, result = .ok run → run.Countable DependencySnapshot.codec DependencySnapshot.Fits
  | .metrics result => ∀ run, result = .ok run → run.Countable MetricsSnapshot.codec MetricsSnapshot.Countable

/-- The snapshot that a run returned is tallied. -/
def Tallied : SiteReport → Prop
  | .dependencies result => ∀ run, result = .ok run → run.snapshot.Tallied
  | .metrics result => ∀ run, result = .ok run → run.snapshot.Tallied

end SiteReport

namespace Project
open Site

/-- Runs an analysis with what it finds. -/
def visit (p : Project) (v : Visit) : StateM Site SiteReport := do
  modify fun site => { site with tree := v.tree, revision := v.revision, commit := v.commit }
  p.report v.changes v.forced v.kind

def visits (p : Project) : List Visit → StateM Site (List SiteReport)
  | [] => return []
  | v :: rest => do
    let report ← p.visit v
    return report :: (← p.visits rest)

variable {p : Project} {x : Site} {loc : Location} {v : Visit} {runs : List Visit}

theorem visit_eq (p : Project) (v : Visit) (x : Site) :
    p.visit v x = p.report v.changes v.forced v.kind (x.foundBy v) := rfl

theorem dependencyAnalysis_upholds (p : Project) :
    p.dependencyAnalysis.Upholds DependencySnapshot.Fits DependencySnapshot.Tallied Aggregated where
  restamp s stamp _ := s.tallied_restamp stamp
  write revision s fits tallied := .dependencies (DependencySnapshot.readsBack_codec fits).decode tallied
  decode revision bytes s held decoded := by
    generalize named : CacheKey.of p.dependencyAnalysis.kind revision = key at held
    cases held with
    | dependencies decoded' tallied =>
      cases decoded.symm.trans decoded'
      exact tallied
    | metrics =>
      have same : AnalysisKind.dependencies.name = AnalysisKind.metrics.name := congrArg CacheKey.kind named
      exact absurd same (by decide)

theorem metricsAnalysis_upholds (p : Project) :
    p.metricsAnalysis.Upholds MetricsSnapshot.Countable MetricsSnapshot.Tallied Aggregated where
  restamp s stamp countable := MetricsSnapshot.tallied_restamp countable
  write revision s countable tallied := .metrics (MetricsSnapshot.readsBack_codec countable.toFits).decode tallied
  decode revision bytes s held decoded := by
    generalize named : CacheKey.of p.metricsAnalysis.kind revision = key at held
    cases held with
    | metrics decoded' tallied =>
      cases decoded.symm.trans decoded'
      exact tallied
    | dependencies =>
      have same : AnalysisKind.metrics.name = AnalysisKind.dependencies.name := congrArg CacheKey.kind named
      exact absurd same (by decide)

theorem visit_tallied (held : x.Holds Aggregated loc) (countable : (p.visit v x).1.Countable) :
    (p.visit v x).1.Tallied ∧ (p.visit v x).2.Holds Aggregated loc := by
  have held' : (x.foundBy v).Holds Aggregated loc := held
  rw [visit_eq] at countable ⊢
  cases kind : v.kind with
  | dependencies =>
    rw [kind] at countable
    exact run_upholds held' p.dependencyAnalysis_upholds countable
  | metrics =>
    rw [kind] at countable
    exact run_upholds held' p.metricsAnalysis_upholds countable

/-- Whatever runs in a row find, they return tallied snapshots, and behind them a store that held nothing at first
    holds tallied snapshots only. -/
theorem visits_tallied (p : Project) (naming : SnapshotCache.IsNaming x.cache.entryName)
    (forgotten : x.cache.memory = .empty)
    (vacant : ∀ directory, x.cache.directory = some directory → x.disk.IsFolder directory loc fun _ => none)
    (countable : ∀ report ∈ (p.visits runs x).1, report.Countable) :
    (∀ report ∈ (p.visits runs x).1, report.Tallied) ∧ (p.visits runs x).2.Holds Aggregated loc := by
  have held : x.Holds Aggregated loc := by
    refine ⟨naming, fun key bytes found => ?_, fun directory located => ?_⟩
    · rw [forgotten] at found
      cases found
    · exact ⟨_, vacant directory located, fun key bytes found => by cases found⟩
  clear naming forgotten vacant
  -- What the store holds is tallied before each run, and so it is behind it.
  induction runs generalizing x with
  | nil => exact ⟨nofun, held⟩
  | cons v rest ih =>
    have unfolded : p.visits (v :: rest) x =
        ((p.visit v x).1 :: (p.visits rest (p.visit v x).2).1, (p.visits rest (p.visit v x).2).2) := rfl
    rw [unfolded] at countable ⊢
    obtain ⟨first, held'⟩ := visit_tallied held (countable _ List.mem_cons_self)
    obtain ⟨later, held''⟩ := ih (fun report member => countable report (List.mem_cons_of_mem _ member)) held'
    exact ⟨List.forall_mem_cons.mpr ⟨first, later⟩, held''⟩

/-- A project of which no imports are read. -/
def blindProject : Project := ⟨⟨"/p"⟩, Pipeline.openSettings, Pipeline.blindExtractor, .ready⟩

/-- A module of one line. -/
def oneLine : OrderedMap String (List UInt8) := .ofList [("a.py", [0x78])]

private theorem tree_oneLine : (FileSystem.flat oneLine).IsTree ⟨"/p"⟩ ["p"] := FileSystem.isTree_flat (by decide)

private theorem scan_oneLine :
    SourceFilter.scan? ⟨none, [], "py"⟩ (.flat oneLine) ⟨"/p"⟩ = some [.below ⟨"/p"⟩ "a.py"] := by
  obtain ⟨files, scanned, ascending, member⟩ := SourceFilter.scan_tree ⟨none, [], "py"⟩ tree_oneLine
  have single : files.Perm [.below ⟨"/p"⟩ "a.py"] := by
    refine (List.perm_ext_iff_of_nodup ascending.nodup.of_map (List.nodup_singleton _)).mpr fun file => ?_
    rw [member, List.mem_singleton]
    constructor
    · rintro ⟨names, ⟨present, -⟩, rfl, -⟩
      rw [FileSystem.contentBelow_flat] at present
      match names with
      | [] => cases present
      | [name] =>
        have listed : name ∈ ["a.py"] := OrderedMap.mem_keys_iff.mpr (Option.isSome_iff_exists.mp present)
        rw [List.mem_singleton.mp listed]
        rfl
      | _ :: _ :: _ => cases present
    · rintro rfl
      refine ⟨["a.py"], ⟨?_, FileSystem.isEntered_singleton tree_oneLine.stat_root _⟩, rfl, by decide⟩
      rw [FileSystem.contentBelow_flat]
      rfl
  rw [scanned, List.perm_singleton.mp single]

theorem full_oneLine : blindProject.fullDependencies (.flat oneLine) = .ok modules ∧
    blindProject.fullMetrics (.flat oneLine) = .ok counts := by
  have root : Extraction.canonicalRoot (.flat oneLine) blindProject.root = .ok ⟨"/p"⟩ :=
    Extraction.canonicalRoot_of_tree ["p"] tree_oneLine
  have compiled : SourceFilter.ofPatterns blindProject.settings.included blindProject.settings.excluded
      blindProject.settings.sourceExtension = .ok ⟨none, [], "py"⟩ := rfl
  constructor
  · rw [fullDependencies, extract_fst (Extraction.whole_of_scan root compiled scan_oneLine)]
    rfl
  · have read : (FileSystem.flat oneLine).read (SourceFile.below ⟨"/p"⟩ "a.py").path = .ok [0x78] :=
      FileSystem.read_flat "a.py" (by decide) rfl (by decide)
    have counted : LineMetrics.ofFile (.flat oneLine) (SourceFile.below ⟨"/p"⟩ "a.py").path =
        .ok ⟨1, 1, 0, 0, 0, 0⟩ := ofFile_eq_ok_iff.mpr ⟨_, read, by decide⟩
    have filter : blindProject.sourceFilter = .ok ⟨none, [], "py"⟩ := rfl
    have scanned : SourceFilter.scan? ⟨none, [], "py"⟩ (.flat oneLine) blindProject.root = _ := scan_oneLine
    simp only [fullMetrics, filter, scanned, bind, Except.bind, collectMetrics, List.filterMap_cons, counted]
    rfl

/-- Nothing is known of the history. -/
private def unknown : String → String → Option ChangeSet := fun _ _ => none

private def keptVisit : Visit := ⟨.dependencies, true, .flat oneLine, some "a", none, unknown⟩

/-- The revision is that of the snapshot before, but the module is gone. -/
private def goneVisit : Visit := ⟨.dependencies, false, .flat .empty, some "a", none, fun _ _ => some gone⟩

private def countedVisit : Visit := ⟨.metrics, false, .flat oneLine, some "a", none, unknown⟩

private def keptSite : Site :=
  (sharedSite.foundBy keptVisit).keep (.of .dependencies "a") (DependencySnapshot.codec.write (modules.restamp none))

private theorem visit_keptVisit : blindProject.visit keptVisit sharedSite =
    (.dependencies (.ok ⟨.full, some "a", modules.restamp none⟩), keptSite) := by
  have found : (sharedSite.foundBy keptVisit).revision = some "a" := rfl
  have ran : blindProject.analyzeDependencies (surroundings unknown) true (sharedSite.foundBy keptVisit) =
      (.ok ⟨.full, some "a", modules.restamp none⟩, keptSite) :=
    run_of_forced blindProject.dependencyAnalysis unknown blindProject.settings.sourceExtension found full_oneLine.1
  -- With the site in full view its store is computed.
  generalize keptSite = after at ran ⊢
  exact congrArg (fun ran => (SiteReport.dependencies ran.1, ran.2)) ran

private theorem ready_keptSite :
    keptSite.Ready blindProject.dependencyAnalysis goneVisit.changes "a" (modules.restamp none) gone := by
  have orderly : (sharedSite.foundBy keptVisit).Orderly (· ∈ ["a", "b"]) := by
    obtain ⟨placed, named, listed, revision⟩ := orderly_sharedSite
    exact ⟨placed, named, listed, revision⟩
  have roomy : (sharedSite.foundBy keptVisit).Roomy :=
    ⟨roomy_sharedSite.placed, roomy_sharedSite.short, roomy_sharedSite.smooth⟩
  have smooth := (roomy.keep (.of .dependencies "a") (DependencySnapshot.codec.write (modules.restamp none))).smooth
  exact .of_keep orderly (by simp) (by decide) rfl (by decide) (DependencySnapshot.readsBack_codec fits_modules).decode
    smooth

private theorem visit_goneVisit {x : Site}
    (ready : x.Ready blindProject.dependencyAnalysis goneVisit.changes "a" (modules.restamp none) gone) :
    (blindProject.visit goneVisit x).1 = .dependencies (.ok ⟨.incremental, some "a", .empty⟩) := by
  have found : (x.foundBy goneVisit).revision = some "a" := rfl
  have busy : (gone.filtered "py").isEmpty = false := by decide
  have done : blindProject.updateDependencies (.flat .empty) (modules.restamp none) (gone.filtered "py") =
      .ok ⟨.empty, 1, 0, none⟩ := rfl
  have ran := (ready.foundBy goneVisit).run found busy done
  exact congrArg SiteReport.dependencies ran

private theorem visit_countedVisit (x : Site) : (blindProject.visit countedVisit x).1 =
    .metrics (.ok ⟨.full, some "a", counts.restamp none⟩) := by
  have ran : (blindProject.analyzeMetrics (surroundings unknown) false (x.foundBy countedVisit)).1 = _ :=
    run_of_unknown blindProject.metricsAnalysis fun _ _ => rfl
  have full : blindProject.metricsAnalysis.full (x.foundBy countedVisit).tree = .ok counts := full_oneLine.2
  rw [full] at ran
  exact congrArg SiteReport.metrics ran

private theorem visits_incremental : (blindProject.visits [keptVisit, goneVisit, countedVisit] sharedSite).1 =
    [.dependencies (.ok ⟨.full, some "a", modules.restamp none⟩),
      .dependencies (.ok ⟨.incremental, some "a", .empty⟩),
      .metrics (.ok ⟨.full, some "a", counts.restamp none⟩)] := by
  have unfolded : (blindProject.visits [keptVisit, goneVisit, countedVisit] sharedSite).1 =
      [(blindProject.visit keptVisit sharedSite).1,
        (blindProject.visit goneVisit (blindProject.visit keptVisit sharedSite).2).1,
        (blindProject.visit countedVisit
          (blindProject.visit goneVisit (blindProject.visit keptVisit sharedSite).2).2).1] := rfl
  rw [unfolded, visit_countedVisit, visit_keptVisit, visit_goneVisit ready_keptSite]

theorem visits_tallied_incremental :
    (blindProject.visits [keptVisit, goneVisit, countedVisit] sharedSite).1 =
        [.dependencies (.ok ⟨.full, some "a", modules.restamp none⟩),
          .dependencies (.ok ⟨.incremental, some "a", .empty⟩),
          .metrics (.ok ⟨.full, some "a", counts.restamp none⟩)] ∧
      (∀ report ∈ (blindProject.visits [keptVisit, goneVisit, countedVisit] sharedSite).1, report.Tallied) ∧
      (blindProject.visits [keptVisit, goneVisit, countedVisit] sharedSite).2.Holds Aggregated ["p"] := by
  have vacant : ∀ directory, sharedSite.cache.directory = some directory →
      sharedSite.disk.IsFolder directory ["p"] fun _ => none := by
    intro directory located
    cases located
    exact FileSystem.isFolder_flat nofun
  refine ⟨visits_incremental, visits_tallied blindProject SnapshotCache.isNaming_entryName rfl vacant ?_⟩
  rw [visits_incremental]
  simp only [List.forall_mem_cons]
  refine ⟨?_, ?_, ?_, nofun⟩
  · rintro _ ⟨⟩
    exact ⟨by decide, fits_modules, by decide⟩
  · rintro _ ⟨⟩
    exact ⟨by decide, ⟨by decide, by decide, by decide, by decide, by decide, by decide⟩, by decide⟩
  · rintro _ ⟨⟩
    exact ⟨by decide, ⟨fits_counts, by decide⟩, by decide⟩

end Project
end ModuleGraph
