import ModuleGraph.Proofs.Analysis.Totals

/-!
Runs that are repeated. A run leaves its revision written last, or else takes a snapshot of that revision over
without a write; either way the same analysis has nothing to bring up to date when it is run again at that revision
(`Site.settled_of_run`). Such a run only reads, so it leaves everything as it is for the next one
(`Project.visits_again`).
-/
namespace ModuleGraph

namespace Site
variable {α : Type} {a : Analysis α} {known : String → Prop} {changes : String → String → Option ChangeSet}
  {x y z : Site} {key : CacheKey} {bytes : List UInt8} {revision sourceExtension : String} {snapshot : α}
  {forced : Bool}

/-! ## Stores that work -/

/-- An orderly site whose store has room for a snapshot of each kind. -/
structure Working (known : String → Prop) (site : Site) : Prop extends site.Orderly known where
  room : 0 < site.cache.maxEntries

theorem maxEntries_ask (x : Site) (key : CacheKey) : (x.ask key).2.cache.maxEntries = x.cache.maxEntries := by
  have same : x.Same (fun _ => True) .metrics (x.ask key).2 := .ask x key
  exact same.maxEntries.symm

theorem Working.ask (working : x.Working known) (key : CacheKey) : (x.ask key).2.Working known := by
  refine ⟨working.toOrderly.ask key, ?_⟩
  rw [maxEntries_ask]
  exact working.room

theorem Working.keep (working : x.Working known) {kind : AnalysisKind} (asked : known revision)
    (smooth : (x.keep (.of kind revision) bytes).Smooth) : (x.keep (.of kind revision) bytes).Working known := by
  obtain ⟨cache, disk, done, kept⟩ := keep_of_smooth smooth
  rw [kept]
  refine ⟨working.toOrderly.keep asked done, ?_⟩
  obtain ⟨rfl, -⟩ := SnapshotCache.set_eq_ok done
  exact working.room

/-- A run during which the store does not fail leaves it working. -/
theorem Working.run (working : x.Working known)
    (smooth : (a.run (surroundings changes) sourceExtension forced x).2.Smooth) :
    (a.run (surroundings changes) sourceExtension forced x).2.Working known := by
  refine run_keeps known (P := fun y => y.Working known) (Q := fun y => y.Smooth → y.Working known)
    sourceExtension forced ?_ ?_ ?_ ?_ working smooth
  · intro y working
    exact ⟨working.revision, known_of_base working.toOrderly⟩
  · intro y key working
    exact working.ask key
  · intro y revision bytes working asked smooth
    exact working.keep asked smooth
  · intro y working _
    exact working

/-! ## Stores that are left as they are -/

/-- A site whose store has the same files, lists the same keys and answers the same for each of them. -/
structure Unchanged (x y : Site) : Prop where
  keys : y.cache.listKeys = x.cache.listKeys
  files : y.disk = x.disk
  snapshots : ∀ key, y.cache.lookup y.disk key = x.cache.lookup x.disk key

theorem Unchanged.refl (x : Site) : x.Unchanged x := ⟨rfl, rfl, fun _ => rfl⟩

theorem Unchanged.trans (first : x.Unchanged y) (second : y.Unchanged z) : x.Unchanged z :=
  ⟨second.keys.trans first.keys, second.files.trans first.files,
    fun key => (second.snapshots key).trans (first.snapshots key)⟩

theorem unchanged_ask (x : Site) (key : CacheKey) : x.Unchanged (x.ask key).2 := by
  obtain ⟨faults, asked⟩ := x.ask_eq key
  rw [asked]
  refine ⟨?_, rfl, fun other => SnapshotCache.lookup_get ..⟩
  rcases x.cache.get_cases x.disk key with same | ⟨found, -, remembered⟩
  · simp only [same]
  · simp only [remembered]
    rfl

/-- Asking for a snapshot that is there does not fail. -/
theorem faults_ask (found : x.cache.lookup x.disk key = some bytes) : (x.ask key).2.faults = x.faults := by
  have answered : (x.cache.get x.disk key).1 = .ok (some bytes) := by
    rw [SnapshotCache.lookup] at found
    rcases answer : (x.cache.get x.disk key).1 with e | _ | other <;> rw [answer] at found <;> cases found
    rfl
  change (noting { x with cache := (x.cache.get x.disk key).2 } (x.cache.get x.disk key).1).faults = x.faults
  rw [answered]
  rfl

/-- What asking keeps is kept by all that is read before an analysis. -/
theorem reads_keep {P : Site → Prop} (asking : ∀ x key, P x → P (x.ask key).2) (holds : P x)
    (reads : (surroundings changes).Reads x y) : P y := by
  induction reads with
  | here => exact holds
  | revision _ ih => exact ih
  | keys _ ih => exact ih
  | changes _ _ _ ih => exact ih
  | snapshot _ key ih => exact asking _ key ih

/-! ## Runs that have nothing to do -/

/-- A site at which the snapshot of a revision is held, and nothing that matters to an analysis has changed since the
    last key of its kind. -/
structure Settled (a : Analysis α) (changes : String → String → Option ChangeSet) (sourceExtension revision : String)
    (snapshot : α) (site : Site) : Prop where
  idle : ∃ last changed, (site.cache.listed a.kind.name).getLast? = some last ∧
    changes last.revision revision = some changed ∧ changed.paths.card ≤ 100 ∧
    (changed.filtered sourceExtension).isEmpty = true
  held : (site.cache.lookup site.disk (.of a.kind revision)).bind a.codec.decode = some snapshot

theorem Settled.of_unchanged (settled : x.Settled a changes sourceExtension revision snapshot)
    (unchanged : x.Unchanged y) : y.Settled a changes sourceExtension revision snapshot := by
  have listed : y.cache.listed a.kind.name = x.cache.listed a.kind.name :=
    congrArg (List.filter fun key : CacheKey => key.kind = a.kind.name) unchanged.keys
  constructor
  · rw [listed]
    exact settled.idle
  · rw [unchanged.snapshots]
    exact settled.held

/-- A run at a settled site takes the snapshot over and only asks for it. -/
theorem run_of_settled (settled : x.Settled a changes sourceExtension revision snapshot)
    (current : x.revision = some revision) : a.run (surroundings changes) sourceExtension false x =
      (.ok ⟨.incremental, some revision, snapshot⟩, (x.ask (.of a.kind revision)).2) := by
  obtain ⟨last, changed, based, told, few, idle⟩ := settled.idle
  have ready : x.Ready a changes revision snapshot changed := ⟨⟨last, based, told⟩, few, settled.held⟩
  rw [Analysis.run_of_course (ready.course current)]
  exact Analysis.runIncremental_of_idle idle

/-- A snapshot that is kept under a revision settles the site for it. -/
theorem settled_keep (working : x.Working known) (asked : known revision)
    (reflexive : changes revision revision = some .empty)
    (decoded : a.codec.decode (a.codec.write snapshot) = some snapshot)
    (smooth : (x.keep (.of a.kind revision) (a.codec.write snapshot)).Smooth) :
    (x.keep (.of a.kind revision) (a.codec.write snapshot)).Settled a changes sourceExtension revision snapshot := by
  have ready := Ready.of_keep working.toOrderly asked working.room reflexive (by decide) decoded smooth
  obtain ⟨last, based, told⟩ := ready.based
  exact ⟨⟨last, .empty, based, told, ready.few, rfl⟩, ready.held⟩

/-- A snapshot of the current revision that is loaded, with nothing that matters changed, settles the site for it. -/
theorem settled_of_loaded {current base : String} {changed : ChangeSet}
    (ready : (surroundings changes).Updatable a.kind forced x current base changed)
    (loaded : (a.loadLatest (surroundings changes) current base x).1 = some (snapshot, false))
    (idle : (changed.filtered sourceExtension).isEmpty = true) :
    x.Settled a changes sourceExtension current snapshot := by
  constructor
  · obtain ⟨revision, keys, listed, latest⟩ := Plan.based_iff.mp ready.toBased
    have based : (x.cache.listed a.kind.name).getLast?.map CacheKey.revision = some base := by
      rw [← latest, ← Option.some.inj listed]
      exact (congrArg Prod.fst (base_eq changes a.kind x)).symm
    obtain ⟨last, found, rfl⟩ := Option.map_eq_some_iff.mp based
    exact ⟨last, changed, found, ready.changed, ready.few, idle⟩
  · rcases a.loadLatest_cases (surroundings changes) current base x with ⟨found, first, same⟩ | ⟨-, same⟩
    · rw [same] at loaded
      cases loaded
      exact first
    · -- A snapshot of the base would say so.
      rw [same] at loaded
      obtain ⟨found, -, rebased⟩ := Option.map_eq_some_iff.mp loaded
      cases rebased

/-- A run at a revision, which is that of the site, leaves a site at which the same analysis has nothing to do at that
    revision. -/
theorem settled_of_run (working : x.Working known) {run : AnalysisRun α}
    (done : a.run (surroundings changes) sourceExtension forced x = (.ok run, y)) (smooth : y.Smooth)
    (dated : run.revision = some revision) (reflexive : changes revision revision = some .empty)
    (decoded : a.codec.decode (a.codec.write run.snapshot) = some run.snapshot) :
    x.revision = some revision ∧ y.Settled a changes sourceExtension revision run.snapshot := by
  obtain ⟨course, between, decided, reads, outcome⟩ := a.course_cases (surroundings changes) forced x
  have working' : between.Working known := reads_keep (fun y key working => working.ask key) working reads
  have unchanged : x.Unchanged between :=
    reads_keep (fun y key unchanged => unchanged.trans (unchanged_ask y key)) (.refl x) reads
  have written (asked : known revision)
      (kept : between.keep (.of a.kind revision) (a.codec.write run.snapshot) = y) :
      y.Settled a changes sourceExtension revision run.snapshot := by
    subst kept
    exact settled_keep working' asked reflexive decoded smooth
  rw [Analysis.run_of_course decided] at done
  cases computed : a.computed between.tree sourceExtension course with
  | error e => cases (Analysis.follow_of_error computed).symm.trans done
  | ok fresh =>
    rcases outcome with ⟨rfl, -⟩ | ⟨current, base, changed, snapshot, isBase, rfl, ready, loaded⟩
    · have full : a.full ((surroundings changes).files between) = .ok fresh := computed
      have followed := (Analysis.runFull_of_ok full).symm.trans done
      have told : ((surroundings changes).latestRevision x).1 = x.revision := rfl
      rw [told] at followed
      cases followed
      have current : x.revision = some revision := dated
      refine ⟨current, written (working.revision revision current) ?_⟩
      rw [current]
      rfl
    · have asked : known current := working.revision current ready.revision
      cases idle : (changed.filtered sourceExtension).isEmpty with
      | true =>
        cases (Analysis.runIncremental_of_idle idle).symm.trans done
        cases dated
        refine ⟨ready.revision, ?_⟩
        cases isBase with
        | true => exact written asked rfl
        | false => exact (settled_of_loaded ready loaded idle).of_unchanged unchanged
      | false =>
        rw [Analysis.computed, if_neg (by simp [idle])] at computed
        cases (Analysis.runIncremental_of_ok idle computed).symm.trans done
        cases dated
        exact ⟨ready.revision, written asked rfl⟩

/-- A run that succeeds at a revision, in terms of its result. -/
theorem settled_of_result (working : x.Working known) {result : Except RunError (AnalysisRun α)}
    (done : a.run (surroundings changes) sourceExtension forced x = (result, y)) (smooth : y.Smooth)
    (dated : result.toOption.bind (·.revision) = some revision) (reflexive : changes revision revision = some .empty)
    (decoded : ∀ run, result = .ok run → a.codec.decode (a.codec.write run.snapshot) = some run.snapshot) :
    x.revision = some revision ∧ ∃ run, result = .ok run ∧ run.revision = some revision ∧
      y.Settled a changes sourceExtension revision run.snapshot := by
  cases result with
  | error e => cases dated
  | ok run =>
    obtain ⟨current, settled⟩ := settled_of_run working done smooth dated reflexive (decoded run rfl)
    exact ⟨current, run, rfl, dated, settled⟩

theorem Working.foundBy (working : x.Working known) {v : Visit} (dated : ∀ revision ∈ v.revision, known revision) :
    (x.foundBy v).Working known :=
  ⟨⟨working.placed, working.named, working.listed, dated⟩, working.room⟩

/-- A run at a settled site, whatever its files are, reports the snapshot, and the store neither changes nor fails. -/
theorem Settled.run_foundBy (settled : x.Settled a changes sourceExtension revision snapshot) {v : Visit}
    (dated : v.revision = some revision) :
    (a.run (surroundings changes) sourceExtension false (x.foundBy v)).1 = .ok ⟨.incremental, some revision, snapshot⟩ ∧
      x.Unchanged (a.run (surroundings changes) sourceExtension false (x.foundBy v)).2 ∧
      (a.run (surroundings changes) sourceExtension false (x.foundBy v)).2.faults = x.faults := by
  have there : (x.foundBy v).Settled a changes sourceExtension revision snapshot := ⟨settled.idle, settled.held⟩
  rw [run_of_settled there dated]
  obtain ⟨bytes, found, -⟩ := Option.bind_eq_some_iff.mp there.held
  have unchanged := unchanged_ask (x.foundBy v) (.of a.kind revision)
  exact ⟨rfl, ⟨unchanged.keys, unchanged.files, unchanged.snapshots⟩, faults_ask found⟩

end Site

/-! ## Visits in a row -/

/-- A visit for the analysis of another one, at its revision and told the same changes. Nothing is forced, and the
    files may be others. -/
structure Visit.Again (first again : Visit) : Prop where
  kind : again.kind = first.kind
  revision : again.revision = first.revision
  changes : again.changes = first.changes
  unforced : again.forced = false

namespace SiteReport

/-- The revision of a run that succeeded at one. -/
def revision : SiteReport → Option String
  | .dependencies result => result.toOption.bind (·.revision)
  | .metrics result => result.toOption.bind (·.revision)

/-- The report of a run that takes the snapshot over. -/
def reused : SiteReport → SiteReport
  | .dependencies result => .dependencies (result.map fun run => { run with mode := .incremental })
  | .metrics result => .metrics (result.map fun run => { run with mode := .incremental })

/-- The snapshot that a run returned can be written. -/
def Fits : SiteReport → Prop
  | .dependencies result => ∀ run, result = .ok run → run.snapshot.Fits
  | .metrics result => ∀ run, result = .ok run → run.snapshot.Fits

end SiteReport

namespace Project
open Site
variable {p : Project} {known : String → Prop} {x after : Site} {v w : Visit} {runs repeats : List Visit}
  {changes : String → String → Option ChangeSet} {report : SiteReport} {revision : String}

theorem faults_visit (p : Project) (v : Visit) (x : Site) : x.faults ⊆ (p.visit v x).2.faults :=
  faults_report v.forced v.kind (x.foundBy v)

theorem faults_visits (p : Project) (runs : List Visit) (x : Site) : x.faults ⊆ (p.visits runs x).2.faults := by
  induction runs generalizing x with
  | nil => exact List.Subset.refl _
  | cons v rest ih => exact List.Subset.trans (p.faults_visit v x) (ih _)

theorem roomy_visit (roomy : x.Roomy) : (p.visit v x).2.Roomy := by
  have there : (x.foundBy v).Roomy := ⟨roomy.placed, roomy.short, roomy.smooth⟩
  rw [visit_eq]
  cases v.kind with
  | dependencies => exact roomy_run (a := p.dependencyAnalysis) v.forced _ there
  | metrics => exact roomy_run (a := p.metricsAnalysis) v.forced _ there

theorem roomy_visits (roomy : x.Roomy) : (p.visits runs x).2.Roomy := by
  induction runs generalizing x with
  | nil => exact roomy
  | cons v rest ih => exact ih (roomy_visit roomy)

theorem working_visit (working : x.Working known) (dated : ∀ revision ∈ v.revision, known revision)
    (smooth : (p.visit v x).2.Smooth) : (p.visit v x).2.Working known := by
  have there := working.foundBy dated
  rw [visit_eq] at smooth ⊢
  cases kind : v.kind with
  | dependencies =>
    rw [kind] at smooth
    exact there.run (a := p.dependencyAnalysis) smooth
  | metrics =>
    rw [kind] at smooth
    exact there.run (a := p.metricsAnalysis) smooth

theorem working_visits (working : x.Working known) (dated : ∀ v ∈ runs, ∀ revision ∈ v.revision, known revision)
    (smooth : (p.visits runs x).2.Smooth) : (p.visits runs x).2.Working known := by
  induction runs generalizing x with
  | nil => exact working
  | cons v rest ih =>
    have first : (p.visit v x).2.Smooth := smooth.of_subset (p.faults_visits rest _)
    exact ih (working_visit working (dated v List.mem_cons_self) first)
      (fun w member => dated w (List.mem_cons_of_mem _ member)) smooth

/-- A site at which the analysis of a report has nothing to do at its revision but to report the same snapshot. -/
def Settled (p : Project) (changes : String → String → Option ChangeSet) (revision : String) (site : Site) :
    SiteReport → Prop
  | .dependencies result => ∃ run, result = .ok run ∧ run.revision = some revision ∧
      site.Settled p.dependencyAnalysis changes p.settings.sourceExtension revision run.snapshot
  | .metrics result => ∃ run, result = .ok run ∧ run.revision = some revision ∧
      site.Settled p.metricsAnalysis changes p.settings.sourceExtension revision run.snapshot

theorem Settled.of_unchanged {y : Site} (settled : p.Settled changes revision x report) (unchanged : x.Unchanged y) :
    p.Settled changes revision y report := by
  cases report with
  | dependencies result =>
    obtain ⟨run, returned, dated, settled⟩ := settled
    exact ⟨run, returned, dated, settled.of_unchanged unchanged⟩
  | metrics result =>
    obtain ⟨run, returned, dated, settled⟩ := settled
    exact ⟨run, returned, dated, settled.of_unchanged unchanged⟩

/-- A visit that succeeds at a revision settles the site. -/
theorem settled_of_visit (working : x.Working known) (asked : ∀ revision ∈ v.revision, known revision)
    (smooth : (p.visit v x).2.Smooth) (reflexive : ∀ revision, v.changes revision revision = some .empty)
    (fits : (p.visit v x).1.Fits) (dated : (p.visit v x).1.revision = some revision) :
    v.revision = some revision ∧ p.Settled v.changes revision (p.visit v x).2 (p.visit v x).1 := by
  have there := working.foundBy asked
  rw [visit_eq] at smooth fits dated ⊢
  cases kind : v.kind with
  | dependencies =>
    rw [kind] at smooth fits dated
    exact settled_of_result (a := p.dependencyAnalysis) there rfl smooth dated (reflexive revision)
      fun run returned => (DependencySnapshot.readsBack_codec (fits run returned)).decode
  | metrics =>
    rw [kind] at smooth fits dated
    exact settled_of_result (a := p.metricsAnalysis) there rfl smooth dated (reflexive revision)
      fun run returned => (MetricsSnapshot.readsBack_codec (fits run returned)).decode

/-- A visit that finds a settled site reports the same snapshot, and the store neither changes nor fails. -/
theorem visit_of_settled (settled : p.Settled v.changes revision x report) (current : v.revision = some revision)
    (kind : report.kind = v.kind) (again : v.Again w) :
    (p.visit w x).1 = report.reused ∧ x.Unchanged (p.visit w x).2 ∧ (p.visit w x).2.faults = x.faults := by
  have dated : w.revision = some revision := again.revision.trans current
  rw [visit_eq, again.kind, again.changes, again.unforced, ← kind]
  cases report with
  | dependencies result =>
    obtain ⟨⟨mode, _, snapshot⟩, rfl, rfl, settled⟩ := settled
    obtain ⟨reported, unchanged⟩ := settled.run_foundBy dated
    exact ⟨congrArg SiteReport.dependencies reported, unchanged⟩
  | metrics result =>
    obtain ⟨⟨mode, _, snapshot⟩, rfl, rfl, settled⟩ := settled
    obtain ⟨reported, unchanged⟩ := settled.run_foundBy dated
    exact ⟨congrArg SiteReport.metrics reported, unchanged⟩

theorem visits_of_settled (settled : p.Settled v.changes revision x report) (current : v.revision = some revision)
    (kind : report.kind = v.kind) (again : ∀ w ∈ repeats, v.Again w) :
    (p.visits repeats x).1 = repeats.map (fun _ => report.reused) ∧ x.Unchanged (p.visits repeats x).2 ∧
      (p.visits repeats x).2.faults = x.faults := by
  induction repeats generalizing x with
  | nil => exact ⟨rfl, .refl x, rfl⟩
  | cons w rest ih =>
    obtain ⟨reported, unchanged, faults⟩ := visit_of_settled settled current kind (again w List.mem_cons_self)
    obtain ⟨later, unchanged', faults'⟩ := ih (settled.of_unchanged unchanged)
      fun w member => again w (List.mem_cons_of_mem _ member)
    have unfolded : p.visits (w :: rest) x =
        ((p.visit w x).1 :: (p.visits rest (p.visit w x).2).1, (p.visits rest (p.visit w x).2).2) := rfl
    rw [unfolded, reported, later]
    exact ⟨rfl, unchanged.trans unchanged', faults'.trans faults⟩

/-- Behind any visits to a site whose store works, once an analysis has succeeded at a revision, it takes the same
    snapshot over whenever it is run again at that revision without force, and neither the listed keys nor any snapshot
    or file of the store changes. -/
theorem visits_again (p : Project) (working : x.Working known)
    (asked : ∀ w ∈ v :: runs, ∀ revision ∈ w.revision, known revision)
    (first : p.visit v (p.visits runs x).2 = (report, after)) (smooth : after.Smooth)
    (reflexive : ∀ revision, v.changes revision revision = some .empty) (fits : report.Fits)
    (dated : report.revision = some revision) (again : ∀ w ∈ repeats, v.Again w) :
    (p.visits repeats after).1 = repeats.map (fun _ => report.reused) ∧ after.Unchanged (p.visits repeats after).2 ∧
      (p.visits repeats after).2.faults = after.faults := by
  have earlier : (p.visits runs x).2.Smooth := by
    refine smooth.of_subset ?_
    have kept := p.faults_visit v (p.visits runs x).2
    rwa [first] at kept
  have before : (p.visits runs x).2.Working known :=
    working_visits working (fun w member => asked w (List.mem_cons_of_mem _ member)) earlier
  have kind : report.kind = v.kind := by
    have told : (p.report v.changes v.forced v.kind ((p.visits runs x).2.foundBy v)).1.kind = v.kind := kind_report ..
    rwa [← visit_eq, first] at told
  obtain ⟨current, settled⟩ : v.revision = some revision ∧ p.Settled v.changes revision after report := by
    have found : (p.visit v (p.visits runs x).2).1.revision = some revision := by rwa [first]
    have settled := settled_of_visit before (asked v List.mem_cons_self) (by rwa [first]) reflexive (by rwa [first])
      found
    rwa [first] at settled
  exact visits_of_settled settled current kind again

/-- A history that only knows that a revision does not differ from itself. -/
private def told (old new : String) : Option ChangeSet := if old = new then some .empty else none

private def anewAt (revision : String) : Visit := ⟨.dependencies, true, .flat oneLine, some revision, none, told⟩

/-- The module is gone, but not from the revision. -/
private def againAt (revision : String) : Visit := ⟨.dependencies, false, .flat .empty, some revision, none, told⟩

private theorem visit_anewAt (revision : String) (x : Site) : (blindProject.visit (anewAt revision) x).1 =
    .dependencies (.ok ⟨.full, some revision, modules.restamp none⟩) := by
  have found : (x.foundBy (anewAt revision)).revision = some revision := rfl
  have ran := run_of_forced blindProject.dependencyAnalysis told blindProject.settings.sourceExtension found full_oneLine.1
  exact congrArg (fun ran => SiteReport.dependencies ran.1) ran

/-- A site behind two revisions. Its store keeps one snapshot of a kind, so that of the first revision is gone. -/
private def rewrittenSite : Site := (blindProject.visit (anewAt "b") (blindProject.visits [anewAt "a"] sharedSite).2).2

theorem visits_again_rewritten :
    sharedSite.Working (· ∈ ["a", "b"]) ∧ rewrittenSite.Smooth ∧ (anewAt "b").Again (againAt "b") ∧
      (blindProject.visits [againAt "b", againAt "b"] rewrittenSite).1 =
        List.replicate 2 (.dependencies (.ok ⟨.incremental, some "b", modules.restamp none⟩)) ∧
      rewrittenSite.Unchanged (blindProject.visits [againAt "b", againAt "b"] rewrittenSite).2 := by
  have working : sharedSite.Working (· ∈ ["a", "b"]) := ⟨orderly_sharedSite, by decide⟩
  have asked : ∀ w ∈ [anewAt "b", anewAt "a"], ∀ revision ∈ w.revision, revision ∈ ["a", "b"] := by
    simp [anewAt]
  have first : blindProject.visit (anewAt "b") (blindProject.visits [anewAt "a"] sharedSite).2 =
      (.dependencies (.ok ⟨.full, some "b", modules.restamp none⟩), rewrittenSite) := Prod.ext (visit_anewAt ..) rfl
  have smooth : rewrittenSite.Smooth := (roomy_visit (roomy_visits roomy_sharedSite)).smooth
  have reflexive : ∀ revision, (anewAt "b").changes revision revision = some .empty := by
    intro revision
    simp [anewAt, told]
  have fits : SiteReport.Fits (.dependencies (.ok ⟨.full, some "b", modules.restamp none⟩)) := by
    rintro _ ⟨⟩
    exact ⟨by decide, by decide, by decide, by decide, by decide, by decide⟩
  have again : (anewAt "b").Again (againAt "b") := ⟨rfl, rfl, rfl, rfl⟩
  have all : ∀ w ∈ [againAt "b", againAt "b"], (anewAt "b").Again w := by simpa using again
  obtain ⟨reports, unchanged, -⟩ :=
    blindProject.visits_again working asked first smooth reflexive fits rfl all
  exact ⟨working, smooth, again, reports, unchanged⟩

end Project
end ModuleGraph
