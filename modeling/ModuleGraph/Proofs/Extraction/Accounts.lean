import ModuleGraph.Proofs.Extraction.Edges
import ModuleGraph.Proofs.Extraction.Isolation

/-!
No import is lost and none is invented. What a graph knows of a file whose imports are read, and what is reported
of the file, is what the answers to the questions of its imports give, in order (`Pipeline.accounts_ofOutcomes`).
So every import leaves something (`Pipeline.Accounts.isKept`), however the project is extracted
(`Pipeline.extract_accounts`).
-/
namespace ModuleGraph
open ModuleGraph.Path

/-- Of the edges of an outcome to one target the first is kept. -/
theorem Outcome.entries_links (o : Outcome) :
    o.links.entries = o.edges.eraseDupsBy fun edge other => edge.1 == other.1 :=
  (OrderedMap.entries_foldl_insertNew_empty o.edges Prod.fst Prod.snd).trans (List.map_id _)

theorem fst_mem_eraseDupsBy {edges : List (String × EdgeLabel)} {edge : String × EdgeLabel} (member : edge ∈ edges) :
    edge.1 ∈ (edges.eraseDupsBy fun edge other => edge.1 == other.1).map Prod.fst := by
  have target : edge.1 ∈ Outcome.targets ⟨"", none, edges, [], [], []⟩ :=
    Outcome.mem_targets_iff.mpr ⟨edge, member, rfl⟩
  rwa [Outcome.targets, OrderedMap.keys, Outcome.entries_links] at target

/-- An import of a file has left an edge, a record of its module or a failure. -/
def Import.IsKept (i : Import) (top : Path) (file : SourceFile)
    (answer : Query → Except ResolutionError Resolution) (g : Graph) (failures : List FileFailure) : Prop :=
  (∃ edge ∈ i.edges top file.path answer, edge.1 ∈ g.dependencies file.moduleId) ∨
  (∃ name ∈ i.recorded file.path answer .external, ∃ names, g.externalOf? file.moduleId = some names ∧
    name ∈ names) ∨
  (∃ name ∈ i.recorded file.path answer .unresolved, name ∈ g.unresolvedOf file.moduleId) ∨
  ∃ failure ∈ i.failures file.moduleId file.path answer, failure ∈ failures

namespace Pipeline
variable {fs : FileSystem} {root top : Path} {f : SourceFilter} {file : SourceFile} {files : List SourceFile}
  {imports : List Import} {i : Import} {g : Graph} {failures : List FileFailure} {p : Pipeline}

/-- What a graph knows of a file and what is reported of it are what the imports of the file give, where each is
    looked up as if it were the only one. -/
structure Accounts (p : Pipeline) (fs : FileSystem) (top : Path) (file : SourceFile) (imports : List Import)
    (g : Graph) (failures : List FileFailure) : Prop where
  asked : (Extraction.inquiry fs p.extractor top file).queries (Extraction.answer fs p.settings top) =
    imports.flatMap (·.asked file.path (Extraction.answer fs p.settings top))
  edges : (g.edgesOf file.moduleId).entries =
    (imports.flatMap (·.edges top file.path (Extraction.answer fs p.settings top))).eraseDupsBy
      fun edge other => edge.1 == other.1
  unresolved : g.unresolvedOf file.moduleId =
    imports.flatMap (·.recorded file.path (Extraction.answer fs p.settings top) .unresolved)
  external : g.externalOf? file.moduleId =
    if imports.flatMap (·.recorded file.path (Extraction.answer fs p.settings top) .external) = [] then none
    else some (imports.flatMap
      (·.recorded file.path (Extraction.answer fs p.settings top) .external)).eraseDups
  reported : failures.filter (·.file = file.moduleId) =
    imports.flatMap (·.failures file.moduleId file.path (Extraction.answer fs p.settings top))

/-- Every import leaves something. -/
theorem Accounts.isKept (accounts : p.Accounts fs top file imports g failures) (member : i ∈ imports) :
    i.IsKept top file (Extraction.answer fs p.settings top) g failures := by
  rcases i.leaves file.moduleId top file.path (Extraction.answer fs p.settings top) with some | some | some | some
  · obtain ⟨edge, there⟩ := List.exists_mem_of_ne_nil _ some
    refine .inl ⟨edge, there, ?_⟩
    have edges : g.dependencies file.moduleId = (g.edgesOf file.moduleId).entries.map Prod.fst := rfl
    rw [edges, accounts.edges]
    exact fst_mem_eraseDupsBy (List.mem_flatMap.mpr ⟨i, member, there⟩)
  · obtain ⟨name, there⟩ := List.exists_mem_of_ne_nil _ some
    have inside := List.mem_flatMap.mpr ⟨i, member, there⟩
    refine .inr (.inl ⟨name, there, _, ?_, List.mem_eraseDups.mpr inside⟩)
    rw [accounts.external, if_neg (List.ne_nil_of_mem inside)]
  · obtain ⟨name, there⟩ := List.exists_mem_of_ne_nil _ some
    refine .inr (.inr (.inl ⟨name, there, ?_⟩))
    rw [accounts.unresolved]
    exact List.mem_flatMap.mpr ⟨i, member, there⟩
  · obtain ⟨failure, there⟩ := List.exists_mem_of_ne_nil _ some
    have inside := List.mem_flatMap.mpr ⟨i, member, there⟩
    rw [← accounts.reported] at inside
    exact .inr (.inr (.inr ⟨failure, there, (List.mem_filter.mp inside).1⟩))

/-- The outcomes of distinct files account for the imports of each of them. -/
theorem accounts_ofOutcomes (p : Pipeline) (top : Path) (nodup : (files.map (·.moduleId)).Nodup) (member : file ∈ files)
    (read : p.extractor fs file.path = .ok imports) :
    p.Accounts fs top file imports
      (.ofOutcomes (files.map (Extraction.outcome fs p.settings p.extractor top)))
      ((files.map (Extraction.outcome fs p.settings p.extractor top)).flatMap (·.failures)) := by
  let answer := Extraction.answer fs p.settings top
  let outcome := Extraction.outcome fs p.settings p.extractor top
  have own : outcome file = (Outcome.ofImports top file (.ok imports)).run answer :=
    congrArg (fun told => (Outcome.ofImports top file told).run answer) read
  rw [Outcome.run_ofImports_eq] at own
  have distinct : ((files.map outcome).map (·.moduleId)).Nodup := by
    rwa [Extraction.moduleIds_outcomes]
  have listed : outcome file ∈ files.map outcome := List.mem_map_of_mem member
  have id : (outcome file).moduleId = file.moduleId := Extraction.moduleId_outcome file
  constructor
  case asked =>
    rw [Extraction.inquiry, read]
    exact Outcome.queries_ofImports imports
  case edges =>
    rw [← id, Graph.edgesOf_ofOutcomes distinct listed]
    refine (outcome file).entries_links.trans ?_
    rw [own]
  case unresolved =>
    rw [← id, Graph.unresolvedOf_ofOutcomes distinct listed, own]
  case external =>
    rw [← id, Graph.externalOf?_ofOutcomes distinct listed, OrderedSet.toList_ofList_eq, own]
  case reported =>
    rw [List.flatMap_map]
    refine (Extraction.failures_of_mem nodup member).trans ?_
    exact congrArg Outcome.failures own

/-- Of each file whose imports are read, a graph and what is reported account for every import. -/
def KeepsImports (p : Pipeline) (fs : FileSystem) (top : Path) (files : List SourceFile) (g : Graph)
    (failures : List FileFailure) : Prop :=
  ∀ file ∈ files, ∀ imports, p.extractor fs file.path = .ok imports →
    p.Accounts fs top file imports g failures ∧
    ∀ i ∈ imports, i.IsKept top file (Extraction.answer fs p.settings top) g failures

theorem keepsImports_of_lists (p : Pipeline) (named : fs.WellNamed)
    (found : Extraction.canonicalRoot fs root = .ok top) (listed : f.Lists fs top files) {outcomes : List Outcome}
    (run : outcomes = Extraction.run fs p.settings p.extractor top files ∨
      ∃ schedule, Extraction.scheduled fs p.settings p.extractor top files schedule = some outcomes) :
    p.KeepsImports fs top files (.ofOutcomes outcomes) (outcomes.flatMap (·.failures)) := by
  intro file member imports read
  have each : outcomes = files.map (Extraction.outcome fs p.settings p.extractor top) := by
    rw [← List.map_congr_left fun file _ => Extraction.alone_eq_outcome file]
    rcases run with rfl | ⟨schedule, done⟩
    · exact (Extraction.scheduled_eq_alone p.extractor p.settings named found listed []).1
    · exact (Extraction.scheduled_eq_alone p.extractor p.settings named found listed schedule).2.1 outcomes done
  have accounts := p.accounts_ofOutcomes top (listed.ascending named).nodup member read
  rw [each]
  exact ⟨accounts, fun i => accounts.isKept⟩

/-- No import of a file is lost and none is invented, whether all source files of a project are extracted or some of
    them, one after the other or in turns. -/
theorem extract_accounts (p : Pipeline) (named : fs.WellNamed) :
    (∀ included excluded, (p.extractWith fs root included excluded).1 = .ok g →
      ∃ top f files, Extraction.canonicalRoot fs root = .ok top ∧
        SourceFilter.ofPatterns included excluded p.settings.sourceExtension = .ok f ∧
        f.scan? fs top = some files ∧
        p.KeepsImports fs top files g (p.extractWith fs root included excluded).2.failures) ∧
    (∀ names, (p.extractFiles fs root names).1 = .ok g →
      ∃ top f, Extraction.canonicalRoot fs root = .ok top ∧
        SourceFilter.ofPatterns p.settings.included p.settings.excluded p.settings.sourceExtension = .ok f ∧
        p.KeepsImports fs top (f.select fs top names) g (p.extractFiles fs root names).2.failures) ∧
    ∀ top f files schedule outcomes, Extraction.canonicalRoot fs root = .ok top →
      SourceFilter.Lists f fs top files →
      Extraction.scheduled fs p.settings p.extractor top files schedule = some outcomes →
      (p.settle (.ok outcomes)).1 = .ok g → p.KeepsImports fs top files g (p.settle (.ok outcomes)).2.failures := by
  refine ⟨fun included excluded extracted => ?_, fun names extracted => ?_,
    fun top f files schedule outcomes found listed done settled => ?_⟩
  · obtain ⟨top, f, files, found, compiled, scanned⟩ := exists_files_of_extractWith extracted
    rw [p.extractWith_eq found compiled scanned] at extracted ⊢
    obtain ⟨rfl, failures⟩ := settle_eq_ok extracted
    rw [failures]
    exact ⟨top, f, files, found, compiled, scanned, p.keepsImports_of_lists named found (.scanned scanned) (.inl rfl)⟩
  · obtain ⟨top, f, found, compiled⟩ := exists_filter_of_extractFiles extracted
    rw [p.extractFiles_eq found compiled names] at extracted ⊢
    obtain ⟨rfl, failures⟩ := settle_eq_ok extracted
    rw [failures]
    exact ⟨top, f, found, compiled, p.keepsImports_of_lists named found (.selected names) (.inl rfl)⟩
  · obtain ⟨rfl, failures⟩ := settle_eq_ok settled
    rw [failures]
    exact p.keepsImports_of_lists named found listed (.inr ⟨schedule, done⟩)

/-- Imports of a module, of a name beside it that is missing, and of something outside the project. -/
private def mixedExtractor : Extractor := fun _ _ =>
  .ok [⟨.relative, "", 1, 1, ["b", "lost"]⟩, ⟨.absolute, "b", 0, 2, []⟩, ⟨.absolute, "os", 0, 3, []⟩]

theorem extract_accounts_mutual :
    (FileSystem.flat mutualFiles).WellNamed ∧
    ∃ files g, SourceFilter.scan? ⟨none, [], "py"⟩ (.flat mutualFiles) ⟨"/p"⟩ = some files ∧
      .below ⟨"/p"⟩ "a.py" ∈ files ∧
      ((Pipeline.ofSettings default mixedExtractor .ready).extractWith (.flat mutualFiles) ⟨"/p"⟩ [] []).1 = .ok g ∧
      (Pipeline.ofSettings default mixedExtractor .ready).KeepsImports (.flat mutualFiles) ⟨"/p"⟩ files g
        ((Pipeline.ofSettings default mixedExtractor .ready).extractWith (.flat mutualFiles) ⟨"/p"⟩ [] []).2.failures := by
  have proper : ∀ name ∈ mutualFiles.keys, IsName name ∧ name.utf8ByteSize ≤ FileSystem.nameLimit := by
    decide
  have named : (FileSystem.flat mutualFiles).WellNamed := (FileSystem.isLinkFree_flat proper).wellNamed
  have tree := FileSystem.isTree_flat proper
  have root : Extraction.canonicalRoot (.flat mutualFiles) ⟨"/p"⟩ = .ok ⟨"/p"⟩ :=
    Extraction.canonicalRoot_of_tree ["p"] tree
  have filter : SourceFilter.ofPatterns [] [] "py" = .ok ⟨none, [], "py"⟩ := rfl
  obtain ⟨files, scanned, -, member⟩ := SourceFilter.scan_tree ⟨none, [], "py"⟩ tree
  have first : .below ⟨"/p"⟩ "a.py" ∈ files := by
    refine (member _).mpr ⟨["a.py"], ⟨?_, FileSystem.isEntered_singleton tree.stat_root _⟩, rfl, by decide⟩
    rw [FileSystem.contentBelow_flat]
    rfl
  have extracted := congrArg Prod.fst
    ((Pipeline.ofSettings default mixedExtractor .ready).extractWith_eq root filter scanned)
  obtain ⟨top, f, files', found, compiled, scanned', keeps⟩ :=
    ((Pipeline.ofSettings default mixedExtractor .ready).extract_accounts named).1 [] [] extracted
  cases root.symm.trans found
  cases filter.symm.trans compiled
  cases scanned.symm.trans scanned'
  exact ⟨named, files, _, scanned, first, extracted, keeps⟩

end Pipeline
end ModuleGraph
