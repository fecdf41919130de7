import ModuleGraph.Analysis.Project
import ModuleGraph.Proofs.FileSystem.Flat
import ModuleGraph.Proofs.Import.Traversal

/-!
Line counts brought up to date. A full analysis gives the counts that each file's own bytes determine
(`fullMetrics_counts`). An update turns the counts of one tree into those of another, given what differs
between the two (`Counts.update`), so it ends where a full analysis would (`updateMetrics_eq_full`).
-/
namespace ModuleGraph
open ModuleGraph.Path Text

/-- The counts of a file with given bytes, if they are text. -/
def LineMetrics.ofBytes? (bytes : List UInt8) : Option LineMetrics :=
  (ofUtf8? bytes).map fun text => LineMetrics.ofSource text.toList

/-- The counts at names below a root, if there is a source file that can be read. -/
def SourceFilter.countsAt (f : SourceFilter) (root : Path) (names : List String)
    (content : Option (List UInt8)) : Option LineMetrics :=
  if f.accepts (ofNames names) = true ∧
      (root.join ⟨ofNames names⟩).text.utf8ByteSize ≤ FileSystem.pathLimit then
    content.bind LineMetrics.ofBytes?
  else none

/-- A snapshot holds the counts of the source files of a tree, which is given by what its files hold. -/
structure MetricsSnapshot.Counts (s : MetricsSnapshot) (f : SourceFilter) (root : Path)
    (content : List String → Option (List UInt8)) : Prop where
  at_names : ∀ names, AreNames names →
    s.files.get? (ofNames names) = f.countsAt root names (content names)
  elsewhere : ∀ id, (∀ names, AreNames names → id ≠ ofNames names) → s.files.get? id = none

namespace Project
variable {p : Project} {fs old new : FileSystem} {root : Path} {base : Location} {f : SourceFilter}
  {files : List SourceFile} {names : List String} {id : String} {m : LineMetrics}
  {s : MetricsSnapshot} {fresh : OrderedMap String LineMetrics} {deleted : SortedSet}

/-! ## Single steps -/

theorem ofFile_eq_ok_iff {path : Path} : LineMetrics.ofFile fs path = .ok m ↔
    ∃ bytes, fs.read path = .ok bytes ∧ LineMetrics.ofBytes? bytes = some m := by
  unfold LineMetrics.ofFile sourceText FileSystem.readText LineMetrics.ofBytes?
  cases fs.read path with
  | error e => simp [Except.map]
  | ok bytes => cases decoded : ofUtf8? bytes <;> simp [decoded, Except.map]

theorem toOption_eq_some_iff {ε α : Type} {answer : Except ε α} {a : α} :
    answer.toOption = some a ↔ answer = .ok a := by
  cases answer <;> simp [Except.toOption]

theorem get?_collectMetrics (ascending : SourceFilter.Ascending files) :
    (collectMetrics fs files).get? id = some m ↔
      ∃ file ∈ files, file.moduleId = id ∧ LineMetrics.ofFile fs file.path = .ok m := by
  let pair (file : SourceFile) : Option (String × LineMetrics) :=
    (LineMetrics.ofFile fs file.path).toOption.map fun metrics => (file.moduleId, metrics)
  have counted {file : SourceFile} {key : String} {value : LineMetrics} :
      pair file = some (key, value) ↔
        file.moduleId = key ∧ LineMetrics.ofFile fs file.path = .ok value := by
    simp only [pair, Option.map_eq_some_iff, toOption_eq_some_iff, Prod.mk.injEq]
    grind
  have distinct : ((files.filterMap pair).map Prod.fst).Nodup := by
    rw [List.Nodup, List.pairwise_map, List.pairwise_filterMap]
    have nodup := List.pairwise_map.mp ascending.nodup
    refine nodup.imp fun {a b} differ => ?_
    rintro ⟨key, value⟩ first ⟨key', value'⟩ second same
    exact differ (((counted.mp first).1.trans same).trans (counted.mp second).1.symm)
  rw [collectMetrics, OrderedMap.get?_ofList distinct, List.mem_filterMap]
  simp only [counted]

theorem get?_removeFiles : (removeFiles s deleted).files.get? id =
    if ∃ path ∈ deleted, normalised path = id then none else s.files.get? id := by
  have files (l : List String) (s : MetricsSnapshot) :
      (l.foldl (fun s path => s.remove (normalised path)) s).files =
        l.foldl (fun m path => m.erase (normalised path)) s.files := by
    induction l generalizing s with
    | nil => rfl
    | cons path rest ih => exact ih _
  rw [removeFiles, files, OrderedMap.get?_foldl_erase]
  rfl

theorem get?_removeStale : (removeStale s files fresh).files.get? id =
    if fresh.get? id = none ∧ ∃ file ∈ files, file.moduleId = id then none else s.files.get? id := by
  unfold removeStale
  induction files generalizing s with
  | nil => simp
  | cons file rest ih =>
    rw [List.foldl_cons, ih]
    by_cases kept : fresh.contains file.moduleId = true
    · have differ : fresh.get? id = none → file.moduleId ≠ id := by
        rintro missing rfl
        rw [OrderedMap.contains, missing] at kept
        cases kept
      rw [if_pos kept]
      by_cases missing : fresh.get? id = none <;> simp [missing, differ]
    · have missing := OrderedMap.contains_eq_false_iff.mp (Bool.eq_false_iff.mpr kept)
      rw [if_neg kept, MetricsSnapshot.remove]
      simp only [OrderedMap.get?_erase]
      by_cases same : file.moduleId = id
      · subst same
        simp [missing]
      · simp [same]

theorem get?_merge : (s.merge fresh).files.get? id = (fresh.get? id).or (s.files.get? id) :=
  OrderedMap.get?_insertAll

/-! ## Full analyses -/

theorem countsAt_eq_some_iff (tree : fs.IsTree root base) (ok : AreNames names) :
    f.countsAt root names (fs.contentBelow base names) = some m ↔
      f.accepts (ofNames names) = true ∧
        LineMetrics.ofFile fs (root.join ⟨ofNames names⟩) = .ok m := by
  have read (bytes : List UInt8) : fs.read (root.join ⟨ofNames names⟩) = .ok bytes ↔
      (root.join ⟨ofNames names⟩).text.utf8ByteSize ≤ FileSystem.pathLimit ∧
        fs.contentBelow base names = some bytes := tree.read_join_iff ok
  rw [ofFile_eq_ok_iff]
  simp only [SourceFilter.countsAt, Option.ite_none_right_eq_some, Option.bind_eq_some_iff, read]
  grind

/-- A full analysis gives the counts of the source files. -/
theorem fullMetrics_counts (compiled : p.sourceFilter = .ok f) (tree : fs.IsTree p.root base) :
    ∃ s, p.fullMetrics fs = .ok s ∧ s.Counts f p.root (fs.contentBelow base) := by
  obtain ⟨files, scanned, ascending, member⟩ := SourceFilter.scan_tree f tree
  refine ⟨MetricsSnapshot.empty.merge (collectMetrics fs files), ?_, ?_, ?_⟩
  · simp only [fullMetrics, compiled, scanned, bind, Except.bind]
  · intro names ok
    refine Option.ext fun m => ?_
    rw [get?_merge, MetricsSnapshot.empty, OrderedMap.get?_empty, Option.or_none,
      get?_collectMetrics ascending, countsAt_eq_some_iff tree ok]
    constructor
    · rintro ⟨file, inside, same, counted⟩
      obtain ⟨others, _, rfl, accepted⟩ := (member file).mp inside
      have same : ofNames others = ofNames names := same
      rw [← same]
      exact ⟨accepted, counted⟩
    · rintro ⟨accepted, counted⟩
      obtain ⟨bytes, read, _⟩ := ofFile_eq_ok_iff.mp counted
      obtain ⟨near, content⟩ := (tree.read_join_iff ok).mp read
      have walked : fs.IsWalked p.root base names :=
        ⟨by simp [content], FileSystem.isEntered_of_near tree.named ok near⟩
      exact ⟨.below p.root (ofNames names), (member _).mpr ⟨names, walked, rfl, accepted⟩, rfl, counted⟩
  · intro id elsewhere
    refine Option.eq_none_iff_forall_ne_some.mpr fun m => ?_
    rw [get?_merge, MetricsSnapshot.empty, OrderedMap.get?_empty, Option.or_none, Ne,
      get?_collectMetrics ascending]
    rintro ⟨file, inside, same, _⟩
    obtain ⟨names, walked, rfl, _⟩ := (member file).mp inside
    exact elsewhere names (tree.areNames_of_isSome walked.present) same.symm

/-! ## Updates -/

theorem ofPatterns_of_sourceFilter (compiled : p.sourceFilter = .ok f) :
    SourceFilter.ofPatterns p.settings.included p.settings.excluded p.settings.sourceExtension =
      .ok f := by
  unfold sourceFilter at compiled
  split at compiled
  · rename_i filter made
    cases compiled
    exact made
  · cases compiled

/-- The files that are looked at again. -/
theorem exists_selected_iff {names : List String} : (∃ file ∈ f.select fs root names, file.moduleId = id) ↔
    (∃ name ∈ names, normalised name = id) ∧ f.accepts id = true ∧
      fs.isFile (root.join ⟨id⟩) = true := by
  constructor
  · rintro ⟨file, member, rfl⟩
    obtain ⟨shape, wanted, accepted, present⟩ := SourceFilter.mem_select.mp member
    rw [shape] at present
    exact ⟨wanted, accepted, present⟩
  · rintro ⟨wanted, accepted, present⟩
    exact ⟨.below root id, SourceFilter.mem_select.mpr ⟨rfl, wanted, accepted, present⟩, rfl⟩

/-- What an update leaves at an id: the counts that were taken again, or nothing if the file was
    deleted, or the old counts. -/
theorem get?_updateMetrics (fs : FileSystem) (s : MetricsSnapshot) (c : ChangeSet) (compiled : p.sourceFilter = .ok f) :
    ∃ updated, p.updateMetrics fs s c = .ok updated ∧ ∀ id, updated.files.get? id =
      if (∃ name ∈ c.changedFiles, normalised name = id) ∧ f.accepts id = true ∧
          fs.isFile (p.root.join ⟨id⟩) = true then
        (LineMetrics.ofFile fs (p.root.join ⟨id⟩)).toOption
      else if ∃ path ∈ c.deleted, normalised path = id then none
      else s.files.get? id := by
  let files := f.select fs p.root c.changedFiles.toList
  let fresh := collectMetrics fs files
  refine ⟨(removeStale (removeFiles s c.deleted) files fresh).merge fresh, ?_, fun id => ?_⟩
  · simp only [updateMetrics, compiled, bind, Except.bind, files, fresh]
  have counted {m : LineMetrics} : fresh.get? id = some m ↔
      ∃ file ∈ files, file.moduleId = id ∧ LineMetrics.ofFile fs file.path = .ok m :=
    get?_collectMetrics SourceFilter.ascending_select
  rw [get?_merge, get?_removeStale, get?_removeFiles]
  have selected : (∃ file ∈ files, file.moduleId = id) ↔
      (∃ name ∈ c.changedFiles.toList, normalised name = id) ∧ f.accepts id = true ∧
        fs.isFile (p.root.join ⟨id⟩) = true := exists_selected_iff
  simp only [SortedSet.mem_toList] at selected
  by_cases again : ∃ file ∈ files, file.moduleId = id
  · have same : fresh.get? id = (LineMetrics.ofFile fs (p.root.join ⟨id⟩)).toOption := by
      refine Option.ext fun m => ?_
      rw [counted, toOption_eq_some_iff]
      constructor
      · rintro ⟨file, member, rfl, read⟩
        rwa [(SourceFilter.mem_select.mp member).1] at read
      · intro read
        obtain ⟨file, member, rfl⟩ := again
        refine ⟨file, member, rfl, ?_⟩
        rwa [(SourceFilter.mem_select.mp member).1]
    rw [if_pos (selected.mp again), same]
    cases (LineMetrics.ofFile fs (p.root.join ⟨id⟩)).toOption <;> simp [again]
  · have missing : fresh.get? id = none := by
      refine Option.eq_none_iff_forall_ne_some.mpr fun m found => again ?_
      obtain ⟨file, member, same, _⟩ := counted.mp found
      exact ⟨file, member, same⟩
    rw [if_neg fun wanted => again (selected.mpr wanted), missing, Option.none_or,
      if_neg fun stale => again stale.2]

/-- A file that is neither looked at again nor deleted has the same counts in both states. -/
private theorem countsAt_of_unchanged {before after : Option (List UInt8)} (compiled : p.sourceFilter = .ok f)
    (ok : AreNames names)
    (same : ¬((ChangeSet.endsInExtension p.settings.sourceExtension (ofNames names) = true ∧ after.isSome ∧
      before ≠ after) ∧ f.accepts (ofNames names) = true ∧
        (p.root.join ⟨ofNames names⟩).text.utf8ByteSize ≤ FileSystem.pathLimit ∧ after.isSome))
    (kept : ¬(ChangeSet.endsInExtension p.settings.sourceExtension (ofNames names) = true ∧ before.isSome ∧
      after = none)) :
    f.countsAt p.root names before = f.countsAt p.root names after := by
  by_cases counted : f.accepts (ofNames names) = true ∧
      (p.root.join ⟨ofNames names⟩).text.utf8ByteSize ≤ FileSystem.pathLimit
  · have ends := SourceFilter.endsInExtension_of_accepts (ofPatterns_of_sourceFilter compiled) ok counted.1
    have equal : before = after := by
      by_contra differ
      cases after with
      | none => exact kept ⟨ends, Option.isSome_iff_ne_none.mpr differ, rfl⟩
      | some bytes => exact same ⟨⟨ends, rfl, differ⟩, counted.1, counted.2, rfl⟩
    rw [equal]
  · rw [SourceFilter.countsAt, SourceFilter.countsAt, if_neg counted, if_neg counted]

/-- An update turns the counts of one tree into those of another one. -/
theorem updateMetrics_counts {c : ChangeSet} {oldBase newBase : Location}
    (compiled : p.sourceFilter = .ok f) (oldTree : old.IsTree p.root oldBase)
    (newTree : new.IsTree p.root newBase)
    (precise : c.Between (old.contentBelow oldBase) (new.contentBelow newBase))
    (counts : s.Counts f p.root (old.contentBelow oldBase)) :
    ∃ updated, p.updateMetrics new s (c.filtered p.settings.sourceExtension) = .ok updated ∧
      updated.Counts f p.root (new.contentBelow newBase) := by
  have newNames names : (new.contentBelow newBase names).isSome → AreNames names :=
    newTree.areNames_of_isSome
  have oldNames names : (old.contentBelow oldBase names).isSome → AreNames names :=
    oldTree.areNames_of_isSome
  obtain ⟨updated, done, found⟩ :=
    get?_updateMetrics new s (c.filtered p.settings.sourceExtension) compiled
  refine ⟨updated, done, ?_, ?_⟩
  · intro names ok
    have changed := precise.changed_names_iff p.settings.sourceExtension newNames ok
    have deleted := precise.deleted_names_iff p.settings.sourceExtension oldNames ok
    have present := newTree.isFile_join_iff ok
    rw [found, counts.at_names names ok]
    split
    · -- The file is looked at again.
      rename_i again
      refine Option.ext fun m => ?_
      rw [countsAt_eq_some_iff newTree ok, toOption_eq_some_iff]
      exact (and_iff_right again.2.1).symm
    rename_i same
    rw [changed, present] at same
    split
    · -- The file was deleted.
      rename_i gone
      rw [(deleted.mp gone).2.2]
      simp [SourceFilter.countsAt]
    rename_i kept
    rw [deleted] at kept
    exact countsAt_of_unchanged compiled ok same kept
  · intro id elsewhere
    rw [found, counts.elsewhere id elsewhere, if_neg, ite_self]
    rintro ⟨changed, _⟩
    obtain ⟨_, names, ok, same, _⟩ := (precise.exists_changed_iff newNames).mp changed
    exact elsewhere names ok same

theorem counts_get?_eq {other : MetricsSnapshot} {content : List String → Option (List UInt8)}
    (counts : s.Counts f root content) (counts' : other.Counts f root content) (id : String) :
    s.files.get? id = other.files.get? id := by
  by_cases elsewhere : ∀ names, AreNames names → id ≠ ofNames names
  · rw [counts.elsewhere id elsewhere, counts'.elsewhere id elsewhere]
  · push Not at elsewhere
    obtain ⟨names, ok, rfl⟩ := elsewhere
    rw [counts.at_names names ok, counts'.at_names names ok]

/-- Given exactly the files that differ between two trees, an update of the counts of the first tree
    gives what a full analysis of the second one gives, and so the same totals. -/
theorem updateMetrics_eq_full (p : Project) {old new : FileSystem} {oldBase newBase : Location}
    {c : ChangeSet} {s : MetricsSnapshot} (oldTree : old.IsTree p.root oldBase)
    (newTree : new.IsTree p.root newBase)
    (precise : c.Between (old.contentBelow oldBase) (new.contentBelow newBase))
    (first : p.fullMetrics old = .ok s) :
    ∃ updated full, p.updateMetrics new s (c.filtered p.settings.sourceExtension) = .ok updated ∧
      p.fullMetrics new = .ok full ∧ (∀ id, updated.files.get? id = full.files.get? id) ∧
      ∀ stamp stamp', (updated.restamp stamp).totalFiles = (full.restamp stamp').totalFiles ∧
        (updated.restamp stamp).totalLines = (full.restamp stamp').totalLines := by
  cases compiled : p.sourceFilter with
  | error e => simp [fullMetrics, compiled, bind, Except.bind] at first
  | ok f =>
    obtain ⟨s', first', counts⟩ := fullMetrics_counts compiled oldTree
    cases first.symm.trans first'
    obtain ⟨updated, done, counts'⟩ := updateMetrics_counts compiled oldTree newTree precise counts
    obtain ⟨full, done', counts''⟩ := fullMetrics_counts compiled newTree
    have same := counts_get?_eq counts' counts''
    refine ⟨updated, full, done, done', same, fun stamp stamp' => ⟨?_, ?_⟩⟩
    · exact OrderedMap.size_eq_of_get?_eq same
    · exact congrArg (· % wordLimit) (OrderedMap.total_values_eq LineMetrics.lines fun id => by rw [same id])

/-- A project with the default settings. -/
def plain : Project := ⟨⟨"/p"⟩, default, Python.lineExtractor, .ready⟩

/-- Bytes that are no text, and a line of code. -/
def countedBefore : OrderedMap String (List UInt8) := .ofList [("a.py", [0xff]), ("b.py", [0x78])]

/-- A line of code in place of the bytes, one file gone and another one come. -/
def countedAfter : OrderedMap String (List UInt8) := .ofList [("a.py", [0x78]), ("c.py", [0x78])]

theorem updateMetrics_eq_full_flat :
    ∃ s, plain.fullMetrics (FileSystem.flat countedBefore) = .ok s ∧
      ∃ updated full, plain.updateMetrics (FileSystem.flat countedAfter) s
          ((ChangeSet.ofFlat countedBefore countedAfter).filtered plain.settings.sourceExtension) =
            .ok updated ∧
        plain.fullMetrics (FileSystem.flat countedAfter) = .ok full ∧
        (∀ id, updated.files.get? id = full.files.get? id) ∧
        ∀ stamp stamp', (updated.restamp stamp).totalFiles = (full.restamp stamp').totalFiles ∧
          (updated.restamp stamp).totalLines = (full.restamp stamp').totalLines := by
  have oldTree : (FileSystem.flat countedBefore).IsTree plain.root ["p"] :=
    FileSystem.isTree_flat (by decide)
  have newTree : (FileSystem.flat countedAfter).IsTree plain.root ["p"] :=
    FileSystem.isTree_flat (by decide)
  obtain ⟨f, compiled⟩ : ∃ f, plain.sourceFilter = .ok f := ⟨_, rfl⟩
  obtain ⟨s, first, _⟩ := fullMetrics_counts compiled oldTree
  refine ⟨s, first, updateMetrics_eq_full plain oldTree newTree ?_ first⟩
  rw [FileSystem.contentBelow_flat, FileSystem.contentBelow_flat]
  exact ChangeSet.between_flat

end Project
end ModuleGraph
