import ModuleGraph.Proofs.Candidates
import ModuleGraph.Proofs.Enumeration
import ModuleGraph.Proofs.Extraction.Edges
import ModuleGraph.Proofs.Extraction.Run
import ModuleGraph.Proofs.FileSystem.Flat

/-!
One file, one module. In a file system without links an import is resolved to the path that its file's location
spells, whatever route led there (`Extraction.EdgeTo.eq_moduleId`). So the target of an edge is the id that a scan
gives to the file, and edges have the same target just if they lead to the same file (`Pipeline.targets_extractWith`).
-/
namespace ModuleGraph
open ModuleGraph.Path Text

/-- Neither the module of an import nor its names contain a slash. -/
def Import.IsSlashFree (i : Import) : Prop :=
  '/' ∉ i.modulePath.toList ∧ ∀ name ∈ i.names, '/' ∉ name.toList

namespace Import
variable {i : Import} {source : Path} {answer : Query → Except ResolutionError Resolution} {q : Query}

theorem IsSlashFree.modulePath (clean : i.IsSlashFree) (member : q ∈ i.asked source answer) :
    '/' ∉ q.modulePath.toList := by
  rcases asked_cases member with rfl | ⟨name, listed, rfl⟩
  · exact clean.1
  · rw [nameQuery, Outcome.submodule]
    split
    · exact clean.2 name listed
    · simp [clean.1, clean.2 name listed]

end Import

theorem not_mem_dropLeadingDots {text : String} {c : Char} (clean : c ∉ text.toList) :
    c ∉ (dropLeadingDots text).toList := by
  rw [dropLeadingDots, String.toList_ofList]
  intro member
  exact clean ((List.dropWhile_sublist _).subset member)

theorem head?_dropLeadingDots (text : String) : (dropLeadingDots text).toList.head? ≠ some '.' := by
  rw [dropLeadingDots, String.toList_ofList]
  intro dot
  have kept := List.head?_dropWhile_not (· == '.') text.toList
  rw [dot] at kept
  cases kept

namespace Extraction
variable {fs : FileSystem} {settings : ExtractionSettings} {extractor : Extractor} {base loc : Location}
  {file : SourceFile} {target : String} {label : EdgeLabel} {names : List String} {entry : Entry}

/-- An import of a source file leads to the file at a location, and the edge for it to a target. -/
inductive EdgeTo (fs : FileSystem) (settings : ExtractionSettings) (extractor : Extractor) (top : Path)
    (source : SourceFile) : String → EdgeLabel → Location → Prop
  | of_import {imports i q path loc bytes} (read : extractor fs source.path = .ok imports) (listed : i ∈ imports)
      (asked : q ∈ i.asked source.path (answer fs settings top))
      (answered : answer fs settings top q = .ok (.resolved path)) (stands : fs.stat path = .ok (loc, .file bytes)) :
      EdgeTo fs settings extractor top source (moduleId top path) ⟨q.specifier, i.kind, i.line⟩ loc

/-- The edges of a file's outcome are those to files that its imports lead to. -/
theorem mem_edges_outcome_iff {top : Path} : (target, label) ∈ (outcome fs settings extractor top file).edges ↔
    ∃ loc, EdgeTo fs settings extractor top file target label loc := by
  unfold outcome inquiry
  cases read : extractor fs file.path with
  | error e =>
    rw [Outcome.ofImports_error]
    constructor
    · nofun
    · rintro ⟨loc, ⟨read', -, -, -, -⟩⟩
      rw [read] at read'
      cases read'
  | ok imports =>
    rw [Outcome.edges_run_ofImports, List.mem_flatMap]
    constructor
    · rintro ⟨i, listed, member⟩
      obtain ⟨q, asked, edge⟩ := List.mem_filterMap.mp member
      obtain ⟨path, answered, same⟩ := Import.edge?_eq_some_iff.mp edge
      cases same
      obtain ⟨-, -, -, isFile⟩ := Resolution.candidate_of_resolved answered
      unfold FileSystem.isFile at isFile
      split at isFile
      · rename_i loc bytes stands
        exact ⟨loc, .of_import read listed asked answered stands⟩
      · cases isFile
    · rintro ⟨loc, ⟨read', listed, asked, answered, -⟩⟩
      rw [read] at read'
      cases read'
      refine ⟨_, listed, List.mem_filterMap.mpr ⟨_, asked, ?_⟩⟩
      exact Import.edge?_eq_some_iff.mpr ⟨_, answered, rfl⟩

/-- A file of a tree has the path of its location. -/
theorem path_below (free : fs.IsLinkFree) (isName : ∀ name ∈ base, IsName name)
    (tree : fs.IsTree (FileSystem.locationPath base) base) (present : (fs.contentBelow base names).isSome) :
    (SourceFile.below (FileSystem.locationPath base) (ofNames names)).path =
        FileSystem.locationPath (names.reverse ++ base) ∧
      (∀ name ∈ names.reverse ++ base, IsName name) ∧ names ≠ [] := by
  obtain ⟨bytes, content⟩ := Option.isSome_iff_exists.mp present
  have ok := tree.areNames content
  have deep := free.wellNamed.entry _ _ (FileSystem.contentBelow_eq_some_iff.mp content)
  exact ⟨FileSystem.join_location isName ok, deep, ok.ne_nil⟩

theorem eq_of_stat_below (free : fs.IsLinkFree) (isName : ∀ name ∈ base, IsName name)
    (tree : fs.IsTree (FileSystem.locationPath base) base) (present : (fs.contentBelow base names).isSome)
    (reached : fs.stat (SourceFile.below (FileSystem.locationPath base) (ofNames names)).path = .ok (loc, entry)) :
    loc = names.reverse ++ base := by
  obtain ⟨written, deep, -⟩ := path_below free isName tree present
  rw [written] at reached
  have same := (free.stat_straight (FileSystem.isStraight_location deep) reached).1
  exact (FileSystem.location_injective deep (free.wellNamed.stat reached) same).symm

/-- In a file system without links the directory of a project stands where its path says. -/
theorem isTree_of_canonicalRoot {root top : Path} (free : fs.IsLinkFree) (found : canonicalRoot fs root = .ok top)
    (stands : fs.stat top = .ok (base, .directory)) :
    top = FileSystem.locationPath base ∧ (∀ name ∈ base, IsName name) ∧ fs.IsTree top base := by
  obtain ⟨loc, isName, rfl, -⟩ := exists_location_of_canonicalRoot free.wellNamed found
  have straight := FileSystem.isStraight_location isName
  have same := (free.stat_straight straight stands).1
  exact ⟨same, free.wellNamed.stat stands, free.isTree straight stands⟩

/-- An import of a file of a tree is resolved to a straight path. -/
private theorem isStraight_of_answered {q : Query} {path : Path}
    (free : fs.IsLinkFree) (isName : ∀ name ∈ base, IsName name)
    (tree : fs.IsTree (FileSystem.locationPath base) base) (present : (fs.contentBelow base names).isSome)
    (source : q.source = some (SourceFile.below (FileSystem.locationPath base) (ofNames names)).path)
    (clean : '/' ∉ q.modulePath.toList) (extension : '/' ∉ settings.sourceExtension.toList)
    (answered : answer fs settings (FileSystem.locationPath base) q = .ok (.resolved path)) : path.IsStraight := by
  obtain ⟨written, deep, filled⟩ := path_below free isName tree present
  rw [written] at source
  have inner : FileSystem.locationPath (names.reverse ++ base) ≠ ⟨"/"⟩ := by
    intro top
    have none : names.reverse ++ base = [] := FileSystem.location_injective deep (by simp) top
    simp [filled] at none
  exact Resolution.isStraight_of_resolved (fun root member => isStraight_of_mem_roots free.wellNamed isName member)
    source (FileSystem.isStraight_location deep) inner clean (not_mem_dropLeadingDots extension)
    (head?_dropLeadingDots _) answered

/-- Whatever route leads to a file, its id is that of its location. -/
theorem EdgeTo.eq_moduleId (free : fs.IsLinkFree) (isName : ∀ name ∈ base, IsName name)
    (tree : fs.IsTree (FileSystem.locationPath base) base) (present : (fs.contentBelow base names).isSome)
    (extension : '/' ∉ settings.sourceExtension.toList)
    (clean : ∀ imports, extractor fs (SourceFile.below (FileSystem.locationPath base) (ofNames names)).path =
      .ok imports → ∀ i ∈ imports, i.IsSlashFree)
    (edge : EdgeTo fs settings extractor (FileSystem.locationPath base)
      (.below (FileSystem.locationPath base) (ofNames names)) target label loc) :
    target = moduleId (FileSystem.locationPath base) (FileSystem.locationPath loc) ∧
      ∃ bytes, fs.entry? loc = some (.file bytes) ∧
        fs.stat (FileSystem.locationPath loc) = .ok (loc, .file bytes) := by
  cases edge with
  | @of_import imports i q path loc bytes read listed asked answered stands =>
    have straight := isStraight_of_answered free isName tree present (Import.source_of_mem_asked asked)
      ((clean imports read i listed).modulePath asked) extension answered
    obtain ⟨rfl, there⟩ := free.stat_straight straight stands
    exact ⟨rfl, bytes, there, stands⟩

end Extraction

/-- The targets of the edges of a graph are the ids of the files that the edges lead to: those of the scanned files,
    and one for each file. -/
structure Graph.NamesFiles (g : Graph) (fs : FileSystem) (f : SourceFilter) (base : Location)
    (files : List SourceFile) (edgeTo : SourceFile → String → EdgeLabel → Location → Prop) : Prop where
  exists_edgeTo : ∀ source target label, (g.edgesOf source).get? target = some label →
    ∃ file ∈ files, file.moduleId = source ∧ ∃ loc, edgeTo file target label loc
  hasEdge : ∀ file ∈ files, ∀ target label loc, edgeTo file target label loc →
    target ∈ g.dependencies file.moduleId
  exists_scanned : ∀ file ∈ files, ∀ target label names, edgeTo file target label (names.reverse ++ base) →
    f.accepts (ofNames names) = true → ∃ scanned ∈ files, scanned.moduleId = target ∧
      ∃ bytes, fs.stat scanned.path = .ok (names.reverse ++ base, .file bytes)
  eq_moduleId : ∀ file ∈ files, ∀ target label loc, edgeTo file target label loc →
    ∀ scanned ∈ files, ∀ entry, fs.stat scanned.path = .ok (loc, entry) → target = scanned.moduleId
  eq_iff : ∀ file ∈ files, ∀ target label loc, edgeTo file target label loc →
    ∀ file' ∈ files, ∀ target' label' loc', edgeTo file' target' label' loc' → (target = target' ↔ loc = loc')

namespace Pipeline
variable {fs : FileSystem} {root top : Path} {base : Location} {included excluded : List String} {f : SourceFilter}
  {files : List SourceFile}

/-- Of a project in a file system without links, which is extracted if the workers start, every edge leads to the id
    that the scan gives to the file, and edges lead to the same id just if they lead to the same file. -/
theorem targets_extractWith (p : Pipeline) (free : fs.IsLinkFree) (found : Extraction.canonicalRoot fs root = .ok top)
    (stands : fs.stat top = .ok (base, .directory))
    (compiled : SourceFilter.ofPatterns included excluded p.settings.sourceExtension = .ok f)
    (scanned : f.scan? fs top = some files) (extension : '/' ∉ p.settings.sourceExtension.toList)
    (clean : ∀ file ∈ files, ∀ imports, p.extractor fs file.path = .ok imports → ∀ i ∈ imports, i.IsSlashFree) :
    ∃ g, (p.extractWith fs root included excluded).1 = p.workers.perform p.settings.threads g ∧
      g.NamesFiles fs f base files (Extraction.EdgeTo fs p.settings p.extractor top) := by
  obtain ⟨rfl, isName, tree⟩ := Extraction.isTree_of_canonicalRoot free found stands
  obtain ⟨files', scanned', ascending, member, extracted⟩ := Extraction.whole_eq_map p.extractor found compiled tree
  cases scanned.symm.trans scanned'
  have located : ∀ file ∈ files, ∀ {target label found},
      Extraction.EdgeTo fs p.settings p.extractor (FileSystem.locationPath base) file target label found →
      target = moduleId (FileSystem.locationPath base) (FileSystem.locationPath found) ∧
        ∃ bytes, fs.entry? found = some (.file bytes) ∧
          fs.stat (FileSystem.locationPath found) = .ok (found, .file bytes) := by
    intro file listed target label found edge
    obtain ⟨names, ⟨present, -⟩, rfl, -⟩ := (member file).mp listed
    exact edge.eq_moduleId free isName tree present extension (clean _ listed)
  have nodup : ((files.map (Extraction.outcome fs p.settings p.extractor (FileSystem.locationPath base))).map
      (·.moduleId)).Nodup := by
    rw [Extraction.moduleIds_outcomes]
    exact ascending.nodup
  refine ⟨_, by rw [extractWith, extracted, settle_fst], ?_⟩
  constructor
  case exists_edgeTo =>
    intro source target label edge
    obtain ⟨o, listed, rfl, inside⟩ := Graph.exists_outcome_of_edge nodup edge
    obtain ⟨file, known, rfl⟩ := List.mem_map.mp listed
    exact ⟨file, known, (Extraction.moduleId_outcome file).symm, Extraction.mem_edges_outcome_iff.mp inside⟩
  case hasEdge =>
    intro file listed target label found edge
    have imported := Graph.dependencies_ofOutcomes nodup (List.mem_map_of_mem listed)
    rw [Extraction.moduleId_outcome] at imported
    rw [imported, Outcome.mem_targets_iff]
    exact ⟨_, Extraction.mem_edges_outcome_iff.mpr ⟨found, edge⟩, rfl⟩
  case exists_scanned =>
    intro file listed target label names edge accepted
    obtain ⟨rfl, bytes, there, reached⟩ := located file listed edge
    have deep := free.wellNamed.entry _ _ there
    have present : (fs.contentBelow base names).isSome := by
      rw [FileSystem.contentBelow_eq_some_iff.mpr there]
      rfl
    have written := (Extraction.path_below free isName tree present).1
    rw [← written] at reached
    have near := (FileSystem.leads_of_stat reached).2.2.1
    have entered := FileSystem.isEntered_of_near tree.named (tree.areNames_of_isSome present) near
    refine ⟨_, (member _).mpr ⟨names, ⟨present, entered⟩, rfl, accepted⟩, ?_, bytes, reached⟩
    rw [FileSystem.moduleId_location_below deep]
    rfl
  case eq_moduleId =>
    intro file listed target label found edge scanned known entry reached
    obtain ⟨names, ⟨present, -⟩, rfl, -⟩ := (member scanned).mp known
    cases Extraction.eq_of_stat_below free isName tree present reached
    rw [(located file listed edge).1, FileSystem.moduleId_location_below (free.wellNamed.stat reached)]
    rfl
  case eq_iff =>
    intro file listed target label found edge file' listed' target' label' found' edge'
    obtain ⟨rfl, bytes, there, -⟩ := located file listed edge
    obtain ⟨rfl, bytes', there', -⟩ := located file' listed' edge'
    constructor
    · exact FileSystem.moduleId_location_injective (free.wellNamed.entry _ _ there)
        (free.wellNamed.entry _ _ there') isName (tree.ne_of_file there) (tree.ne_of_file there')
    · rintro rfl
      rfl

/-- Two modules. -/
def neighbourFiles : OrderedMap String (List UInt8) := .ofList [("a.py", []), ("b.py", [])]

/-- Reads from every file that it imports one module in two ways. -/
def twiceExtractor : Extractor := fun _ _ => .ok [⟨.absolute, "b", 0, 1, []⟩, ⟨.relative, "", 1, 2, ["b"]⟩]

theorem targets_extractWith_neighbours :
    ∃ files g, SourceFilter.scan? ⟨none, [], "py"⟩ (.flat neighbourFiles) ⟨"/p"⟩ = some files ∧
      ((Pipeline.ofSettings default twiceExtractor .ready).extractWith (.flat neighbourFiles) ⟨"/p"⟩ [] []).1 = .ok g ∧
      g.NamesFiles (.flat neighbourFiles) ⟨none, [], "py"⟩ ["p"] files
        (Extraction.EdgeTo (.flat neighbourFiles) default twiceExtractor ⟨"/p"⟩) := by
  have proper : ∀ name ∈ neighbourFiles.keys, IsName name ∧ name.utf8ByteSize ≤ FileSystem.nameLimit := by
    decide
  have tree := FileSystem.isTree_flat proper
  have found : Extraction.canonicalRoot (.flat neighbourFiles) ⟨"/p"⟩ = .ok ⟨"/p"⟩ :=
    Extraction.canonicalRoot_of_tree ["p"] tree
  obtain ⟨files, scanned, -, -⟩ := SourceFilter.scan_tree ⟨none, [], "py"⟩ tree
  have clean : ∀ file ∈ files, ∀ imports, twiceExtractor (.flat neighbourFiles) file.path = .ok imports →
      ∀ i ∈ imports, i.IsSlashFree := by
    intro file _ imports read
    cases read
    unfold Import.IsSlashFree
    decide
  have compiled : SourceFilter.ofPatterns [] [] "py" = .ok ⟨none, [], "py"⟩ := rfl
  obtain ⟨g, extracted, names⟩ := (Pipeline.ofSettings default twiceExtractor .ready).targets_extractWith
    (FileSystem.isLinkFree_flat proper) found tree.stat_root compiled scanned (by decide) clean
  exact ⟨files, g, scanned, extracted, names⟩

end Pipeline
end ModuleGraph
