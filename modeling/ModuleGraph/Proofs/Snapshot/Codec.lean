import ModuleGraph.Proofs.Binary.Truncation
import ModuleGraph.Proofs.Cache.Lookup
import ModuleGraph.Proofs.FileSystem.Flat
import ModuleGraph.Snapshot.Codec

/-!
The bytes of snapshots, of keys and of entries. All of them are decoded as what was written, whatever follows,
and none of their parts that end early is decoded (`SnapshotCache.formats_faithful`). So a write that was torn is
taken for a miss: the store neither answers with a snapshot from such a file (`SnapshotCache.lookup_torn`) nor
lists keys from such a manifest (`SnapshotCache.readManifest_torn`).
-/
namespace ModuleGraph

/-! ## Sizes -/

/-- The texts of a commit are short enough for their lengths to be written. -/
def Commit.Fits (c : Commit) : Prop :=
  ∀ part ∈ [c.revision, c.author, c.date, c.summary], part.utf8ByteSize < Codec.wordLimit

instance (c : Commit) : Decidable c.Fits := inferInstanceAs (Decidable (∀ _ ∈ _, _))

/-- The counts are numbers of 64 bits. -/
def LineMetrics.Fits (m : LineMetrics) : Prop :=
  ∀ count ∈ [m.lines, m.codeLines, m.commentLines, m.blankLines, m.functions, m.classes], count < Codec.wordLimit

instance (m : LineMetrics) : Decidable m.Fits := inferInstanceAs (Decidable (∀ _ ∈ _, _))

/-- The texts and lists of a snapshot are short enough for their lengths to be written, and its totals are
    numbers of 64 bits. -/
structure DependencySnapshot.Fits (s : DependencySnapshot) : Prop where
  size : s.dependencies.size < Codec.wordLimit
  ids : ∀ entry ∈ s.dependencies.entries, entry.1.utf8ByteSize < Codec.wordLimit
  targets : ∀ entry ∈ s.dependencies.entries, entry.2.length < Codec.wordLimit ∧
    ∀ target ∈ entry.2, target.utf8ByteSize < Codec.wordLimit
  moduleCount : s.moduleCount < Codec.wordLimit
  totalDependencies : s.totalDependencies < Codec.wordLimit
  lastUpdated : ∀ commit ∈ s.lastUpdated, commit.Fits

/-- The texts of a snapshot and their number are small enough for their lengths to be written, and its counts
    are numbers of 64 bits. -/
structure MetricsSnapshot.Fits (s : MetricsSnapshot) : Prop where
  size : s.files.size < Codec.wordLimit
  ids : ∀ entry ∈ s.files.entries, entry.1.utf8ByteSize < Codec.wordLimit
  counts : ∀ entry ∈ s.files.entries, entry.2.Fits
  totalFiles : s.totalFiles < Codec.wordLimit
  totalLines : s.totalLines < Codec.wordLimit
  lastUpdated : ∀ commit ∈ s.lastUpdated, commit.Fits

/-! ## Reading back -/

theorem Commit.readsBack_codec {c : Commit} (fits : c.Fits) : codec.ReadsBack c := by
  simp only [Fits, List.forall_mem_cons] at fits
  obtain ⟨revision, author, date, summary, -⟩ := fits
  exact .via rfl (.pair (Codec.readsBack_text revision) (.pair (Codec.readsBack_text author)
    (.pair (Codec.readsBack_text date) (Codec.readsBack_text summary))))

theorem Commit.ignoresRest_codec : codec.IgnoresRest :=
  .via _ _ (.pair Codec.ignoresRest_text (.pair Codec.ignoresRest_text
    (.pair Codec.ignoresRest_text Codec.ignoresRest_text)))

theorem LineMetrics.readsBack_codec {m : LineMetrics} (fits : m.Fits) : codec.ReadsBack m := by
  simp only [Fits, List.forall_mem_cons] at fits
  obtain ⟨lines, codeLines, commentLines, blankLines, functions, classes, -⟩ := fits
  exact .via rfl (.pair (Codec.readsBack_word lines) (.pair (Codec.readsBack_word codeLines)
    (.pair (Codec.readsBack_word commentLines) (.pair (Codec.readsBack_word blankLines)
      (.pair (Codec.readsBack_word functions) (Codec.readsBack_word classes))))))

theorem LineMetrics.ignoresRest_codec : codec.IgnoresRest :=
  .via _ _ (.pair Codec.ignoresRest_word (.pair Codec.ignoresRest_word (.pair Codec.ignoresRest_word
    (.pair Codec.ignoresRest_word (.pair Codec.ignoresRest_word Codec.ignoresRest_word)))))

theorem DependencySnapshot.readsBack_codec {s : DependencySnapshot} (fits : s.Fits) : codec.ReadsBack s := by
  have modules : (Codec.text.map Codec.text.list).ReadsBack s.dependencies := by
    refine .map (fun entry member => ⟨Codec.readsBack_text (fits.ids entry member), ?_⟩) fits.size
    obtain ⟨length, each⟩ := fits.targets entry member
    exact .list (fun target listed => Codec.readsBack_text (each target listed)) length
  have stamp : Commit.codec.option.ReadsBack s.lastUpdated :=
    .option fun commit stamped => Commit.readsBack_codec (fits.lastUpdated commit stamped)
  exact .via rfl (.pair modules (.pair (Codec.readsBack_word fits.moduleCount)
    (.pair (Codec.readsBack_word fits.totalDependencies) stamp)))

theorem DependencySnapshot.ignoresRest_codec : codec.IgnoresRest :=
  .via _ _ (.pair (.map Codec.ignoresRest_text Codec.ignoresRest_text.list) (.pair Codec.ignoresRest_word
    (.pair Codec.ignoresRest_word Commit.ignoresRest_codec.option)))

theorem MetricsSnapshot.readsBack_codec {s : MetricsSnapshot} (fits : s.Fits) : codec.ReadsBack s := by
  have files : (Codec.text.map LineMetrics.codec).ReadsBack s.files :=
    .map (fun entry member => ⟨Codec.readsBack_text (fits.ids entry member),
      LineMetrics.readsBack_codec (fits.counts entry member)⟩) fits.size
  have stamp : Commit.codec.option.ReadsBack s.lastUpdated :=
    .option fun commit stamped => Commit.readsBack_codec (fits.lastUpdated commit stamped)
  exact .via rfl (.pair files (.pair (Codec.readsBack_word fits.totalFiles)
    (.pair (Codec.readsBack_word fits.totalLines) (.pair (Codec.readsBack_float _) stamp))))

theorem MetricsSnapshot.ignoresRest_codec : codec.IgnoresRest :=
  .via _ _ (.pair (.map Codec.ignoresRest_text LineMetrics.ignoresRest_codec) (.pair Codec.ignoresRest_word
    (.pair Codec.ignoresRest_word (.pair Codec.ignoresRest_float Commit.ignoresRest_codec.option))))

theorem CacheKey.ignoresRest_codec : codec.IgnoresRest :=
  .via _ _ (.pair Codec.ignoresRest_text Codec.ignoresRest_text)

namespace SnapshotCache
variable {c : SnapshotCache} {fs : FileSystem} {key owner : CacheKey} {snapshot : List UInt8}

theorem faithful_entryCodec (fits : key.Fits) (short : snapshot.length < Codec.wordLimit) :
    entryCodec.Faithful (key, snapshot) :=
  (readsBack_entryCodec fits short).faithful (CacheKey.ignoresRest_codec.pair Codec.ignoresRest_blob)

theorem faithful_manifest {keys : List CacheKey} (fits : ∀ key ∈ keys, key.Fits)
    (count : keys.length < Codec.wordLimit) : CacheKey.codec.list.Faithful keys :=
  (Codec.ReadsBack.list (fun key member => CacheKey.readsBack_codec (fits key member)) count).faithful
    CacheKey.ignoresRest_codec.list

/-! ## Torn writes -/

/-- A part of what is written for a value that ends early is all that a file holds. -/
def Torn (fs : FileSystem) (path : Path) (written : List UInt8) : Prop :=
  ∃ front, fs.read path = .ok front ∧ front <+: written ∧ front ≠ written

/-- The file of an entry whose write was torn holds no snapshot, be it of the key that was written or of
    another one. -/
theorem lookup_torn (fits : owner.Fits) (short : snapshot.length < Codec.wordLimit)
    (torn : ∀ path ∈ c.entryPath key, Torn fs path (entryCodec.write (owner, snapshot))) :
    c.lookup fs key = c.memory.get? key := by
  have unread : (c.readEntry fs key).toOption.join = none := by
    rw [readEntry]
    cases located : c.entryPath key with
    | none => rfl
    | some path =>
      obtain ⟨front, held, early, differ⟩ := torn path located
      have undecoded := (faithful_entryCodec fits short).decode_truncated front early differ
      simp only [held, undecoded]
      split <;> rfl
  rw [lookup_eq, unread, Option.or_none]

theorem readManifest_torn {directory : Path} {keys : List CacheKey} (fits : ∀ key ∈ keys, key.Fits)
    (count : keys.length < Codec.wordLimit)
    (torn : Torn fs (manifestPath directory) (CacheKey.codec.list.write keys)) : readManifest fs directory = [] := by
  obtain ⟨front, held, early, differ⟩ := torn
  rw [readManifest, held]
  simp only [(faithful_manifest fits count).decode_truncated front early differ, Option.getD_none]

/-! ## All formats -/

/-- Snapshots, manifests and entries are decoded as what was written, whatever follows, and none of their parts
    that end early is decoded. A manifest whose write was torn lists no keys, and an entry whose write was torn is
    a miss for any key that has its file. -/
theorem formats_faithful :
    (∀ s : DependencySnapshot, s.Fits → DependencySnapshot.codec.Faithful s) ∧
    (∀ s : MetricsSnapshot, s.Fits → MetricsSnapshot.codec.Faithful s) ∧
    (∀ keys : List CacheKey, (∀ key ∈ keys, key.Fits) → keys.length < Codec.wordLimit →
      CacheKey.codec.list.Faithful keys ∧
      ∀ fs directory, Torn fs (manifestPath directory) (CacheKey.codec.list.write keys) →
        readManifest fs directory = []) ∧
    (∀ (owner : CacheKey) (snapshot : List UInt8), owner.Fits → snapshot.length < Codec.wordLimit →
      entryCodec.Faithful (owner, snapshot) ∧
      ∀ (c : SnapshotCache) fs key, (∀ path ∈ c.entryPath key, Torn fs path (entryCodec.write (owner, snapshot))) →
        c.lookup fs key = c.memory.get? key) := by
  refine ⟨?_, ?_, ?_, ?_⟩
  · intro s fits
    exact (DependencySnapshot.readsBack_codec fits).faithful DependencySnapshot.ignoresRest_codec
  · intro s fits
    exact (MetricsSnapshot.readsBack_codec fits).faithful MetricsSnapshot.ignoresRest_codec
  · intro keys fits count
    exact ⟨faithful_manifest fits count, fun fs directory => readManifest_torn fits count⟩
  · intro owner snapshot fits short
    exact ⟨faithful_entryCodec fits short, fun c fs key => lookup_torn fits short⟩

private def writtenModules : DependencySnapshot :=
  ⟨.ofList [("a.py", ["b.py", "\u00fc.py"]), ("b.py", [])], 2, 2, some ⟨"r1", "A", "2024", "first"⟩⟩

/-- The average is a pattern of bits that stands for no number. -/
private def writtenCounts : MetricsSnapshot := ⟨.ofList [("a.py", ⟨3, 2, 1, 0, 1, 0⟩)], 1, 3, ⟨0x7ff8000000000001⟩, none⟩

private def writtenKey : CacheKey := .of .metrics "r1"

private def tornManifest : List UInt8 := [1, 0, 0, 0, 0, 0, 0, 0, 16]

private def tornEntry : List UInt8 := [16, 0, 0, 0]

/-- What is left of a manifest and of an entry. -/
private def tornContent : OrderedMap String (List UInt8) :=
  .ofList [(manifestName, tornManifest), (writtenKey.entryName, tornEntry)]

/-- A directory in which every write was torn. -/
private def tornFiles : FileSystem := .flat tornContent

private theorem read_tornFiles {name : String} {bytes : List UInt8} (named : Path.IsName name)
    (short : name.utf8ByteSize ≤ FileSystem.nameLimit) (held : tornContent.get? name = some bytes) :
    tornFiles.read (Path.join ⟨"/p"⟩ ⟨name⟩) = .ok bytes := by
  have fits : ∀ name ∈ tornContent.keys, name.utf8ByteSize ≤ FileSystem.nameLimit := by decide +kernel
  exact ((FileSystem.isFolder_flat fits).read_iff named short).mpr held

theorem formats_faithful_torn :
    (DependencySnapshot.codec.decode (DependencySnapshot.codec.write writtenModules ++ [0]) = some writtenModules ∧
      DependencySnapshot.codec.decode (DependencySnapshot.codec.write writtenModules).dropLast = none) ∧
    (MetricsSnapshot.codec.decode (MetricsSnapshot.codec.write writtenCounts ++ [0]) = some writtenCounts ∧
      MetricsSnapshot.codec.decode (MetricsSnapshot.codec.write writtenCounts).dropLast = none) ∧
    readManifest tornFiles ⟨"/p"⟩ = [] ∧
    { inMemory with directory := some ⟨"/p"⟩ }.lookup tornFiles writtenKey = none := by
  obtain ⟨modules, counts, manifest, entry⟩ := formats_faithful
  refine ⟨?_, ?_, ?_, ?_⟩
  · have faithful := modules writtenModules
      ⟨by decide, by decide, by decide, by decide, by decide, by decide⟩
    exact ⟨faithful.decode_append _, faithful.decode_truncated _ (List.dropLast_prefix _) (by decide +kernel)⟩
  · have faithful := counts writtenCounts
      ⟨by decide, by decide, by decide, by decide, by decide, by decide⟩
    exact ⟨faithful.decode_append _, faithful.decode_truncated _ (List.dropLast_prefix _) (by decide +kernel)⟩
  · refine (manifest [writtenKey] (by decide) (by decide)).2 _ _ ⟨tornManifest, ?_, by decide +kernel, by decide +kernel⟩
    exact read_tornFiles (by decide) (by decide) (by decide +kernel)
  · refine (entry writtenKey [1, 2, 3] (by decide) (by decide)).2 _ _ _ ?_
    intro path located
    obtain rfl : Path.join ⟨"/p"⟩ ⟨writtenKey.entryName⟩ = path := Option.some.inj located
    refine ⟨tornEntry, ?_, by decide +kernel, by decide +kernel⟩
    exact read_tornFiles (CacheKey.isName_entryName _) (CacheKey.entryName_fits _) (by decide +kernel)

end SnapshotCache
end ModuleGraph
