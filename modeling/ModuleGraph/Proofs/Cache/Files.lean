import ModuleGraph.Proofs.Cache.Key
import ModuleGraph.Proofs.Cache.Memory
import ModuleGraph.Proofs.FileSystem.Making

/-!
The directory of a store. It holds one file for each entry of a log, the manifest and nothing else
(`CacheLog.Holds`), and each operation that succeeds keeps it so (`CacheLog.StoredIn.set`, `clear`). So a
snapshot that is no longer remembered is read from its file (`CacheLog.StoredIn.get`), and a store that is
opened anew lists what was listed (`CacheLog.StoredIn.openAt`).
-/
namespace ModuleGraph
open ModuleGraph.Path

namespace SnapshotCache

/-- The name of the manifest. -/
def manifestName : String := "manifest.bincode"

theorem manifestPath_eq (directory : Path) : manifestPath directory = directory.join ⟨manifestName⟩ := rfl

/-- Keys have names that a file can have, and none has that of the manifest. -/
structure IsNaming (name : CacheKey → String) : Prop where
  isName : ∀ key, IsName (name key)
  fits : ∀ key, (name key).utf8ByteSize ≤ FileSystem.nameLimit
  ne_manifest : ∀ key, name key ≠ manifestName

theorem isNaming_entryName : IsNaming CacheKey.entryName :=
  ⟨CacheKey.isName_entryName, CacheKey.entryName_fits, CacheKey.entryName_ne_manifest⟩

/-- Keys with names of their own, with texts whose lengths can be written and as many as can be counted. -/
structure Distinguishes (name : CacheKey → String) (known : List CacheKey) : Prop where
  distinct : (known.map name).Nodup
  fits : ∀ key ∈ known, key.Fits
  count : known.length < Codec.wordLimit

theorem Distinguishes.injective {name : CacheKey → String} {known : List CacheKey} {a b : CacheKey}
    (distinguishes : Distinguishes name known) (left : a ∈ known) (right : b ∈ known) (same : name a = name b) :
    a = b :=
  List.inj_on_of_nodup_map distinguishes.distinct left right same

theorem isName_manifestName : IsName manifestName := by decide

theorem manifestName_fits : manifestName.utf8ByteSize ≤ FileSystem.nameLimit := by decide

theorem readsBack_entryCodec {key : CacheKey} {snapshot : List UInt8} (fits : key.Fits)
    (short : snapshot.length < Codec.wordLimit) : entryCodec.ReadsBack (key, snapshot) :=
  .pair (CacheKey.readsBack_codec fits) (Codec.readsBack_blob short)

variable {c c' : SnapshotCache} {fs fs' : FileSystem} {directory : Path} {loc : Location}
  {files : String → Option (List UInt8)} {key : CacheKey} {keys : List CacheKey} {snapshot : List UInt8}

/-- A manifest that was written lists the keys for which it was written. -/
theorem readManifest_of_read (fits : ∀ key ∈ keys, key.Fits) (few : keys.length < Codec.wordLimit)
    (content : fs.read (manifestPath directory) = .ok (CacheKey.codec.list.write keys)) :
    readManifest fs directory = keys := by
  have back : CacheKey.codec.list.ReadsBack keys :=
    .list (fun key member => CacheKey.readsBack_codec (fits key member)) few
  rw [readManifest, content]
  simp only [back.decode, Option.getD_some]

theorem entryPath_eq (located : c.directory = some directory) :
    c.entryPath key = some (directory.join ⟨c.entryName key⟩) := by
  rw [entryPath, located]
  rfl

theorem removeEntry_folder (naming : IsNaming c.entryName) (located : c.directory = some directory)
    (folder : fs.IsFolder directory loc files) (done : c.removeEntry fs key = .ok fs') :
    fs'.IsFolder directory loc (Function.update files (c.entryName key) none) := by
  rw [removeEntry, entryPath_eq located] at done
  simp only at done
  split at done
  · rename_i removed
    cases done
    exact folder.removeFile (naming.isName key) (naming.fits key) removed
  · rename_i missing
    cases done
    have held := folder.not_held (naming.isName key) (naming.fits key) missing
    rwa [Function.update_eq_self_iff.mpr held.symm]
  · cases done

/-- The files of keys that are forgotten are not held any more. -/
theorem forget_folder (naming : IsNaming c.entryName) (located : c.directory = some directory)
    (folder : fs.IsFolder directory loc files) (done : c.forget fs keys = (.ok (), c', fs')) :
    fs'.IsFolder directory loc fun name => if name ∈ keys.map c.entryName then none else files name := by
  induction keys generalizing c fs files with
  | nil =>
    cases done
    simpa using folder
  | cons key rest ih =>
    rw [forget] at done
    split at done
    · cases done
    rename_i removed
    have gone := ih (c := { c with memory := c.memory.erase key }) naming located
      (removeEntry_folder naming located folder removed) done
    convert gone using 2 with name
    by_cases same : name = c.entryName key <;> simp [same]

theorem writeEntry_folder (naming : IsNaming c.entryName) (located : c.directory = some directory)
    (folder : fs.IsFolder directory loc files) (done : c.writeEntry fs key snapshot = .ok fs') :
    fs'.IsFolder directory loc
      (Function.update files (c.entryName key) (some (entryCodec.write (key, snapshot)))) := by
  rw [writeEntry, entryPath_eq located] at done
  simp only at done
  split at done
  · rename_i stored
    cases done
    exact folder.write (naming.isName key) (naming.fits key) stored
  · cases done

theorem storeManifest_folder (located : c.directory = some directory)
    (folder : fs.IsFolder directory loc files) (done : c.storeManifest fs = .ok fs') :
    fs'.IsFolder directory loc
      (Function.update files manifestName (some (CacheKey.codec.list.write c.manifest))) := by
  rw [storeManifest, located] at done
  simp only at done
  split at done
  · rename_i stored
    cases done
    exact folder.write isName_manifestName manifestName_fits stored
  · cases done

/-- The snapshot in the file of a key depends only on what the directory holds at the key's name. -/
theorem readEntry_folder (naming : IsNaming c.entryName) (located : c.directory = some directory)
    (folder : fs.IsFolder directory loc files) : c.readEntry fs key =
      match files (c.entryName key) with
      | none => .ok none
      | some bytes =>
        match entryCodec.decode bytes with
        | none => .error .undecodable
        | some (stored, snapshot) => .ok (if stored = key then some snapshot else none) := by
  have isFile := folder.isFile_iff (naming.isName key) (naming.fits key)
  rw [readEntry, entryPath_eq located]
  simp only
  cases held : files (c.entryName key) with
  | none => rw [if_neg (by simp [isFile, held])]
  | some bytes =>
    have content := (folder.read_iff (naming.isName key) (naming.fits key)).mpr held
    refine (if_pos (isFile.mpr (by simp [held]))).trans ?_
    cases decoded : entryCodec.decode bytes with
    | none => simp only [content, decoded]
    | some there => simp only [content, decoded]

/-- The files behind a write: the new entry and the old ones without those that are dropped, and the new
    manifest. -/
theorem set_folder (naming : IsNaming c.entryName) (located : c.directory = some directory)
    (folder : fs.IsFolder directory loc files) (done : c.set fs key snapshot = (.ok (), c', fs')) :
    fs'.IsFolder directory loc (Function.update (fun other =>
      if other ∈ ((c.listing key snapshot).partitionKeys key.kind).2.map c.entryName then none
      else Function.update files (c.entryName key) (some (entryCodec.write (key, snapshot))) other)
      manifestName (some (CacheKey.codec.list.write (c.written key snapshot).manifest))) := by
  obtain ⟨rfl, stored, left, wrote, evicted, manifest⟩ := set_eq_ok done
  have folder₁ := writeEntry_folder naming located folder wrote
  rw [evict] at evicted
  have folder₂ := forget_folder (c := { c.listing key snapshot with
    manifest := ((c.listing key snapshot).partitionKeys key.kind).1 }) naming located folder₁ evicted
  exact storeManifest_folder (c := c.written key snapshot) located folder₂ manifest

private theorem forget_ok (keys : List CacheKey) (naming : IsNaming c.entryName)
    (located : c.directory = some directory) (folder : fs.IsFolder directory loc files)
    (fits : ∀ key, (directory.join ⟨c.entryName key⟩).text.utf8ByteSize ≤ FileSystem.pathLimit) :
    ∃ c' fs', c.forget fs keys = (.ok (), c', fs') := by
  induction keys generalizing c fs files with
  | nil => exact ⟨c, fs, rfl⟩
  | cons key rest ih =>
    have removed : ∃ fs', c.removeEntry fs key = .ok fs' := by
      rw [removeEntry, entryPath_eq located]
      rcases folder.removeFile_ok (naming.isName key) (naming.fits key) (fits key) with ⟨fs', done⟩ | missing
      · exact ⟨fs', by simp only [done]⟩
      · exact ⟨fs, by simp only [missing]⟩
    obtain ⟨left, done⟩ := removed
    have folder' := removeEntry_folder naming located folder done
    have done' : { c with memory := c.memory.erase key }.removeEntry fs key = .ok left := done
    rw [forget, done']
    exact ih (c := { c with memory := c.memory.erase key }) naming located folder' fits

/-- Where no path is too long, a snapshot can be written. -/
theorem set_ok (key : CacheKey) (snapshot : List UInt8) (naming : IsNaming c.entryName)
    (located : c.directory = some directory) (folder : fs.IsFolder directory loc files)
    (short : directory.text.utf8ByteSize + FileSystem.nameLimit < FileSystem.pathLimit) :
    ∃ c' fs', c.set fs key snapshot = (.ok (), c', fs') := by
  have fits {name : String} (named : name.utf8ByteSize ≤ FileSystem.nameLimit) :
      (directory.join ⟨name⟩).text.utf8ByteSize ≤ FileSystem.pathLimit :=
    FileSystem.utf8ByteSize_join_le_pathLimit short named
  obtain ⟨written, wrote⟩ := folder.write_ok (entryCodec.write (key, snapshot)) (naming.isName key)
    (naming.fits key) (fits (naming.fits key))
  have wrote' : c.writeEntry fs key snapshot = .ok written := by
    rw [writeEntry, entryPath_eq located]
    simp only [wrote]
  have folder₁ := writeEntry_folder naming located folder wrote'
  obtain ⟨c', left, forgot⟩ := forget_ok ((c.listing key snapshot).partitionKeys key.kind).2
    (c := { c.listing key snapshot with manifest := ((c.listing key snapshot).partitionKeys key.kind).1 })
    naming located folder₁ fun key => fits (naming.fits key)
  have folder₂ := forget_folder (c := { c.listing key snapshot with
    manifest := ((c.listing key snapshot).partitionKeys key.kind).1 }) naming located folder₁ forgot
  obtain ⟨final, stored'⟩ := folder₂.write_ok (CacheKey.codec.list.write c'.manifest)
    isName_manifestName manifestName_fits (fits manifestName_fits)
  have evicted : (c.listing key snapshot).evict written key.kind = (.ok (), c', left) := forgot
  have located' : c'.directory = some directory := by
    rw [forget_eq_ok forgot]
    exact located
  have manifest : c'.storeManifest left = .ok final := by
    rw [storeManifest, located']
    simp only [manifestPath_eq, stored']
  exact ⟨c', final, by rw [set_eq wrote' evicted, manifest]⟩

theorem clearDirectory_folder (folder : fs.IsFolder directory loc files)
    (done : clearDirectory fs directory = (.ok (), fs')) : fs'.IsFolder directory loc fun _ => none := by
  have there : fs.pathExists directory = true := by
    rw [FileSystem.pathExists, folder.stat]
    rfl
  rw [clearDirectory, if_pos there] at done
  split at done
  · cases done
  · rename_i removed
    split at done
    · cases done
    · rename_i made
      cases done
      exact folder.remake removed made

/-- Where the directory can be made when it is missing, all can be dropped. -/
theorem clear_ok (located : c.directory = some directory) (folder : fs.IsFolder directory loc files) (below : loc ≠ [])
    (remade : ∀ fs' : FileSystem, fs'.entry? loc = none → (fs'.makeDirectories directory).1 = none) :
    ∃ c' fs', c.clear fs = (.ok (), c', fs') := by
  have there : fs.pathExists directory = true := by
    rw [FileSystem.pathExists, folder.stat]
    rfl
  have removed : fs.removeTree directory = .ok (fs.dropTree loc) := by
    rw [FileSystem.removeTree, folder.leads]
  have gone : FileSystem.entry? (fs.dropTree loc) loc = none := by
    rw [FileSystem.entry?_dropTree, if_pos ⟨List.suffix_rfl, below⟩]
  rcases made : (fs.dropTree loc).makeDirectories directory with ⟨failed, fs'⟩
  have fine := remade _ gone
  rw [made] at fine
  subst fine
  have cleared : clearDirectory fs directory = (.ok (), fs') := by
    simp only [clearDirectory, there, if_true, removed, made]
  simp only [SnapshotCache.clear, located, cleared]
  exact ⟨_, _, rfl⟩

end SnapshotCache

namespace CacheLog
open SnapshotCache
variable {log : CacheLog} {c c' : SnapshotCache} {fs fs' : FileSystem} {directory : Path} {loc : Location}
  {name : CacheKey → String} {files : String → Option (List UInt8)} {known : List CacheKey}
  {key : CacheKey} {snapshot : List UInt8}

/-- The entries are of keys that are known, and their snapshots have lengths that can be written. -/
def Within (log : CacheLog) (known : List CacheKey) : Prop :=
  ∀ key snapshot, (key, snapshot) ∈ log.entries → key ∈ known ∧ snapshot.length < Codec.wordLimit

/-- What the directory of a store holds: the manifest, which may be missing while there are no entries, and
    a file for each entry. -/
structure Holds (log : CacheLog) (name : CacheKey → String) (files : String → Option (List UInt8)) : Prop where
  entry : ∀ key snapshot, (key, snapshot) ∈ log.entries →
    files (name key) = some (entryCodec.write (key, snapshot))
  manifest : files manifestName = none ∧ log.entries = [] ∨
    files manifestName = some (CacheKey.codec.list.write log.keys)
  only : ∀ other, (files other).isSome → other = manifestName ∨ ∃ key ∈ log.keys, other = name key

/-- A store with a directory and its files, as a log describes them. -/
structure StoredIn (log : CacheLog) (directory : Path) (loc : Location) (c : SnapshotCache) (fs : FileSystem) :
    Prop where
  describes : log.Describes c
  located : c.directory = some directory
  folder : ∃ files, fs.IsFolder directory loc files ∧ log.Holds c.entryName files

/-! ## Opening -/

theorem holds_nil (count : Nat) : Holds ⟨[], count⟩ name fun _ => none where
  entry key snapshot member := by cases member
  manifest := .inl ⟨rfl, rfl⟩
  only other present := by cases present

private theorem readManifest_eq (distinguishes : Distinguishes name known) (within : log.Within known)
    (distinct : log.keys.Nodup) (folder : fs.IsFolder directory loc files) (holds : log.Holds name files) :
    readManifest fs directory = log.keys := by
  have read (bytes : List UInt8) : fs.read (manifestPath directory) = .ok bytes ↔ files manifestName = some bytes :=
    folder.read_iff isName_manifestName manifestName_fits
  rcases holds.manifest with ⟨missing, none⟩ | stored
  · rw [readManifest]
    split
    · rename_i bytes found
      rw [(read bytes).mp found] at missing
      cases missing
    · rw [keys, none]
      rfl
  · have found : fs.read (manifestPath directory) = .ok (CacheKey.codec.list.write log.keys) :=
      (read _).mpr stored
    have listed : log.keys ⊆ known := fun key member => by
      obtain ⟨snapshot, entry⟩ := mem_keys_iff.mp member
      exact (within key snapshot entry).1
    have few := Nat.lt_of_le_of_lt (List.subperm_of_subset distinct listed).length_le distinguishes.count
    exact readManifest_of_read (fun key member => distinguishes.fits key (listed member)) few found

/-- A store that is opened where a log is held lists the keys of the log and remembers nothing. -/
theorem StoredIn.openAt (distinguishes : Distinguishes name known) (within : log.Within known)
    (distinct : log.keys.Nodup) (folder : fs.IsFolder directory loc files) (holds : log.Holds name files)
    (count : Nat) : ∃ opened, openAt fs directory = (.ok opened, fs) ∧
      opened.entryName = CacheKey.entryName ∧
      (log.withMaxEntries count).StoredIn directory loc
        { opened.withMaxEntries count with entryName := name } fs := by
  refine ⟨{ inMemory with manifest := log.keys, directory := some directory }, ?_, rfl, ⟨?_, rfl, files, folder, ?_⟩⟩
  · rw [SnapshotCache.openAt, FileSystem.makeDirectories_of_stat folder.stat]
    simp only [readManifest_eq distinguishes within distinct folder holds]
  · exact ⟨rfl, rfl, distinct, fun key snapshot found => by cases found⟩
  · exact ⟨holds.entry, holds.manifest, holds.only⟩

/-! ## Reading -/

private theorem readEntry_eq (naming : IsNaming c.entryName) (distinguishes : Distinguishes c.entryName known)
    (within : log.Within known) (stored : log.StoredIn directory loc c fs) :
    c.readEntry fs key = .ok (log.get key) := by
  obtain ⟨files, folder, holds⟩ := stored.folder
  have decoded {key : CacheKey} {snapshot : List UInt8} (member : (key, snapshot) ∈ log.entries) :
      entryCodec.decode (entryCodec.write (key, snapshot)) = some (key, snapshot) := by
    obtain ⟨member', short⟩ := within key snapshot member
    exact (readsBack_entryCodec (distinguishes.fits key member') short).decode
  have distinct := stored.describes.distinct
  rw [readEntry_folder naming stored.located folder]
  cases held : files (c.entryName key) with
  | none =>
    have unlisted : log.get key = none := by
      refine Option.eq_none_iff_forall_ne_some.mpr fun snapshot found => ?_
      have entry := holds.entry key snapshot ((get_eq_some_iff distinct).mp found)
      rw [held] at entry
      cases entry
    rw [unlisted]
  | some bytes =>
    -- The file is that of a listed key with this name, which may be another key.
    rcases holds.only _ (by rw [held]; rfl) with manifest | ⟨other, listed, same⟩
    · exact absurd manifest (naming.ne_manifest key)
    obtain ⟨snapshot, member⟩ := mem_keys_iff.mp listed
    have entry := holds.entry other snapshot member
    rw [← same, held] at entry
    cases entry
    simp only [decoded member]
    by_cases equal : other = key
    · subst equal
      rw [if_pos rfl, (get_eq_some_iff distinct).mpr member]
    · rw [if_neg equal]
      refine congrArg Except.ok (Eq.symm ((get_eq_none_iff distinct).mpr fun listed' => ?_))
      obtain ⟨value, member'⟩ := mem_keys_iff.mp listed'
      exact equal (distinguishes.injective (within _ _ member).1 (within _ _ member').1 same.symm)

/-- The snapshot of a key is that of the log, be it remembered or read from its file. -/
theorem StoredIn.get (key : CacheKey) (naming : IsNaming c.entryName) (distinguishes : Distinguishes c.entryName known)
    (within : log.Within known) (stored : log.StoredIn directory loc c fs) :
    ∃ c', c.get fs key = (.ok (log.get key), c') ∧ c'.entryName = c.entryName ∧
      log.StoredIn directory loc c' fs := by
  have distinct := stored.describes.distinct
  rw [SnapshotCache.get, readEntry_eq naming distinguishes within stored]
  cases remembered : c.memory.get? key with
  | some snapshot =>
    have member := stored.describes.remembered key snapshot remembered
    rw [(get_eq_some_iff distinct).mpr member]
    exact ⟨c, rfl, rfl, stored⟩
  | none =>
    cases found : log.get key with
    | none => exact ⟨c, rfl, rfl, stored⟩
    | some snapshot =>
      have member := (get_eq_some_iff distinct).mp found
      exact ⟨c.remember key snapshot, rfl, rfl, stored.describes.remember member, stored.located, stored.folder⟩

/-! ## Writing -/

theorem Within.set (within : log.Within known) (member : key ∈ known) (short : snapshot.length < Codec.wordLimit) :
    (log.set key snapshot).Within known := fun other value entry => by
  rcases mem_appended_iff.mp ((keepLatest_sublist _).subset entry) with ⟨rfl, rfl⟩ | ⟨_, old⟩
  · exact ⟨member, short⟩
  · exact within other value old

private theorem Within.appended (within : log.Within known) (member : key ∈ known) {other : CacheKey}
    (listed : other ∈ (log.appended key snapshot).map Prod.fst) : other ∈ known := by
  obtain ⟨⟨_, value⟩, entry, rfl⟩ := List.mem_map.mp listed
  rcases mem_appended_iff.mp entry with ⟨rfl, _⟩ | ⟨_, old⟩
  · exact member
  · exact (within _ value old).1

/-- The file of a key that is kept is not dropped, as no key that is dropped has its name. -/
private theorem name_not_dropped (distinguishes : Distinguishes name known) (within : log.Within known)
    (member : key ∈ known) (describes : log.Describes c) {other : CacheKey}
    (kept : other ∈ (log.set key snapshot).keys) :
    name other ∉ ((c.listing key snapshot).partitionKeys key.kind).2.map name := by
  intro dropped
  obtain ⟨gone, dropped, same⟩ := List.mem_map.mp dropped
  obtain ⟨listed, unkept⟩ := describes.mem_dropped_iff.mp dropped
  have known' := within.appended member (keys_set_subset kept)
  cases distinguishes.injective (within.appended member listed) known' same
  exact unkept kept

/-- The files behind a write: the new entry and the old ones without those that are dropped, and the new
    manifest. -/
private theorem Holds.set (naming : IsNaming name) (distinguishes : Distinguishes name known)
    (within : log.Within known) (member : key ∈ known) (describes : log.Describes c) (holds : log.Holds name files) :
    (log.set key snapshot).Holds name (Function.update (fun other =>
      if other ∈ ((c.listing key snapshot).partitionKeys key.kind).2.map name then none
      else Function.update files (name key) (some (entryCodec.write (key, snapshot))) other)
      manifestName (some (CacheKey.codec.list.write (log.set key snapshot).keys))) := by
  have distinct := describes.distinct
  refine ⟨fun other value entry => ?_, .inr (Function.update_self ..), fun other present => ?_⟩
  · have kept := mem_keys_iff.mpr ⟨value, entry⟩
    have known' := within.appended member (keys_set_subset kept)
    rw [Function.update_of_ne (naming.ne_manifest other),
      if_neg (name_not_dropped distinguishes within member describes kept)]
    rcases ((mem_entries_set_iff distinct).mp entry).2 with ⟨rfl, rfl⟩ | ⟨differ, old⟩
    · rw [Function.update_self]
    · rw [Function.update_of_ne fun same => differ (distinguishes.injective known' member same)]
      exact holds.entry other value old
  · by_cases manifest : other = manifestName
    · exact .inl manifest
    right
    rw [Function.update_of_ne manifest] at present
    split at present
    · cases present
    rename_i undropped
    have kept (listed : CacheKey) (appended : listed ∈ (log.appended key snapshot).map Prod.fst)
        (same : other = name listed) : listed ∈ (log.set key snapshot).keys := by
      by_contra unkept
      exact undropped (List.mem_map.mpr ⟨listed, describes.mem_dropped_iff.mpr ⟨appended, unkept⟩, same.symm⟩)
    by_cases new : other = name key
    · exact ⟨key, kept key (by rw [keys_appended]; simp) new, new⟩
    · rw [Function.update_of_ne new] at present
      rcases holds.only other present with same | ⟨old, listed, same⟩
      · exact absurd same manifest
      · refine ⟨old, kept old ?_ same, same⟩
        rw [keys_appended]
        refine List.mem_append_left _ (List.mem_filter.mpr ⟨listed, ?_⟩)
        simpa using fun equal => new (same.trans (congrArg name equal))

theorem StoredIn.set (naming : IsNaming c.entryName) (distinguishes : Distinguishes c.entryName known)
    (within : log.Within known) (member : key ∈ known) (stored : log.StoredIn directory loc c fs)
    (done : c.set fs key snapshot = (.ok (), c', fs')) :
    c'.entryName = c.entryName ∧ (log.set key snapshot).StoredIn directory loc c' fs' := by
  obtain ⟨files, folder, holds⟩ := stored.folder
  have folder' := set_folder naming stored.located folder done
  have described := stored.describes.written key snapshot
  rw [described.manifest] at folder'
  obtain ⟨rfl, -⟩ := set_eq_ok done
  exact ⟨rfl, described, stored.located, _, folder',
    holds.set naming distinguishes within member stored.describes⟩

/-- Where no path is too long, a snapshot can be written. -/
theorem StoredIn.set_ok (key : CacheKey) (snapshot : List UInt8) (naming : IsNaming c.entryName)
    (stored : log.StoredIn directory loc c fs)
    (short : directory.text.utf8ByteSize + FileSystem.nameLimit < FileSystem.pathLimit) :
    ∃ c' fs', c.set fs key snapshot = (.ok (), c', fs') := by
  obtain ⟨files, folder, _⟩ := stored.folder
  exact SnapshotCache.set_ok key snapshot naming stored.located folder short

/-! ## Dropping all -/

theorem StoredIn.clear (stored : log.StoredIn directory loc c fs) (done : c.clear fs = (.ok (), c', fs')) :
    c'.entryName = c.entryName ∧ log.clear.StoredIn directory loc c' fs' := by
  obtain ⟨files, folder, _⟩ := stored.folder
  simp only [SnapshotCache.clear, stored.located] at done
  cases cleared : clearDirectory fs directory with
  | mk result left =>
  rw [cleared] at done
  cases done
  refine ⟨rfl, ⟨stored.describes.maxEntries, rfl, .nil, fun key snapshot found => by cases found⟩, rfl, _,
    clearDirectory_folder folder cleared, holds_nil _⟩

/-- Where the directory can be made when it is missing, all can be dropped. -/
theorem StoredIn.clear_ok (stored : log.StoredIn directory loc c fs) (below : loc ≠ [])
    (remade : ∀ fs' : FileSystem, fs'.entry? loc = none → (fs'.makeDirectories directory).1 = none) :
    ∃ c' fs', c.clear fs = (.ok (), c', fs') := by
  obtain ⟨files, folder, _⟩ := stored.folder
  exact SnapshotCache.clear_ok stored.located folder below remade

end CacheLog
end ModuleGraph
