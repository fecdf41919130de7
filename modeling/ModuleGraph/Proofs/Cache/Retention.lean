import ModuleGraph.Proofs.Binary.Range
import ModuleGraph.Proofs.Cache.Lookup
import ModuleGraph.Proofs.FileSystem.Flat
import ModuleGraph.Proofs.FileSystem.Writing
import Mathlib.Data.List.DropRight

/-!
Which keys a manifest retains. A write puts its key last and leaves the newest others of that kind, as many as there
is room for, and all keys of other kinds (`Retained`), whatever was listed before: keys that occur more than once, or
more of them than are to be kept. A store that is opened behind it lists the same (`IsOpened.retained_set`).
-/
namespace ModuleGraph.SnapshotCache
open ModuleGraph.Path

/-- The keys that are listed behind a write of a key, from those that were listed before. -/
structure Retained (before : List CacheKey) (key : CacheKey) (count : Nat) (after : List CacheKey) : Prop where
  last : ∃ front, after = front ++ [key] ∧ key ∉ front ∧ front.Sublist before
  bounded : after.countP (·.kind = key.kind) ≤ count
  newest : after.filter (·.kind = key.kind) =
    ((before.filter (· ≠ key)).filter (·.kind = key.kind)).rtake (count - 1) ++ [key]
  others : after.filter (·.kind ≠ key.kind) = before.filter (·.kind ≠ key.kind)

/-- A store that was opened, with a directory or without one, to keep a number of keys of a kind, and what calls have
    made of it since, be they done or failed. The files may have changed in between. -/
inductive IsOpened : Nat → Option Path → SnapshotCache → Prop where
  | inMemory : IsOpened defaultMaxEntries none inMemory
  | openAt {directory fs fs' opened} (done : openAt fs directory = (.ok opened, fs')) :
    IsOpened defaultMaxEntries (some directory) opened
  | withMaxEntries {before place c} (opened : IsOpened before place c) (count : Nat) :
    IsOpened count place (c.withMaxEntries count)
  | set {count place c} (opened : IsOpened count place c) (fs : FileSystem) {key : CacheKey} (fits : key.Fits)
    (snapshot : List UInt8) : IsOpened count place (c.set fs key snapshot).2.1
  | get {count place c} (opened : IsOpened count place c) (fs : FileSystem) (key : CacheKey) :
    IsOpened count place (c.get fs key).2
  | clear {count place c} (opened : IsOpened count place c) (fs : FileSystem) :
    IsOpened count place (c.clear fs).2.1

variable {c c' : SnapshotCache} {fs fs' : FileSystem} {directory : Path} {place : Option Path}
  {key : CacheKey} {snapshot : List UInt8} {count : Nat}

/-! ## Lists of keys -/

/-- With room for one key, the key that is written comes behind those that may be dropped. -/
theorem manifest_trimmed (room : 0 < c.maxEntries) : (c.trimmed key snapshot).manifest =
    (dropOldest key.kind ((c.enlist key).manifest.countP (·.kind = key.kind) - c.maxEntries)
      (c.manifest.filter (· ≠ key))).1 ++ [key] := by
  refine dropOldest_append [key] ?_
  simp only [enlist, List.countP_append, List.countP_singleton, decide_true, if_true]
  omega

theorem listed_trimmed (snapshot : List UInt8) (room : 0 < c.maxEntries) : (c.trimmed key snapshot).listed key.kind =
    ((c.listed key.kind).filter (· ≠ key)).rtake (c.maxEntries - 1) ++ [key] := by
  have kept : (c.written key snapshot).listed key.kind =
    ((c.enlist key).listed key.kind).rtake c.maxEntries := listed_written
  obtain ⟨left, more⟩ := Nat.exists_eq_succ_of_ne_zero (Nat.ne_of_gt room)
  show (c.written key snapshot).listed key.kind = _
  rw [kept, listed_enlist, more, List.rtake_concat_succ, Nat.succ_sub_one]

/-- What a write makes of the manifest, whatever is in it. -/
theorem retained_trimmed (snapshot : List UInt8) (room : 0 < c.maxEntries) :
    Retained c.manifest key c.maxEntries (c.trimmed key snapshot).manifest := by
  have own : (c.trimmed key snapshot).listed key.kind = _ := listed_trimmed snapshot room
  refine ⟨⟨_, manifest_trimmed room, ?_, dropOldest_sublist.trans List.filter_sublist⟩, ?_, ?_, ?_⟩
  · intro again
    simpa using dropOldest_sublist.subset again
  · have size := congrArg List.length own
    simp only [listed, List.length_append, List.length_singleton, List.rtake, List.length_drop] at size
    rw [List.countP_eq_length_filter, size]
    omega
  · have commuted : (c.listed key.kind).filter (· ≠ key) =
        (c.manifest.filter (· ≠ key)).filter (·.kind = key.kind) := List.filter_comm ..
    rwa [commuted] at own
  · have foreign : ∀ other : CacheKey, decide (other.kind ≠ key.kind) = true → other.kind ≠ key.kind := by simp
    have without : decide (key.kind ≠ key.kind) = false := by simp
    rw [manifest_trimmed room, List.filter_append, dropOldest_foreign foreign, filter_ne_filter without,
      List.filter_cons_of_neg (by simp), List.filter_nil, List.append_nil]

/-! ## Opened stores -/

/-- Forgetting keys leaves some of them out of memory and nothing else. -/
theorem exists_forget_eq (c : SnapshotCache) (fs : FileSystem) (keys : List CacheKey) :
    ∃ gone, (c.forget fs keys).2.1 = c.forgetting gone := by
  induction keys generalizing c fs with
  | nil => exact ⟨[], rfl⟩
  | cons key rest ih =>
    cases removed : c.removeEntry fs key with
    | error e => exact ⟨[key], by rw [forget_of_error removed]⟩
    | ok left =>
      obtain ⟨gone, forgot⟩ := ih (c.forgetting [key]) left
      exact ⟨key :: gone, by rw [forget_of_ok removed, forgot]; rfl⟩

/-- A write that fails may leave the store as it was, or write the key without forgetting all that are dropped. -/
theorem set_cases (c : SnapshotCache) (fs : FileSystem) (key : CacheKey) (snapshot : List UInt8) :
    (c.set fs key snapshot).2.1 = c ∨ ∃ gone, (c.set fs key snapshot).2.1 = (c.trimmed key snapshot).forgetting gone := by
  cases wrote : c.writeEntry fs key snapshot with
  | error e =>
    rw [set, wrote]
    exact .inl rfl
  | ok stored =>
    rcases evicted : (c.listing key snapshot).evict stored key.kind with ⟨result, left, files⟩
    obtain ⟨gone, forgot⟩ := exists_forget_eq (c.trimmed key snapshot) stored (c.dropping key)
    rw [← evict_listing, evicted] at forgot
    refine .inr ⟨gone, ?_⟩
    rw [set_eq wrote evicted, ← forgot]
    split <;> rfl

theorem fits_of_readManifest (member : key ∈ readManifest fs directory) : key.Fits := by
  have only : CacheKey.codec.ReadsOnly CacheKey.Fits :=
    .via _ (Codec.readsOnly_text.pair Codec.readsOnly_text) fun _ fits => fits
  rw [readManifest] at member
  split at member
  · rename_i bytes _
    cases decoded : CacheKey.codec.list.decode bytes with
    | none =>
      rw [decoded] at member
      cases member
    | some keys =>
      rw [decoded] at member
      exact only.list.decode decoded key member
  · cases member

/-- What calls leave as it is: where the store has its files, how many keys of a kind are kept, and that the keys that
    are listed can be written. -/
theorem IsOpened.kept (opened : IsOpened count place c) :
    c.directory = place ∧ c.maxEntries = max count 1 ∧ ∀ key ∈ c.listKeys, key.Fits := by
  induction opened with
  | inMemory => exact ⟨rfl, rfl, fun key listed => by cases listed⟩
  | openAt done =>
    rw [SnapshotCache.openAt] at done
    split at done
    · cases done
    · cases done
      exact ⟨rfl, rfl, fun key member => fits_of_readManifest member⟩
  | withMaxEntries opened count ih => exact ⟨ih.1, rfl, ih.2.2⟩
  | @set count place c opened fs key fits snapshot ih =>
    rcases c.set_cases fs key snapshot with same | ⟨gone, written⟩
    · rwa [same]
    · rw [written]
      refine ⟨ih.1, ih.2.1, fun other listed => ?_⟩
      have kept : other ∈ (c.written key snapshot).manifest := listed
      rcases mem_manifest_written kept with rfl | member
      · exact fits
      · exact ih.2.2 other member
  | @get count place c opened fs key ih =>
    rcases c.get_cases fs key with same | ⟨snapshot, -, remembered⟩
    · rwa [same]
    · rw [remembered]
      exact ih
  | clear opened fs ih =>
    rw [SnapshotCache.clear]
    split <;> exact ⟨ih.1, ih.2.1, fun key listed => by cases listed⟩

/-- A manifest that was written is read by a store that is opened behind it. -/
theorem openAt_of_storeManifest (located : c.directory = some directory) (fits : ∀ key ∈ c.manifest, key.Fits)
    (few : c.manifest.length < Codec.wordLimit) (stored : c.storeManifest fs = .ok fs') :
    ∃ again, openAt fs' directory = (.ok again, fs') ∧ again.listKeys = c.manifest := by
  rw [storeManifest, located] at stored
  simp only at stored
  split at stored
  · rename_i wrote
    cases stored
    have content := FileSystem.read_of_write wrote
    rw [openAt, FileSystem.makeDirectories_of_read isName_manifestName content]
    exact ⟨_, rfl, readManifest_of_read fits few content⟩
  · cases stored

/-- A write that succeeds retains what the manifest is to retain, whatever was in the manifest with which the store was
    opened, and a store that is opened behind it lists the same. -/
theorem IsOpened.retained_set (opened : IsOpened count place c) (fits : key.Fits)
    (done : c.set fs key snapshot = (.ok (), c', fs')) :
    Retained c.listKeys key (max count 1) c'.listKeys ∧
      (c'.listKeys.length < Codec.wordLimit → ∀ directory ∈ place,
        ∃ again, SnapshotCache.openAt fs' directory = (.ok again, fs') ∧ again.listKeys = c'.listKeys) := by
  obtain ⟨located, bound, each⟩ := opened.kept
  have each' := (opened.set fs fits snapshot).kept.2.2
  rw [done] at each'
  obtain ⟨rfl, stored, left, -, -, manifest⟩ := set_eq_ok done
  constructor
  · rw [← bound]
    exact retained_trimmed snapshot (by omega)
  · rintro few directory rfl
    exact openAt_of_storeManifest located each' few manifest

/-- Keys of two kinds, one of them listed twice. -/
def crowded : List CacheKey :=
  [.of .dependencies "a", .of .metrics "m", .of .dependencies "b", .of .dependencies "a", .of .dependencies "c"]

/-- A directory with nothing but their manifest. -/
def crowdedFiles : FileSystem := .flat (.ofList [(manifestName, CacheKey.codec.list.write crowded)])

theorem retained_set_crowded : ∃ opened c' fs', openAt crowdedFiles ⟨"/p"⟩ = (.ok opened, crowdedFiles) ∧
    opened.listKeys = crowded ∧
    (opened.withMaxEntries 2).set crowdedFiles (.of .dependencies "b") [1] = (.ok (), c', fs') ∧
    c'.listKeys = [.of .metrics "m", .of .dependencies "c", .of .dependencies "b"] ∧
    Retained crowded (.of .dependencies "b") 2 c'.listKeys ∧
    ∃ again, openAt fs' ⟨"/p"⟩ = (.ok again, fs') ∧ again.listKeys = c'.listKeys := by
  have folder : crowdedFiles.IsFolder ⟨"/p"⟩ ["p"] _ := FileSystem.isFolder_flat fun name known => by
    obtain rfl : name = manifestName := List.mem_singleton.mp known
    exact manifestName_fits
  have listed : readManifest crowdedFiles ⟨"/p"⟩ = crowded := by
    have content := (folder.read_iff isName_manifestName manifestName_fits).mpr OrderedMap.get?_insert_self
    exact readManifest_of_read (by decide) (by decide) content
  have opens : openAt crowdedFiles ⟨"/p"⟩ =
      (.ok { inMemory with manifest := crowded, directory := some ⟨"/p"⟩ }, crowdedFiles) := by
    rw [openAt, FileSystem.makeDirectories_of_stat folder.stat]
    simp only [listed]
  have opened := (IsOpened.openAt opens).withMaxEntries 2
  obtain ⟨c', fs', done⟩ := set_ok (.of .dependencies "b") [1] isNaming_entryName rfl folder (by decide)
    (c := { inMemory with manifest := crowded, directory := some ⟨"/p"⟩ }.withMaxEntries 2)
  obtain ⟨retained, reads⟩ := IsOpened.retained_set opened (by decide) done
  have keys : c'.listKeys = [.of .metrics "m", .of .dependencies "c", .of .dependencies "b"] := by
    rw [(set_eq_ok done).1]
    decide
  refine ⟨_, c', fs', opens, rfl, done, keys, retained, reads ?_ _ rfl⟩
  rw [keys]
  decide

end ModuleGraph.SnapshotCache
