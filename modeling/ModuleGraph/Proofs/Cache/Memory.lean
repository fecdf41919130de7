import ModuleGraph.Proofs.Cache.Log

/-!
What the operations of a store do to its memory and its manifest. Writing a snapshot leaves what a log lists
(`CacheLog.Describes.written`), whatever becomes of the files, and only files make an operation fail.
-/
namespace ModuleGraph
namespace SnapshotCache

variable {c c' : SnapshotCache} {fs fs' : FileSystem} {key other : CacheKey} {keys : List CacheKey}
  {snapshot value : List UInt8}

/-- The store without some keys in memory. -/
def forgetting (c : SnapshotCache) (keys : List CacheKey) : SnapshotCache :=
  { c with memory := keys.foldl OrderedMap.erase c.memory }

/-- The store that lists a snapshot as written last, before there are too many. -/
def listing (c : SnapshotCache) (key : CacheKey) (snapshot : List UInt8) : SnapshotCache :=
  (c.remember key snapshot).enlist key

/-- The store that lists a snapshot as written last, with the keys that are too many off its manifest. -/
def trimmed (c : SnapshotCache) (key : CacheKey) (snapshot : List UInt8) : SnapshotCache :=
  { c.listing key snapshot with manifest := ((c.enlist key).partitionKeys key.kind).1 }

/-- The store with a snapshot written and the oldest ones of its kind dropped if there are too many. -/
def written (c : SnapshotCache) (key : CacheKey) (snapshot : List UInt8) : SnapshotCache :=
  let (kept, dropped) := (c.listing key snapshot).partitionKeys key.kind
  { c.listing key snapshot with manifest := kept }.forgetting dropped

theorem get?_forgetting (keys : List CacheKey) :
    (c.forgetting keys).memory.get? other = if other ∈ keys then none else c.memory.get? other := by
  have erased : (c.forgetting keys).memory.get? other =
      if ∃ key ∈ keys, id key = other then none else c.memory.get? other := OrderedMap.get?_foldl_erase keys id
  simp only [id_eq, exists_eq_right] at erased
  exact erased

/-- What is remembered behind a write: nothing of the dropped keys, the new snapshot and the old ones. -/
theorem get?_memory_written : (c.written key snapshot).memory.get? other =
    if other ∈ ((c.listing key snapshot).partitionKeys key.kind).2 then none
    else if key = other then some snapshot else c.memory.get? other := by
  have inserted : (c.listing key snapshot).memory.get? other =
      if key = other then some snapshot else c.memory.get? other := OrderedMap.get?_insert
  rw [← inserted]
  exact get?_forgetting
    (c := { c.listing key snapshot with manifest := ((c.listing key snapshot).partitionKeys key.kind).1 })
    ((c.listing key snapshot).partitionKeys key.kind).2

theorem forget_eq_ok (done : c.forget fs keys = (.ok (), c', fs')) : c' = c.forgetting keys := by
  induction keys generalizing c fs with
  | nil =>
    cases done
    rfl
  | cons key rest ih =>
    rw [forget] at done
    split at done
    · cases done
    · exact ih done

theorem forget_of_error {e : CacheError} (stays : c.removeEntry fs key = .error e) :
    c.forget fs (key :: keys) = (.error e, c.forgetting [key], fs) := by
  have stays' : ({ c with memory := c.memory.erase key } : SnapshotCache).removeEntry fs key = .error e := stays
  rw [forget, stays']
  rfl

theorem forget_of_ok (removed : c.removeEntry fs key = .ok fs') :
    c.forget fs (key :: keys) = (c.forgetting [key]).forget fs' keys := by
  have removed' : ({ c with memory := c.memory.erase key } : SnapshotCache).removeEntry fs key = .ok fs' := removed
  rw [forget, removed']
  rfl

theorem set_eq {stored left : FileSystem} {evicted : Except CacheError Unit}
    (wrote : c.writeEntry fs key snapshot = .ok stored)
    (evict : (c.listing key snapshot).evict stored key.kind = (evicted, c', left)) :
    c.set fs key snapshot = match c'.storeManifest left with
      | .error e => (.error e, c', left)
      | .ok fs => (evicted, c', fs) := by
  rw [listing] at evict
  rw [set, wrote]
  cases stored : c'.storeManifest left <;> simp only [evict, stored]

/-- A snapshot that is written goes to its file first, then the dropped keys go, and the manifest follows. -/
theorem set_eq_ok (done : c.set fs key snapshot = (.ok (), c', fs')) :
    c' = c.written key snapshot ∧ ∃ stored left, c.writeEntry fs key snapshot = .ok stored ∧
      (c.listing key snapshot).evict stored key.kind = (.ok (), c', left) ∧
        c'.storeManifest left = .ok fs' := by
  cases wrote : c.writeEntry fs key snapshot with
  | error e =>
    rw [set, wrote] at done
    cases done
  | ok stored =>
    rcases evict : (c.listing key snapshot).evict stored key.kind with ⟨evicted, c₁, left⟩
    rw [set_eq wrote evict] at done
    split at done
    · cases done
    · rename_i manifest
      cases done
      refine ⟨?_, stored, left, rfl, evict, manifest⟩
      rw [SnapshotCache.evict] at evict
      exact forget_eq_ok evict

/-! ## Failures -/

theorem removeEntry_error {e : CacheError} (failed : c.removeEntry fs key = .error e) :
    ∃ cause, e = .fileError cause := by
  rw [removeEntry] at failed
  split at failed
  · cases failed
  · split at failed <;> cases failed
    exact ⟨_, rfl⟩

theorem writeEntry_error {e : CacheError} (failed : c.writeEntry fs key snapshot = .error e) :
    ∃ cause, e = .fileError cause := by
  rw [writeEntry] at failed
  split at failed
  · cases failed
  · split at failed <;> cases failed
    exact ⟨_, rfl⟩

theorem storeManifest_error {e : CacheError} (failed : c.storeManifest fs = .error e) :
    ∃ cause, e = .fileError cause := by
  rw [storeManifest] at failed
  split at failed
  · cases failed
  · split at failed <;> cases failed
    exact ⟨_, rfl⟩

theorem forget_error {e : CacheError} (failed : (c.forget fs keys).1 = .error e) :
    ∃ cause, e = .fileError cause := by
  induction keys generalizing c fs with
  | nil => cases failed
  | cons key rest ih =>
    rw [forget] at failed
    split at failed
    · rename_i removed
      cases failed
      exact removeEntry_error removed
    · exact ih failed

theorem set_error {e : CacheError} (failed : (c.set fs key snapshot).1 = .error e) :
    ∃ cause, e = .fileError cause := by
  rw [set] at failed
  split at failed
  · rename_i unwritten
    cases failed
    exact writeEntry_error unwritten
  · split at failed
    rename_i evicted c₁ left evict
    split at failed
    · rename_i manifest
      cases failed
      exact storeManifest_error manifest
    · cases failed
      rw [SnapshotCache.evict] at evict
      exact forget_error (congrArg Prod.fst evict)

theorem clearDirectory_error {directory : Path} {e : CacheError}
    (failed : (clearDirectory fs directory).1 = .error e) : ∃ cause, e = .fileError cause := by
  rw [clearDirectory] at failed
  split at failed
  · split at failed
    · cases failed
      exact ⟨_, rfl⟩
    · split at failed <;> cases failed
      exact ⟨_, rfl⟩
  · cases failed

theorem clear_error {e : CacheError} (failed : (c.clear fs).1 = .error e) :
    ∃ cause, e = .fileError cause := by
  rw [clear] at failed
  split at failed
  · cases failed
  · exact clearDirectory_error failed

end SnapshotCache

/-! ## Memory and manifest -/

/-- A store lists the keys of a log, and what it remembers are snapshots of the log. -/
structure CacheLog.Describes (log : CacheLog) (c : SnapshotCache) : Prop where
  maxEntries : c.maxEntries = log.maxEntries
  manifest : c.manifest = log.keys
  distinct : log.keys.Nodup
  remembered : ∀ key snapshot, c.memory.get? key = some snapshot → (key, snapshot) ∈ log.entries

namespace CacheLog.Describes
open SnapshotCache
variable {log : CacheLog} {c : SnapshotCache} {key other : CacheKey} {snapshot value : List UInt8}

private theorem manifest_listing (describes : log.Describes c) :
    (c.listing key snapshot).manifest = (log.appended key snapshot).map Prod.fst := by
  rw [keys_appended, ← describes.manifest]
  rfl

theorem manifest_written (describes : log.Describes c) :
    (c.written key snapshot).manifest = (log.set key snapshot).keys := by
  have kept := dropOldest_eq_keepLatest key.kind c.maxEntries (c.listing key snapshot).manifest
  rw [describes.manifest_listing, keys_appended, describes.maxEntries, ← keys_set snapshot] at kept
  rw [← kept, ← keys_appended snapshot, ← describes.manifest_listing, ← describes.maxEntries]
  rfl

/-- The keys that are listed when a snapshot is written are those that are kept and those that are dropped. -/
private theorem perm_listing (describes : log.Describes c) (key : CacheKey) (snapshot : List UInt8) :
    ((log.set key snapshot).keys ++ ((c.listing key snapshot).partitionKeys key.kind).2).Perm
      ((log.appended key snapshot).map Prod.fst) := by
  rw [← describes.manifest_written, ← describes.manifest_listing]
  exact dropOldest_perm _ _ _

/-- A key is dropped if it was listed when the snapshot was written and is not listed any more. -/
theorem mem_dropped_iff (describes : log.Describes c) :
    other ∈ ((c.listing key snapshot).partitionKeys key.kind).2 ↔
      other ∈ (log.appended key snapshot).map Prod.fst ∧ other ∉ (log.set key snapshot).keys := by
  have perm := describes.perm_listing key snapshot
  have apart := List.disjoint_of_nodup_append (perm.nodup_iff.mpr (nodup_appended _ describes.distinct))
  rw [← perm.mem_iff, List.mem_append]
  constructor
  · intro dropped
    exact ⟨.inr dropped, fun kept => apart kept dropped⟩
  · rintro ⟨kept | dropped, unlisted⟩
    · exact absurd kept unlisted
    · exact dropped

/-- What is remembered behind a write: the new snapshot and the old ones, as far as they are listed. -/
theorem get?_written (describes : log.Describes c) :
    (c.written key snapshot).memory.get? other =
      if other ∈ (log.set key snapshot).keys then
        if key = other then some snapshot else c.memory.get? other
      else none := by
  rw [get?_memory_written]
  by_cases listed : other ∈ (log.set key snapshot).keys
  · rw [if_neg fun dropped => (describes.mem_dropped_iff.mp dropped).2 listed, if_pos listed]
  rw [if_neg listed]
  by_cases dropped : other ∈ ((c.listing key snapshot).partitionKeys key.kind).2
  · rw [if_pos dropped]
  rw [if_neg dropped]
  -- The key was not listed at all, so it was not remembered either.
  have unknown : other ∉ (log.appended key snapshot).map Prod.fst := fun known =>
    dropped (describes.mem_dropped_iff.mpr ⟨known, listed⟩)
  rw [keys_appended, List.mem_append, List.mem_filter, List.mem_singleton, not_or] at unknown
  rw [if_neg (Ne.symm unknown.2)]
  cases found : c.memory.get? other with
  | none => rfl
  | some value =>
    have known := mem_keys_iff.mpr ⟨value, describes.remembered other value found⟩
    exact absurd ⟨known, by simpa using unknown.2⟩ unknown.1

theorem written (describes : log.Describes c) (key : CacheKey) (snapshot : List UInt8) :
    (log.set key snapshot).Describes (c.written key snapshot) where
  maxEntries := describes.maxEntries
  manifest := describes.manifest_written
  distinct := nodup_set describes.distinct
  remembered other value found := by
    rw [describes.get?_written] at found
    split at found
    · rename_i listed
      refine (mem_entries_set_iff describes.distinct).mpr ⟨listed, ?_⟩
      split at found
      · rename_i same
        exact .inl ⟨same.symm, (Option.some.inj found).symm⟩
      · rename_i differ
        exact .inr ⟨Ne.symm differ, describes.remembered other value found⟩
    · cases found

theorem remember (describes : log.Describes c) (member : (key, snapshot) ∈ log.entries) :
    log.Describes (c.remember key snapshot) where
  maxEntries := describes.maxEntries
  manifest := describes.manifest
  distinct := describes.distinct
  remembered other value found := by
    change (c.memory.insert key snapshot).get? other = some value at found
    rw [OrderedMap.get?_insert] at found
    split at found
    · rename_i same
      cases found
      exact same ▸ member
    · exact describes.remembered other value found

end CacheLog.Describes

/-! ## Stores without a directory -/

/-- A store without a directory that remembers all that a log lists. -/
structure CacheLog.Mirrors (log : CacheLog) (c : SnapshotCache) : Prop where
  describes : log.Describes c
  located : c.directory = none
  complete : ∀ key snapshot, (key, snapshot) ∈ log.entries → c.memory.get? key = some snapshot

namespace SnapshotCache
variable {c : SnapshotCache} {fs : FileSystem} {key : CacheKey} {keys : List CacheKey} {snapshot : List UInt8}

private theorem entryPath_eq_none (located : c.directory = none) : c.entryPath key = none := by
  rw [entryPath, located]
  rfl

private theorem forget_eq_forgetting (fs : FileSystem) (keys : List CacheKey) (located : c.directory = none) :
    c.forget fs keys = (.ok (), c.forgetting keys, fs) := by
  induction keys generalizing c with
  | nil => rfl
  | cons key rest ih =>
    have erased : { c with memory := c.memory.erase key }.directory = none := located
    rw [forget, removeEntry, entryPath_eq_none erased]
    exact ih erased

theorem set_eq_written (located : c.directory = none) :
    c.set fs key snapshot = (.ok (), c.written key snapshot, fs) := by
  have forgotten := forget_eq_forgetting fs ((c.listing key snapshot).partitionKeys key.kind).2
    (c := { c.listing key snapshot with manifest := ((c.listing key snapshot).partitionKeys key.kind).1 })
    located
  have evicted : (c.listing key snapshot).evict fs key.kind = (.ok (), c.written key snapshot, fs) := forgotten
  have written : (c.written key snapshot).directory = none := located
  have unwritten : c.writeEntry fs key snapshot = .ok fs := by
    rw [writeEntry, entryPath_eq_none located]
  rw [set_eq unwritten evicted, storeManifest, written]

end SnapshotCache

namespace CacheLog.Mirrors
open SnapshotCache
variable {log : CacheLog} {c : SnapshotCache} {fs : FileSystem} {key : CacheKey} {snapshot : List UInt8}

theorem get (mirrors : log.Mirrors c) : c.get fs key = (.ok (log.get key), c) := by
  have distinct := mirrors.describes.distinct
  rw [SnapshotCache.get]
  cases remembered : c.memory.get? key with
  | some snapshot =>
    rw [(get_eq_some_iff distinct).mpr (mirrors.describes.remembered key snapshot remembered)]
  | none =>
    have unlisted : log.get key = none := by
      refine Option.eq_none_iff_forall_ne_some.mpr fun snapshot found => ?_
      have known := mirrors.complete key snapshot ((get_eq_some_iff distinct).mp found)
      rw [remembered] at known
      cases known
    simp only [readEntry, entryPath_eq_none mirrors.located, unlisted]

theorem written (mirrors : log.Mirrors c) : (log.set key snapshot).Mirrors (c.written key snapshot) where
  describes := mirrors.describes.written key snapshot
  located := mirrors.located
  complete other value member := by
    obtain ⟨listed, origin⟩ := (mem_entries_set_iff mirrors.describes.distinct).mp member
    rw [mirrors.describes.get?_written, if_pos listed]
    rcases origin with ⟨rfl, rfl⟩ | ⟨differ, old⟩
    · rw [if_pos rfl]
    · rw [if_neg (Ne.symm differ), mirrors.complete other value old]

end CacheLog.Mirrors
end ModuleGraph
