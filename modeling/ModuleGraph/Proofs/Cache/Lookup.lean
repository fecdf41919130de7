import ModuleGraph.Proofs.Cache.Files

/-!
What a store holds of one kind of analysis: the keys of that kind that it lists (`SnapshotCache.listed`) and
their snapshots, be they remembered or in files (`SnapshotCache.lookup`). Reading changes nothing of it
(`lookup_get`). A write takes the oldest keys of its own kind away and leaves the other kinds alone
(`listed_written`, `lookup_set`), as long as the files of keys have names of their own.
-/
namespace ModuleGraph.SnapshotCache
open ModuleGraph.Path

/-- The keys of a kind that are listed, the one written longest ago first. -/
def listed (c : SnapshotCache) (kind : String) : List CacheKey := c.manifest.filter (·.kind = kind)

/-- The snapshot that is held at a key, if it can be had. -/
def lookup (c : SnapshotCache) (fs : FileSystem) (key : CacheKey) : Option (List UInt8) :=
  (c.get fs key).1.toOption.join

/-- The keys that are dropped when a snapshot is written under a key. -/
def dropping (c : SnapshotCache) (key : CacheKey) : List CacheKey :=
  ((c.enlist key).partitionKeys key.kind).2

/-- The files have names that files can have, and a directory holds nothing but files. -/
structure Placed (c : SnapshotCache) (fs : FileSystem) : Prop where
  naming : IsNaming c.entryName
  folder : ∀ directory, c.directory = some directory → ∃ loc files, fs.IsFolder directory loc files

variable {c c' : SnapshotCache} {fs fs' : FileSystem} {key other : CacheKey} {snapshot : List UInt8}
  {kind : String}

/-! ## Lists of keys -/

theorem listed_enlist : (c.enlist key).listed key.kind =
    (c.listed key.kind).filter (· ≠ key) ++ [key] := by
  simp only [listed, enlist, List.filter_append, List.filter_filter]
  simp [Bool.and_comm]

/-- Keys that are told from a key by a property are not affected by taking it out. -/
theorem filter_ne_filter {p : CacheKey → Bool} (without : p key = false) (keys : List CacheKey) :
    (keys.filter (· ≠ key)).filter p = keys.filter p := by
  rw [List.filter_filter]
  refine List.filter_congr fun other _ => ?_
  by_cases same : other = key
  · simp [same, without]
  · simp [same]

theorem dropping_eq : c.dropping key = ((c.enlist key).listed key.kind).take
    (((c.enlist key).listed key.kind).length - c.maxEntries) := by
  rw [dropping, partitionKeys, (dropOldest_own ..).2, List.countP_eq_length_filter]
  rfl

theorem kind_of_mem_dropping (dropped : other ∈ c.dropping key) : other.kind = key.kind := by
  rw [dropping_eq] at dropped
  have listed := List.mem_of_mem_take dropped
  simpa using (List.mem_filter.mp listed).2

theorem mem_manifest_of_mem_dropping (dropped : other ∈ c.dropping key) : other = key ∨ other ∈ c.manifest := by
  rw [dropping_eq, listed_enlist] at dropped
  have member := List.mem_of_mem_take dropped
  simp only [listed, List.mem_append, List.mem_filter, List.mem_singleton] at member
  tauto

theorem evict_listing (fs : FileSystem) : (c.listing key snapshot).evict fs key.kind =
    (c.trimmed key snapshot).forget fs (c.dropping key) := rfl

/-- Every key that is listed when a snapshot is written is kept or dropped. -/
theorem mem_trimmed_or_dropping (member : other = key ∨ other ∈ c.manifest) :
    other ∈ (c.trimmed key snapshot).manifest ∨ other ∈ c.dropping key := by
  have perm := dropOldest_perm key.kind ((c.enlist key).manifest.countP (·.kind = key.kind) - c.maxEntries)
    (c.enlist key).manifest
  have enlisted : other ∈ (c.enlist key).manifest := by
    by_cases same : other = key
    · simp [enlist, same]
    · simpa [enlist, same] using member
  exact List.mem_append.mp (perm.mem_iff.mpr enlisted)

theorem listed_written : (c.written key snapshot).listed key.kind =
    ((c.enlist key).listed key.kind).drop (((c.enlist key).listed key.kind).length - c.maxEntries) := by
  have kept : (c.written key snapshot).listed key.kind = ((c.enlist key).partitionKeys key.kind).1.filter
    (·.kind = key.kind) := rfl
  rw [kept, partitionKeys, (dropOldest_own ..).1, List.countP_eq_length_filter]
  rfl

/-- What a write drops and leaves depends on the listed keys of its kind only. -/
theorem listed_written_congr {d : SnapshotCache} (key : CacheKey) (snapshot value : List UInt8)
    (same : c.listed key.kind = d.listed key.kind) (bound : c.maxEntries = d.maxEntries) :
    c.dropping key = d.dropping key ∧
      (c.written key snapshot).listed key.kind = (d.written key value).listed key.kind := by
  rw [dropping_eq, dropping_eq, listed_written, listed_written, listed_enlist, listed_enlist, same, bound]
  exact ⟨rfl, rfl⟩

/-- Where one key is kept, the key that is written is not dropped. -/
theorem not_mem_dropping (room : 0 < c.maxEntries) : key ∉ c.dropping key := by
  intro dropped
  rw [dropping_eq, listed_enlist, List.take_append_of_le_length] at dropped
  · have earlier := List.mem_of_mem_take dropped
    simp at earlier
  · simp only [List.length_append, List.length_singleton]
    omega

/-- Where one key is kept, the key that is written is listed last. -/
theorem getLast?_listed_written (room : 0 < c.maxEntries) :
    ((c.written key snapshot).listed key.kind).getLast? = some key := by
  rw [listed_written, listed_enlist, List.drop_append_of_le_length]
  · simp
  · simp only [List.length_append, List.length_singleton]
    omega

theorem mem_manifest_written (member : other ∈ (c.written key snapshot).manifest) :
    other = key ∨ other ∈ c.manifest := by
  have kept : other ∈ ((c.enlist key).partitionKeys key.kind).1 := member
  have perm := dropOldest_perm key.kind ((c.enlist key).manifest.countP (·.kind = key.kind) - c.maxEntries)
    (c.enlist key).manifest
  have listed := perm.mem_iff.mp (List.mem_append_left _ kept)
  simp only [enlist, List.mem_append, List.mem_filter, List.mem_singleton] at listed
  tauto

/-! ## Reading -/

theorem lookup_eq : c.lookup fs key = (c.memory.get? key).or (c.readEntry fs key).toOption.join := by
  rw [lookup, get]
  cases c.memory.get? key with
  | some snapshot => rfl
  | none =>
    rcases c.readEntry fs key with e | _ | snapshot <;> rfl

/-- Reading a snapshot may remember it, but nothing else. -/
theorem get_cases (c : SnapshotCache) (fs : FileSystem) (key : CacheKey) :
    (c.get fs key).2 = c ∨
      ∃ snapshot, c.lookup fs key = some snapshot ∧ (c.get fs key).2 = c.remember key snapshot := by
  rw [lookup, get]
  cases c.memory.get? key with
  | some snapshot => exact .inl rfl
  | none =>
    rcases c.readEntry fs key with e | _ | snapshot
    · exact .inl rfl
    · exact .inl rfl
    · exact .inr ⟨snapshot, rfl, rfl⟩

theorem lookup_get (c : SnapshotCache) (fs : FileSystem) (key other : CacheKey) :
    (c.get fs key).2.lookup fs other = c.lookup fs other := by
  rcases c.get_cases fs key with same | ⟨snapshot, found, remembered⟩
  · rw [same]
  · have entry : (c.remember key snapshot).readEntry fs other = c.readEntry fs other := rfl
    have memory : (c.remember key snapshot).memory.get? other =
      if key = other then some snapshot else c.memory.get? other := OrderedMap.get?_insert
    rw [remembered, lookup_eq, entry, memory]
    split
    · rename_i same
      rw [← same, found]
      rfl
    · rw [lookup_eq]

/-- No file of a store that has its place fails to be read. -/
theorem Placed.get_error (placed : c.Placed fs) {e : CacheError} (failed : (c.get fs key).1 = .error e) :
    e = .undecodable := by
  rw [get] at failed
  cases remembered : c.memory.get? key with
  | some snapshot =>
    rw [remembered] at failed
    cases failed
  | none =>
    have unread : c.readEntry fs key = .error e := by
      rw [remembered] at failed
      rcases entry : c.readEntry fs key with e' | _ | snapshot <;> rw [entry] at failed <;> cases failed
      rfl
    cases located : c.directory with
    | none =>
      rw [readEntry, entryPath, located] at unread
      cases unread
    | some directory =>
      obtain ⟨loc, files, folder⟩ := placed.folder directory located
      rw [readEntry_folder placed.naming located folder] at unread
      split at unread
      · cases unread
      · split at unread <;> cases unread
        rfl

/-! ## Writing -/

/-- The file of a key behind a write: it is gone if the key was dropped, and untouched otherwise. -/
private theorem readEntry_set (placed : c.Placed fs) (done : c.set fs key snapshot = (.ok (), c', fs'))
    (apart : ∀ listed ∈ key :: c.dropping key, c.entryName listed = c.entryName other → listed = other)
    (differ : key ≠ other ∨ other ∈ c.dropping key) :
    c'.readEntry fs' other = if other ∈ c.dropping key then .ok none else c.readEntry fs other := by
  obtain ⟨rfl, -⟩ := set_eq_ok done
  have named : (c.written key snapshot).entryName = c.entryName := rfl
  cases located : c.directory with
  | none =>
    have nowhere : (c.written key snapshot).entryPath other = none := by
      rw [entryPath, show (c.written key snapshot).directory = c.directory from rfl, located]
      rfl
    have nowhere' : c.entryPath other = none := by
      rw [entryPath, located]
      rfl
    rw [readEntry, readEntry, nowhere, nowhere', ite_self]
  | some directory =>
    obtain ⟨loc, files, folder⟩ := placed.folder directory located
    have folder' := set_folder placed.naming located folder done
    rw [readEntry_folder (c := c.written key snapshot) placed.naming located folder',
      readEntry_folder placed.naming located folder, named,
      Function.update_of_ne (placed.naming.ne_manifest other)]
    by_cases dropped : other ∈ c.dropping key
    · have gone : c.entryName other ∈ ((c.listing key snapshot).partitionKeys key.kind).2.map c.entryName :=
        List.mem_map_of_mem dropped
      rw [if_pos gone, if_pos dropped]
    · have stays : c.entryName other ∉ ((c.listing key snapshot).partitionKeys key.kind).2.map c.entryName := by
        intro gone
        obtain ⟨listed, member, same⟩ := List.mem_map.mp gone
        obtain rfl := apart listed (List.mem_cons_of_mem _ member) same
        exact dropped member
      have unlike : c.entryName other ≠ c.entryName key := by
        intro same
        exact (differ.resolve_right dropped) (apart key List.mem_cons_self same.symm)
      rw [if_neg stays, if_neg dropped, Function.update_of_ne unlike]

/-- What is held behind a write: nothing at the dropped keys, the new snapshot, and what was held. -/
theorem lookup_set (placed : c.Placed fs) (done : c.set fs key snapshot = (.ok (), c', fs'))
    (apart : ∀ listed ∈ key :: c.dropping key, c.entryName listed = c.entryName other → listed = other) :
    c'.lookup fs' other =
      if other ∈ c.dropping key then none else if key = other then some snapshot else c.lookup fs other := by
  have remembered : c'.memory.get? other =
      if other ∈ c.dropping key then none else if key = other then some snapshot else c.memory.get? other := by
    obtain ⟨rfl, -⟩ := set_eq_ok done
    exact get?_memory_written
  rw [lookup_eq, remembered]
  by_cases dropped : other ∈ c.dropping key
  · rw [readEntry_set placed done apart (.inr dropped), if_pos dropped, if_pos dropped, if_pos dropped]
    rfl
  · rw [if_neg dropped, if_neg dropped]
    by_cases same : key = other
    · rw [if_pos same, if_pos same]
      rfl
    · rw [if_neg same, if_neg same, readEntry_set placed done apart (.inl same), if_neg dropped, lookup_eq]

theorem Placed.set (placed : c.Placed fs) (done : c.set fs key snapshot = (.ok (), c', fs')) : c'.Placed fs' := by
  obtain ⟨rfl, -⟩ := set_eq_ok done
  refine ⟨placed.naming, fun directory located => ?_⟩
  obtain ⟨loc, files, folder⟩ := placed.folder directory located
  exact ⟨loc, _, set_folder placed.naming located folder done⟩

/-- Where no path is too long, a snapshot can be written. -/
theorem Placed.set_ok (placed : c.Placed fs) (key : CacheKey) (snapshot : List UInt8)
    (short : ∀ directory, c.directory = some directory →
      directory.text.utf8ByteSize + FileSystem.nameLimit < FileSystem.pathLimit) :
    ∃ c' fs', c.set fs key snapshot = (.ok (), c', fs') := by
  cases located : c.directory with
  | none => exact ⟨_, _, set_eq_written located⟩
  | some directory =>
    obtain ⟨loc, files, folder⟩ := placed.folder directory located
    exact SnapshotCache.set_ok key snapshot placed.naming located folder (short directory located)

end ModuleGraph.SnapshotCache
