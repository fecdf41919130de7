import ModuleGraph.Proofs.Cache.Lookup
import ModuleGraph.Proofs.FileSystem.Flat

/-!
Evictions that fail. The keys that are beyond the number to be kept leave the manifest together, and are then forgotten
one after the other, up to the first one whose file cannot be removed (`reached`). That one cannot be read any more
either, but those behind it stay as they were (`spared`), and no write takes care of them again
(`lookup_set_of_unlisted`).
-/
namespace ModuleGraph.SnapshotCache
open ModuleGraph.Path FileSystem

/-- A store whose entries have names that files can have, in a directory without links. -/
structure Located (c : SnapshotCache) (directory : Path) (loc : Location) (fs : FileSystem) : Prop where
  naming : IsNaming c.entryName
  located : c.directory = some directory
  plain : fs.IsPlainDirectory directory loc

/-- The keys that are forgotten: those up to the first one whose file cannot be removed, and this one. -/
def reached (c : SnapshotCache) (fs : FileSystem) : List CacheKey → List CacheKey
  | [] => []
  | key :: rest => if (c.removeEntry fs key).isOk then key :: c.reached fs rest else [key]

/-- The keys that a write takes off the manifest without forgetting them. -/
def spared (c : SnapshotCache) (fs : FileSystem) (key : CacheKey) : List CacheKey :=
  (c.dropping key).filter (· ∉ c.reached fs (c.dropping key))

/-- The snapshot in the file of a key, if it can be read. -/
def inFile (c : SnapshotCache) (fs : FileSystem) (key : CacheKey) : Option (List UInt8) :=
  (c.readEntry fs key).toOption.join

/-- The snapshot of a key in what stands at its name. -/
def snapshotIn (key : CacheKey) : Option Entry → Option (List UInt8)
  | some (.file bytes) => ((entryCodec.decode bytes).filter (·.1 = key)).map Prod.snd
  | _ => none

variable {c c' : SnapshotCache} {fs fs' : FileSystem} {directory : Path} {loc : Location} {key other : CacheKey}
  {keys : List CacheKey} {snapshot value : List UInt8} {name : String} {held : Option (List UInt8)}

theorem lookup_eq_some_iff : c.lookup fs key = some snapshot ↔ (c.get fs key).1 = .ok (some snapshot) := by
  rw [lookup]
  rcases (c.get fs key).1 with e | _ | found <;> simp [Except.toOption]

theorem lookup_eq_inFile : c.lookup fs key = (c.memory.get? key).or (c.inFile fs key) := lookup_eq

/-! ## Entries and their files -/

namespace Located

/-- What is read for a key is what stands at its name, if the path is not too long. -/
theorem inFile_eq (placed : c.Located directory loc fs) : c.inFile fs key =
    if (directory.join ⟨c.entryName key⟩).text.utf8ByteSize ≤ pathLimit
    then snapshotIn key (fs.entry? (c.entryName key :: loc)) else none := by
  have read (bytes : List UInt8) : fs.read (directory.join ⟨c.entryName key⟩) = .ok bytes ↔ _ :=
    placed.plain.read_iff (placed.naming.isName key) (placed.naming.fits key)
  rw [inFile, readEntry, entryPath_eq placed.located]
  by_cases isFile : fs.isFile (directory.join ⟨c.entryName key⟩) = true
  · obtain ⟨bytes, content⟩ := isFile_iff.mp isFile
    obtain ⟨fits, stands⟩ := (read bytes).mp content
    simp only [isFile, if_true, content, fits, stands, snapshotIn]
    rcases entryCodec.decode bytes with _ | ⟨stored, snapshot⟩
    · rfl
    · by_cases same : stored = key <;> simp [same, Except.toOption, Option.filter]
  · have noFile (bytes : List UInt8) : fs.read (directory.join ⟨c.entryName key⟩) ≠ .ok bytes := fun content =>
      isFile (isFile_iff.mpr ⟨bytes, content⟩)
    simp only [if_neg isFile]
    by_cases fits : (directory.join ⟨c.entryName key⟩).text.utf8ByteSize ≤ pathLimit
    · rw [if_pos fits]
      rcases stands : fs.entry? (c.entryName key :: loc) with _ | bytes | _ | target
      · rfl
      · exact absurd ((read bytes).mpr ⟨fits, stands⟩) (noFile bytes)
      · rfl
      · rfl
    · rw [if_neg fits]
      rfl

theorem removeEntry_eq (placed : c.Located directory loc fs) : c.removeEntry fs key =
    if pathLimit < (directory.join ⟨c.entryName key⟩).text.utf8ByteSize then .error (.fileError .nameTooLong)
    else match fs.entry? (c.entryName key :: loc) with
      | none => .ok fs
      | some .directory => .error (.fileError .isDirectory)
      | some _ => .ok (fs.dropTree (c.entryName key :: loc)) := by
  rw [removeEntry, entryPath_eq placed.located]
  simp only [placed.plain.removeFile_eq (placed.naming.isName key) (placed.naming.fits key)]
  by_cases long : pathLimit < (directory.join ⟨c.entryName key⟩).text.utf8ByteSize
  · simp only [if_pos long]
  · simp only [if_neg long]
    rcases fs.entry? (c.entryName key :: loc) with _ | bytes | _ | target <;> rfl

/-- A file can be removed unless there is a directory at its name, or its path is too long. -/
theorem removeEntry_isOk (placed : c.Located directory loc fs) : (c.removeEntry fs key).isOk = true ↔
    (directory.join ⟨c.entryName key⟩).text.utf8ByteSize ≤ pathLimit ∧
      fs.entry? (c.entryName key :: loc) ≠ some .directory := by
  rw [placed.removeEntry_eq]
  split
  · rename_i long
    simp [Except.isOk, Except.toBool, Nat.not_le.mpr long]
  · rename_i fits
    rcases fs.entry? (c.entryName key :: loc) with _ | bytes | _ | target <;>
      simp [Except.isOk, Except.toBool, Nat.not_lt.mp fits]

theorem altersFile_removeEntry (placed : c.Located directory loc fs) (done : c.removeEntry fs key = .ok fs') :
    AltersFile fs loc (c.entryName key) none fs' := by
  have solid : fs.entry? (c.entryName key :: loc) ≠ some .directory :=
    (placed.removeEntry_isOk.mp (by rw [done]; rfl)).2
  rw [placed.removeEntry_eq] at done
  split at done
  · cases done
  · rcases stands : fs.entry? (c.entryName key :: loc) with _ | bytes | _ | target <;> rw [stands] at done <;> cases done
    · exact altersFile_refl stands
    · exact placed.plain.altersFile_dropTree solid
    · exact placed.plain.altersFile_dropTree solid

theorem writeEntry_ok (placed : c.Located directory loc fs) (snapshot : List UInt8)
    (fits : (directory.join ⟨c.entryName key⟩).text.utf8ByteSize ≤ pathLimit)
    (solid : fs.entry? (c.entryName key :: loc) ≠ some .directory) : ∃ fs', c.writeEntry fs key snapshot = .ok fs' := by
  obtain ⟨written, wrote⟩ := placed.plain.write_ok (entryCodec.write (key, snapshot)) (placed.naming.isName key)
    (placed.naming.fits key) fits solid
  refine ⟨written, ?_⟩
  rw [writeEntry, entryPath_eq placed.located]
  simp only [wrote]

theorem storeManifest_ok (placed : c.Located directory loc fs)
    (fits : (directory.join ⟨manifestName⟩).text.utf8ByteSize ≤ pathLimit)
    (solid : fs.entry? (manifestName :: loc) ≠ some .directory) : ∃ fs', c.storeManifest fs = .ok fs' := by
  obtain ⟨written, wrote⟩ := placed.plain.write_ok (CacheKey.codec.list.write c.manifest) isName_manifestName
    manifestName_fits fits solid
  refine ⟨written, ?_⟩
  rw [storeManifest, placed.located]
  simp only [manifestPath_eq, wrote]

theorem altersFile_writeEntry (placed : c.Located directory loc fs) (done : c.writeEntry fs key snapshot = .ok fs') :
    AltersFile fs loc (c.entryName key) (some (entryCodec.write (key, snapshot))) fs' := by
  rw [writeEntry, entryPath_eq placed.located] at done
  simp only at done
  split at done
  · rename_i wrote
    cases done
    obtain ⟨-, solid, rfl⟩ := (placed.plain.write_iff (placed.naming.isName key) (placed.naming.fits key)).mp wrote
    exact altersFile_setEntry solid
  · cases done

theorem altersFile_storeManifest (placed : c.Located directory loc fs) (done : c.storeManifest fs = .ok fs') :
    ∃ bytes, AltersFile fs loc manifestName (some bytes) fs' := by
  rw [storeManifest, placed.located] at done
  simp only at done
  split at done
  · rename_i wrote
    cases done
    obtain ⟨-, solid, rfl⟩ := (placed.plain.write_iff isName_manifestName manifestName_fits).mp wrote
    exact ⟨_, altersFile_setEntry solid⟩
  · cases done

theorem of_altersFile (placed : c.Located directory loc fs) (changed : AltersFile fs loc name held fs') :
    c.Located directory loc fs' :=
  ⟨placed.naming, placed.located, placed.plain.of_altersFile changed⟩

/-- A change of one file shows at the keys with its name only. -/
theorem inFile_of_altersFile (placed : c.Located directory loc fs) (changed : AltersFile fs loc name held fs') :
    c.inFile fs' key = if name = c.entryName key then
        if (directory.join ⟨c.entryName key⟩).text.utf8ByteSize ≤ pathLimit
        then snapshotIn key (held.map .file) else none
      else c.inFile fs key := by
  rw [placed.inFile_eq, (placed.of_altersFile changed).inFile_eq, changed.entry]
  by_cases same : name = c.entryName key <;> simp [same]

/-- Whether a file can be removed does not change with the files. -/
theorem removeEntry_isOk_of_altersFile (placed : c.Located directory loc fs) (changed : AltersFile fs loc name held fs') :
    (c.removeEntry fs' key).isOk = (c.removeEntry fs key).isOk := by
  rw [Bool.eq_iff_iff, placed.removeEntry_isOk, (placed.of_altersFile changed).removeEntry_isOk]
  exact and_congr_right fun _ => not_congr (changed.directory_iff _)

/-- What cannot be removed cannot be read. -/
theorem inFile_of_removeEntry_error {e : CacheError} (placed : c.Located directory loc fs)
    (stays : c.removeEntry fs key = .error e) (same : c.entryName key = c.entryName other) : c.inFile fs other = none := by
  have blocked : ¬(c.removeEntry fs key).isOk = true := by
    rw [stays]
    nofun
  rw [placed.removeEntry_isOk, same, not_and_or, not_not] at blocked
  rw [placed.inFile_eq]
  rcases blocked with long | directory
  · rw [if_neg long]
  · rw [directory]
    exact ite_self none

end Located

/-! ## Forgetting -/

theorem reached_congr {d : SnapshotCache}
    (same : ∀ key ∈ keys, (c.removeEntry fs key).isOk = (d.removeEntry fs' key).isOk) :
    c.reached fs keys = d.reached fs' keys := by
  induction keys with
  | nil => rfl
  | cons key rest ih =>
    rw [reached, reached, same key List.mem_cons_self,
      ih fun later member => same later (List.mem_cons_of_mem key member)]

theorem Located.forgetting (placed : c.Located directory loc fs) (keys : List CacheKey) :
    (c.forgetting keys).Located directory loc fs :=
  ⟨placed.naming, placed.located, placed.plain⟩

/-- Forgetting keys gets as far as files can be removed. Of the keys that it gets to nothing can be read behind it, and
    it fails if there are others. -/
theorem Located.forget (placed : c.Located directory loc fs) (keys : List CacheKey) :
    (c.forget fs keys).2.1 = c.forgetting (c.reached fs keys) ∧
      c.Located directory loc (c.forget fs keys).2.2 ∧
      (∀ other, c.inFile (c.forget fs keys).2.2 other =
        if ∃ gone ∈ c.reached fs keys, c.entryName gone = c.entryName other then none else c.inFile fs other) ∧
      ((c.forget fs keys).1 = .ok () → c.reached fs keys = keys) := by
  induction keys generalizing c fs with
  | nil => exact ⟨rfl, placed, fun other => by simp [reached, SnapshotCache.forget], fun _ => rfl⟩
  | cons key rest ih =>
    cases removed : c.removeEntry fs key with
    | error e =>
      have stops : c.reached fs (key :: rest) = [key] := by
        rw [reached, removed]
        rfl
      rw [forget_of_error removed, stops]
      refine ⟨rfl, placed, fun other => ?_, fun done => by cases done⟩
      by_cases same : c.entryName key = c.entryName other
      · simp [placed.inFile_of_removeEntry_error removed same]
      · simp [same]
    | ok left =>
      have changed := placed.altersFile_removeEntry removed
      have further : (c.forgetting [key]).reached left rest = c.reached fs rest :=
        reached_congr fun later _ => placed.removeEntry_isOk_of_altersFile changed
      have goesOn : c.reached fs (key :: rest) = key :: c.reached fs rest := by
        rw [reached, removed]
        rfl
      obtain ⟨forgotten, located, files, complete⟩ := ih ((placed.of_altersFile changed).forgetting [key])
      rw [further] at forgotten files complete
      rw [forget_of_ok removed, goesOn]
      refine ⟨forgotten, ⟨placed.naming, placed.located, located.plain⟩, fun other => ?_, fun done => ?_⟩
      · have behind : (c.forgetting [key]).inFile left other = _ := placed.inFile_of_altersFile changed
        refine (files other).trans ?_
        rw [behind]
        by_cases same : c.entryName key = c.entryName other <;> simp [same, snapshotIn, SnapshotCache.forgetting]
      · exact congrArg (key :: ·) (complete done)

/-! ## Writing -/

@[simp] theorem entryName_trimmed : (c.trimmed key snapshot).entryName = c.entryName := rfl

@[simp] theorem inFile_trimmed : (c.trimmed key snapshot).inFile = c.inFile := rfl

theorem Located.trimmed (placed : c.Located directory loc fs) (key : CacheKey) (snapshot : List UInt8) :
    (c.trimmed key snapshot).Located directory loc fs :=
  ⟨placed.naming, placed.located, placed.plain⟩

/-- The entry of one key holds nothing for another one. -/
theorem snapshotIn_of_ne (fits : key.Fits) (short : snapshot.length < Codec.wordLimit) (differ : other ≠ key) :
    snapshotIn other (some (.file (entryCodec.write (key, snapshot)))) = none := by
  rw [snapshotIn, (readsBack_entryCodec fits short).decode]
  simp [Option.filter, Ne.symm differ]

/-- A write that gets as far as the manifest forgets the keys that it gets to. Files change where these or the key that
    is written have them. -/
theorem Located.set_of_writeEntry {written : FileSystem} (placed : c.Located directory loc fs) (fits : key.Fits)
    (short : snapshot.length < Codec.wordLimit) (wrote : c.writeEntry fs key snapshot = .ok written) :
    (c.set fs key snapshot).2.1 = (c.trimmed key snapshot).forgetting (c.reached fs (c.dropping key)) ∧
      (∀ other ≠ key, c.inFile (c.set fs key snapshot).2.2 other =
        if ∃ gone ∈ key :: c.reached fs (c.dropping key), c.entryName gone = c.entryName other then none
        else c.inFile fs other) ∧
      ((c.set fs key snapshot).1 = .ok () → c.reached fs (c.dropping key) = c.dropping key) := by
  have changed := placed.altersFile_writeEntry wrote
  have further : (c.trimmed key snapshot).reached written (c.dropping key) = c.reached fs (c.dropping key) :=
    reached_congr fun later _ => placed.removeEntry_isOk_of_altersFile changed
  obtain ⟨forgotten, located, files, complete⟩ :=
    ((placed.of_altersFile changed).trimmed key snapshot).forget (c.dropping key)
  rw [← evict_listing] at forgotten located files complete
  rcases evicted : (c.listing key snapshot).evict written key.kind with ⟨result, c', left⟩
  simp only [evicted, further, entryName_trimmed, inFile_trimmed] at forgotten located files complete
  have behind : ∀ other ≠ key, c.inFile left other =
      if ∃ gone ∈ key :: c.reached fs (c.dropping key), c.entryName gone = c.entryName other then none
      else c.inFile fs other := by
    intro other differ
    have before : c.inFile written other = _ := placed.inFile_of_altersFile changed
    rw [Option.map_some, snapshotIn_of_ne fits short differ, ite_self] at before
    simp only [files, before, List.mem_cons, exists_eq_or_imp]
    by_cases same : c.entryName key = c.entryName other <;> simp [same]
  rw [set_eq wrote evicted]
  cases stored : c'.storeManifest left with
  | error e => exact ⟨forgotten, behind, nofun⟩
  | ok final =>
    refine ⟨forgotten, fun other differ => ?_, complete⟩
    have located' : c'.Located directory loc left := by
      rw [forgotten]
      exact located.forgetting _
    obtain ⟨bytes, manifest⟩ := located'.altersFile_storeManifest stored
    have there : c.Located directory loc left := ⟨placed.naming, placed.located, located.plain⟩
    rw [← behind other differ, there.inFile_of_altersFile manifest, if_neg (Ne.symm (placed.naming.ne_manifest other))]

/-- What a write leaves of a key that it does not write and does not get to. -/
theorem Located.lookup_set {written : FileSystem} (placed : c.Located directory loc fs) (fits : key.Fits)
    (short : snapshot.length < Codec.wordLimit) (wrote : c.writeEntry fs key snapshot = .ok written)
    (differ : other ≠ key) : (c.set fs key snapshot).2.1.lookup (c.set fs key snapshot).2.2 other =
      if other ∈ c.reached fs (c.dropping key) then none
      else (c.memory.get? other).or
        (if ∃ gone ∈ key :: c.reached fs (c.dropping key), c.entryName gone = c.entryName other then none
        else c.inFile fs other) := by
  obtain ⟨forgotten, files, -⟩ := placed.set_of_writeEntry fits short wrote
  have memory : (c.set fs key snapshot).2.1.memory.get? other =
      if other ∈ c.reached fs (c.dropping key) then none else c.memory.get? other := by
    have inserted : (c.trimmed key snapshot).memory.get? other = c.memory.get? other :=
      OrderedMap.get?_insert.trans (if_neg (Ne.symm differ))
    rw [forgotten, get?_forgetting, inserted]
  have inFile : (c.set fs key snapshot).2.1.inFile (c.set fs key snapshot).2.2 other =
      c.inFile (c.set fs key snapshot).2.2 other := by
    rw [forgotten]
    rfl
  rw [lookup_eq_inFile, memory, inFile, files other differ]
  by_cases got : other ∈ c.reached fs (c.dropping key)
  · rw [if_pos got, if_pos got, if_pos ⟨other, List.mem_cons_of_mem key got, rfl⟩, Option.none_or]
  · rw [if_neg got, if_neg got]

/-- What a key that a write leaves unlisted has behind it: nothing, unless it was taken off the manifest and not got
    to. Then it has what it had, if its file has a name of its own. A write that succeeds gets to all keys. -/
theorem lookup_set_of_unlisted {result : Except CacheError Unit} (placed : c.Located directory loc fs)
    (room : 0 < c.maxEntries) (listed : ∀ other, (c.lookup fs other).isSome → other ∈ c.listKeys) (fits : key.Fits)
    (short : snapshot.length < Codec.wordLimit) (done : c.set fs key snapshot = (result, c', fs')) :
    (∀ other ∉ c'.listKeys,
      (other ∉ c.spared fs key → c'.lookup fs' other = none) ∧
      (other ∈ c.spared fs key →
        (∀ gone ∈ key :: c.reached fs (c.dropping key), c.entryName gone = c.entryName other → gone = other) →
        c'.lookup fs' other = c.lookup fs other)) ∧
    (result = .ok () → c.spared fs key = []) := by
  obtain ⟨rfl, rfl, rfl⟩ : (c.set fs key snapshot).1 = result ∧ (c.set fs key snapshot).2.1 = c' ∧
      (c.set fs key snapshot).2.2 = fs' := by simp [done]
  cases wrote : c.writeEntry fs key snapshot with
  | error e =>
    have unchanged : c.set fs key snapshot = (.error e, c, fs) := by rw [set, wrote]
    rw [unchanged]
    refine ⟨fun other unlisted => ⟨fun _ => ?_, fun _ _ => rfl⟩, fun done => by cases done⟩
    exact Option.not_isSome_iff_eq_none.mp fun held => unlisted (listed other held)
  | ok written =>
    obtain ⟨forgotten, -, complete⟩ := placed.set_of_writeEntry fits short wrote
    have kept : (c.set fs key snapshot).2.1.listKeys = (c.trimmed key snapshot).manifest := by
      rw [forgotten]
      rfl
    have last : key ∈ (c.trimmed key snapshot).manifest :=
      (mem_trimmed_or_dropping (.inl rfl)).resolve_right (not_mem_dropping room)
    refine ⟨fun other unlisted => ?_, fun done => ?_⟩
    · rw [kept] at unlisted
      have differ : other ≠ key := fun same => unlisted (same ▸ last)
      rw [placed.lookup_set fits short wrote differ]
      constructor
      · intro unspared
        by_cases got : other ∈ c.reached fs (c.dropping key)
        · rw [if_pos got]
        -- The key was not listed before either, so it had nothing.
        have undropped : other ∉ c.dropping key := fun dropped =>
          unspared (List.mem_filter.mpr ⟨dropped, by simpa using got⟩)
        have unknown : other ∉ c.manifest := fun known =>
          (mem_trimmed_or_dropping (.inr known)).elim unlisted undropped
        have nothing : c.lookup fs other = none :=
          Option.not_isSome_iff_eq_none.mp fun held => unknown (listed other held)
        rw [lookup_eq_inFile, Option.or_eq_none_iff] at nothing
        rw [if_neg got, nothing.1, nothing.2, ite_self, Option.none_or]
      · intro spared apart
        have missed : other ∉ c.reached fs (c.dropping key) := by simpa using (List.mem_filter.mp spared).2
        rw [if_neg missed, if_neg, lookup_eq_inFile]
        rintro ⟨gone, inside, same⟩
        obtain rfl := apart gone inside same
        rcases List.mem_cons.mp inside with new | got
        · exact differ new
        · exact missed got
    · rw [spared, complete done, List.filter_eq_nil_iff]
      simp

/-! ## A file that cannot be removed -/

/-- A key that is listed, with a directory in the place of its file. -/
def stuckKey : CacheKey := .of .dependencies "r1"

/-- The listed key behind it. -/
def sparedKey : CacheKey := .of .dependencies "r2"

/-- The key that is written. -/
def newKey : CacheKey := .of .dependencies "r3"

/-- The manifest and the entry of the key that can be read. -/
private def blockedContent : OrderedMap String (List UInt8) :=
  .ofList [(manifestName, CacheKey.codec.list.write [stuckKey, sparedKey]),
    (sparedKey.entryName, entryCodec.write (sparedKey, [2]))]

/-- The directory of a store with two listed keys. -/
def blockedFiles : FileSystem := (flat blockedContent).setEntry [stuckKey.entryName, "p"] .directory

/-- The store in that directory, opened to keep one key of a kind. -/
def blockedStore : SnapshotCache :=
  { inMemory with manifest := [stuckKey, sparedKey], directory := some ⟨"/p"⟩, maxEntries := 1 }

private theorem entryNames_blocked : stuckKey.entryName ≠ sparedKey.entryName ∧ stuckKey.entryName ≠ newKey.entryName ∧
    sparedKey.entryName ≠ newKey.entryName := by
  decide +kernel

private theorem get?_blockedContent : blockedContent.get? name =
    if sparedKey.entryName = name then some (entryCodec.write (sparedKey, [2]))
    else if manifestName = name then some (CacheKey.codec.list.write [stuckKey, sparedKey]) else none := by
  simp [blockedContent, OrderedMap.ofList, OrderedMap.insertAll, OrderedMap.get?_insert]

private theorem isFolder_blockedContent : (flat blockedContent).IsFolder ⟨"/p"⟩ ["p"] blockedContent.get? := by
  refine isFolder_flat fun name known => ?_
  obtain ⟨bytes, held⟩ := OrderedMap.mem_keys_iff.mp known
  rw [get?_blockedContent] at held
  split at held
  · rename_i same
    exact same ▸ sparedKey.entryName_fits
  split at held
  · rename_i same
    exact same ▸ manifestName_fits
  · cases held

private theorem entry?_blockedFiles : blockedFiles.entry? [name, "p"] =
    if stuckKey.entryName = name then some .directory else (blockedContent.get? name).map .file := by
  have stands : entry? (flat blockedContent) [name, "p"] = (blockedContent.get? name).map .file :=
    isFolder_blockedContent.entry?_name
  rw [blockedFiles, entry?_setEntry, stands]
  simp

private theorem placed_blocked : blockedStore.Located ⟨"/p"⟩ ["p"] blockedFiles := by
  have free : entry? (flat blockedContent) [stuckKey.entryName, "p"] = none := by
    have stands : entry? (flat blockedContent) [stuckKey.entryName, "p"] = (blockedContent.get? stuckKey.entryName).map .file :=
      isFolder_blockedContent.entry?_name
    rw [stands, get?_blockedContent, if_neg (Ne.symm entryNames_blocked.1),
      if_neg (Ne.symm (isNaming_entryName.ne_manifest stuckKey))]
    rfl
  exact ⟨isNaming_entryName, rfl, isFolder_blockedContent.plain.with_directory free⟩

private theorem fits_blocked (short : name.utf8ByteSize ≤ nameLimit) :
    (Path.join ⟨"/p"⟩ ⟨name⟩).text.utf8ByteSize ≤ pathLimit :=
  utf8ByteSize_join_le_pathLimit (by decide) short

/-- A directory in the place of a file cannot be read. -/
private theorem lookup_blocked (key : CacheKey) :
    blockedStore.lookup blockedFiles key = if key = sparedKey then some [2] else none := by
  have memory : blockedStore.memory.get? key = none := rfl
  have name : blockedStore.entryName key = key.entryName := rfl
  rw [lookup_eq_inFile, memory, Option.none_or, placed_blocked.inFile_eq, name, if_pos (fits_blocked key.entryName_fits),
    entry?_blockedFiles, get?_blockedContent]
  by_cases readable : key = sparedKey
  · have back : entryCodec.ReadsBack (sparedKey, [2]) := readsBack_entryCodec (by decide) (by decide)
    rw [readable, if_neg entryNames_blocked.1, if_pos rfl, Option.map_some, snapshotIn, back.decode]
    simp [Option.filter]
  · rw [if_neg readable]
    split
    · rfl
    split
    · exact snapshotIn_of_ne (by decide) (by decide) readable
    · rw [if_neg (Ne.symm (isNaming_entryName.ne_manifest key))]
      rfl

private theorem listed_blocked (key : CacheKey) (readable : (blockedStore.lookup blockedFiles key).isSome) :
    key ∈ blockedStore.listKeys := by
  rw [lookup_blocked] at readable
  split at readable
  · rename_i same
    rw [same]
    decide
  · cases readable

private theorem dropping_blocked : blockedStore.dropping newKey = [stuckKey, sparedKey] := by decide

private theorem directory_blocked : blockedFiles.entry? [stuckKey.entryName, "p"] = some .directory := by
  rw [entry?_blockedFiles, if_pos rfl]

private theorem not_directory_blocked (other : stuckKey.entryName ≠ name) :
    blockedFiles.entry? [name, "p"] ≠ some .directory := by
  rw [entry?_blockedFiles, if_neg other]
  cases blockedContent.get? name <;> simp

private theorem reached_blocked : blockedStore.reached blockedFiles (blockedStore.dropping newKey) = [stuckKey] := by
  have stays : ¬(blockedStore.removeEntry blockedFiles stuckKey).isOk = true := fun removed =>
    (placed_blocked.removeEntry_isOk.mp removed).2 directory_blocked
  rw [dropping_blocked, reached, if_neg stays]

private theorem exists_writeEntry_blocked : ∃ written, blockedStore.writeEntry blockedFiles newKey [3] = .ok written :=
  placed_blocked.writeEntry_ok [3] (fits_blocked newKey.entryName_fits) (not_directory_blocked entryNames_blocked.2.1)

private theorem set_blocked : ∃ fs', blockedStore.set blockedFiles newKey [3] =
    (.error (.fileError .isDirectory), (blockedStore.trimmed newKey [3]).forgetting [stuckKey], fs') := by
  obtain ⟨written, wrote⟩ := exists_writeEntry_blocked
  have changed := placed_blocked.altersFile_writeEntry wrote
  have placed := (placed_blocked.of_altersFile changed).trimmed newKey [3]
  have stays : (blockedStore.trimmed newKey [3]).removeEntry written stuckKey = .error (.fileError .isDirectory) := by
    have stands : written.entry? [stuckKey.entryName, "p"] = some .directory :=
      (changed.directory_iff stuckKey.entryName).mpr directory_blocked
    have name : (blockedStore.trimmed newKey [3]).entryName stuckKey = stuckKey.entryName := rfl
    rw [placed.removeEntry_eq, name, if_neg (Nat.not_lt.mpr (fits_blocked stuckKey.entryName_fits)), stands]
  have evicted : (blockedStore.listing newKey [3]).evict written newKey.kind = (.error (.fileError .isDirectory),
      (blockedStore.trimmed newKey [3]).forgetting [stuckKey], written) := by
    rw [evict_listing, dropping_blocked, forget_of_error stays]
  have free : written.entry? [manifestName, "p"] ≠ some .directory :=
    fun directory => not_directory_blocked (isNaming_entryName.ne_manifest stuckKey)
      ((changed.directory_iff manifestName).mp directory)
  obtain ⟨final, stored⟩ := (placed.forgetting [stuckKey]).storeManifest_ok (fits_blocked manifestName_fits) free
  exact ⟨final, by rw [set_eq wrote evicted, stored]⟩

private theorem openAt_blocked : ∃ opened, openAt blockedFiles ⟨"/p"⟩ = (.ok opened, blockedFiles) ∧
    opened.withMaxEntries 1 = blockedStore := by
  have listed : readManifest blockedFiles ⟨"/p"⟩ = [stuckKey, sparedKey] := by
    have stands : blockedFiles.entry? [manifestName, "p"] =
        some (.file (CacheKey.codec.list.write [stuckKey, sparedKey])) := by
      rw [entry?_blockedFiles, if_neg (isNaming_entryName.ne_manifest stuckKey), get?_blockedContent,
        if_neg (isNaming_entryName.ne_manifest sparedKey), if_pos rfl]
      rfl
    have content := (placed_blocked.plain.read_iff isName_manifestName manifestName_fits).mpr
      ⟨fits_blocked manifestName_fits, stands⟩
    exact readManifest_of_read (by decide) (by decide) content
  refine ⟨{ inMemory with manifest := [stuckKey, sparedKey], directory := some ⟨"/p"⟩ }, ?_, rfl⟩
  rw [openAt, makeDirectories_of_stat placed_blocked.plain.stat]
  simp only [listed]

private theorem apart_blocked : ∀ gone ∈ [newKey, stuckKey], gone.entryName ≠ sparedKey.entryName := by
  simp [entryNames_blocked.1, Ne.symm entryNames_blocked.2.2]

theorem lookup_set_of_unlisted_blocked :
    ∃ c' fs', blockedStore.set blockedFiles newKey [3] = (.error (.fileError .isDirectory), c', fs') ∧
      (stuckKey ∉ c'.listKeys ∧ c'.lookup fs' stuckKey = none) ∧
      sparedKey ∉ c'.listKeys ∧ c'.lookup fs' sparedKey = blockedStore.lookup blockedFiles sparedKey := by
  have spared : blockedStore.spared blockedFiles newKey = [sparedKey] := by
    rw [SnapshotCache.spared, reached_blocked, dropping_blocked]
    decide
  obtain ⟨fs', done⟩ := set_blocked
  obtain ⟨unlisted, -⟩ := lookup_set_of_unlisted placed_blocked (by decide) listed_blocked (by decide) (by decide) done
  have stuckGone : stuckKey ∉ ((blockedStore.trimmed newKey [3]).forgetting [stuckKey]).listKeys := by decide
  have sparedGone : sparedKey ∉ ((blockedStore.trimmed newKey [3]).forgetting [stuckKey]).listKeys := by decide
  refine ⟨_, fs', done, ⟨stuckGone, (unlisted stuckKey stuckGone).1 ?_⟩, sparedGone,
    (unlisted sparedKey sparedGone).2 ?_ ?_⟩
  · rw [spared]
    decide
  · rw [spared]
    exact List.mem_singleton.mpr rfl
  · rw [reached_blocked]
    exact fun gone inside same => absurd same (apart_blocked gone inside)

/-- A key that can be read and is not listed: it was taken off the manifest with the key whose file cannot be
    removed. -/
theorem set_leaves_readable :
    ∃ opened c' fs', openAt blockedFiles ⟨"/p"⟩ = (.ok opened, blockedFiles) ∧
      (∀ key, (∃ snapshot, ((opened.withMaxEntries 1).get blockedFiles key).1 = .ok (some snapshot)) →
        key ∈ (opened.withMaxEntries 1).listKeys) ∧
      (opened.withMaxEntries 1).set blockedFiles newKey [3] = (.error (.fileError .isDirectory), c', fs') ∧
      sparedKey ∉ c'.listKeys ∧ (c'.get fs' sparedKey).1 = .ok (some [2]) := by
  obtain ⟨opened, done, same⟩ := openAt_blocked
  obtain ⟨written, wrote⟩ := exists_writeEntry_blocked
  obtain ⟨fs', failed⟩ := set_blocked
  have memory : blockedStore.memory.get? sparedKey = none := rfl
  have before := lookup_blocked sparedKey
  rw [if_pos rfl, lookup_eq_inFile, memory, Option.none_or] at before
  have behind : (blockedStore.set blockedFiles newKey [3]).2.1.lookup
      (blockedStore.set blockedFiles newKey [3]).2.2 sparedKey = _ :=
    placed_blocked.lookup_set (by decide) (by decide) wrote (by decide)
  have apart : ¬∃ gone ∈ [newKey, stuckKey], gone.entryName = sparedKey.entryName := by
    rintro ⟨gone, inside, shared⟩
    exact apart_blocked gone inside shared
  rw [failed, reached_blocked, if_neg (by decide), memory, Option.none_or, before] at behind
  have readable := behind.trans (if_neg apart)
  have unlisted : sparedKey ∉ ((blockedStore.trimmed newKey [3]).forgetting [stuckKey]).listKeys := by decide
  refine ⟨opened, _, fs', done, ?_, by rw [same, failed], unlisted, lookup_eq_some_iff.mp readable⟩
  rw [same]
  rintro key ⟨snapshot, found⟩
  refine listed_blocked key ?_
  rw [lookup_eq_some_iff.mpr found]
  rfl

end ModuleGraph.SnapshotCache
