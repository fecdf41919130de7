import ModuleGraph.Proofs.Cache.Lookup
import ModuleGraph.Proofs.Cache.Refinement

/-!
Stores in which keys may share the names of their files. A file then holds the entry of whichever key was written
there last, and dropping one key may remove the file of another. What is held at a key, in memory or in a file, is
still a snapshot of that key (`SnapshotCache.Holds`), whichever operations succeed, because every file says whose
entry it is. So a store answers with nothing or with the snapshot that was written last
(`SnapshotCache.trace_latest`).
-/
namespace ModuleGraph

/-- The snapshot of a key behind a call, as far as it was written since everything was dropped. -/
def CacheCall.latest (key : CacheKey) (before : Option (List UInt8)) : CacheCall → Option (List UInt8)
  | .set other snapshot => if other = key then some snapshot else before
  | .clear => none
  | _ => before

/-- A call writes nothing whose length cannot be written. -/
def CacheCall.Writable : CacheCall → Prop
  | .set key snapshot => key.Fits ∧ snapshot.length < Codec.wordLimit
  | _ => True

instance : (call : CacheCall) → Decidable call.Writable
  | .set _ _ => inferInstanceAs (Decidable (_ ∧ _))
  | .get _ => .isTrue trivial
  | .listKeys => .isTrue trivial
  | .clear => .isTrue trivial
  | .reopen _ => .isTrue trivial

namespace SnapshotCache

/-- The snapshot that was written last at a key since everything was dropped. -/
def latest (key : CacheKey) (calls : List CacheCall) : Option (List UInt8) :=
  calls.foldl (CacheCall.latest key) none

/-- What may be held at a key. -/
abbrev Held : Type := CacheKey → List UInt8 → Prop

/-- Every file with the name of an entry is the entry of a key that has this name. -/
def AreEntries (P : Held) (name : CacheKey → String) (files : String → Option (List UInt8)) : Prop :=
  ∀ key bytes, files (name key) = some bytes → ∃ owner snapshot, name owner = name key ∧ owner.Fits ∧
    snapshot.length < Codec.wordLimit ∧ P owner snapshot ∧ bytes = entryCodec.write (owner, snapshot)

/-- Whatever a store holds, in memory or in the files of its directory, may be held at its key. -/
structure Holds (P : Held) (loc : Location) (c : SnapshotCache) (fs : FileSystem) : Prop where
  naming : IsNaming c.entryName
  remembered : ∀ key snapshot, c.memory.get? key = some snapshot → P key snapshot
  stored : ∀ directory, c.directory = some directory →
    ∃ files, fs.IsFolder directory loc files ∧ AreEntries P c.entryName files

variable {P Q : Held} {name : CacheKey → String} {files left : String → Option (List UInt8)}
  {c c' : SnapshotCache} {fs fs' : FileSystem} {directory : Path} {loc : Location} {key : CacheKey}
  {keys : List CacheKey} {snapshot : List UInt8} {call : CacheCall} {calls before : List CacheCall}

/-! ## Files -/

theorem AreEntries.of_subset (entries : AreEntries P name files)
    (fewer : ∀ key bytes, left (name key) = some bytes → files (name key) = some bytes) : AreEntries P name left :=
  fun key bytes held => entries key bytes (fewer key bytes held)

/-- An entry that is written replaces whatever had its name. -/
theorem AreEntries.write (entries : AreEntries P name files) (fits : key.Fits)
    (short : snapshot.length < Codec.wordLimit) (new : Q key snapshot)
    (others : ∀ other value, other ≠ key → P other value → Q other value) :
    AreEntries Q name (Function.update files (name key) (some (entryCodec.write (key, snapshot)))) := by
  intro other bytes held
  by_cases same : name other = name key
  · rw [same, Function.update_self] at held
    cases held
    exact ⟨key, snapshot, same.symm, fits, short, new, rfl⟩
  · rw [Function.update_of_ne same] at held
    obtain ⟨owner, value, named, fits', short', allowed, rfl⟩ := entries other bytes held
    have differ : owner ≠ key := by
      rintro rfl
      exact same named.symm
    exact ⟨owner, value, named, fits', short', others owner value differ allowed, rfl⟩

/-! ## Steps of a write -/

theorem Holds.removeEntry (holds : c.Holds P loc fs) (done : c.removeEntry fs key = .ok fs') : c.Holds P loc fs' := by
  refine ⟨holds.naming, holds.remembered, fun directory located => ?_⟩
  obtain ⟨files, folder, entries⟩ := holds.stored directory located
  refine ⟨_, removeEntry_folder holds.naming located folder done, entries.of_subset fun other bytes held => ?_⟩
  by_cases gone : c.entryName other = c.entryName key
  · rw [gone, Function.update_self] at held
    cases held
  · rwa [Function.update_of_ne gone] at held

/-- Forgetting may stop half way. -/
theorem Holds.forget (holds : c.Holds P loc fs) (keys : List CacheKey) :
    (c.forget fs keys).2.1.Holds P loc (c.forget fs keys).2.2 := by
  induction keys generalizing c fs with
  | nil => exact holds
  | cons key rest ih =>
    have erased : Holds P loc { c with memory := c.memory.erase key } fs := by
      refine ⟨holds.naming, fun other value found => ?_, holds.stored⟩
      change (c.memory.erase key).get? other = some value at found
      rw [OrderedMap.get?_erase] at found
      split at found
      · cases found
      · exact holds.remembered other value found
    rw [SnapshotCache.forget]
    split
    · exact erased
    · rename_i removed
      exact ih (erased.removeEntry removed)

theorem Holds.storeManifest (holds : c.Holds P loc fs) (done : c.storeManifest fs = .ok fs') : c.Holds P loc fs' := by
  refine ⟨holds.naming, holds.remembered, fun directory located => ?_⟩
  obtain ⟨files, folder, entries⟩ := holds.stored directory located
  refine ⟨_, storeManifest_folder located folder done, entries.of_subset fun other bytes held => ?_⟩
  rwa [Function.update_of_ne (holds.naming.ne_manifest other)] at held

theorem Holds.writeEntry (holds : c.Holds P loc fs) (done : c.writeEntry fs key snapshot = .ok fs') (fits : key.Fits)
    (short : snapshot.length < Codec.wordLimit) (new : Q key snapshot)
    (others : ∀ other value, other ≠ key → P other value → Q other value) :
    (c.listing key snapshot).Holds Q loc fs' := by
  refine ⟨holds.naming, fun other value found => ?_, fun directory located => ?_⟩
  · change (c.memory.insert key snapshot).get? other = some value at found
    rw [OrderedMap.get?_insert] at found
    split at found
    · rename_i same
      cases found
      exact same ▸ new
    · rename_i differ
      exact others other value (Ne.symm differ) (holds.remembered other value found)
  · obtain ⟨files, folder, entries⟩ := holds.stored directory located
    exact ⟨_, writeEntry_folder holds.naming located folder done, entries.write fits short new others⟩

/-! ## Operations -/

/-- A write that fails changes nothing or, if only what follows it fails, is done all the same. -/
theorem Holds.set (holds : c.Holds P loc fs) (fits : key.Fits) (short : snapshot.length < Codec.wordLimit)
    (new : Q key snapshot) (others : ∀ other value, other ≠ key → P other value → Q other value) :
    (∃ e, c.set fs key snapshot = (.error e, c, fs)) ∨
      (c.set fs key snapshot).2.1.Holds Q loc (c.set fs key snapshot).2.2 := by
  cases wrote : c.writeEntry fs key snapshot with
  | error e =>
    left
    exact ⟨e, by rw [SnapshotCache.set, wrote]⟩
  | ok written =>
    right
    have listed := holds.writeEntry wrote fits short new others
    have evicted := Holds.forget
      (c := { c.listing key snapshot with manifest := ((c.listing key snapshot).partitionKeys key.kind).1 })
      ⟨listed.naming, listed.remembered, listed.stored⟩ ((c.listing key snapshot).partitionKeys key.kind).2
    rcases evict : (c.listing key snapshot).evict written key.kind with ⟨result, c₁, rest⟩
    have behind : c₁.Holds Q loc rest := by
      rw [SnapshotCache.evict] at evict
      simp only at evict
      rwa [evict] at evicted
    rw [set_eq wrote evict]
    split
    · exact behind
    · rename_i manifest
      exact behind.storeManifest manifest

/-- Reading gives nothing or what is held, and it never fails: every file with the name of an entry can be read
    and decoded. -/
theorem Holds.get (holds : c.Holds P loc fs) (key : CacheKey) :
    (∃ found, (c.get fs key).1 = .ok found ∧ ∀ snapshot ∈ found, P key snapshot) ∧ (c.get fs key).2.Holds P loc fs := by
  have read : ∃ found, c.readEntry fs key = .ok found ∧ ∀ snapshot ∈ found, P key snapshot := by
    cases located : c.directory with
    | none => exact ⟨none, by rw [readEntry, entryPath, located]; rfl, nofun⟩
    | some directory =>
      obtain ⟨files, folder, entries⟩ := holds.stored directory located
      rw [readEntry_folder holds.naming located folder]
      cases held : files (c.entryName key) with
      | none => exact ⟨none, rfl, nofun⟩
      | some bytes =>
        obtain ⟨owner, value, -, fits, short, allowed, rfl⟩ := entries key bytes held
        simp only [(readsBack_entryCodec fits short).decode]
        refine ⟨_, rfl, fun snapshot same => ?_⟩
        -- The entry of another key with the same name counts for nothing.
        obtain ⟨rfl, rfl⟩ : owner = key ∧ value = snapshot := by simpa using same
        exact allowed
  obtain ⟨found, entry, allowed⟩ := read
  rw [SnapshotCache.get]
  cases remembered : c.memory.get? key with
  | some snapshot => exact ⟨⟨some snapshot, rfl, fun _ same => Option.some.inj same ▸ holds.remembered key _ remembered⟩, holds⟩
  | none =>
    rw [entry]
    cases found with
    | none => exact ⟨⟨none, rfl, nofun⟩, holds⟩
    | some snapshot =>
      refine ⟨⟨some snapshot, rfl, allowed⟩, holds.naming, fun other value found => ?_, holds.stored⟩
      change (c.memory.insert key snapshot).get? other = some value at found
      rw [OrderedMap.get?_insert] at found
      split at found
      · rename_i same
        cases found
        exact same ▸ allowed snapshot rfl
      · exact holds.remembered other value found

/-- Nothing is held where everything was dropped. -/
theorem Holds.clear (holds : c.Holds P loc fs) (done : c.clear fs = (.ok (), c', fs')) : c'.Holds Q loc fs' := by
  rw [SnapshotCache.clear] at done
  have forgotten : ∀ key snapshot, (OrderedMap.empty : OrderedMap CacheKey (List UInt8)).get? key = some snapshot →
      Q key snapshot := by
    intro key snapshot found
    cases found
  cases located : c.directory with
  | none =>
    simp only [located] at done
    cases done
    refine ⟨holds.naming, forgotten, fun directory located' => ?_⟩
    cases located'
  | some directory =>
    obtain ⟨files, folder, -⟩ := holds.stored directory located
    simp only [located] at done
    rcases cleared : clearDirectory fs directory with ⟨result, rest⟩
    rw [cleared] at done
    cases done
    refine ⟨holds.naming, forgotten, fun other located' => ?_⟩
    cases located'
    exact ⟨_, clearDirectory_folder folder cleared, fun key bytes held => by cases held⟩

/-- A store that is opened again holds what the files hold, whatever the manifest says. -/
theorem holds_openAt (naming : IsNaming name) (folder : fs.IsFolder directory loc files)
    (entries : AreEntries P name files) (count : Nat) : ∃ opened, openAt fs directory = (.ok opened, fs) ∧
      Holds P loc { opened.withMaxEntries count with entryName := name } fs := by
  refine ⟨_, by rw [openAt, FileSystem.makeDirectories_of_stat folder.stat], naming, ?_, fun other located => ?_⟩
  · intro key snapshot found
    cases found
  · cases located
    exact ⟨files, folder, entries⟩

/-! ## Calls in a row -/

/-- A snapshot was the last to be written at its key. -/
def Latest (calls : List CacheCall) : Held := fun key snapshot => latest key calls = some snapshot

theorem latest_concat (key : CacheKey) (calls : List CacheCall) (call : CacheCall) :
    latest key (calls ++ [call]) = call.latest key (latest key calls) := by
  simp only [latest, List.foldl_append, List.foldl_cons, List.foldl_nil]

private theorem opened_empty (empty : fs.IsFolder directory loc fun _ => none) (naming : IsNaming name) (count : Nat) :
    ∃ opened, openAt fs directory = (.ok opened, fs) ∧
      Holds (Latest []) loc { opened.withMaxEntries count with entryName := name } fs ∧
      (opened.withMaxEntries count).directory = some directory := by
  have none : AreEntries (Latest []) name fun _ => none := fun key bytes held => by cases held
  obtain ⟨opened, done, holds⟩ := holds_openAt naming empty none count
  refine ⟨opened, done, holds, ?_⟩
  rw [openAt, FileSystem.makeDirectories_of_stat empty.stat] at done
  cases done
  rfl

private theorem latest_quiet (quiet : ∀ key found, call.latest key found = found) :
    Latest (before ++ [call]) = Latest before := by
  funext key snapshot
  rw [Latest, latest_concat, quiet, Latest]

/-- A call that meets no file error leaves a store that holds what was written last, this call included. -/
theorem Holds.step (holds : c.Holds (Latest before) loc fs) (located : c.directory = some directory)
    (writable : call.Writable) (smooth : ∀ cause, (c.step directory fs call).1 ≠ .error (.fileError cause)) :
    (c.step directory fs call).2.1.Holds (Latest (before ++ [call])) loc (c.step directory fs call).2.2 ∧
      (c.step directory fs call).2.1.directory = some directory := by
  cases call with
  | set key snapshot =>
    have new : Latest (before ++ [.set key snapshot]) key snapshot := by
      rw [Latest, latest_concat, CacheCall.latest, if_pos rfl]
    have others : ∀ other value, other ≠ key → Latest before other value →
        Latest (before ++ [.set key snapshot]) other value := by
      intro other value differ held
      rw [Latest, latest_concat, CacheCall.latest, if_neg (Ne.symm differ)]
      exact held
    rcases done : c.set fs key snapshot with ⟨result, c', fs'⟩
    have outcome := holds.set writable.1 writable.2 new others
    simp only [SnapshotCache.step, done] at outcome smooth ⊢
    cases result with
    | error e =>
      obtain ⟨cause, rfl⟩ := set_error (congrArg Prod.fst done)
      exact absurd rfl (smooth cause)
    | ok _ =>
      obtain ⟨rfl, -⟩ := set_eq_ok done
      rcases outcome with ⟨e, failed⟩ | written
      · cases failed
      · exact ⟨written, located⟩
  | get key =>
    have directory' : (c.get fs key).2.directory = c.directory := by
      rcases c.get_cases fs key with unchanged | ⟨snapshot, -, remembered⟩
      · rw [unchanged]
      · rw [remembered, remember]
    rw [latest_quiet fun _ _ => rfl]
    exact ⟨(holds.get key).2, directory'.trans located⟩
  | listKeys =>
    rw [latest_quiet fun _ _ => rfl]
    exact ⟨holds, located⟩
  | clear =>
    rcases done : c.clear fs with ⟨result, c', fs'⟩
    simp only [SnapshotCache.step, done] at smooth ⊢
    cases result with
    | error e =>
      obtain ⟨cause, rfl⟩ := clear_error (congrArg Prod.fst done)
      exact absurd rfl (smooth cause)
    | ok _ =>
      have kept : (c.clear fs).2.1.directory = some directory := by
        rw [SnapshotCache.clear, located]
      rw [done] at kept
      exact ⟨holds.clear done, kept⟩
  | reopen count =>
    obtain ⟨files, folder, entries⟩ := holds.stored directory located
    obtain ⟨opened, done, held⟩ := holds_openAt holds.naming folder entries count
    simp only [SnapshotCache.step, done]
    rw [latest_quiet fun _ _ => rfl]
    refine ⟨held, ?_⟩
    rw [openAt, FileSystem.makeDirectories_of_stat folder.stat] at done
    cases done
    rfl

/-- Reading behind calls that met no file error does not fail, and gives nothing or the snapshot that was written
    last before. -/
theorem Holds.trace (holds : c.Holds (Latest before) loc fs) (located : c.directory = some directory)
    {front rest : List CacheCall} (writable : ∀ call ∈ front, call.Writable)
    (smooth : ∀ point ∈ c.trace directory fs front, ∀ cause, point.1 ≠ .error (.fileError cause)) :
    ∃ found, ((c.trace directory fs (front ++ .get key :: rest))[front.length]?).map Prod.fst =
        some (.ok (.snapshot found)) ∧ (found = none ∨ found = latest key (before ++ front)) := by
  induction front generalizing before c fs with
  | nil =>
    obtain ⟨⟨found, answer, held⟩, -⟩ := holds.get key
    refine ⟨found, ?_, ?_⟩
    · simp [SnapshotCache.trace, SnapshotCache.step, answer, Except.map]
    · rw [List.append_nil]
      cases found with
      | none => exact .inl rfl
      | some snapshot => exact .inr (held snapshot rfl).symm
  | cons call front ih =>
    obtain ⟨holds', located'⟩ :=
      holds.step located (writable call List.mem_cons_self) (smooth _ List.mem_cons_self)
    obtain ⟨found, answer, latest⟩ := ih holds' located'
      (fun later member => writable later (List.mem_cons_of_mem _ member))
      (fun point member => smooth point (List.mem_cons_of_mem _ member))
    refine ⟨found, ?_, ?_⟩
    · simpa [SnapshotCache.trace] using answer
    · rwa [List.append_assoc] at latest

/-- No call meets a file error where no path is too long and the directory can be made when it is missing. -/
theorem Holds.smooth (holds : c.Holds (Latest before) loc fs) (located : c.directory = some directory)
    (writable : ∀ call ∈ calls, call.Writable)
    (short : directory.text.utf8ByteSize + FileSystem.nameLimit < FileSystem.pathLimit) (below : loc ≠ [])
    (remade : ∀ fs' : FileSystem, fs'.entry? loc = none → (fs'.makeDirectories directory).1 = none) :
    ∀ point ∈ c.trace directory fs calls, ∀ cause, point.1 ≠ .error (.fileError cause) := by
  induction calls generalizing before c fs with
  | nil =>
    intro point member
    cases member
  | cons call rest ih =>
    obtain ⟨files, folder, entries⟩ := holds.stored directory located
    have done : ∃ answer, (c.step directory fs call).1 = .ok answer := by
      cases call with
      | set key snapshot =>
        obtain ⟨c', fs', done⟩ := SnapshotCache.set_ok key snapshot holds.naming located folder short
        simp only [SnapshotCache.step, done]
        exact ⟨_, rfl⟩
      | get key =>
        obtain ⟨⟨found, answer, -⟩, -⟩ := holds.get key
        simp only [SnapshotCache.step, answer]
        exact ⟨_, rfl⟩
      | listKeys => exact ⟨_, rfl⟩
      | clear =>
        obtain ⟨c', fs', done⟩ := SnapshotCache.clear_ok located folder below remade
        simp only [SnapshotCache.step, done]
        exact ⟨_, rfl⟩
      | reopen count =>
        obtain ⟨opened, done, -⟩ := holds_openAt holds.naming folder entries count
        simp only [SnapshotCache.step, done]
        exact ⟨_, rfl⟩
    obtain ⟨answer, done⟩ := done
    have first : ∀ cause, (c.step directory fs call).1 ≠ .error (.fileError cause) := by
      intro cause failed
      cases done.symm.trans failed
    obtain ⟨holds', located'⟩ := holds.step located (writable call List.mem_cons_self) first
    intro point member
    rcases List.mem_cons.mp member with rfl | later
    · exact first
    · exact ih holds' located' (fun call member => writable call (List.mem_cons_of_mem _ member)) point later

/-- Whatever names the files of keys have, a store that was opened in an empty directory answers a question for a
    key with nothing or with the snapshot that was written last at this key since everything was dropped, and it does
    not fail, if no call before met a file error. -/
theorem trace_latest {fs : FileSystem} {directory : Path} {loc : Location} {name : CacheKey → String}
    {calls : List CacheCall} (empty : fs.IsFolder directory loc fun _ => none) (naming : IsNaming name)
    (writable : ∀ call ∈ calls, call.Writable) (count : Nat) :
    ∃ opened c, openAt fs directory = (.ok opened, fs) ∧
      c = { opened.withMaxEntries count with entryName := name } ∧
      ∀ before key after, calls = before ++ .get key :: after →
        (∀ point ∈ c.trace directory fs before, ∀ cause, point.1 ≠ .error (.fileError cause)) →
        ∃ found, ((c.trace directory fs calls)[before.length]?).map Prod.fst = some (.ok (.snapshot found)) ∧
          (found = none ∨ found = latest key before) := by
  obtain ⟨opened, done, holds, located⟩ := opened_empty empty naming count
  refine ⟨opened, _, done, rfl, fun before key after here smooth => ?_⟩
  rw [here] at writable ⊢
  exact holds.trace located (fun call member => writable call (List.mem_append_left _ member)) smooth

/-- Two keys with the same file, which is overwritten, read after opening the store again, and dropped with one of
    the keys. -/
def collision : List CacheCall :=
  [.set (.of .dependencies "a") [1], .set (.of .metrics "b") [2], .get (.of .dependencies "a"), .reopen 0,
    .get (.of .metrics "b"), .set (.of .metrics "c") [3], .get (.of .metrics "b"), .clear]

example : latest (.of .metrics "b") (collision.take 4) = some [2] ∧ latest (.of .metrics "b") collision = none := by
  decide

private theorem isNaming_shared : IsNaming fun _ => "snapshot_0.bincode" :=
  ⟨fun _ => by decide, fun _ => by decide, fun _ => by decide⟩

theorem trace_latest_collision : ∃ opened c found, openAt (.flat .empty) ⟨"/p"⟩ = (.ok opened, .flat .empty) ∧
    c = { opened.withMaxEntries 2 with entryName := fun _ => "snapshot_0.bincode" } ∧
    ((c.trace ⟨"/p"⟩ (.flat .empty) collision)[4]?).map Prod.fst = some (.ok (.snapshot found)) ∧
      (found = none ∨ found = some [2]) := by
  have empty : (FileSystem.flat .empty).IsFolder ⟨"/p"⟩ ["p"] fun _ => none := FileSystem.isFolder_flat nofun
  have writable : ∀ call ∈ collision, call.Writable := by decide
  obtain ⟨opened, c, done, rfl, latest⟩ := trace_latest empty isNaming_shared writable 2
  obtain ⟨opened', done', holds, located⟩ := opened_empty empty isNaming_shared 2
  rw [done'] at done
  cases done
  obtain ⟨found, answer, origin⟩ :=
    latest (collision.take 4) (.of .metrics "b") (collision.drop 5) rfl
      (holds.smooth located (by decide) (by decide) (by decide) fun _ => remade_top)
  exact ⟨opened, _, found, done', rfl, answer, origin⟩

end SnapshotCache
end ModuleGraph
