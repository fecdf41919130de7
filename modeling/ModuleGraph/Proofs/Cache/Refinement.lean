import ModuleGraph.Proofs.Cache.Files
import ModuleGraph.Proofs.FileSystem.Flat

/-!
Stores of snapshots against a bounded log. A step of a store answers as a step of the log that describes it,
which describes it again (`CacheLog.StoredIn.step`, `CacheLog.Mirrors.step`). By induction on the calls, what a
store answers depends neither on its memory nor on when it was opened (`SnapshotCache.trace_agrees`).
-/
namespace ModuleGraph

namespace SnapshotCache

/-- The answer of a store to a call, and the store and the files behind it. -/
def step (directory : Path) (c : SnapshotCache) (fs : FileSystem) :
    CacheCall → Except CacheError CacheAnswer × SnapshotCache × FileSystem
  | .set key snapshot =>
    let (result, c, fs) := c.set fs key snapshot
    (result.map fun _ => .done, c, fs)
  | .get key =>
    let (found, c) := c.get fs key
    (found.map .snapshot, c, fs)
  | .listKeys => (.ok (.keys c.listKeys), c, fs)
  | .clear =>
    let (result, c, fs) := c.clear fs
    (result.map fun _ => .done, c, fs)
  | .reopen count =>
    match openAt fs directory with
    | (.error e, fs) => (.error e, c, fs)
    | (.ok opened, fs) => (.ok .done, { opened.withMaxEntries count with entryName := c.entryName }, fs)

/-- The answers of a store to calls in a row, each with the store and the files behind it. -/
def trace (directory : Path) (c : SnapshotCache) (fs : FileSystem) :
    List CacheCall → List (Except CacheError CacheAnswer × SnapshotCache × FileSystem)
  | [] => []
  | call :: rest =>
    let (answer, c', fs') := c.step directory fs call
    (answer, c', fs') :: trace directory c' fs' rest

end SnapshotCache

/-- A call writes known keys only, and snapshots with lengths that can be written. -/
def CacheCall.Within (known : List CacheKey) : CacheCall → Prop
  | .set key snapshot => key ∈ known ∧ snapshot.length < Codec.wordLimit
  | _ => True

instance (known : List CacheKey) : (call : CacheCall) → Decidable (call.Within known)
  | .set _ _ => inferInstanceAs (Decidable (_ ∧ _))
  | .get _ => .isTrue trivial
  | .listKeys => .isTrue trivial
  | .clear => .isTrue trivial
  | .reopen _ => .isTrue trivial

namespace CacheLog
open SnapshotCache
variable {log : CacheLog} {c : SnapshotCache} {fs : FileSystem} {directory : Path} {loc : Location}
  {name : CacheKey → String} {known : List CacheKey} {call : CacheCall} {calls : List CacheCall}

/-! ## Stores with a directory -/

/-- A store whose files, keys and snapshots are as a log has them, with keys that can be told apart. -/
structure Tracks (log : CacheLog) (name : CacheKey → String) (known : List CacheKey) (directory : Path)
    (loc : Location) (c : SnapshotCache) (fs : FileSystem) : Prop where
  named : c.entryName = name
  naming : IsNaming name
  distinguishes : Distinguishes name known
  within : log.Within known
  stored : log.StoredIn directory loc c fs

/-- A call that meets no file error is answered as by the log. -/
theorem Tracks.step (tracks : log.Tracks name known directory loc c fs) (allowed : call.Within known)
    (smooth : ∀ cause, (c.step directory fs call).1 ≠ .error (.fileError cause)) :
    (c.step directory fs call).1 = .ok (log.step call).1 ∧ (log.step call).2.Tracks name known directory loc
      (c.step directory fs call).2.1 (c.step directory fs call).2.2 := by
  obtain ⟨rfl, naming, distinguishes, within, stored⟩ := tracks
  cases call with
  | set key snapshot =>
    rcases done : c.set fs key snapshot with ⟨result, c', fs'⟩
    simp only [SnapshotCache.step, done] at smooth ⊢
    cases result with
    | error e =>
      obtain ⟨cause, rfl⟩ := set_error (congrArg Prod.fst done)
      exact absurd rfl (smooth cause)
    | ok _ =>
      obtain ⟨named, stored'⟩ := stored.set naming distinguishes within allowed.1 done
      exact ⟨rfl, named, naming, distinguishes, within.set allowed.1 allowed.2, stored'⟩
  | get key =>
    obtain ⟨c', found, named, stored'⟩ := stored.get key naming distinguishes within
    simp only [SnapshotCache.step, found]
    exact ⟨rfl, named, naming, distinguishes, within, stored'⟩
  | listKeys =>
    refine ⟨?_, rfl, naming, distinguishes, within, stored⟩
    simp only [SnapshotCache.step, listKeys, stored.describes.manifest]
    rfl
  | clear =>
    rcases done : c.clear fs with ⟨result, c', fs'⟩
    simp only [SnapshotCache.step, done] at smooth ⊢
    cases result with
    | error e =>
      obtain ⟨cause, rfl⟩ := clear_error (congrArg Prod.fst done)
      exact absurd rfl (smooth cause)
    | ok _ =>
      obtain ⟨named, stored'⟩ := stored.clear done
      exact ⟨rfl, named, naming, distinguishes, nofun, stored'⟩
  | reopen count =>
    obtain ⟨files, folder, holds⟩ := stored.folder
    obtain ⟨opened, done, _, stored'⟩ :=
      StoredIn.openAt distinguishes within stored.describes.distinct folder holds count
    simp only [SnapshotCache.step, done]
    exact ⟨rfl, rfl, naming, distinguishes, within, stored'⟩

/-- An answer and the state behind it are those of a log. -/
def Agrees (name : CacheKey → String) (directory : Path) (loc : Location)
    (point : Except CacheError CacheAnswer × SnapshotCache × FileSystem) (expected : CacheAnswer × CacheLog) :
    Prop :=
  point.1 = .ok expected.1 ∧ point.2.1.entryName = name ∧
    expected.2.StoredIn directory loc point.2.1 point.2.2

/-- A store that is opened in an empty directory is as the log without entries has it. -/
theorem tracks_openAt (empty : fs.IsFolder directory loc fun _ => none)
    (distinguishes : Distinguishes CacheKey.entryName known) (count : Nat) :
    ∃ opened, openAt fs directory = (.ok opened, fs) ∧
      (start count).Tracks CacheKey.entryName known directory loc (opened.withMaxEntries count) fs := by
  have within : CacheLog.Within ⟨[], 0⟩ known := nofun
  obtain ⟨opened, done, named, stored⟩ :=
    StoredIn.openAt distinguishes within .nil empty (holds_nil 0) count
  have naming : (opened.withMaxEntries count).entryName = CacheKey.entryName := named
  have same : { opened.withMaxEntries count with entryName := CacheKey.entryName } =
      opened.withMaxEntries count := by
    rw [← naming]
  rw [same] at stored
  exact ⟨opened, done, naming, isNaming_entryName, distinguishes, nofun, stored⟩

theorem Tracks.trace (tracks : log.Tracks name known directory loc c fs) (allowed : ∀ call ∈ calls, call.Within known)
    (smooth : ∀ point ∈ c.trace directory fs calls, ∀ cause, point.1 ≠ .error (.fileError cause)) :
    List.Forall₂ (Agrees name directory loc) (c.trace directory fs calls) (log.trace calls) := by
  induction calls generalizing log c fs with
  | nil => exact .nil
  | cons call rest ih =>
    obtain ⟨answered, tracks'⟩ := tracks.step (allowed call List.mem_cons_self) (smooth _ List.mem_cons_self)
    exact .cons ⟨answered, tracks'.named, tracks'.stored⟩
      (ih tracks' (fun later member => allowed later (List.mem_cons_of_mem _ member)) fun point member =>
        smooth point (List.mem_cons_of_mem _ member))

/-- No call meets a file error where no path is too long and the directory can be made when it is missing. -/
theorem Tracks.smooth (tracks : log.Tracks name known directory loc c fs) (allowed : ∀ call ∈ calls, call.Within known)
    (short : directory.text.utf8ByteSize + FileSystem.nameLimit < FileSystem.pathLimit) (below : loc ≠ [])
    (remade : ∀ fs' : FileSystem, fs'.entry? loc = none → (fs'.makeDirectories directory).1 = none) :
    ∀ point ∈ c.trace directory fs calls, ∀ cause, point.1 ≠ .error (.fileError cause) := by
  induction calls generalizing log c fs with
  | nil => nofun
  | cons call rest ih =>
    obtain ⟨rfl, naming, distinguishes, within, stored⟩ := id tracks
    have first : ∀ cause, (c.step directory fs call).1 ≠ .error (.fileError cause) := by
      cases call with
      | set key snapshot =>
        obtain ⟨c', fs', done⟩ := stored.set_ok key snapshot naming short
        simp only [SnapshotCache.step, done]
        nofun
      | get key =>
        obtain ⟨c', found, _⟩ := stored.get key naming distinguishes within
        simp only [SnapshotCache.step, found]
        nofun
      | listKeys => nofun
      | clear =>
        obtain ⟨c', fs', done⟩ := stored.clear_ok below remade
        simp only [SnapshotCache.step, done]
        nofun
      | reopen count =>
        obtain ⟨files, folder, holds⟩ := stored.folder
        obtain ⟨opened, done, _⟩ :=
          StoredIn.openAt distinguishes within stored.describes.distinct folder holds count
        simp only [SnapshotCache.step, done]
        nofun
    obtain ⟨_, tracks'⟩ := tracks.step (allowed call List.mem_cons_self) first
    intro point member
    rcases List.mem_cons.mp member with rfl | later
    · exact first
    · exact ih tracks' (fun call member => allowed call (List.mem_cons_of_mem _ member)) point later

/-! ## Stores without a directory -/

theorem Mirrors.step (directory : Path) (fs : FileSystem) (mirrors : log.Mirrors c)
    (closed : ∀ count, call ≠ .reopen count) :
    ∃ c', c.step directory fs call = (.ok (log.step call).1, c', fs) ∧ (log.step call).2.Mirrors c' := by
  cases call with
  | set key snapshot =>
    refine ⟨c.written key snapshot, ?_, mirrors.written⟩
    simp only [SnapshotCache.step, set_eq_written mirrors.located]
    rfl
  | get key =>
    refine ⟨c, ?_, mirrors⟩
    simp only [SnapshotCache.step, mirrors.get]
    rfl
  | listKeys =>
    refine ⟨c, ?_, mirrors⟩
    simp only [SnapshotCache.step, listKeys, mirrors.describes.manifest]
    rfl
  | clear =>
    refine ⟨{ c with memory := .empty, manifest := [] }, ?_, ⟨mirrors.describes.maxEntries, rfl, .nil, ?_⟩,
      mirrors.located, nofun⟩
    · simp only [SnapshotCache.step, SnapshotCache.clear, mirrors.located]
      rfl
    · intro key snapshot found
      cases found
  | reopen count => exact absurd rfl (closed count)

theorem Mirrors.trace (mirrors : log.Mirrors c) (closed : ∀ count, .reopen count ∉ calls) :
    List.Forall₂ (fun point expected => point.1 = .ok expected.1 ∧ point.2.2 = fs)
      (c.trace directory fs calls) (log.trace calls) := by
  induction calls generalizing log c with
  | nil => exact .nil
  | cons call rest ih =>
    have differ (count : Nat) : call ≠ .reopen count := fun same => closed count (by simp [same])
    obtain ⟨c', stepped, mirrors'⟩ := mirrors.step directory fs differ
    simp only [SnapshotCache.trace, stepped, CacheLog.trace]
    exact .cons ⟨rfl, rfl⟩ (ih mirrors' fun count member => closed count (List.mem_cons_of_mem _ member))

end CacheLog

namespace SnapshotCache
open CacheLog

/-- Calls in a row are answered as by a log, and the files behind each of them are those of the entries that
    the log lists. A store without a directory, which cannot be opened again, answers in the same way. -/
theorem trace_agrees (count : Nat) (calls : List CacheCall) :
    (∀ {fs : FileSystem} {directory : Path} {loc : Location} {known : List CacheKey},
      fs.IsFolder directory loc (fun _ => none) → Distinguishes CacheKey.entryName known →
      (∀ call ∈ calls, call.Within known) →
      ∃ opened, openAt fs directory = (.ok opened, fs) ∧
        ((∀ point ∈ (opened.withMaxEntries count).trace directory fs calls,
            ∀ cause, point.1 ≠ .error (.fileError cause)) →
          List.Forall₂ (Agrees CacheKey.entryName directory loc)
            ((opened.withMaxEntries count).trace directory fs calls) ((start count).trace calls))) ∧
    ((∀ count, .reopen count ∉ calls) → ∀ directory fs,
      List.Forall₂ (fun point expected => point.1 = .ok expected.1 ∧ point.2.2 = fs)
        ((inMemory.withMaxEntries count).trace directory fs calls) ((start count).trace calls)) := by
  refine ⟨fun empty distinguishes allowed => ?_, fun closed directory fs => ?_⟩
  · obtain ⟨opened, done, tracks⟩ := tracks_openAt empty distinguishes count
    exact ⟨opened, done, tracks.trace allowed⟩
  · exact Mirrors.trace ⟨⟨rfl, rfl, .nil, fun key snapshot found => by cases found⟩, rfl, nofun⟩ closed

/-- Three snapshots of a kind in a store that is opened again in between to keep one. -/
def rotation : List CacheCall :=
  [.set (.of .dependencies "a") [1], .set (.of .dependencies "b") [2], .get (.of .dependencies "a"), .reopen 0,
    .set (.of .dependencies "c") [3], .get (.of .dependencies "a"), .listKeys, .clear, .listKeys]

example : ((start 2).trace rotation).map Prod.fst = [.done, .done, .snapshot (some [1]), .done, .done,
    .snapshot none, .keys [.of .dependencies "c"], .done, .keys []] := by
  decide

private def rotated : List CacheKey := [.of .dependencies "a", .of .dependencies "b", .of .dependencies "c"]

private theorem distinguishes_rotated : Distinguishes CacheKey.entryName rotated where
  distinct := by decide +kernel
  fits := by decide
  count := by decide

private theorem within_rotation : ∀ call ∈ rotation, call.Within rotated := by
  decide

theorem remade_top {fs : FileSystem} (gone : fs.entry? ["p"] = none) :
    (fs.makeDirectories ⟨"/p"⟩).1 = none := by
  have slot : fs.slot? ⟨"/p"⟩ = .ok (some ⟨[], ['p']⟩) := by
    have cut : (Path.pieces ⟨"/p"⟩).filter (· ≠ []) = [['p']] := by decide
    rw [FileSystem.slot?, if_neg (by decide), if_neg (by decide), if_neg (by decide)]
    simp only [cut, List.getLast?_singleton, List.dropLast_singleton, FileSystem.walk_nil]
    rfl
  have made : fs.makeDirectory ⟨"/p"⟩ = .ok (fs.setEntry ["p"] .directory) := by
    rw [FileSystem.makeDirectory, FileSystem.vacancy, slot]
    have short : ¬FileSystem.nameLimit < "p".utf8ByteSize := by decide
    have name : String.ofList ['p'] = "p" := rfl
    simp [FileSystem.isDots, short, name, gone, Except.map]
  have chain : FileSystem.ancestors ((Path.pieces ⟨"/p"⟩).length + 1) ⟨"/p"⟩ = [⟨"/p"⟩, ⟨"/"⟩] := by decide
  rw [FileSystem.makeDirectories, chain, FileSystem.makeChain, made]

theorem trace_agrees_rotation :
    (∃ opened, openAt (.flat .empty) ⟨"/p"⟩ = (.ok opened, .flat .empty) ∧
      List.Forall₂ (Agrees CacheKey.entryName ⟨"/p"⟩ ["p"])
        ((opened.withMaxEntries 2).trace ⟨"/p"⟩ (.flat .empty) rotation) ((start 2).trace rotation)) ∧
    List.Forall₂ (fun point expected => point.1 = .ok expected.1 ∧ point.2.2 = .flat .empty)
      ((inMemory.withMaxEntries 2).trace ⟨"/p"⟩ (.flat .empty) (rotation.take 3)) ((start 2).trace (rotation.take 3)) := by
  have empty : (FileSystem.flat .empty).IsFolder ⟨"/p"⟩ ["p"] fun _ => none := FileSystem.isFolder_flat nofun
  refine ⟨?_, (trace_agrees 2 (rotation.take 3)).2 (by simp [rotation]) _ _⟩
  obtain ⟨opened, done, agrees⟩ := (trace_agrees 2 rotation).1 empty distinguishes_rotated within_rotation
  obtain ⟨opened', done', tracks⟩ := tracks_openAt empty distinguishes_rotated 2
  rw [done'] at done
  cases done
  exact ⟨opened, done', agrees (tracks.smooth within_rotation (by decide) (by decide) fun _ => remade_top)⟩

end SnapshotCache
end ModuleGraph
