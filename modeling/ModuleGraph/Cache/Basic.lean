import ModuleGraph.Cache.Key
import ModuleGraph.FileSystem.Change

/-!
A bounded store of snapshots. A manifest lists the keys, the one written longest ago first, and of
each kind no more than a given number are kept. A store may have a directory, with one file for each
entry and one for the manifest; then the entries in memory are those written or read since it was
opened.
-/
namespace ModuleGraph

/-- Why the store fails. -/
inductive CacheError where
  | fileError (cause : FileError)
  | undecodable
  deriving DecidableEq

/-- The wording of an error. -/
def CacheError.message : CacheError → String
  | .fileError cause => "cache I/O error: " ++ cause.message
  | .undecodable => "failed to decode cache entry"

/-- A store of snapshots. -/
structure SnapshotCache where
  memory : OrderedMap CacheKey (List UInt8)
  /-- The keys, the one written longest ago first. -/
  manifest : List CacheKey
  /-- The directory of a store that outlives the program. -/
  directory : Option Path
  /-- The number of keys of a kind that are kept. -/
  maxEntries : Nat
  /-- The name of the file of an entry. -/
  entryName : CacheKey → String

namespace SnapshotCache

/-- The number of keys of a kind that are kept unless another number is given. -/
def defaultMaxEntries : Nat := 20

/-- A store without a directory. -/
def inMemory : SnapshotCache := ⟨.empty, [], none, defaultMaxEntries, CacheKey.entryName⟩

instance : Inhabited SnapshotCache := ⟨inMemory⟩

/-- The store that keeps at most a given number of keys of a kind, but at least one. -/
def withMaxEntries (c : SnapshotCache) (count : Nat) : SnapshotCache :=
  { c with maxEntries := max count 1 }

/-- The path of the manifest in a directory. -/
def manifestPath (directory : Path) : Path := directory.join ⟨"manifest.bincode"⟩

/-- The keys in the manifest of a directory, none if it is missing or cannot be read. -/
def readManifest (fs : FileSystem) (directory : Path) : List CacheKey :=
  match fs.read (manifestPath directory) with
  | .ok bytes => (CacheKey.codec.list.decode bytes).getD []
  | .error _ => []

/-- Opens a store with a directory, which is made if it is missing. -/
def openAt (fs : FileSystem) (directory : Path) : Except CacheError SnapshotCache × FileSystem :=
  match fs.makeDirectories directory with
  | (some cause, fs) => (.error (.fileError cause), fs)
  | (none, fs) =>
    (.ok { inMemory with manifest := readManifest fs directory, directory := some directory }, fs)

/-- The keys, the one written longest ago first. -/
def listKeys (c : SnapshotCache) : List CacheKey := c.manifest

/-- The path of the file of an entry. -/
def entryPath (c : SnapshotCache) (key : CacheKey) : Option Path :=
  c.directory.map (·.join ⟨c.entryName key⟩)

/-- The bytes of the file of an entry: the key, so that two keys may share a name, and the
    snapshot. -/
def entryCodec : Codec (CacheKey × List UInt8) := CacheKey.codec.pair .blob

/-- Puts a snapshot into memory. -/
def remember (c : SnapshotCache) (key : CacheKey) (snapshot : List UInt8) : SnapshotCache :=
  { c with memory := c.memory.insert key snapshot }

/-- The snapshot of a key in the file of its entry, if the file is there and holds that key. -/
def readEntry (c : SnapshotCache) (fs : FileSystem) (key : CacheKey) :
    Except CacheError (Option (List UInt8)) :=
  match c.entryPath key with
  | none => .ok none
  | some path =>
    if fs.isFile path then
      match fs.read path with
      | .error cause => .error (.fileError cause)
      | .ok bytes =>
        match entryCodec.decode bytes with
        | none => .error .undecodable
        | some (stored, snapshot) => .ok (if stored = key then some snapshot else none)
    else .ok none

/-- The snapshot of a key, from memory or else from its file. -/
def get (c : SnapshotCache) (fs : FileSystem) (key : CacheKey) :
    Except CacheError (Option (List UInt8)) × SnapshotCache :=
  match c.memory.get? key with
  | some snapshot => (.ok (some snapshot), c)
  | none =>
    match c.readEntry fs key with
    | .ok (some snapshot) => (.ok (some snapshot), c.remember key snapshot)
    | answer => (answer, c)

/-- The keys without the first ones of a kind, and those. -/
def dropOldest (kind : String) : Nat → List CacheKey → List CacheKey × List CacheKey
  | 0, keys => (keys, [])
  | _ + 1, [] => ([], [])
  | excess + 1, key :: rest =>
    if key.kind = kind then
      let (kept, dropped) := dropOldest kind excess rest
      (kept, key :: dropped)
    else
      let (kept, dropped) := dropOldest kind (excess + 1) rest
      (key :: kept, dropped)

/-- The keys of a kind up to the number that is kept, the latest ones, and those that are not. -/
def partitionKeys (c : SnapshotCache) (kind : String) : List CacheKey × List CacheKey :=
  dropOldest kind (c.manifest.countP (·.kind = kind) - c.maxEntries) c.manifest

/-- Removes the file of an entry. It may be missing. -/
def removeEntry (c : SnapshotCache) (fs : FileSystem) (key : CacheKey) :
    Except CacheError FileSystem :=
  match c.entryPath key with
  | none => .ok fs
  | some path =>
    match fs.removeFile path with
    | .ok fs => .ok fs
    | .error .notFound => .ok fs
    | .error cause => .error (.fileError cause)

/-- Forgets keys, each in memory and then its file, up to the first file that stays. -/
def forget (c : SnapshotCache) (fs : FileSystem) :
    List CacheKey → Except CacheError Unit × SnapshotCache × FileSystem
  | [] => (.ok (), c, fs)
  | key :: rest =>
    let c := { c with memory := c.memory.erase key }
    match c.removeEntry fs key with
    | .error e => (.error e, c, fs)
    | .ok fs => forget c fs rest

/-- Takes the keys of a kind beyond the number that is kept off the manifest and forgets them. -/
def evict (c : SnapshotCache) (fs : FileSystem) (kind : String) :
    Except CacheError Unit × SnapshotCache × FileSystem :=
  let (kept, dropped) := c.partitionKeys kind
  forget { c with manifest := kept } fs dropped

/-- Writes the manifest. -/
def storeManifest (c : SnapshotCache) (fs : FileSystem) : Except CacheError FileSystem :=
  match c.directory with
  | none => .ok fs
  | some directory =>
    match fs.write (manifestPath directory) (CacheKey.codec.list.write c.manifest) with
    | .ok fs => .ok fs
    | .error cause => .error (.fileError cause)

/-- Writes the file of an entry. -/
def writeEntry (c : SnapshotCache) (fs : FileSystem) (key : CacheKey) (snapshot : List UInt8) :
    Except CacheError FileSystem :=
  match c.entryPath key with
  | none => .ok fs
  | some path =>
    match fs.write path (entryCodec.write (key, snapshot)) with
    | .ok fs => .ok fs
    | .error cause => .error (.fileError cause)

/-- Moves a key to the end of the manifest. -/
def enlist (c : SnapshotCache) (key : CacheKey) : SnapshotCache :=
  { c with manifest := c.manifest.filter (· ≠ key) ++ [key] }

/-- Keeps a snapshot under a key. The file of the entry comes first: if it cannot be written, the
    store stays as it was. A manifest that cannot be written is reported rather than a file that
    cannot be removed. -/
def set (c : SnapshotCache) (fs : FileSystem) (key : CacheKey) (snapshot : List UInt8) :
    Except CacheError Unit × SnapshotCache × FileSystem :=
  match c.writeEntry fs key snapshot with
  | .error e => (.error e, c, fs)
  | .ok fs =>
    let (evicted, c, fs) := ((c.remember key snapshot).enlist key).evict fs key.kind
    match c.storeManifest fs with
    | .error e => (.error e, c, fs)
    | .ok fs => (evicted, c, fs)

/-- Removes all files of the directory, by removing and making it anew. -/
def clearDirectory (fs : FileSystem) (directory : Path) : Except CacheError Unit × FileSystem :=
  if fs.pathExists directory then
    match fs.removeTree directory with
    | .error cause => (.error (.fileError cause), fs)
    | .ok fs =>
      match fs.makeDirectories directory with
      | (some cause, fs) => (.error (.fileError cause), fs)
      | (none, fs) => (.ok (), fs)
  else (.ok (), fs)

/-- Drops all entries. -/
def clear (c : SnapshotCache) (fs : FileSystem) :
    Except CacheError Unit × SnapshotCache × FileSystem :=
  let c := { c with memory := .empty, manifest := [] }
  match c.directory with
  | none => (.ok (), c, fs)
  | some directory =>
    let (result, fs) := clearDirectory fs directory
    (result, c, fs)

end SnapshotCache
end ModuleGraph
