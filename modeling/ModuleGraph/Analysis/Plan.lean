import ModuleGraph.Cache.Key
import ModuleGraph.Change.Basic
import ModuleGraph.FileSystem.Basic

/-!
The choice between analysing a project anew and bringing a kept snapshot up to date. Every doubt is
a reason to start anew.
-/
namespace ModuleGraph

/-- What surrounds an analysis, as functions on a state: the files, the store of snapshots and the
    history of the project. What cannot be had is missing, for whatever reason. -/
structure Surroundings (σ : Type) where
  files : σ → FileSystem
  /-- The keys of the store, the one written longest ago first. -/
  listKeys : StateM σ (Option (List CacheKey))
  getSnapshot : CacheKey → StateM σ (Option (List UInt8))
  setSnapshot : CacheKey → List UInt8 → StateM σ Unit
  latestRevision : StateM σ (Option String)
  /-- The changes from one revision to another. -/
  changes : String → String → StateM σ (Option ChangeSet)
  currentCommit : StateM σ (Option Commit)

/-- Why a project is analysed anew. -/
inductive FullReason where
  | requested
  | storeUnavailable
  | storeEmpty
  | noRevision
  | noSnapshot (kind : AnalysisKind)
  | changesUnknown
  | tooManyChanges (count : Nat)
  deriving DecidableEq

/-- More changed files than this are a reason to start anew. -/
def changeThreshold : Nat := 100

/-- The wording of a reason. -/
def FullReason.message : FullReason → String
  | .requested => "full analysis requested"
  | .storeUnavailable => "cache unavailable"
  | .storeEmpty => "no cached snapshots"
  | .noRevision => "no current revision"
  | .noSnapshot kind => "no cached " ++ kind.name ++ " snapshot"
  | .changesUnknown => "change detection failed"
  | .tooManyChanges count =>
    toString count ++ " files changed, more than " ++ toString changeThreshold

/-- How a project is analysed. -/
inductive Plan where
  | full (reason : FullReason)
  /-- From the snapshot of a revision, by the changes since. -/
  | incremental (base : String) (changes : ChangeSet)
  deriving DecidableEq

namespace Plan
variable {σ : Type}

/-- The revision of the key of a kind that was written last. -/
def lastRevision? (kind : AnalysisKind) (keys : List CacheKey) : Option String :=
  (keys.reverse.find? (·.kind = kind.name)).map (·.revision)

/-- The plan for changes since a revision. -/
def ofChanges (base : String) : Option ChangeSet → Plan
  | none => .full .changesUnknown
  | some changes =>
    if changeThreshold < changes.allFiles.size then .full (.tooManyChanges changes.allFiles.size)
    else .incremental base changes

/-- The plan for an analysis at the current revision, which may be missing. -/
def choose (s : Surroundings σ) (kind : AnalysisKind) (current : Option String) (forced : Bool) :
    StateM σ Plan := do
  if forced then return .full .requested
  match ← s.listKeys with
  | none => return .full .storeUnavailable
  | some [] => return .full .storeEmpty
  | some keys =>
    match current, lastRevision? kind keys with
    | none, _ => return .full .noRevision
    | some _, none => return .full (.noSnapshot kind)
    | some current, some base => return ofChanges base (← s.changes base current)

end Plan
end ModuleGraph
