import ModuleGraph.Binary.Codec
import ModuleGraph.Cache.Digest

/-!
The keys under which snapshots are kept: a kind of analysis and a revision.
-/
namespace ModuleGraph

/-- What an analysis looks at. -/
inductive AnalysisKind where
  | dependencies
  | metrics
  deriving DecidableEq

/-- The name of a kind in keys. -/
def AnalysisKind.name : AnalysisKind → String
  | .dependencies => "deps_analysis"
  | .metrics => "metrics_analysis"

/-- A kind of analysis, by name, at a revision. -/
structure CacheKey where
  kind : String
  revision : String
  deriving DecidableEq

namespace CacheKey

/-- The key of a kind at a revision. -/
def of (kind : AnalysisKind) (revision : String) : CacheKey := ⟨kind.name, revision⟩

/-- A key in one text. -/
def display (key : CacheKey) : String := key.kind ++ "@" ++ key.revision

/-- The bytes of a key. -/
def codec : Codec CacheKey :=
  (Codec.text.pair Codec.text).via (fun k => (k.kind, k.revision)) fun (kind, revision) =>
    ⟨kind, revision⟩

/-- A number of few digits that two keys hardly ever share. A byte that no text holds ends each
    part. -/
def digest (key : CacheKey) : UInt64 :=
  Digest.ofBytes (Text.utf8Bytes key.kind ++ 0xff :: Text.utf8Bytes key.revision ++ [0xff])

/-- The name of the file that holds the snapshot of a key. -/
def entryName (key : CacheKey) : String :=
  "snapshot_" ++ String.ofList (Nat.toDigits 16 key.digest.toNat) ++ ".bincode"

end CacheKey
end ModuleGraph
