import ModuleGraph.Path

/-!
The settings of an analysis and their defaults.
-/
namespace ModuleGraph

/-- Which files are analysed and where their imports are searched. -/
structure ExtractionSettings where
  /-- Patterns of candidate files, relative to the project root. -/
  included : List String
  /-- Patterns of files that are left out, whatever includes them. -/
  excluded : List String
  /-- Extra roots for absolute imports, after the project root. -/
  searchRoots : List Path
  sourceExtension : String
  /-- The number of workers that a run starts, zero for those that are there anyway. -/
  threads : Nat
  deriving DecidableEq

namespace ExtractionSettings

/-- The settings of a project that sets nothing. -/
def default : ExtractionSettings where
  included := ["**/*.py"]
  excluded := ["**/venv/**", "**/.git/**", "**/__pycache__/**"]
  searchRoots := []
  sourceExtension := "py"
  threads := 0

instance : Inhabited ExtractionSettings := ⟨default⟩

end ExtractionSettings

/-- Where snapshots are kept, and how many of each kind of analysis. -/
structure CacheSettings where
  directory : Path
  maxSnapshots : Nat
  deriving DecidableEq

namespace CacheSettings

/-- The settings of a project that sets nothing. -/
def default : CacheSettings := ⟨⟨".depwatch_cache"⟩, 20⟩

instance : Inhabited CacheSettings := ⟨default⟩

/-- The directory seen from a project root. -/
def directoryIn (s : CacheSettings) (root : Path) : Path := root.join s.directory

end CacheSettings

/-- All settings. -/
structure Settings where
  extraction : ExtractionSettings
  cache : CacheSettings
  deriving DecidableEq

namespace Settings

/-- The settings of a project that sets nothing. -/
def default : Settings := ⟨.default, .default⟩

instance : Inhabited Settings := ⟨default⟩

end Settings
end ModuleGraph
