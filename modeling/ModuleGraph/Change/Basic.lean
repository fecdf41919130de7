import ModuleGraph.SortedSet
import ModuleGraph.SourceFilter

/-!
What a change of revision did to the files of a project, and the commit that a revision stands for.
-/
namespace ModuleGraph

/-- The files touched between two revisions, relative to the project root. -/
structure ChangeSet where
  added : SortedSet
  modified : SortedSet
  deleted : SortedSet
  deriving DecidableEq

namespace ChangeSet

/-- No change. -/
def empty : ChangeSet := ⟨.empty, .empty, .empty⟩

instance : Inhabited ChangeSet := ⟨empty⟩

/-- Whether no file was touched. -/
def isEmpty (c : ChangeSet) : Bool := c.added.isEmpty && c.modified.isEmpty && c.deleted.isEmpty

/-- The files whose content is new. -/
def changedFiles (c : ChangeSet) : SortedSet := c.added.union c.modified

/-- All files that were touched. -/
def allFiles (c : ChangeSet) : SortedSet := c.changedFiles.union c.deleted

/-- Whether a path ends in a dot and the extension; dots in front of the extension do not count. -/
def endsInExtension (extension path : String) : Bool :=
  ('.' :: (dropLeadingDots extension).toList).isSuffixOf path.toList

/-- The changes of the files with an extension. -/
def filtered (c : ChangeSet) (extension : String) : ChangeSet :=
  ⟨c.added.filter (endsInExtension extension), c.modified.filter (endsInExtension extension),
    c.deleted.filter (endsInExtension extension)⟩

end ChangeSet

/-- What is known of a commit. Snapshots carry it as the stamp of their last update. -/
structure Commit where
  revision : String
  author : String
  date : String
  summary : String
  deriving DecidableEq, Inhabited

end ModuleGraph
