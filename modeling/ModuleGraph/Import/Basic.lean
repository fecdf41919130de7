/-!
Imports as a source file writes them.
-/
namespace ModuleGraph

/-- Whether the module of an import is named from the top or from where the import stands. -/
inductive ImportKind where
  | absolute
  | relative
  deriving DecidableEq, Inhabited

/-- One imported module. -/
structure Import where
  kind : ImportKind
  /-- Dotted name without leading dots; empty for `from . import x`. -/
  modulePath : String
  /-- Number of leading dots. -/
  level : Nat
  /-- Line of the statement, counted from one. -/
  line : Nat
  /-- Names taken out of the module; none for a plain import. -/
  names : List String
  deriving DecidableEq, Inhabited

/-- An import as written: its leading dots and the dotted name. -/
def specifier (modulePath : String) (level : Nat) : String :=
  String.ofList (List.replicate level '.' ++ modulePath.toList)

end ModuleGraph
