import ModuleGraph.Count
import ModuleGraph.Import.Basic
import ModuleGraph.OrderedMap

/-!
The graph of modules and the imports between them. All maps keep the order in which their keys came
in; that order is the order of every answer. The index of dependents is kept beside the edges and
changes with them.
-/
namespace ModuleGraph

/-- What is known of a module: the imports of its own file, once that file has been scanned. -/
structure ModuleInfo where
  fileType : Option String
  imports : List Import
  deriving DecidableEq

namespace ModuleInfo

/-- A module that is known only as the target of an import. -/
def bare : ModuleInfo := ⟨none, []⟩

/-- A module whose file has been scanned. -/
def scanned (imports : List Import) : ModuleInfo := ⟨some "python_module", imports⟩

/-- Whether the module's own file has been scanned. -/
def isScanned (info : ModuleInfo) : Bool := info.fileType.isSome

instance : Inhabited ModuleInfo := ⟨bare⟩

end ModuleInfo

/-- The import behind an edge: how it was written and where. -/
structure EdgeLabel where
  importName : String
  kind : ImportKind
  line : Nat
  deriving DecidableEq

namespace EdgeLabel

/-- The label of an edge whose import is not known. -/
def unknown : EdgeLabel := ⟨"", .absolute, 0⟩

instance : Inhabited EdgeLabel := ⟨unknown⟩

end EdgeLabel

/-- Modules, the edges from each to the modules that it imports, and the imports without a file. -/
structure Graph where
  nodes : OrderedMap String ModuleInfo
  outgoing : OrderedMap String (OrderedMap String EdgeLabel)
  incoming : OrderedMap String (List String)
  unresolvedImports : OrderedMap String (List String)
  externalImports : OrderedMap String (OrderedSet String)
  deriving DecidableEq

namespace Graph

/-- The graph without modules. -/
def empty : Graph := ⟨.empty, .empty, .empty, .empty, .empty⟩

instance : Inhabited Graph := ⟨empty⟩

/-- Adds a module; one that is there keeps what is known of it. -/
def addNode (g : Graph) (id : String) (info : ModuleInfo) : Graph :=
  { g with nodes := g.nodes.insertNew id info }

/-- The edges that leave a module, oldest first. -/
def edgesOf (g : Graph) (id : String) : OrderedMap String EdgeLabel := g.outgoing.getD id .empty

/-- The modules that a module imports, in order. -/
def dependencies (g : Graph) (id : String) : List String := (g.edgesOf id).keys

/-- The modules that import a module. -/
def dependents (g : Graph) (id : String) : List String := g.incoming.getD id []

/-- Whether there is an edge from one module to another. -/
def hasEdge (g : Graph) (source target : String) : Bool := (g.edgesOf source).contains target

/-- Adds an edge and the modules at its ends, and says whether the edge is new. An edge that is
    there keeps its label. -/
def addEdge (g : Graph) (source target : String) (label : EdgeLabel) : Graph × Bool :=
  let g := (g.addNode source .bare).addNode target .bare
  if g.hasEdge source target then (g, false)
  else
    ({ g with
        outgoing := g.outgoing.insert source ((g.edgesOf source).insert target label)
        incoming := g.incoming.insert target (g.dependents target ++ [source]) }, true)

/-- Records an import that looks like a module of the project but has no file. -/
def addUnresolved (g : Graph) (source name : String) : Graph :=
  { g with unresolvedImports :=
      g.unresolvedImports.insert source (g.unresolvedImports.getD source [] ++ [name]) }

/-- Records an import from outside the project. -/
def addExternal (g : Graph) (source name : String) : Graph :=
  { g with externalImports :=
      g.externalImports.insert source ((g.externalImports.getD source .empty).add name) }

/-- The modules, oldest first. -/
def nodeIds (g : Graph) : List String := g.nodes.keys

/-- The modules whose own file has been scanned. -/
def scannedModules (g : Graph) : List String :=
  (g.nodes.filter (·.2.isScanned)).keys

/-- The number of modules. -/
def nodeCount (g : Graph) : Nat := g.nodes.size

/-- The number of edges. -/
def edgeCount (g : Graph) : Nat := total (g.outgoing.values.map (·.size))

/-- The imports of a module that look internal but have no file, each as often as it occurs. -/
def unresolvedOf (g : Graph) (id : String) : List String := g.unresolvedImports.getD id []

/-- The external imports of a module, if any were recorded for it. -/
def externalOf? (g : Graph) (id : String) : Option (List String) :=
  (g.externalImports.get? id).map (·.toList)

/-- The number of imports without a file. -/
def unresolvedCount (g : Graph) : Nat := total (g.unresolvedImports.values.map (·.length))

end Graph
end ModuleGraph
