import ModuleGraph.Graph.Basic
import ModuleGraph.Json.Basic
import ModuleGraph.Json.Reading

/-!
The written form of a graph. A document holds the modules and the bare targets of the edges, so
loading it gives every edge an unknown label and builds the index of dependents anew.
-/
namespace ModuleGraph
open Json (Draft ReadError)

/-- What is written of a graph. -/
structure GraphDocument where
  nodes : OrderedMap String ModuleInfo
  edges : OrderedMap String (List String)
  unresolvedImports : OrderedMap String (List String)
  externalDependencies : OrderedMap String (List String)
  deriving DecidableEq

/-! ## Writing -/

/-- A map with text keys as a JSON object. -/
def OrderedMap.toJson {β : Type} (value : β → Json) (m : OrderedMap String β) : Json :=
  .object (m.entries.map fun (k, v) => (k, value v))

/-- The written name of a kind of import. -/
def ImportKind.text : ImportKind → String
  | .absolute => "absolute"
  | .relative => "relative"

/-- An import as JSON; the names are left out if there are none. -/
def Import.toJson (i : Import) : Json :=
  .object ([("kind", .string i.kind.text), ("module_path", .string i.modulePath),
    ("relative_level", .number i.level), ("line", .number i.line)] ++
      if i.names = [] then [] else [("names", .strings i.names)])

/-- What is known of a module as JSON; what is empty is left out. -/
def ModuleInfo.toJson (info : ModuleInfo) : Json :=
  .object (
    (match info.fileType with
      | none => []
      | some text => [("file_type", .string text)]) ++
    if info.imports = [] then [] else [("imports", .array (info.imports.map Import.toJson))])

namespace GraphDocument

/-- The document as JSON. -/
def toJson (d : GraphDocument) : Json :=
  .object [("nodes", d.nodes.toJson ModuleInfo.toJson), ("edges", d.edges.toJson Json.strings),
    ("unresolved_imports", d.unresolvedImports.toJson Json.strings),
    ("external_dependencies", d.externalDependencies.toJson Json.strings)]

end GraphDocument

/-! ## Reading -/

/-- The kind of import that a name stands for. -/
def ImportKind.ofText? (text : String) : Option ImportKind :=
  if text = "absolute" then some .absolute
  else if text = "relative" then some .relative
  else none

/-- Reads a kind of import: its name, or an object with that name and the value null. -/
def ImportKind.read : Draft → Except ReadError ImportKind
  | .string text => ofName (.text text)
  | .object [] .closed => .error .malformed
  | .object [] (.fault f) => .error f.read
  | .object ((name, value) :: fields) ending =>
    match ofName name with
    | .error e => .error e
    | .ok kind =>
      match value, fields, ending with
      | .null, [], .closed => .ok kind
      | .null, [], .fault f => .error f.read
      | .null, _ :: _, _ => .error .malformed
      | _, _, _ => .error value.wrong
  | .fault f => .error f.glance
  | _ => .error .malformed
where
  /-- The kind with a name. -/
  ofName : Json.FieldName → Except ReadError ImportKind
    | .fault f => .error f.read
    | .text none => .error .malformed
    | .text (some text) =>
      match ofText? text with
      | some kind => .ok kind
      | none => .error .mismatch

/-- The fields of an import that have been read. -/
structure ImportFields where
  kind : Option ImportKind
  modulePath : Option String
  level : Option Nat
  line : Option Nat
  names : Option (List String)

namespace ImportFields

/-- The import, if only the names are missing. -/
def done (f : ImportFields) : Option Import := do
  pure ⟨← f.kind, ← f.modulePath, ← f.level, ← f.line, f.names.getD []⟩

/-- The readers of the fields. -/
def slots : List (String × (ImportFields → Draft → Except ReadError ImportFields)) := [
  ("kind", fun f => Draft.readOnce f.kind ImportKind.read fun v => { f with kind := some v }),
  ("module_path",
    fun f => Draft.readOnce f.modulePath Draft.readString fun v => { f with modulePath := some v }),
  ("relative_level",
    fun f => Draft.readOnce f.level Draft.readNat fun v => { f with level := some v }),
  ("line", fun f => Draft.readOnce f.line Draft.readNat fun v => { f with line := some v }),
  ("names",
    fun f => Draft.readOnce f.names (Draft.readList Draft.readString) fun v =>
      { f with names := some v })]

end ImportFields

/-- Reads an import. -/
def Import.read : Draft → Except ReadError Import :=
  Draft.readRecord ImportFields.slots ⟨none, none, none, none, none⟩ ImportFields.done

/-- The fields of a module that have been read. -/
structure ModuleFields where
  fileType : Option (Option String)
  imports : Option (List Import)

namespace ModuleFields

/-- What is known of the module; missing fields are empty. -/
def done (f : ModuleFields) : Option ModuleInfo := some ⟨f.fileType.getD none, f.imports.getD []⟩

/-- The readers of the fields. -/
def slots : List (String × (ModuleFields → Draft → Except ReadError ModuleFields)) := [
  ("file_type",
    fun f => Draft.readOnce f.fileType (Draft.readOption Draft.readString) fun v =>
      { f with fileType := some v }),
  ("imports",
    fun f => Draft.readOnce f.imports (Draft.readList Import.read) fun v =>
      { f with imports := some v })]

end ModuleFields

/-- Reads what is known of a module. -/
def ModuleInfo.read : Draft → Except ReadError ModuleInfo :=
  Draft.readRecord ModuleFields.slots ⟨none, none⟩ ModuleFields.done

/-- The fields of a document that have been read. -/
structure DocumentFields where
  nodes : Option (OrderedMap String ModuleInfo)
  edges : Option (OrderedMap String (List String))
  unresolvedImports : Option (OrderedMap String (List String))
  externalDependencies : Option (OrderedMap String (List String))

namespace DocumentFields

/-- The document, if no field is missing. -/
def done (f : DocumentFields) : Option GraphDocument := do
  pure ⟨← f.nodes, ← f.edges, ← f.unresolvedImports, ← f.externalDependencies⟩

/-- Reads lists of names by module. -/
def lists : Draft → Except ReadError (OrderedMap String (List String)) :=
  Draft.readMap (Draft.readList Draft.readString)

/-- The readers of the fields. -/
def slots : List (String × (DocumentFields → Draft → Except ReadError DocumentFields)) := [
  ("nodes",
    fun f => Draft.readOnce f.nodes (Draft.readMap ModuleInfo.read) fun v =>
      { f with nodes := some v }),
  ("edges", fun f => Draft.readOnce f.edges lists fun v => { f with edges := some v }),
  ("unresolved_imports",
    fun f => Draft.readOnce f.unresolvedImports lists fun v =>
      { f with unresolvedImports := some v }),
  ("external_dependencies",
    fun f => Draft.readOnce f.externalDependencies lists fun v =>
      { f with externalDependencies := some v })]

end DocumentFields

namespace GraphDocument

/-- Reads a document. -/
def read : Draft → Except ReadError GraphDocument :=
  Draft.readRecord DocumentFields.slots ⟨none, none, none, none⟩ DocumentFields.done

/-- The document that a text holds, and nothing behind it. -/
def ofText (text : String) : Except ReadError GraphDocument :=
  let (draft, left) := Draft.ofText text.toList
  match read draft with
  | .error e => .error e
  | .ok document => if left = [] then .ok document else .error .malformed

end GraphDocument

/-! ## Graphs and documents -/

namespace Graph

/-- What is written of a graph; modules without edges have no place among the edges. -/
def toDocument (g : Graph) : GraphDocument where
  nodes := g.nodes
  edges := (g.outgoing.filter (·.2.size ≠ 0)).mapValues (·.keys)
  unresolvedImports := g.unresolvedImports
  externalDependencies := g.externalImports.mapValues (·.toList)

/-- Adds the edges from a module to targets. -/
def addTargets (g : Graph) (source : String) (targets : List String) : Graph :=
  targets.foldl (fun g target => (g.addEdge source target .unknown).1) g

/-- The graph that a document describes. -/
def ofDocument (d : GraphDocument) : Graph :=
  let g := d.nodes.entries.foldl (fun g (id, info) => g.addNode id info) empty
  let g := d.edges.entries.foldl (fun g (source, targets) => g.addTargets source targets) g
  { g with
    unresolvedImports := d.unresolvedImports
    externalImports := d.externalDependencies.mapValues .ofList }

/-- The written form of a graph. -/
def toText (g : Graph) : String := g.toDocument.toJson.text

/-- The graph that a text describes. -/
def ofText (text : String) : Except ReadError Graph := (GraphDocument.ofText text).map ofDocument

end Graph
end ModuleGraph
