import ModuleGraph.Graph.Document
import ModuleGraph.Proofs.Graph.Operations
import Mathlib.Data.List.Induction

/-!
The graphs that a program can hold: each arises from the empty graph by additions and by loading
texts. Loading a document amounts to the additions that the document spells out, made to the empty
graph (`ofDocument_additions`), so a graph is known from the additions since the last text that was
loaded.
-/
namespace ModuleGraph

/-- Something added to a graph. -/
inductive GraphAddition where
  | node (id : String) (info : ModuleInfo)
  | edge (source target : String) (label : EdgeLabel)
  | unresolved (source name : String)
  | external (source name : String)

/-- One change of a graph: an addition, or a text that is loaded in place of the graph. -/
inductive GraphChange where
  | add (addition : GraphAddition)
  | load (text : String)

namespace GraphAddition

/-- The modules that an addition names, with what it makes known of them. -/
def modules : GraphAddition → List (String × ModuleInfo)
  | .node id info => [(id, info)]
  | .edge source target _ => [(source, .bare), (target, .bare)]
  | .unresolved .. | .external .. => []

/-- The edge that an addition names, by its ends. -/
def edges : GraphAddition → List ((String × String) × EdgeLabel)
  | .edge source target label => [((source, target), label)]
  | _ => []

end GraphAddition

/-- The modules of a document and then its edges. -/
def GraphDocument.additions (d : GraphDocument) : List GraphAddition :=
  d.nodes.entries.map (fun (id, info) => .node id info) ++
    d.edges.entries.flatMap fun (source, targets) => targets.map (.edge source · .unknown)

namespace Graph
variable {g : Graph}

/-- The graph with an addition. -/
def add (g : Graph) : GraphAddition → Graph
  | .node id info => g.addNode id info
  | .edge source target label => (g.addEdge source target label).1
  | .unresolved source name => g.addUnresolved source name
  | .external source name => g.addExternal source name

/-- The graph with several additions, one after the other. -/
def addAll (g : Graph) (additions : List GraphAddition) : Graph := additions.foldl add g

/-- The graph after a change. A text that describes no graph changes nothing. -/
def change (g : Graph) : GraphChange → Graph
  | .add addition => g.add addition
  | .load text =>
    match ofText text with
    | .ok loaded => loaded
    | .error _ => g

/-- The graph that changes make out of the empty one. -/
def ofChanges (changes : List GraphChange) : Graph := changes.foldl change empty

/-- The additions behind a graph after a change, given those before. -/
def remember (past : List GraphAddition) : GraphChange → List GraphAddition
  | .add addition => past ++ [addition]
  | .load text =>
    match GraphDocument.ofText text with
    | .ok document => document.additions
    | .error _ => past

/-- The additions that made a graph: those since the last text that was loaded, after those that
    the text stands for. -/
def history (changes : List GraphChange) : List GraphAddition := changes.foldl remember []

@[simp] theorem addAll_nil : g.addAll [] = g := rfl

@[simp] theorem addAll_cons {addition : GraphAddition} {rest : List GraphAddition} :
    g.addAll (addition :: rest) = (g.add addition).addAll rest := rfl

theorem addAll_append {front back : List GraphAddition} :
    g.addAll (front ++ back) = (g.addAll front).addAll back := List.foldl_append

private theorem addTargets_eq (source : String) (targets : List String) :
    g.addTargets source targets = g.addAll (targets.map (.edge source · .unknown)) := by
  simp only [addTargets, addAll, List.foldl_map]
  rfl

/-- Loading a document is making its additions to the empty graph, and then taking over the records
    of imports without a file. -/
theorem ofDocument_additions (d : GraphDocument) :
    ofDocument d = { empty.addAll d.additions with
      unresolvedImports := d.unresolvedImports
      externalImports := d.externalDependencies.mapValues .ofList } := by
  have nodes : d.nodes.entries.foldl (fun g (id, info) => g.addNode id info) empty =
      empty.addAll (d.nodes.entries.map fun (id, info) => .node id info) := by
    simp only [addAll, List.foldl_map]
    rfl
  have edges : ∀ (entries : List (String × List String)) (g : Graph),
      entries.foldl (fun g (source, targets) => g.addTargets source targets) g =
        g.addAll (entries.flatMap fun (source, targets) => targets.map (.edge source · .unknown)) := by
    intro entries
    induction entries with
    | nil => intro g; rfl
    | cons entry rest ih =>
      intro g
      obtain ⟨source, targets⟩ := entry
      rw [List.foldl_cons, List.flatMap_cons, addAll_append, ih]
      exact congrArg (addAll · _) (addTargets_eq source targets)
  unfold ofDocument GraphDocument.additions
  rw [addAll_append, ← edges, ← nodes]

theorem ofChanges_concat {changes : List GraphChange} {last : GraphChange} :
    ofChanges (changes ++ [last]) = (ofChanges changes).change last := by
  simp [ofChanges, List.foldl_append]

theorem history_concat {changes : List GraphChange} {last : GraphChange} :
    history (changes ++ [last]) = remember (history changes) last := by
  simp [history, List.foldl_append]

/-- What holds of the empty graph and of every loaded one, and what every addition preserves, holds
    of every graph together with the additions that made it. -/
theorem ofChanges_induction {P : Graph → List GraphAddition → Prop} (start : P empty [])
    (addition : ∀ g past a, P g past → P (g.add a) (past ++ [a]))
    (load : ∀ document, P (ofDocument document) document.additions) (changes : List GraphChange) :
    P (ofChanges changes) (history changes) := by
  induction changes using List.reverseRecOn with
  | nil => exact start
  | append_singleton changes last ih =>
    rw [ofChanges_concat, history_concat]
    cases last with
    | add a => exact addition _ _ a ih
    | load text =>
      cases read : GraphDocument.ofText text with
      | error e => simpa [change, remember, ofText, read, Except.map] using ih
      | ok document => simpa [change, remember, ofText, read, Except.map] using load document

end Graph
end ModuleGraph
