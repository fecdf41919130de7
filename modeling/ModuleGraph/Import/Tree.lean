import ModuleGraph.Text.Utf8

/-!
Syntax trees as a parser hands them out, and the cursor that walks through one. A cursor knows the node
that it is at, the siblings behind that node, and the nodes above it with the siblings behind those.
-/
namespace ModuleGraph

/-- A node of a syntax tree. -/
structure Node where
  kind : String
  /-- What the node is to the one above it, where the grammar has a name for that. -/
  field : Option String
  /-- The number of line feeds in front of it. -/
  row : Nat
  /-- The number of bytes in front of it. -/
  start : Nat
  /-- The number of bytes up to its end. -/
  stop : Nat
  children : List Node

/-- A grammar that is at hand: it gives the syntax tree of a source, or gives up. -/
abbrev Grammar : Type := String → Option Node

namespace Node

/-- The text that a node spans, empty if the bytes are no text. -/
def text (source : Array UInt8) (n : Node) : String :=
  (Text.ofUtf8? (source.extract n.start n.stop).toList).getD ""

/-- The line that a node begins on, counted from one. -/
def line (n : Node) : Nat := n.row + 1

/-- The children in a field. -/
def childrenByField (n : Node) (name : String) : List Node := n.children.filter (·.field == some name)

/-- The first child in a field. -/
def childByField? (n : Node) (name : String) : Option Node := n.children.find? (·.field == some name)

/-- The first child of a kind. -/
def childOfKind? (n : Node) (kind : String) : Option Node := n.children.find? (·.kind == kind)

mutual

/-- A node and everything below it, each node in front of those below it. -/
def nodes : Node → List Node
  | ⟨kind, field, row, start, stop, children⟩ => ⟨kind, field, row, start, stop, children⟩ :: allNodes children

/-- The nodes of some trees, tree by tree. -/
def allNodes : List Node → List Node
  | [] => []
  | n :: rest => n.nodes ++ allNodes rest

end

theorem allNodes_eq (ns : List Node) : allNodes ns = ns.flatMap nodes := by
  induction ns with
  | nil => simp only [allNodes, List.flatMap_nil]
  | cons n rest ih => rw [allNodes, ih, List.flatMap_cons]

theorem nodes_eq (n : Node) : n.nodes = n :: n.children.flatMap nodes := by
  cases n
  rw [nodes, allNodes_eq]

end Node

/-- A place in a syntax tree. -/
structure Cursor where
  node : Node
  /-- The siblings behind the node. -/
  after : List Node
  /-- The nodes above, the nearest first, each with the siblings behind it. -/
  above : List (Node × List Node)

/-- A cursor at the top of a tree. -/
def Node.walk (n : Node) : Cursor := ⟨n, [], []⟩

namespace Cursor

/-- One level down, at the first child. -/
def firstChild? (c : Cursor) : Option Cursor :=
  match c.node.children with
  | [] => none
  | first :: rest => some ⟨first, rest, (c.node, c.after) :: c.above⟩

/-- At the next sibling. -/
def nextSibling? (c : Cursor) : Option Cursor :=
  match c.after with
  | [] => none
  | next :: rest => some ⟨next, rest, c.above⟩

/-- One level up. -/
def parent? (c : Cursor) : Option Cursor :=
  match c.above with
  | [] => none
  | (node, after) :: above => some ⟨node, after, above⟩

/-- Behind the node and everything below it: at its next sibling, or at that of the nearest node above
    which has one. -/
def leave? (c : Cursor) : Option Cursor :=
  match c.nextSibling? with
  | some next => some next
  | none =>
    match _up : c.parent? with
    | none => none
    | some parent => leave? parent
termination_by c.above.length
decreasing_by
  obtain ⟨node, after, above⟩ := c
  cases above with
  | nil => cases _up
  | cons first rest =>
    cases _up
    exact Nat.lt_succ_self _

/-- At the next node, below the present one if that is wanted and there is one. -/
def advance? (c : Cursor) (descend : Bool) : Option Cursor :=
  match if descend then c.firstChild? else none with
  | some below => some below
  | none => c.leave?

/-- What is gathered from the tree at a cursor and from the trees that it would come to behind that. -/
def gather {α : Type} (c : Cursor) (f : Node → List α) : List α :=
  f c.node ++ c.after.flatMap f ++ c.above.flatMap fun (_, after) => after.flatMap f

theorem gather_leave {α : Type} {c : Cursor} (f : Node → List α) :
    c.gather f = f c.node ++ c.leave?.elim [] (·.gather f) := by
  fun_induction leave? c with
  | case1 c next found =>
    obtain ⟨node, after, above⟩ := c
    cases after with
    | nil => cases found
    | cons first rest =>
      cases found
      simp [gather]
  | case2 c last top =>
    obtain ⟨node, after, above⟩ := c
    cases after with
    | cons first rest => cases last
    | nil =>
      cases above with
      | nil => simp [gather]
      | cons first rest => cases top
  | case3 c last parent up ih =>
    obtain ⟨node, after, above⟩ := c
    cases after with
    | cons first rest => cases last
    | nil =>
      cases above with
      | nil => cases up
      | cons first rest =>
        cases up
        -- What is behind the parent is what is behind the last of its children.
        simp only [gather, List.append_assoc, List.append_cancel_left_eq] at ih
        simp [gather, ih]

theorem gather_firstChild {α : Type} {c below : Cursor} (down : c.firstChild? = some below) (f : Node → List α) :
    below.gather f = c.node.children.flatMap f ++ c.leave?.elim [] (·.gather f) := by
  have behind : c.gather f = f c.node ++ c.leave?.elim [] (·.gather f) := gather_leave f
  simp only [gather, List.append_assoc, List.append_cancel_left_eq] at behind
  unfold firstChild? at down
  split at down
  · cases down
  · rename_i first rest children
    cases down
    simp [gather, children, ← behind]

/-- What is gathered from the next node on. -/
theorem gather_advance {α : Type} (c : Cursor) (descend : Bool) (f : Node → List α) :
    (c.advance? descend).elim [] (·.gather f) =
      (if descend then c.node.children.flatMap f else []) ++ c.leave?.elim [] (·.gather f) := by
  unfold advance?
  cases descend with
  | false => rfl
  | true =>
    cases down : c.firstChild? with
    | some below => simpa using gather_firstChild down f
    | none =>
      have leaf : c.node.children = [] := by
        unfold firstChild? at down
        split at down
        · assumption
        · cases down
      simp [leaf]

/-- The nodes that a cursor would come to, the one that it is at among them. -/
def ahead (c : Cursor) : List Node := c.gather Node.nodes

theorem length_ahead_advance {c next : Cursor} {descend : Bool} (moved : c.advance? descend = some next) :
    next.ahead.length < c.ahead.length := by
  have onward := gather_advance c descend Node.nodes
  have whole : c.ahead = c.node.nodes ++ c.leave?.elim [] (·.ahead) := gather_leave Node.nodes
  have fewer : (if descend then c.node.children.flatMap Node.nodes else []).length < c.node.nodes.length := by
    rw [Node.nodes_eq c.node]
    cases descend <;> simp
  rw [moved] at onward
  have onward : next.ahead = _ := onward
  rw [onward, whole, List.length_append, List.length_append]
  exact Nat.add_lt_add_right fewer _

end Cursor
end ModuleGraph
