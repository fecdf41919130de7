import ModuleGraph.Graph.Reach
import ModuleGraph.Proofs.Graph.Representation
import Mathlib.Logic.Relation

/-!
What the table of rows says. After the modules at the first places have been let through, a row holds
the modules that its own one leads to by paths through those places only; after all of them, it holds
every module that its own one leads to by one or more edges (`leads_reach_iff`).
-/
namespace ModuleGraph

namespace Graph

/-- One module imports another. -/
def Imports (g : Graph) (a b : String) : Prop := b ∈ g.dependencies a

/-- One module leads to another by one or more edges. -/
def LeadsTo (g : Graph) : String → String → Prop := Relation.TransGen g.Imports

instance (g : Graph) : Trans g.LeadsTo g.LeadsTo g.LeadsTo := ⟨Relation.TransGen.trans⟩

end Graph

namespace Reach
variable {rows : List Reach} {nodes : List String} {r : Reach} {i j k : Nat}

/-- The rows are those of some modules, in order. -/
def AreFor (nodes : List String) (rows : List Reach) : Prop :=
  rows.map (fun r => (r.id, r.place)) = nodes.zipIdx

/-- The row at one place says that its module leads to the one at another. -/
def Leads (rows : List Reach) (i j : Nat) : Prop := ∃ r, rows[i]? = some r ∧ r.leadsTo j = true

theorem AreFor.at_place (labelled : AreFor nodes rows) (row : rows[i]? = some r) :
    r.place = i ∧ nodes[i]? = some r.id := by
  have pair : nodes.zipIdx[i]? = some (r.id, r.place) := by
    rw [← labelled, List.getElem?_map, row]
    rfl
  rw [List.getElem?_zipIdx] at pair
  cases found : nodes[i]? with
  | none => simp [found] at pair
  | some id =>
    simp only [found, Option.map_some, Option.some.injEq, Prod.mk.injEq] at pair
    exact ⟨by omega, by rw [pair.1]⟩

theorem AreFor.exists_row (labelled : AreFor nodes rows) {id : String} (node : nodes[i]? = some id) :
    ∃ r, rows[i]? = some r ∧ r.id = id := by
  have size : rows.length = nodes.length := by simpa using congrArg List.length labelled
  have bound : i < rows.length := size ▸ (List.getElem?_eq_some_iff.mp node).1
  refine ⟨rows[i], List.getElem?_eq_getElem bound, ?_⟩
  have here := (labelled.at_place (List.getElem?_eq_getElem bound)).2
  exact Option.some.inj (here.symm.trans node)

theorem AreFor.map_id (labelled : AreFor nodes rows) : rows.map (·.id) = nodes := by
  have ids := congrArg (List.map Prod.fst) labelled
  simpa [Function.comp_def] using ids

theorem AreFor.letThrough (labelled : AreFor nodes rows) (k : Nat) :
    AreFor nodes (letThrough rows k) := by
  unfold Reach.letThrough
  split
  · exact labelled
  · rename_i via _
    have kept : ∀ r : Reach, ((r.through via).id, (r.through via).place) = (r.id, r.place) := by
      intro r
      unfold through
      split <;> rfl
    rw [AreFor, List.map_map]
    exact (List.map_congr_left fun r _ => kept r).trans labelled

private theorem leadsTo_through (r via : Reach) :
    (r.through via).leadsTo j = true ↔
      r.leadsTo j = true ∨ r.leadsTo via.place = true ∧ via.leadsTo j = true := by
  unfold through
  split
  · rename_i reached
    simp [leadsTo] at reached ⊢
    simp [reached]
  · rename_i off
    simp [off]

/-- Letting paths through one more place. -/
theorem leads_letThrough (labelled : AreFor nodes rows) :
    Leads (letThrough rows k) i j ↔ Leads rows i j ∨ Leads rows i k ∧ Leads rows k j := by
  unfold letThrough
  cases middle : rows[k]? with
  | none => simp [Leads, middle]
  | some via =>
    have place := (labelled.at_place middle).1
    subst place
    cases row : rows[i]? with
    | none => simp [Leads, row]
    | some r => simp [Leads, row, middle, leadsTo_through]

/-- The rows when paths may go through the first places. -/
def upTo (rows : List Reach) (k : Nat) : List Reach := (List.range k).foldl letThrough rows

theorem upTo_succ : upTo rows (k + 1) = letThrough (upTo rows k) k := by
  rw [upTo, List.range_succ, List.foldl_append]
  rfl

theorem AreFor.upTo (labelled : AreFor nodes rows) (k : Nat) : AreFor nodes (upTo rows k) := by
  induction k with
  | zero => exact labelled
  | succ k ih =>
    rw [upTo_succ]
    exact ih.letThrough k

theorem leads_upTo_succ (labelled : AreFor nodes rows) :
    Leads (upTo rows (k + 1)) i j ↔
      Leads (upTo rows k) i j ∨ Leads (upTo rows k) i k ∧ Leads (upTo rows k) k j := by
  rw [upTo_succ]
  exact leads_letThrough (labelled.upTo k)

/-- Paths can be joined at every place that has been let through. -/
theorem leads_upTo_trans (labelled : AreFor nodes rows) {m : Nat} (through : m < k)
    (front : Leads (upTo rows k) i m) (back : Leads (upTo rows k) m j) : Leads (upTo rows k) i j := by
  induction k generalizing i m j with
  | zero => omega
  | succ k ih =>
    rw [leads_upTo_succ labelled] at front back ⊢
    by_cases last : m = k
    · subst last
      exact .inr ⟨front.elim (fun leads => leads) And.left, back.elim (fun leads => leads) And.right⟩
    · have earlier : m < k := by omega
      rcases front with front | ⟨toLast, front⟩ <;> rcases back with back | ⟨back, fromLast⟩
      · exact .inl (ih earlier front back)
      · exact .inr ⟨ih earlier front back, fromLast⟩
      · exact .inr ⟨toLast, ih earlier front back⟩
      · exact .inr ⟨toLast, fromLast⟩

theorem leads_upTo_of_leads (labelled : AreFor nodes rows) (direct : Leads rows i j) (k : Nat) :
    Leads (upTo rows k) i j := by
  induction k with
  | zero => exact direct
  | succ k ih => exact (leads_upTo_succ labelled).mpr (.inl ih)

theorem path_of_leads_upTo (labelled : AreFor nodes rows) (leads : Leads (upTo rows k) i j) :
    Relation.TransGen (Leads rows) i j := by
  induction k generalizing i j with
  | zero => exact .single leads
  | succ k ih =>
    rcases (leads_upTo_succ labelled).mp leads with before | ⟨front, back⟩
    · exact ih before
    · exact (ih front).trans (ih back)

/-- When every place has been let through, a row holds all that paths lead to. -/
theorem leads_upTo_length_iff (labelled : AreFor nodes rows) :
    Leads (upTo rows rows.length) i j ↔ Relation.TransGen (Leads rows) i j := by
  refine ⟨path_of_leads_upTo labelled, fun path => ?_⟩
  induction path with
  | single direct => exact leads_upTo_of_leads labelled direct _
  | @tail m j _ direct ih =>
    have through : m < rows.length := by
      obtain ⟨r, row, _⟩ := direct
      exact (List.getElem?_eq_some_iff.mp row).1
    exact leads_upTo_trans labelled through ih (leads_upTo_of_leads labelled direct _)

theorem testBit_placesOf (nodes ids : List String) :
    (placesOf nodes ids).testBit j = true ↔ ∃ id ∈ ids, nodes.idxOf id = j := by
  have grown (bits : Nat) :
      (ids.foldl (fun bits id => bits ||| (1 <<< nodes.idxOf id)) bits).testBit j = true ↔
        bits.testBit j = true ∨ ∃ id ∈ ids, nodes.idxOf id = j := by
    induction ids generalizing bits with
    | nil => simp
    | cons id rest ih =>
      rw [List.foldl_cons, ih, Nat.testBit_or, Nat.one_shiftLeft, Nat.testBit_two_pow]
      simp [or_assoc]
  simpa [placesOf] using grown 0

end Reach

namespace Graph
variable {g : Graph} {i j : Nat}

theorem areFor_directReach (g : Graph) : Reach.AreFor g.nodeIds g.directReach := by
  rw [Reach.AreFor, directReach, List.map_map]
  exact List.map_id _

theorem getElem?_directReach (g : Graph) (i : Nat) :
    g.directReach[i]? = g.nodeIds[i]?.map fun id =>
      ⟨id, i, Reach.placesOf g.nodeIds (g.dependencies id)⟩ := by
  rw [directReach, List.getElem?_map, List.getElem?_zipIdx]
  cases g.nodeIds[i]? <;> simp

theorem leads_directReach_iff (ok : g.WellIndexed) :
    Reach.Leads g.directReach i j ↔
      ∃ a b, g.nodeIds[i]? = some a ∧ g.nodeIds[j]? = some b ∧ g.Imports a b := by
  constructor
  · rintro ⟨r, found, leads⟩
    rw [getElem?_directReach, Option.map_eq_some_iff] at found
    obtain ⟨a, node, rfl⟩ := found
    obtain ⟨b, edge, rfl⟩ := (Reach.testBit_placesOf _ _).mp leads
    exact ⟨a, b, node, List.getElem?_idxOf (ok.target_mem a b edge), edge⟩
  · rintro ⟨a, b, source, target, edge⟩
    have found : g.directReach[i]? =
        some ⟨a, i, Reach.placesOf g.nodeIds (g.dependencies a)⟩ := by
      rw [getElem?_directReach, source, Option.map_some]
    refine ⟨_, found, (Reach.testBit_placesOf _ _).mpr ⟨b, edge, ?_⟩⟩
    obtain ⟨bound, rfl⟩ := List.getElem?_eq_some_iff.mp target
    exact (OrderedMap.nodup g.nodes).idxOf_getElem j bound

/-- Paths from place to place are paths from module to module. -/
theorem WellIndexed.path_iff (ok : g.WellIndexed) {Direct : Nat → Nat → Prop}
    (direct : ∀ i j, Direct i j ↔
      ∃ a b, g.nodeIds[i]? = some a ∧ g.nodeIds[j]? = some b ∧ g.Imports a b) :
    Relation.TransGen Direct i j ↔
      ∃ a b, g.nodeIds[i]? = some a ∧ g.nodeIds[j]? = some b ∧ g.LeadsTo a b := by
  constructor
  · intro path
    induction path with
    | single edge =>
      obtain ⟨a, b, source, target, edge⟩ := (direct _ _).mp edge
      exact ⟨a, b, source, target, .single edge⟩
    | tail _ edge ih =>
      obtain ⟨a, b, source, middle, path⟩ := ih
      obtain ⟨b', c, middle', target, edge⟩ := (direct _ _).mp edge
      obtain rfl := Option.some.inj (middle.symm.trans middle')
      exact ⟨a, c, source, target, path.tail edge⟩
  · rintro ⟨a, b, source, target, path⟩
    induction path generalizing j with
    | single edge => exact .single ((direct _ _).mpr ⟨a, _, source, target, edge⟩)
    | @tail b c _ edge ih =>
      obtain ⟨m, middle⟩ := List.mem_iff_getElem?.mp (ok.source_mem b c edge)
      exact (ih middle).tail ((direct _ _).mpr ⟨b, c, middle, target, edge⟩)

theorem leads_reach_iff (ok : g.WellIndexed) :
    Reach.Leads g.reach i j ↔
      ∃ a b, g.nodeIds[i]? = some a ∧ g.nodeIds[j]? = some b ∧ g.LeadsTo a b := by
  have size : g.directReach.length = g.nodeCount := by
    simp [directReach, nodeIds, nodeCount, OrderedMap.size, OrderedMap.keys]
  have paths : Reach.Leads g.reach i j ↔ Relation.TransGen (Reach.Leads g.directReach) i j := by
    rw [← Reach.leads_upTo_length_iff (areFor_directReach g), size]
    rfl
  exact paths.trans (ok.path_iff fun _ _ => leads_directReach_iff ok)

end Graph
end ModuleGraph
