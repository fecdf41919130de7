import ModuleGraph.Graph.Basic

/-!
How much of a graph a traversal has left: the number of modules with edges that it has not seen.
Seeing a module never makes this larger, and seeing one with edges for the first time makes it
smaller, so every traversal below ends.
-/
namespace ModuleGraph

theorem length_filter_le_of_imp {α : Type} {p q : α → Bool} {l : List α}
    (weaker : ∀ x ∈ l, p x = true → q x = true) : (l.filter p).length ≤ (l.filter q).length := by
  induction l with
  | nil => simp
  | cons x rest ih =>
    have later := ih fun y old => weaker y (List.mem_cons_of_mem x old)
    have here := weaker x List.mem_cons_self
    by_cases hp : p x = true
    · simp [hp, here hp, later]
    · by_cases hq : q x = true
      · simp only [List.filter_cons, hp, hq]
        exact Nat.le_succ_of_le later
      · simp [hp, hq, later]

theorem length_filter_lt_of_imp {α : Type} {p q : α → Bool} {l : List α} {x : α} (member : x ∈ l)
    (weaker : ∀ y ∈ l, p y = true → q y = true) (out : p x = false) (inside : q x = true) :
    (l.filter p).length < (l.filter q).length := by
  induction l with
  | nil => simp at member
  | cons y rest ih =>
    have weakerLater : ∀ z ∈ rest, p z = true → q z = true :=
      fun z old => weaker z (List.mem_cons_of_mem y old)
    rcases List.mem_cons.1 member with same | later
    · subst same
      simp only [List.filter_cons, out, inside]
      exact Nat.lt_succ_of_le (length_filter_le_of_imp weakerLater)
    · have smaller := ih later weakerLater
      have here := weaker y List.mem_cons_self
      by_cases hp : p y = true
      · simp [hp, here hp, smaller]
      · by_cases hq : q y = true
        · simp only [List.filter_cons, hp, hq]
          exact Nat.lt_succ_of_lt smaller
        · simp [hp, hq, smaller]

namespace Graph

/-- The number of modules with edges outside a list. -/
def unexplored (g : Graph) (seen : List String) : Nat :=
  (g.outgoing.keys.filter (!seen.contains ·)).length

theorem unexplored_le_of_subset {g : Graph} {seen more : List String}
    (subset : ∀ id ∈ seen, id ∈ more) : g.unexplored more ≤ g.unexplored seen := by
  refine length_filter_le_of_imp fun id _ out => ?_
  simp only [Bool.not_eq_true', List.contains_eq_mem, decide_eq_false_iff_not] at out ⊢
  exact fun old => out (subset id old)

theorem unexplored_lt_of_subset {g : Graph} {seen more : List String} {id : String}
    (subset : ∀ id ∈ seen, id ∈ more) (known : id ∈ g.outgoing.keys) (new : id ∈ more)
    (unseen : id ∉ seen) : g.unexplored more < g.unexplored seen := by
  refine length_filter_lt_of_imp known (fun other _ out => ?_) (by simp [new]) (by simp [unseen])
  simp only [Bool.not_eq_true', List.contains_eq_mem, decide_eq_false_iff_not] at out ⊢
  exact fun old => out (subset other old)

theorem mem_keys_of_dependencies_ne_nil {g : Graph} {id : String} (some : g.dependencies id ≠ []) :
    id ∈ g.outgoing.keys := by
  apply Classical.byContradiction
  intro missing
  refine some ?_
  have none : g.outgoing.get? id = none := by
    have search : ∀ l : List (String × OrderedMap String EdgeLabel),
        id ∉ l.map Prod.fst → OrderedMap.find id l = none := by
      intro l
      induction l with
      | nil => intro _; rfl
      | cons head rest ih =>
        intro out
        simp only [List.map_cons, List.mem_cons, not_or] at out
        simp [OrderedMap.find, Ne.symm out.1, ih out.2]
    exact search _ missing
  simp [dependencies, edgesOf, OrderedMap.getD, none, OrderedMap.keys, OrderedMap.empty]

end Graph
end ModuleGraph
