/-!
Finite sets of texts, kept in the order of their characters' code points. Two sets with the same
members are equal, because a set has one sorted list.
-/
namespace ModuleGraph

/-- Distinct texts in ascending order. -/
structure SortedSet where
  toList : List String
  ascending : toList.Pairwise (· < ·)

namespace SortedSet

@[ext] theorem ext {s t : SortedSet} (same : s.toList = t.toList) : s = t := by
  cases s; cases t; cases same; rfl

instance : DecidableEq SortedSet := fun s t =>
  decidable_of_iff (s.toList = t.toList) ⟨ext, fun same => same ▸ rfl⟩

instance : Membership String SortedSet := ⟨fun s x => x ∈ s.toList⟩

/-- The set without members. -/
def empty : SortedSet := ⟨[], .nil⟩

instance : Inhabited SortedSet := ⟨empty⟩

/-- Puts a text into an ascending list, unless it is there. -/
def place (x : String) : List String → List String
  | [] => [x]
  | y :: rest => if x < y then x :: y :: rest else if x = y then y :: rest else y :: place x rest

theorem mem_place {x z : String} {l : List String} : z ∈ place x l ↔ z = x ∨ z ∈ l := by
  induction l with
  | nil => simp [place]
  | cons y rest ih =>
    simp only [place]
    split
    · simp
    · split
      · rename_i same
        simp [same]
      · simp only [List.mem_cons, ih]
        exact ⟨fun h => h.elim (fun a => .inr (.inl a)) fun h => h.elim .inl fun a => .inr (.inr a),
          fun h => h.elim (fun a => .inr (.inl a)) fun h => h.elim .inl fun a => .inr (.inr a)⟩

theorem lt_of_not_lt_of_ne {x y : String} (off : ¬ x < y) (differ : x ≠ y) : y < x := by
  apply Classical.byContradiction
  intro other
  exact differ (String.le_antisymm (String.not_lt.1 other) (String.not_lt.1 off))

theorem pairwise_place {x : String} {l : List String} (ascending : l.Pairwise (· < ·)) :
    (place x l).Pairwise (· < ·) := by
  induction l with
  | nil => simp [place]
  | cons y rest ih =>
    obtain ⟨above, later⟩ := List.pairwise_cons.1 ascending
    simp only [place]
    split
    · rename_i less
      refine List.pairwise_cons.2 ⟨fun z old => ?_, ascending⟩
      rcases List.mem_cons.1 old with same | old
      · exact same ▸ less
      · exact String.lt_trans less (above z old)
    · rename_i off
      split
      · exact ascending
      · rename_i differ
        refine List.pairwise_cons.2 ⟨fun z old => ?_, ih later⟩
        rcases mem_place.1 old with same | old
        · exact same ▸ lt_of_not_lt_of_ne off differ
        · exact above z old

/-- The set with one more member. -/
def insert (s : SortedSet) (x : String) : SortedSet := ⟨place x s.toList, pairwise_place s.ascending⟩

@[simp] theorem mem_insert {s : SortedSet} {x z : String} : z ∈ s.insert x ↔ z = x ∨ z ∈ s :=
  mem_place

/-- The set of the texts in a list. -/
def ofList (xs : List String) : SortedSet := xs.foldl insert empty

/-- The members of either set. -/
def union (s t : SortedSet) : SortedSet := t.toList.foldl insert s

/-- The members that satisfy a condition. -/
def filter (p : String → Bool) (s : SortedSet) : SortedSet :=
  ⟨s.toList.filter p, s.ascending.sublist List.filter_sublist⟩

@[simp] theorem mem_filter {p : String → Bool} {s : SortedSet} {z : String} :
    z ∈ s.filter p ↔ z ∈ s ∧ p z = true := List.mem_filter

/-- Whether there is no member. -/
def isEmpty (s : SortedSet) : Bool := s.toList.isEmpty

/-- The number of members. -/
def size (s : SortedSet) : Nat := s.toList.length

end SortedSet
end ModuleGraph
