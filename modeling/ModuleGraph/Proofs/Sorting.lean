import Mathlib.Data.List.Sort

/-!
Lists in strict order. Such a list is known from its elements (`eq_of_strict`), and sorting by distinct
numbers gives one (`strict_mergeSort`). Where an order leaves open which of two elements comes first,
sorting keeps them as they were (`stable_mergeSort`).
-/
namespace ModuleGraph
variable {α : Type} {l m : List α}

/-- Two lists in the same strict order are one if they hold the same elements. -/
theorem eq_of_strict {before : α → α → Prop} (asymm : ∀ a b, before a b → ¬before b a)
    (left : l.Pairwise before) (right : m.Pairwise before) (same : ∀ x, x ∈ l ↔ x ∈ m) : l = m := by
  have : Std.Irrefl before := ⟨fun a loop => asymm a a loop loop⟩
  have : Std.Antisymm before := ⟨fun a b there back => absurd back (asymm a b there)⟩
  exact left.eq_of_mem_iff right same

/-- Sorting by distinct numbers gives their strict order. -/
theorem strict_mergeSort (key : α → Nat) (distinct : (l.map key).Nodup) :
    (l.mergeSort fun a b => key a ≤ key b).Pairwise fun a b => key a < key b := by
  have sorted : (l.mergeSort fun a b => key a ≤ key b).Pairwise fun a b => key a ≤ key b := by
    refine (List.pairwise_mergeSort (fun a b c front back => ?_) (fun a b => ?_) l).imp of_decide_eq_true
    · exact decide_eq_true (Nat.le_trans (of_decide_eq_true front) (of_decide_eq_true back))
    · simpa using Nat.le_total (key a) (key b)
  have differ : (l.mergeSort fun a b => key a ≤ key b).Pairwise fun a b => key a ≠ key b :=
    List.pairwise_map.mp (((List.mergeSort_perm l _).map key).nodup_iff.mpr distinct)
  exact (sorted.and differ).imp fun both => Nat.lt_of_le_of_ne both.1 both.2

/-! ## Ties -/

theorem pairwise_idxOf [DecidableEq α] (distinct : l.Nodup) :
    l.Pairwise fun a b => l.idxOf a < l.idxOf b := by
  refine List.pairwise_iff_getElem.mpr fun i j left right less => ?_
  rwa [distinct.idxOf_getElem i left, distinct.idxOf_getElem j right]

/-- In a list without repeats, two elements stand in the order of their positions. -/
theorem pair_sublist_iff [DecidableEq α] {a b : α} (distinct : l.Nodup) (member : b ∈ l) :
    [a, b].Sublist l ↔ l.idxOf a < l.idxOf b := by
  constructor
  · exact List.pairwise_iff_forall_sublist.mp (pairwise_idxOf distinct)
  · intro less
    have bound : l.idxOf b < l.length := List.idxOf_lt_length_iff.mpr member
    have pairs : l.Pairwise fun x y => [x, y].Sublist l := List.pairwise_iff_forall_sublist.mpr id
    have part := List.pairwise_iff_getElem.mp pairs _ _ (less.trans bound) bound less
    rwa [List.getElem_idxOf, List.getElem_idxOf] at part

/-- Sorting keeps the order of elements that may stand in either order. -/
theorem stable_mergeSort [DecidableEq α] {le : α → α → Bool}
    (trans : ∀ a b c, le a b = true → le b c = true → le a c = true)
    (total : ∀ a b, (le a b || le b a) = true) (distinct : l.Nodup) :
    (l.mergeSort le).Pairwise fun a b => le a b = true ∧ (le b a = true → [a, b].Sublist l) := by
  have sorted := List.pairwise_mergeSort trans total l
  have still : (l.mergeSort le).Nodup := (List.mergeSort_perm l le).nodup_iff.mpr distinct
  rw [List.pairwise_iff_forall_sublist] at sorted ⊢
  intro a b part
  have left : a ∈ l := List.mem_mergeSort.mp (part.subset (by simp))
  have right : b ∈ l := List.mem_mergeSort.mp (part.subset (by simp))
  have differ : a ≠ b := by simpa using still.sublist part
  refine ⟨sorted part, fun tie => (pair_sublist_iff distinct right).mpr (Nat.lt_of_not_le fun later => ?_)⟩
  have back : l.idxOf b < l.idxOf a := by
    refine Nat.lt_of_le_of_ne later fun same => differ ?_
    exact ((List.idxOf_inj right).mp same).symm
  -- Sorting would have kept the two in this order as well.
  have kept : [b, a].Sublist (l.mergeSort le) :=
    List.pair_sublist_mergeSort trans total tie ((pair_sublist_iff distinct left).mpr back)
  have forth := (pair_sublist_iff still (part.subset (by simp))).mp part
  exact Nat.lt_asymm forth ((pair_sublist_iff still (part.subset (by simp))).mp kept)

end ModuleGraph
