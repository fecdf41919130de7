/-!
Sums of counts, and the bound on numbers that are kept in 64 bits.
-/
namespace ModuleGraph

/-- One more than the largest number of 64 bits. -/
def wordLimit : Nat := 18446744073709551616

/-- The sum of counts. -/
def total (counts : List Nat) : Nat := counts.foldr (fun count rest => count + rest) 0

@[simp] theorem total_nil : total [] = 0 := rfl

@[simp] theorem total_cons (count : Nat) (rest : List Nat) :
    total (count :: rest) = count + total rest := rfl

@[simp] theorem total_append (front back : List Nat) :
    total (front ++ back) = total front + total back := by
  induction front with
  | nil => simp
  | cons count rest ih => simp [ih, Nat.add_assoc]

theorem total_perm {counts others : List Nat} (perm : counts.Perm others) :
    total counts = total others := by
  induction perm with
  | nil => rfl
  | cons count _ ih => rw [total_cons, total_cons, ih]
  | swap first second rest =>
    simp only [total_cons]
    omega
  | trans _ _ front back => exact front.trans back

/-- One count of a list grows. -/
theorem total_map_grow {α : Type} {l : List α} {before after : α → Nat} {grown : α} {extra : Nat}
    (nodup : l.Nodup) (member : grown ∈ l) (more : after grown = before grown + extra)
    (same : ∀ x ∈ l, x ≠ grown → after x = before x) :
    total (l.map after) = total (l.map before) + extra := by
  induction l with
  | nil => simp at member
  | cons x rest ih =>
    rw [List.nodup_cons] at nodup
    rw [List.map_cons, List.map_cons, total_cons, total_cons]
    rcases List.mem_cons.mp member with here | there
    · subst here
      have others : rest.map after = rest.map before := List.map_congr_left fun y inside =>
        same y (List.mem_cons_of_mem _ inside) fun equal => nodup.1 (equal ▸ inside)
      rw [others]
      omega
    · have differ : x ≠ grown := fun equal => nodup.1 (equal ▸ there)
      rw [ih nodup.2 there fun y inside => same y (List.mem_cons_of_mem x inside),
        same x List.mem_cons_self differ]
      omega

end ModuleGraph
