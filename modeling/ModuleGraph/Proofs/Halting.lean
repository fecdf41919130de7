/-!
Runs of a loop that takes one step after the other until there is none. What every step keeps holds at
the end, and a loop whose steps make a number smaller ends within that number. All states of a run are
one list (`Passes`); what each step adds to a list of things is all that is there at the end
(`Passes.perm_overSteps`).
-/
namespace ModuleGraph

/-- From one state a loop comes to another one in so many steps, and ends there. -/
inductive Halts {σ : Type} (step : σ → Option σ) : σ → Nat → σ → Prop
  | stop {s : σ} (stuck : step s = none) : Halts step s 0 s
  | next {s t last : σ} {n : Nat} (stepped : step s = some t) (rest : Halts step t n last) :
      Halts step s (n + 1) last

namespace Halts
variable {σ : Type} {step : σ → Option σ} {s last : σ} {n : Nat}

theorem stuck (halts : Halts step s n last) : step last = none := by
  induction halts with
  | stop stuck => exact stuck
  | next _ _ ih => exact ih

theorem keeps {P : σ → Prop} (halts : Halts step s n last)
    (kept : ∀ s t, step s = some t → P s → P t) (start : P s) : P last := by
  induction halts with
  | stop _ => exact start
  | next stepped _ ih => exact ih (kept _ _ stepped start)

/-- A loop ends if each of its steps makes a number smaller. -/
theorem exists_of_measure (measure : σ → Nat)
    (less : ∀ s t, step s = some t → measure t < measure s) (s : σ) :
    ∃ n last, n ≤ measure s ∧ Halts step s n last := by
  induction size : measure s using Nat.strongRecOn generalizing s with
  | ind _ ih =>
    subst size
    cases stepped : step s with
    | none => exact ⟨0, s, Nat.zero_le _, .stop stepped⟩
    | some t =>
      obtain ⟨n, last, bound, rest⟩ := ih _ (less s t stepped) t rfl
      exact ⟨n + 1, last, Nat.lt_of_le_of_lt bound (less s t stepped), .next stepped rest⟩

end Halts

/-! ## All states of a run -/

/-- The states that a loop comes through from one state to its end. -/
inductive Passes {σ : Type} (step : σ → Option σ) : σ → List σ → Prop
  | stop {s : σ} (stuck : step s = none) : Passes step s [s]
  | next {s t : σ} {states : List σ} (stepped : step s = some t) (rest : Passes step t states) :
      Passes step s (s :: states)

/-- What is to be said of the steps of a run, one after the other. -/
def overSteps {σ β : Type} (said : σ → σ → List β) (states : List σ) : List β :=
  (states.zip states.tail).flatMap fun (s, t) => said s t

theorem Halts.exists_passes {σ : Type} {step : σ → Option σ} {s last : σ} {n : Nat}
    (halts : Halts step s n last) : ∃ states, Passes step s states ∧ states.getLast? = some last := by
  induction halts with
  | stop stuck => exact ⟨_, .stop stuck, rfl⟩
  | @next s t _ _ stepped _ ih =>
    obtain ⟨states, passes, ends⟩ := ih
    exact ⟨s :: states, .next stepped passes, by rw [List.getLast?_cons, ends]; rfl⟩

namespace Passes
variable {σ β : Type} {step : σ → Option σ} {s last : σ} {states : List σ}

theorem head?_eq (passes : Passes step s states) : states.head? = some s := by
  cases passes <;> rfl

theorem keeps {P : σ → Prop} (passes : Passes step s states)
    (kept : ∀ s t, step s = some t → P s → P t) (start : P s) : ∀ t ∈ states, P t := by
  induction passes with
  | stop _ => simpa using start
  | next stepped _ ih => exact List.forall_mem_cons.mpr ⟨start, ih (kept _ _ stepped start)⟩

/-- What is there at the end is what was there before and what the steps add. -/
theorem perm_overSteps {P : σ → Prop} (things : σ → List β) (added : σ → σ → List β)
    (passes : Passes step s states) (kept : ∀ s t, step s = some t → P s → P t)
    (adds : ∀ s t, step s = some t → P s → (things t).Perm (things s ++ added s t)) (start : P s)
    (ends : states.getLast? = some last) : (things last).Perm (things s ++ overSteps added states) := by
  induction passes with
  | stop _ =>
    obtain rfl := Option.some.inj ends
    simp [overSteps]
  | @next s t states stepped rest ih =>
    obtain ⟨more, rfl⟩ := List.head?_eq_some_iff.mp rest.head?_eq
    have later := ih (kept _ _ stepped start) (by simpa using ends)
    refine (later.trans ((adds s t stepped start).append_right _)).trans ?_
    rw [List.append_assoc]
    exact .refl _

end Passes
end ModuleGraph
