import ModuleGraph.Extraction.Inquiry
import Mathlib.Data.List.Basic

/-!
What an inquiry asks and what comes out of it. The result depends only on the answers to the questions
that are asked (`Inquiry.run_congr`), and a memory makes no difference as long as it holds answers to
the very questions that are asked again (`Inquiry.runWith_eq_run`).
-/
namespace ModuleGraph

namespace Inquiry
variable {α β : Type} {answer answer' : Query → Except ResolutionError Resolution}

/-- The questions that are asked when each is answered by a function, in order. -/
def queries (answer : Query → Except ResolutionError Resolution) : Inquiry α → List Query
  | .done _ => []
  | .ask q next => q :: (next (answer q)).queries answer

theorem run_bind (i : Inquiry α) (next : α → Inquiry β) :
    (i.bind next).run answer = (next (i.run answer)).run answer := by
  induction i with
  | done result => rfl
  | ask q _ ih => exact ih (answer q)

theorem queries_bind (i : Inquiry α) (next : α → Inquiry β) :
    (i.bind next).queries answer = i.queries answer ++ (next (i.run answer)).queries answer := by
  induction i with
  | done result => rfl
  | ask q _ ih => exact congrArg (q :: ·) (ih (answer q))

/-- Only the answers to the questions that are asked matter. -/
theorem run_congr {i : Inquiry α} (same : ∀ q ∈ i.queries answer, answer q = answer' q) :
    i.run answer = i.run answer' := by
  induction i with
  | done result => rfl
  | ask q next ih =>
    simp only [queries, List.mem_cons, forall_eq_or_imp] at same
    rw [run, run, ← same.1]
    exact ih (answer q) same.2

end Inquiry

/-! ## Memory -/

namespace Memo
variable {fs : FileSystem} {search : SearchPath} {paths : List Path} {memo : Memo} {q : Query}

/-- A memory holds right answers to questions about files on given paths. -/
def Sound (memo : Memo) (fs : FileSystem) (search : SearchPath) (paths : List Path) : Prop :=
  ∀ entry ∈ memo, Resolution.resolve fs search entry.1 = .ok entry.2 ∧
    ∃ path ∈ paths, entry.1.source = some path

theorem sound_nil : Sound [] fs search paths := fun _ member => absurd member List.not_mem_nil

/-- Questions about files whose paths differ in their steps are not taken for each other. -/
private theorem eq_of_sameQuery {other : Query} (same : sameQuery other q = true)
    (differ : ∀ p ∈ paths, ∀ p' ∈ paths, p.components = p'.components → p = p')
    (about : ∃ path ∈ paths, q.source = some path)
    (about' : ∃ path ∈ paths, other.source = some path) : other = q := by
  obtain ⟨path, listed, source⟩ := about
  obtain ⟨path', listed', source'⟩ := about'
  simp only [sameQuery, Bool.and_eq_true, beq_iff_eq, source, source', Option.map_some,
    Option.some.injEq] at same
  obtain ⟨⟨modulePath, level⟩, steps⟩ := same
  cases other
  cases q
  simp_all only
  rw [differ path' listed' path listed steps]

/-- What is remembered is the answer that looking gives. -/
theorem Sound.find? {known : Resolution} (sound : memo.Sound fs search paths)
    (differ : ∀ p ∈ paths, ∀ p' ∈ paths, p.components = p'.components → p = p')
    (about : ∃ path ∈ paths, q.source = some path) (hit : memo.find? q = some known) :
    Resolution.resolve fs search q = .ok known := by
  obtain ⟨entry, found, rfl⟩ := Option.map_eq_some_iff.mp hit
  have right := sound entry (List.mem_of_find?_eq_some found)
  have matched : sameQuery entry.1 q = true := by simpa using List.find?_some found
  rw [← eq_of_sameQuery matched differ about right.2]
  exact right.1

theorem Sound.cons {found : Resolution} (sound : memo.Sound fs search paths)
    (right : Resolution.resolve fs search q = .ok found) (about : ∃ path ∈ paths, q.source = some path) :
    Sound ((q, found) :: memo) fs search paths := by
  intro entry member
  rcases List.mem_cons.mp member with rfl | old
  · exact ⟨right, about⟩
  · exact sound entry old

/-- An answer from memory is the answer that looking gives. -/
theorem Sound.resolve (sound : memo.Sound fs search paths)
    (differ : ∀ p ∈ paths, ∀ p' ∈ paths, p.components = p'.components → p = p')
    (about : ∃ path ∈ paths, q.source = some path) :
    (memo.resolve fs search q).1 = Resolution.resolve fs search q ∧
      (memo.resolve fs search q).2.Sound fs search paths := by
  unfold Memo.resolve
  cases hit : memo.find? q with
  | some known => exact ⟨(sound.find? differ about hit).symm, sound⟩
  | none =>
    cases found : Resolution.resolve fs search q with
    | error e => exact ⟨rfl, sound⟩
    | ok result => exact ⟨rfl, sound.cons found about⟩

end Memo

/-- Work that asks about files on given paths ends with or without memory in the same way. -/
theorem Inquiry.runWith_eq_run {α : Type} {fs : FileSystem} {search : SearchPath} {paths : List Path}
    {memo : Memo} (i : Inquiry α) (sound : memo.Sound fs search paths)
    (differ : ∀ p ∈ paths, ∀ p' ∈ paths, p.components = p'.components → p = p')
    (about : ∀ q ∈ i.queries (Resolution.resolve fs search), ∃ path ∈ paths, q.source = some path) :
    (i.runWith fs search memo).1 = i.run (Resolution.resolve fs search) ∧
      (i.runWith fs search memo).2.Sound fs search paths := by
  induction i generalizing memo with
  | done result => exact ⟨rfl, sound⟩
  | ask q next ih =>
    simp only [queries, List.mem_cons, forall_eq_or_imp] at about
    obtain ⟨right, kept⟩ := sound.resolve differ about.1
    simp only [runWith, run, right]
    exact ih _ kept about.2

end ModuleGraph
