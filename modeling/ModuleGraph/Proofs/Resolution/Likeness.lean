import Mathlib.Data.List.Forall2
import ModuleGraph.Proofs.FileSystem.Likeness
import ModuleGraph.Proofs.Resolution

/-!
Queries that are written differently. Two queries with the same key ask for one module from files whose paths have the
same components. Their candidates are written alike one by one (`candidatesOf_alike`), so in one file system an answer
to one of them is an answer to the other, unless a candidate of this one is longer than a path may be
(`resolve_of_key_eq`).
-/
namespace ModuleGraph
open ModuleGraph.Path

/-- What a query asks: its module, the components of the path of its file, and its leading dots. -/
def Query.key (q : Query) : String × Option (List Component) × Nat :=
  (q.modulePath, q.source.map Path.components, q.level)

namespace Resolution

/-- Two answers are the same, where paths are compared by their components. -/
inductive Same : Except ResolutionError Resolution → Except ResolutionError Resolution → Prop
  | refl (answer : Except ResolutionError Resolution) : Same answer answer
  | resolved {path other : Path} (components : path.components = other.components) :
    Same (.ok (.resolved path)) (.ok (.resolved other))

variable {fs : FileSystem} {search : SearchPath} {q q' : Query} {p r source source' : Path}
  {listed listed' : List Path}

/-! ## Candidates -/

theorem ancestor_alike (alike : p.Alike r) (steps : Nat) : (ancestor p steps).Alike (ancestor r steps) := by
  induction steps generalizing p r with
  | zero => exact alike
  | succ steps ih =>
    rw [ancestor, ancestor]
    rcases alike_parent alike.components_eq with ⟨none, none'⟩ | ⟨above, above', some, some', alike'⟩
    · rw [none, none']
      exact alike
    · rw [some, some']
      exact ih alike'

theorem relativeBase_alike (same : source.components = source'.components) (level : Nat) :
    (relativeBase source level).Alike (relativeBase source' level) := by
  refine ancestor_alike ?_ _
  rcases alike_parent same with ⟨none, none'⟩ | ⟨above, above', some, some', alike⟩
  · rw [none, none']
    exact .same _
  · rw [some, some']
    exact alike

theorem joinModule_alike (alike : p.Alike r) (modulePath : String) :
    (joinModule p modulePath).Alike (joinModule r modulePath) := by
  unfold joinModule
  induction moduleParts modulePath generalizing p r with
  | nil => exact alike
  | cons part rest ih => exact ih (alike.join ⟨part⟩)

theorem candidates_alike (alike : p.Alike r) (extension : String) :
    List.Forall₂ Alike (candidates extension p) (candidates extension r) := by
  have dotted (name : String) : (withExtension p name).Alike (withExtension r name) := by
    simpa only [withExtension, String.append_assoc] using alike.append ("." ++ name)
  refine .cons (dotted extension) (.cons (alike.join _) ?_)
  rw [List.forall₂_map_left_iff, List.forall₂_map_right_iff, List.forall₂_same]
  exact fun name _ => dotted name

theorem forall₂_alike_refl (listed : List Path) : List.Forall₂ Alike listed listed :=
  List.forall₂_same.mpr fun path _ => .same path

/-- Queries with the same key have candidates that are written alike, if they have any. -/
theorem candidatesOf_alike (key : q.key = q'.key) (made : candidatesOf search q = .ok listed) :
    ∃ listed', candidatesOf search q' = .ok listed' ∧ List.Forall₂ Alike listed listed' := by
  obtain ⟨modulePath, sources, level⟩ := q
  obtain ⟨modulePath', sources', level'⟩ := q'
  simp only [Query.key, Prod.mk.injEq] at key
  obtain ⟨rfl, components, rfl⟩ := key
  unfold candidatesOf at made ⊢
  by_cases absolute : level = 0
  · simp only [if_pos absolute] at made ⊢
    exact ⟨listed, made, forall₂_alike_refl listed⟩
  · simp only [if_neg absolute] at made ⊢
    cases sources with
    | none => cases made
    | some source =>
      obtain ⟨source', rfl, same⟩ := Option.map_eq_some_iff.mp components.symm
      cases made
      exact ⟨_, rfl, candidates_alike (joinModule_alike (relativeBase_alike same.symm level) modulePath) _⟩

/-! ## Answers -/

/-- A look at a path that is written alike says the same, unless the path is too long. -/
theorem probe_alike (alike : p.Alike r) (clear : ∀ cause, probe fs p ≠ .failed cause) :
    probe fs r = probe fs p ∨ probe fs r = .failed .nameTooLong ∧ FileSystem.pathLimit < r.text.utf8ByteSize := by
  rcases fs.stat_of_alike alike with same | nul | long | ⟨long, size⟩
  · exact .inl (by rw [probe, probe, same])
  · exact absurd (by rw [probe, nul]) (clear .nulInPath)
  · exact absurd (by rw [probe, long]) (clear .nameTooLong)
  · exact .inr ⟨by rw [probe, long], size⟩

theorem firstFile_alike {found : Option Path} (alike : List.Forall₂ Alike listed listed')
    (first : firstFile fs listed = .ok found) :
    (∃ found', firstFile fs listed' = .ok found' ∧ Option.Rel Alike found found') ∨
      ∃ path, firstFile fs listed' = .error (.unexaminable path .nameTooLong) ∧
        FileSystem.pathLimit < path.text.utf8ByteSize := by
  induction alike with
  | nil =>
    cases first
    exact .inl ⟨none, rfl, .none⟩
  | @cons p r rest rest' alike later ih =>
    rw [firstFile] at first ⊢
    have clear (cause : FileError) : probe fs p ≠ .failed cause := by
      intro failed
      rw [failed] at first
      cases first
    rcases probe_alike alike clear with same | ⟨long, size⟩
    · rw [same]
      cases look : probe fs p with
      | file =>
        rw [look] at first
        cases first
        exact .inl ⟨some r, rfl, .some alike⟩
      | nothing =>
        rw [look] at first
        exact ih first
      | failed cause => exact absurd look (clear cause)
    · rw [long]
      exact .inr ⟨r, rfl, size⟩

theorem isExternal_of_key_eq (key : q.key = q'.key) : q.isExternal = q'.isExternal := by
  simp only [Query.key, Prod.mk.injEq] at key
  rw [Query.isExternal, Query.isExternal, Query.specifier, Query.specifier, key.1, key.2.2]

/-- In one file system an answer to a query is an answer to every query with the same key, unless a candidate of this
    one is too long. -/
theorem resolve_of_key_eq {found : Resolution} (key : q.key = q'.key) (given : resolve fs search q = .ok found) :
    Same (.ok found) (resolve fs search q') ∨
      ∃ path, resolve fs search q' = .error (.unexaminable path .nameTooLong) ∧
        FileSystem.pathLimit < path.text.utf8ByteSize := by
  cases made : candidatesOf search q with
  | error e =>
    rw [resolve_of_error made] at given
    cases given
  | ok listed =>
    obtain ⟨listed', made', alike⟩ := candidatesOf_alike key made
    rw [resolve_of_candidatesOf made] at given
    rw [resolve_of_candidatesOf made']
    cases first : firstFile fs listed with
    | error e =>
      rw [first] at given
      cases given
    | ok decisive =>
      rw [first] at given
      cases given
      rcases firstFile_alike alike first with ⟨other, first', like | _⟩ | ⟨path, failed, long⟩
      · rw [first']
        exact .inl (.resolved like.components_eq)
      · have kind : conclude q none = conclude q' none := by rw [conclude, conclude, isExternal_of_key_eq key]
        rw [first', kind]
        exact .inl (.refl _)
      · rw [failed]
        exact .inr ⟨path, rfl, long⟩

end Resolution
end ModuleGraph
