import ModuleGraph.Path
import ModuleGraph.Proofs.Path.Names

/-!
Steps up. The pieces of the path one step up are the first pieces of the path (`pieces_parent?`), so
where the path can be looked up, so can every path above it.
-/
namespace ModuleGraph.Path
open Text

variable {p q : Path} {first : List Char} {rest : List (List Char)}

theorem withoutLast_isPrefix (pieces : List (List Char)) : withoutLast pieces <+: pieces := by
  have solid : dropEndWhile isIdle pieces <+: pieces := dropEndWhile_isPrefix _ _
  have dropped : (dropEndWhile isIdle pieces).dropLast <+: dropEndWhile isIdle pieces := List.dropLast_prefix _
  exact (dropEndWhile_isPrefix _ _).trans (dropped.trans solid)

theorem ne_nil_of_relative (relative : p.isAbsolute = false) (cut : p.pieces = first :: rest)
    (more : rest ≠ []) : first ≠ [] := by
  unfold Path.pieces piecesAt at cut
  unfold isAbsolute at relative
  cases shape : p.text.toList with
  | nil =>
    rw [shape] at cut
    cases cut
    exact absurd rfl more
  | cons c cs =>
    have solid : (c == '/') = false := by simpa [shape] using relative
    rw [shape, Text.pieces, solid] at cut
    rintro rfl
    cases later : Text.pieces (· == '/') cs <;> simp [later, consFirst] at cut

private theorem pieces_slash (cs : List Char) :
    Path.pieces ⟨String.ofList ('/' :: cs)⟩ = [] :: piecesAt '/' cs := by
  rw [Path.pieces, String.toList_ofList]
  exact piecesAt_append '/' [] cs

/-- The root is written with a piece more than it has. -/
private theorem pieces_parent_of_absolute (absolute : p.isAbsolute = true) (above : p.parent? = some q) :
    q.isAbsolute = true ∧ ∃ front, front <+: p.pieces ∧ (q.pieces = front ∨ q.pieces = [] :: front) := by
  obtain ⟨rest, cut⟩ := pieces_of_isAbsolute absolute
  have clean : ∀ piece ∈ p.pieces, '/' ∉ piece := fun piece => not_mem_of_mem_piecesAt
  have start := withoutLast_isPrefix rest
  rw [cut] at clean ⊢
  rw [parent?, cut] at above
  simp only [absolute, if_true] at above
  split at above
  · cases above
  cases above
  refine ⟨by simp [isAbsolute], ?_⟩
  rw [pieces_slash]
  by_cases none : withoutLast rest = []
  · exact ⟨[[]], by simp, .inr (by simp [none, joinWith]; rfl)⟩
  · refine ⟨[] :: withoutLast rest, by simpa using start, .inl ?_⟩
    rw [piecesAt_joinWith none fun piece member => clean piece (by simp [start.subset member])]

private theorem pieces_parent_of_relative (relative : p.isAbsolute = false) (above : p.parent? = some q)
    (named : q.text ≠ "") : q.isAbsolute = false ∧ q.pieces <+: p.pieces := by
  obtain ⟨first, rest, cut⟩ := List.exists_cons_of_ne_nil (piecesAt_ne_nil '/' p.text.toList)
  have cut : p.pieces = first :: rest := cut
  have clean : ∀ piece ∈ p.pieces, '/' ∉ piece := fun piece => not_mem_of_mem_piecesAt
  have start := withoutLast_isPrefix rest
  rw [cut] at clean ⊢
  rw [parent?, cut] at above
  simp only [relative, Bool.false_eq_true, if_false] at above
  split at above
  · rename_i more
    cases above
    have pieces : Path.pieces ⟨String.ofList (joinWith '/' (first :: withoutLast rest))⟩ =
        first :: withoutLast rest := by
      rw [Path.pieces, String.toList_ofList, piecesAt_joinWith (by simp)]
      intro piece member
      refine clean piece ?_
      rcases List.mem_cons.mp member with rfl | later
      · simp
      · simp [start.subset later]
    refine ⟨?_, by simpa [pieces] using start⟩
    rw [← Bool.not_eq_true]
    intro absolute
    obtain ⟨_, other⟩ := pieces_of_isAbsolute absolute
    rw [pieces] at other
    have some : rest ≠ [] := by
      rintro rfl
      exact more rfl
    exact ne_nil_of_relative relative cut some (List.cons.inj other).1
  · split at above
    · cases above
    · cases above
      exact absurd rfl named

/-- One step up are the first pieces of a path, but the root is written with a piece more. -/
theorem pieces_parent? (above : p.parent? = some q) (named : q.text ≠ "") :
    q.isAbsolute = p.isAbsolute ∧
      ∃ front, front <+: p.pieces ∧ (q.pieces = front ∨ q.pieces = [] :: front) := by
  by_cases absolute : p.isAbsolute = true
  · rw [absolute]
    exact pieces_parent_of_absolute absolute above
  · have relative : p.isAbsolute = false := by simpa using absolute
    obtain ⟨relative', start⟩ := pieces_parent_of_relative relative above named
    exact ⟨relative'.trans relative.symm, q.pieces, start, .inl rfl⟩

/-! ## Components -/

theorem filter_withoutLast (pieces : List (List Char)) :
    (withoutLast pieces).filter (!isIdle ·) = (pieces.filter (!isIdle ·)).dropLast := by
  rw [withoutLast, filter_dropEndWhile]
  induction pieces using List.reverseRecOn with
  | nil => rfl
  | append_singleton front piece ih =>
    cases last : isIdle piece with
    | true => simp [last, ih]
    | false => simp [last]

/-- What is left of pieces when the last step is cut off ends with the step before it. -/
theorem getLast?_withoutLast (pieces : List (List Char)) :
    (withoutLast pieces).getLast? = (pieces.filter (!isIdle ·)).dropLast.getLast? := by
  rw [withoutLast, getLast?_dropEndWhile]
  exact congrArg List.getLast? ((filter_dropEndWhile _ _).symm.trans (filter_withoutLast pieces))

theorem dropEndWhile_isIdle_eq_nil_iff (pieces : List (List Char)) :
    dropEndWhile isIdle pieces = [] ↔ laterComponents pieces = [] := by
  rw [laterComponents, List.map_eq_nil_iff, ← List.getLast?_eq_none_iff, getLast?_dropEndWhile,
    List.getLast?_eq_none_iff]

theorem laterComponents_withoutLast (pieces : List (List Char)) :
    laterComponents (withoutLast pieces) = (laterComponents pieces).dropLast := by
  rw [laterComponents, filter_withoutLast, List.map_dropLast]
  rfl

/-- A path of more than one piece is absolute if the first piece is empty. -/
theorem isAbsolute_iff (cut : p.pieces = first :: rest) (more : rest ≠ []) : p.isAbsolute = true ↔ first = [] := by
  constructor
  · intro absolute
    obtain ⟨others, shape⟩ := pieces_of_isAbsolute absolute
    rw [cut] at shape
    exact (List.cons.inj shape).1
  · intro none
    by_contra relative
    exact ne_nil_of_relative (by simpa using relative) cut more none

theorem clean_withoutLast (cut : p.pieces = first :: rest) : ∀ piece ∈ withoutLast rest, '/' ∉ piece := by
  intro piece member
  have inside : piece ∈ p.pieces := by
    rw [cut]
    exact List.mem_cons_of_mem _ ((withoutLast_isPrefix rest).subset member)
  exact not_mem_of_mem_piecesAt inside

/-- The path above an absolute path. -/
theorem pieces_above_absolute (cut : p.pieces = first :: rest) :
    Path.pieces ⟨String.ofList ('/' :: joinWith '/' (withoutLast rest))⟩ =
      [] :: if withoutLast rest = [] then [[]] else withoutLast rest := by
  rw [pieces_slash]
  split
  · rename_i none
    rw [none]
    rfl
  · rename_i some
    rw [piecesAt_joinWith some (clean_withoutLast cut)]

/-- The path above a relative path. -/
theorem pieces_above_relative (cut : p.pieces = first :: rest) :
    Path.pieces ⟨String.ofList (joinWith '/' (first :: withoutLast rest))⟩ = first :: withoutLast rest := by
  rw [Path.pieces, String.toList_ofList, piecesAt_joinWith (List.cons_ne_nil _ _)]
  intro piece member
  rcases List.mem_cons.mp member with rfl | later
  · exact not_mem_of_mem_piecesAt (show piece ∈ p.pieces by rw [cut]; exact List.mem_cons_self)
  · exact clean_withoutLast cut piece later

private theorem components_above_absolute (cut : p.pieces = first :: rest) :
    Path.components ⟨String.ofList ('/' :: joinWith '/' (withoutLast rest))⟩ =
      .root :: (laterComponents rest).dropLast := by
  have absolute : Path.isAbsolute ⟨String.ofList ('/' :: joinWith '/' (withoutLast rest))⟩ = true := by
    simp [isAbsolute]
  rw [components_eq (pieces_above_absolute cut), absolute, ← laterComponents_withoutLast]
  refine congrArg (Component.root :: ·) ?_
  split
  · rename_i none
    rw [none]
    rfl
  · rfl

private theorem components_above_relative (cut : p.pieces = first :: rest) (relative : p.isAbsolute = false)
    (more : rest ≠ []) : Path.components ⟨String.ofList (joinWith '/' (first :: withoutLast rest))⟩ =
      firstComponents false first ++ (laterComponents rest).dropLast := by
  have shape := pieces_above_relative cut
  have relative' : Path.isAbsolute ⟨String.ofList (joinWith '/' (first :: withoutLast rest))⟩ = false := by
    rw [← Bool.not_eq_true]
    intro absolute
    obtain ⟨others, start⟩ := pieces_of_isAbsolute absolute
    rw [shape] at start
    exact ne_nil_of_relative relative cut more (List.cons.inj start).1
  rw [components_eq shape, relative', laterComponents_withoutLast]

/-- One step up is the path without its last component. -/
theorem components_parent? (above : p.parent? = some q) : q.components = p.components.dropLast := by
  obtain ⟨first, rest, cut⟩ := List.exists_cons_of_ne_nil (piecesAt_ne_nil '/' p.text.toList)
  have cut : p.pieces = first :: rest := cut
  rw [components_eq cut]
  rw [parent?, cut] at above
  simp only [ne_eq, dropEndWhile_isIdle_eq_nil_iff] at above
  split at above
  · rename_i absolute
    split at above
    · cases above
    · rename_i some
      cases above
      rw [components_above_absolute cut, absolute, List.dropLast_append_of_ne_nil some]
      rfl
  · rename_i notAbsolute
    have relative : p.isAbsolute = false := by simpa using notAbsolute
    rw [relative]
    split at above
    · rename_i some
      cases above
      have more : rest ≠ [] := by
        rintro rfl
        exact some rfl
      rw [components_above_relative cut relative more, List.dropLast_append_of_ne_nil some]
    · rename_i none
      split at above
      · cases above
      · rename_i filled
        cases above
        rw [not_not.mp none, List.append_nil]
        by_cases here : first = ['.'] <;> simp [firstComponents, filled, here] <;> rfl

/-- Only the root and the empty path have nothing above them. -/
theorem parent?_eq_none_iff : p.parent? = none ↔ p.components = [] ∨ p.components = [.root] := by
  obtain ⟨first, rest, cut⟩ := List.exists_cons_of_ne_nil (piecesAt_ne_nil '/' p.text.toList)
  have cut : p.pieces = first :: rest := cut
  rw [components_eq cut, parent?, cut]
  simp only [ne_eq, dropEndWhile_isIdle_eq_nil_iff]
  by_cases absolute : p.isAbsolute = true
  · simp [absolute, firstComponents]
  · have relative : p.isAbsolute = false := by simpa using absolute
    by_cases blank : first = []
    · -- A relative path that starts with an empty piece has no other.
      have single : rest = [] := by
        by_contra more
        exact ne_nil_of_relative relative cut more blank
      simp [relative, blank, single, firstComponents, laterComponents]
    · have root : Component.ofPiece first ≠ .root := by
        intro same
        have part := idPart?_ofPiece first
        rw [same] at part
        cases part
      by_cases here : first = ['.'] <;> simp [relative, blank, here, root, firstComponents] <;> split <;> simp

end ModuleGraph.Path
