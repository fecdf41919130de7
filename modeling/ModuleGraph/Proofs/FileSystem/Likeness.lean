import ModuleGraph.Proofs.FileSystem.Lookup
import ModuleGraph.Proofs.Path.Likeness

/-!
What stands at paths that are written alike. A look-up passes over the pieces between the first and the last that count
for nothing (`walk_filter`), so such paths lead to the same, unless one of them cannot be looked up
(`stat_of_alike`).
-/
namespace ModuleGraph.FileSystem
open ModuleGraph.Path Text

variable {fs : FileSystem} {follow : Bool} {rest : List (List Char)} {p q : Path}

/-- Pieces that count for nothing can be left out in front of others. -/
theorem walk_filter (links : Nat) (loc : Location) (pieces : List (List Char)) (more : rest ≠ []) :
    fs.walk follow links loc (pieces ++ rest) =
      fs.walk follow links loc (pieces.filter (!isIdle ·) ++ rest) := by
  match pieces with
  | [] => rfl
  | piece :: others =>
    by_cases idle : isIdle piece = true
    · rw [List.cons_append, walk_idle idle, List.filter_cons_of_neg (by simp [idle])]
      exact walk_filter links loc others more
    have solid : isIdle piece = false := by simpa using idle
    rw [List.filter_cons_of_pos (by simp [solid]), List.cons_append, List.cons_append]
    by_cases up : piece = ['.', '.']
    · rw [up, walk_up, walk_up]
      exact walk_filter links loc.tail others more
    by_cases long : nameLimit < (String.ofList piece).utf8ByteSize
    · rw [walk_long solid up long, walk_long solid up long]
    have named : IsEntryName piece := ⟨solid, up, Nat.not_lt.mp long⟩
    have last : others ++ rest ≠ [] := List.append_ne_nil_of_right_ne_nil _ more
    have last' : others.filter (!isIdle ·) ++ rest ≠ [] := List.append_ne_nil_of_right_ne_nil _ more
    rw [walk_entry named, walk_entry named]
    cases fs.entry? (String.ofList piece :: loc) with
    | none => simp only [if_neg last, if_neg last']
    | some there =>
      cases there with
      | directory => exact walk_filter links (String.ofList piece :: loc) others more
      | file bytes => simp only [if_neg last, if_neg last']
      | link target =>
        simp only [last, last', false_and, if_false]
        cases links with
        | zero => rfl
        | succ links =>
          -- The pieces of the target come in front, with or without those that count for nothing.
          have front := walk_filter links (linkStart loc ⟨target⟩) (Path.pieces ⟨target⟩ ++ others) more
          have front' := walk_filter links (linkStart loc ⟨target⟩)
            (Path.pieces ⟨target⟩ ++ others.filter (!isIdle ·)) more
          rw [List.append_assoc, List.filter_append] at front front'
          rw [List.filter_filter] at front'
          simp only [Bool.and_self] at front'
          exact front.trans front'.symm
termination_by (links, pieces.length)

/-- A character that is not part of a piece that counts for nothing is part of a step. -/
private theorem mem_text_iff {c : Char} (noSlash : c ≠ '/') (noDot : c ≠ '.') :
    c ∈ p.text.toList ↔ ∃ step ∈ p.pieces.filter (!isIdle ·), c ∈ step := by
  constructor
  · intro member
    rw [← joinWith_piecesAt '/' p.text.toList] at member
    rcases mem_of_mem_joinWith member with slash | ⟨piece, cut, inside⟩
    · exact absurd slash noSlash
    · refine ⟨piece, List.mem_filter.mpr ⟨cut, ?_⟩, inside⟩
      rw [Bool.not_eq_true', isIdle, Bool.or_eq_false_iff, beq_eq_false_iff_ne, beq_eq_false_iff_ne]
      refine ⟨List.ne_nil_of_mem inside, ?_⟩
      rintro rfl
      exact noDot (List.mem_singleton.mp inside)
  · rintro ⟨step, kept, inside⟩
    exact subset_of_mem_pieces (List.mem_filter.mp kept).1 inside

private theorem nul_of_alike (alike : p.Alike q) : '\x00' ∈ p.text.toList ↔ '\x00' ∈ q.text.toList := by
  have steps : p.pieces.filter (!isIdle ·) = q.pieces.filter (!isIdle ·) := by
    cases alike with
    | same => rfl
    | between cut cut' steps => rw [cut, cut', List.filter_cons, List.filter_cons, List.filter_append,
        List.filter_append, steps]
  rw [mem_text_iff (by decide) (by decide), steps, ← mem_text_iff (by decide) (by decide)]

/-- A path that is too long leads nowhere. -/
theorem stat_of_long (noNul : '\x00' ∉ p.text.toList) (long : pathLimit < p.text.utf8ByteSize) :
    fs.stat p = .error .nameTooLong := by
  have filled : p.text ≠ "" := by
    intro none
    rw [none] at long
    exact absurd long (by decide)
  rw [stat, locate, if_neg noNul, if_neg filled, if_pos long]

private theorem stat_of_fits (alike : p.Alike q) (fits : p.text.utf8ByteSize ≤ pathLimit)
    (fits' : q.text.utf8ByteSize ≤ pathLimit) : fs.stat p = fs.stat q := by
  have located : fs.locate true p = fs.locate true q := by
    have nul := nul_of_alike alike
    have absolute := alike.isAbsolute_eq
    cases alike with
    | same => rfl
    | @between q first last middle middle' cut cut' steps =>
      have walked (loc : Location) : fs.walk true linkLimit loc p.pieces = fs.walk true linkLimit loc q.pieces := by
        rw [cut, cut', ← List.cons_append, ← List.cons_append,
          walk_filter linkLimit loc (first :: middle) (List.cons_ne_nil last []),
          walk_filter linkLimit loc (first :: middle') (List.cons_ne_nil last []), List.filter_cons,
          List.filter_cons, steps]
      have filled : p.text ≠ "" := ne_empty_of_pieces cut (by simp)
      have filled' : q.text ≠ "" := ne_empty_of_pieces cut' (by simp)
      rw [locate, locate, if_neg filled, if_neg filled', if_neg (Nat.not_lt.mpr fits), if_neg (Nat.not_lt.mpr fits'),
        walked, absolute]
      exact if_congr nul rfl rfl
  rw [stat, stat, located]

/-- Paths that are written alike lead to the same, unless one of them cannot be looked up. -/
theorem stat_of_alike (fs : FileSystem) (alike : p.Alike q) :
    fs.stat p = fs.stat q ∨ fs.stat p = .error .nulInPath ∨ fs.stat p = .error .nameTooLong ∨
      fs.stat q = .error .nameTooLong ∧ pathLimit < q.text.utf8ByteSize := by
  by_cases nul : '\x00' ∈ p.text.toList
  · exact .inr (.inl (by rw [stat, locate, if_pos nul]))
  by_cases long' : pathLimit < q.text.utf8ByteSize
  · exact .inr (.inr (.inr ⟨stat_of_long (mt (nul_of_alike alike).mpr nul) long', long'⟩))
  by_cases long : pathLimit < p.text.utf8ByteSize
  · exact .inr (.inr (.inl (stat_of_long nul long)))
  · exact .inl (stat_of_fits alike (Nat.not_lt.mp long) (Nat.not_lt.mp long'))

end ModuleGraph.FileSystem
