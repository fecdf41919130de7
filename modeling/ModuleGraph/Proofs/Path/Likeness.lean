import ModuleGraph.Proofs.Path.Parent

/-!
Paths that are written alike: they start and end with the same pieces and differ between these at most in pieces that
count for nothing. Such paths have the same components (`Alike.components_eq`) and stay alike when a text is appended
(`Alike.append`) or a path joined (`Alike.join`). The directories of paths with the same components are alike
(`alike_parent`).
-/
namespace ModuleGraph
open Text

/-- Appending a text extends the last piece by the first piece of the text. -/
theorem Text.piecesAt_append_text {separator : Char} {cs ds last first : List Char} {front rest : List (List Char)}
    (ends : piecesAt separator cs = front ++ [last]) (begins : piecesAt separator ds = first :: rest) :
    piecesAt separator (cs ++ ds) = front ++ (last ++ first) :: rest := by
  induction cs generalizing front last with
  | nil =>
    have single : front = [] ∧ last = [] := by
      cases front <;> simp_all [piecesAt, pieces]
    obtain ⟨rfl, rfl⟩ := single
    exact begins
  | cons c cs ih =>
    obtain ⟨piece, others, some⟩ := List.exists_cons_of_ne_nil (piecesAt_ne_nil separator cs)
    have step (cs : List Char) : piecesAt separator (c :: cs) =
        if c == separator then [] :: piecesAt separator cs else consFirst c (piecesAt separator cs) := rfl
    rw [step] at ends
    rw [List.cons_append, step]
    split at ends
    · rename_i cuts
      rw [if_pos cuts]
      cases front with
      | nil => simp [some] at ends
      | cons head front =>
        obtain ⟨rfl, later⟩ := List.cons.inj ends
        rw [ih later]
        rfl
    · rename_i stays
      rw [if_neg stays]
      rw [some] at ends
      cases front with
      | nil =>
        obtain ⟨rfl, rfl⟩ := List.cons.inj ends
        have alone : piecesAt separator cs = [] ++ [piece] := some
        rw [ih alone]
        rfl
      | cons head front =>
        obtain ⟨rfl, rfl⟩ := List.cons.inj ends
        have whole : piecesAt separator cs = (piece :: front) ++ [last] := some
        rw [ih whole]
        rfl

namespace Path

/-- Two paths are written alike. -/
inductive Alike : Path → Path → Prop
  | same (p : Path) : Alike p p
  | between {p q : Path} {first last : List Char} {middle middle' : List (List Char)}
      (cut : p.pieces = first :: (middle ++ [last])) (cut' : q.pieces = first :: (middle' ++ [last]))
      (steps : middle.filter (!isIdle ·) = middle'.filter (!isIdle ·)) : Alike p q

variable {p q : Path} {first : List Char} {rest rest' : List (List Char)}

theorem isAbsolute_of_pieces (cut : p.pieces = first :: rest) (more : rest ≠ []) :
    p.isAbsolute = decide (first = []) := by
  rw [Bool.eq_iff_iff, decide_eq_true_iff]
  exact isAbsolute_iff cut more

theorem Alike.isAbsolute_eq (alike : p.Alike q) : p.isAbsolute = q.isAbsolute := by
  cases alike with
  | same => rfl
  | between cut cut' steps => rw [isAbsolute_of_pieces cut (by simp), isAbsolute_of_pieces cut' (by simp)]

theorem laterComponents_congr {pieces pieces' : List (List Char)}
    (steps : pieces.filter (!isIdle ·) = pieces'.filter (!isIdle ·)) :
    laterComponents pieces = laterComponents pieces' := congrArg (List.map Component.ofPiece) steps

theorem Alike.components_eq (alike : p.Alike q) : p.components = q.components := by
  have absolute := alike.isAbsolute_eq
  cases alike with
  | same => rfl
  | between cut cut' steps =>
    rw [Path.components_eq cut, Path.components_eq cut', absolute, laterComponents_append, laterComponents_append,
      laterComponents_congr steps]

/-! ## Appending and joining -/

theorem ne_empty_of_pieces (cut : p.pieces = first :: rest) (more : rest ≠ []) : p.text ≠ "" := by
  intro none
  rw [Path.pieces, none] at cut
  exact more (List.cons.inj cut).2.symm

theorem Alike.append (alike : p.Alike q) (text : String) : Alike ⟨p.text ++ text⟩ ⟨q.text ++ text⟩ := by
  cases alike with
  | same => exact .same _
  | @between _ first last middle middle' cut cut' steps =>
    obtain ⟨piece, others, begins⟩ := List.exists_cons_of_ne_nil (piecesAt_ne_nil '/' text.toList)
    have pieces {r : Path} {middle : List (List Char)} (cut : r.pieces = first :: (middle ++ [last])) :
        Path.pieces ⟨r.text ++ text⟩ = first :: (middle ++ (last ++ piece) :: others) := by
      have ends : piecesAt '/' r.text.toList = (first :: middle) ++ [last] := cut
      have whole := piecesAt_append_text ends begins
      rwa [← String.toList_append] at whole
    obtain rfl | ⟨front, final, rfl⟩ := List.eq_nil_or_concat' others
    · exact .between (pieces cut) (pieces cut') steps
    · have longer : Path.pieces ⟨p.text ++ text⟩ = first :: (middle ++ (last ++ piece) :: front ++ [final]) := by
        rw [pieces cut]
        simp
      have longer' : Path.pieces ⟨q.text ++ text⟩ = first :: (middle' ++ (last ++ piece) :: front ++ [final]) := by
        rw [pieces cut']
        simp
      refine .between longer longer' ?_
      rw [List.filter_append, List.filter_append, steps]

/-- A path of more than one piece ends with a slash if the last piece is empty. -/
theorem getLast?_of_pieces {last : List Char} {middle : List (List Char)}
    (cut : p.pieces = first :: (middle ++ [last])) : p.text.toList.getLast? = some '/' ↔ last = [] := by
  have text : p.text.toList = joinWith '/' (first :: middle) ++ '/' :: last := by
    rw [← joinWith_piecesAt '/' p.text.toList]
    exact (congrArg (joinWith '/') cut).trans (joinWith_concat '/' (List.cons_ne_nil first middle) last)
  have clean : '/' ∉ last := not_mem_of_mem_piecesAt (show last ∈ p.pieces by simp [cut])
  rw [text, List.getLast?_append_of_ne_nil _ (List.cons_ne_nil _ _)]
  constructor
  · intro slash
    by_contra filled
    rw [List.getLast?_cons_of_ne_nil filled] at slash
    exact clean (List.mem_of_getLast? slash)
  · rintro rfl
    rfl

theorem Alike.join (alike : p.Alike q) (tail : Path) : (p.join tail).Alike (q.join tail) := by
  cases alike with
  | same => exact .same _
  | between cut cut' steps =>
    have alike : p.Alike q := .between cut cut' steps
    have slash : (p.text.toList.getLast? == some '/') = (q.text.toList.getLast? == some '/') := by
      rw [Bool.eq_iff_iff, beq_iff_eq, beq_iff_eq, getLast?_of_pieces cut, getLast?_of_pieces cut']
    unfold Path.join
    rw [slash, decide_eq_false (ne_empty_of_pieces cut (by simp)),
      decide_eq_false (ne_empty_of_pieces cut' (by simp))]
    split
    · exact .same _
    split
    · exact alike.append tail.text
    · simpa only [String.append_assoc] using alike.append ("/" ++ tail.text)

/-! ## Steps up -/

/-- What is left of the same steps without the last one is the same or ends with the same step. -/
private theorem withoutLast_alike (steps : rest.filter (!isIdle ·) = rest'.filter (!isIdle ·)) :
    withoutLast rest = withoutLast rest' ∨ ∃ middle middle' last, withoutLast rest = middle ++ [last] ∧
      withoutLast rest' = middle' ++ [last] ∧ middle.filter (!isIdle ·) = middle'.filter (!isIdle ·) := by
  have filtered : (withoutLast rest).filter (!isIdle ·) = (withoutLast rest').filter (!isIdle ·) := by
    rw [filter_withoutLast, filter_withoutLast, steps]
  have ends : (withoutLast rest).getLast? = (withoutLast rest').getLast? := by
    rw [getLast?_withoutLast, getLast?_withoutLast, steps]
  obtain none | ⟨middle, last, shape⟩ := List.eq_nil_or_concat' (withoutLast rest)
  · rw [none, List.getLast?_nil, eq_comm, List.getLast?_eq_none_iff] at ends
    exact .inl (none.trans ends.symm)
  · rw [shape, List.getLast?_concat, eq_comm, List.getLast?_eq_some_iff] at ends
    obtain ⟨middle', shape'⟩ := ends
    rw [shape, shape', List.filter_append, List.filter_append, List.append_cancel_right_eq] at filtered
    exact .inr ⟨middle, middle', last, shape, shape', filtered⟩

private theorem laterComponents_injective (same : laterComponents rest = laterComponents rest') :
    rest.filter (!isIdle ·) = rest'.filter (!isIdle ·) := (List.map_inj_right ofPiece_injective).mp same

/-- The component that the first piece of a relative path stands for. -/
private def firstStep (piece : List Char) : Component := if piece = ['.'] then .here else .ofPiece piece

private theorem idPart?_firstStep (piece : List Char) :
    (firstStep piece).idPart? = if piece = ['.'] then none else some piece := by
  rw [firstStep]
  split
  · rfl
  · exact idPart?_ofPiece piece

private theorem firstStep_injective : Function.Injective firstStep := by
  intro piece other same
  have parts := congrArg Component.idPart? same
  rw [idPart?_firstStep, idPart?_firstStep] at parts
  split at parts <;> split at parts <;> simp_all

private theorem firstStep_ne_root (piece : List Char) : firstStep piece ≠ .root := by
  rw [firstStep]
  split
  · simp
  · rw [Component.ofPiece]
    split <;> simp

private theorem components_of_absolute (cut : p.pieces = first :: rest) (absolute : p.isAbsolute = true) :
    first = [] ∧ p.components = .root :: laterComponents rest := by
  obtain ⟨others, shape⟩ := pieces_of_isAbsolute absolute
  rw [cut] at shape
  refine ⟨(List.cons.inj shape).1, ?_⟩
  rw [components_eq cut, absolute]
  rfl

private theorem components_of_relative (cut : p.pieces = first :: rest) (relative : p.isAbsolute = false) :
    first = [] ∧ rest = [] ∧ p.components = [] ∨
      first ≠ [] ∧ p.components = firstStep first :: laterComponents rest := by
  rw [components_eq cut, relative, firstComponents]
  by_cases blank : first = []
  · have single : rest = [] := by
      by_contra more
      exact ne_nil_of_relative relative cut more blank
    exact .inl ⟨blank, single, by rw [blank, single]; rfl⟩
  · refine .inr ⟨blank, ?_⟩
    by_cases here : first = ['.'] <;> simp [blank, here, firstStep]

/-- The components of a path tell its first piece and the steps behind it. -/
theorem pieces_of_components_eq {first' : List Char} (cut : p.pieces = first :: rest)
    (cut' : q.pieces = first' :: rest') (same : p.components = q.components) :
    p.isAbsolute = q.isAbsolute ∧ first = first' ∧ rest.filter (!isIdle ·) = rest'.filter (!isIdle ·) := by
  cases absolute : p.isAbsolute <;> cases absolute' : q.isAbsolute
  · refine ⟨rfl, ?_⟩
    rcases components_of_relative cut absolute with ⟨rfl, rfl, none⟩ | ⟨-, some⟩ <;>
      rcases components_of_relative cut' absolute' with ⟨rfl, rfl, none'⟩ | ⟨-, some'⟩
    · exact ⟨rfl, rfl⟩
    · rw [none, some'] at same
      cases same
    · rw [some, none'] at same
      cases same
    · rw [some, some'] at same
      obtain ⟨head, tail⟩ := List.cons.inj same
      exact ⟨firstStep_injective head, laterComponents_injective tail⟩
  · rw [(components_of_absolute cut' absolute').2] at same
    rcases components_of_relative cut absolute with ⟨-, -, none⟩ | ⟨-, some⟩
    · rw [none] at same
      cases same
    · rw [some] at same
      exact absurd (List.cons.inj same).1 (firstStep_ne_root first)
  · rw [(components_of_absolute cut absolute).2] at same
    rcases components_of_relative cut' absolute' with ⟨-, -, none⟩ | ⟨-, some⟩
    · rw [none] at same
      cases same
    · rw [some] at same
      exact absurd (List.cons.inj same).1.symm (firstStep_ne_root first')
  · obtain ⟨rfl, some⟩ := components_of_absolute cut absolute
    obtain ⟨rfl, some'⟩ := components_of_absolute cut' absolute'
    rw [some, some'] at same
    exact ⟨rfl, rfl, laterComponents_injective (List.cons.inj same).2⟩

/-- The directories of paths with the same components are alike. -/
theorem alike_parent (same : p.components = q.components) :
    p.parent? = none ∧ q.parent? = none ∨
      ∃ above above', p.parent? = some above ∧ q.parent? = some above' ∧ above.Alike above' := by
  obtain ⟨first, rest, cut⟩ := List.exists_cons_of_ne_nil (piecesAt_ne_nil '/' p.text.toList)
  obtain ⟨first', rest', cut'⟩ := List.exists_cons_of_ne_nil (piecesAt_ne_nil '/' q.text.toList)
  have cut : p.pieces = first :: rest := cut
  have cut' : q.pieces = first' :: rest' := cut'
  obtain ⟨absolute, rfl, steps⟩ := pieces_of_components_eq cut cut' same
  unfold parent?
  rw [cut, cut', absolute]
  simp only [ne_eq, dropEndWhile_isIdle_eq_nil_iff, laterComponents_congr steps]
  split
  · split
    · exact .inl ⟨rfl, rfl⟩
    · refine .inr ⟨_, _, rfl, rfl, ?_⟩
      rcases withoutLast_alike steps with left | ⟨middle, middle', last, shape, shape', left⟩
      · rw [left]
        exact .same _
      · exact .between ((pieces_above_absolute cut).trans (by rw [if_neg (by simp [shape]), shape]))
          ((pieces_above_absolute cut').trans (by rw [if_neg (by simp [shape']), shape'])) left
  · split
    · refine .inr ⟨_, _, rfl, rfl, ?_⟩
      rcases withoutLast_alike steps with left | ⟨middle, middle', last, shape, shape', left⟩
      · rw [left]
        exact .same _
      · exact .between ((pieces_above_relative cut).trans (by rw [shape]))
          ((pieces_above_relative cut').trans (by rw [shape'])) left
    · split
      · exact .inl ⟨rfl, rfl⟩
      · exact .inr ⟨_, _, rfl, rfl, .same _⟩

end Path
end ModuleGraph
