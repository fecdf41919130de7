import ModuleGraph.Text.Blank

/-!
The lines of a text. A text is written in exactly one way as lines with their endings (`lined_iff`), so
the lines of a text that is cut behind a line feed are those of its two parts (`lines_append`).
-/
namespace ModuleGraph.Text
variable {line front back cs : List Char} {ls : List (List Char)}

/-- How a text is made of lines: each ends at a line feed, or at a carriage return and a line feed, but the
    last one may have no ending. -/
inductive Lined : List Char → List (List Char) → Prop
  | nil : Lined [] []
  | last {line : List Char} (some : line ≠ []) (inner : '\n' ∉ line) : Lined line [line]
  | feed {line rest : List Char} {ls : List (List Char)} (inner : '\n' ∉ line)
      (plain : line.getLast? ≠ some '\r') (more : Lined rest ls) : Lined (line ++ '\n' :: rest) (line :: ls)
  | returnFeed {line rest : List Char} {ls : List (List Char)} (inner : '\n' ∉ line) (more : Lined rest ls) :
      Lined (line ++ '\r' :: '\n' :: rest) (line :: ls)

/-! ## Reading lines -/

private theorem endedLine_return (line : List Char) : endedLine (line ++ ['\r']).reverse = line := by
  simp [endedLine]

private theorem endedLine_plain (plain : line.getLast? ≠ some '\r') : endedLine line.reverse = line := by
  unfold endedLine
  split
  · rename_i before ending
    rw [List.getLast?_eq_head?_reverse, ending] at plain
    exact absurd rfl plain
  · exact List.reverse_reverse line

private theorem linesAfter_append (inner : '\n' ∉ front) (line back : List Char) :
    linesAfter line (front ++ back) = linesAfter (front.reverse ++ line) back := by
  induction front generalizing line with
  | nil => rfl
  | cons c rest ih =>
    rw [List.mem_cons, not_or] at inner
    rw [List.cons_append, linesAfter, if_neg (Ne.symm inner.1), ih inner.2, List.reverse_cons,
      List.append_assoc]
    rfl

private theorem lines_feed (inner : '\n' ∉ line) (rest : List Char) :
    lines (line ++ '\n' :: rest) = endedLine line.reverse :: lines rest := by
  rw [lines, linesAfter_append inner, linesAfter, if_pos rfl, List.append_nil]
  rfl

private theorem lines_last (inner : '\n' ∉ line) (some : line ≠ []) : lines line = [line] := by
  have whole := linesAfter_append inner [] []
  rw [List.append_nil, List.append_nil, linesAfter, if_neg (by simpa using some)] at whole
  rw [lines, whole, List.reverse_reverse]

theorem Lined.eq_lines (lined : Lined cs ls) : ls = lines cs := by
  induction lined with
  | nil => rfl
  | last some inner => exact (lines_last inner some).symm
  | feed inner plain _ ih => rw [lines_feed inner, endedLine_plain plain, ih]
  | @returnFeed line rest ls inner _ ih =>
    have feedless : '\n' ∉ line ++ ['\r'] := by simpa using inner
    have read := lines_feed feedless rest
    rw [endedLine_return, List.append_assoc] at read
    rw [ih]
    exact read.symm

theorem exists_lined (cs : List Char) : ∃ ls, Lined cs ls := by
  induction size : cs.length using Nat.strongRecOn generalizing cs with
  | ind _ ih =>
    subst size
    by_cases feeds : '\n' ∈ cs
    · -- The first line feed ends the first line.
      obtain ⟨line, rest, rfl, inner⟩ := List.eq_append_cons_of_mem feeds
      obtain ⟨ls, more⟩ := ih rest.length (by simp; omega) rest rfl
      by_cases plain : line.getLast? = some '\r'
      · obtain ⟨before, rfl⟩ := List.getLast?_eq_some_iff.mp plain
        refine ⟨before :: ls, ?_⟩
        simpa using Lined.returnFeed (fun inside => inner (List.mem_append_left _ inside)) more
      · exact ⟨line :: ls, .feed inner plain more⟩
    · cases cs with
      | nil => exact ⟨[], .nil⟩
      | cons c rest => exact ⟨[c :: rest], .last (List.cons_ne_nil c rest) feeds⟩

theorem lined_lines (cs : List Char) : Lined cs (lines cs) := by
  obtain ⟨ls, lined⟩ := exists_lined cs
  exact lined.eq_lines ▸ lined

/-- The lines of a text are the only ones of which it is made. -/
theorem lined_iff : Lined cs ls ↔ ls = lines cs :=
  ⟨Lined.eq_lines, fun same => same ▸ lined_lines cs⟩

/-! ## Counting lines -/

private theorem length_linesAfter_concat (line cs : List Char) (c : Char) :
    (linesAfter line (cs ++ [c])).length = 1 + cs.count '\n' := by
  induction cs generalizing line with
  | nil =>
    rw [List.nil_append, linesAfter]
    split <;> simp [linesAfter]
  | cons first rest ih =>
    rw [List.cons_append, linesAfter]
    split
    · rename_i feed
      rw [List.length_cons, ih, feed, List.count_cons_self]
      omega
    · rename_i other
      rw [ih, List.count_cons_of_ne other]

/-- Every character stands on a line of the text. -/
theorem count_lt_length_lines (front rest : List Char) (c : Char) :
    front.count '\n' < (lines (front ++ c :: rest)).length := by
  obtain ⟨more, last, ended⟩ : ∃ more last, c :: rest = more ++ [last] :=
    ⟨_, _, (List.dropLast_concat_getLast (List.cons_ne_nil c rest)).symm⟩
  have whole := length_linesAfter_concat [] (front ++ more) last
  rw [List.append_assoc, ← ended, List.count_append] at whole
  rw [lines, whole]
  omega

/-! ## Cutting a text behind a line -/

theorem Lined.append {more : List (List Char)} (lined : Lined front ls)
    (ends : front = [] ∨ front.getLast? = some '\n') (behind : Lined back more) :
    Lined (front ++ back) (ls ++ more) := by
  have cut {rest : List Char} (ends : ('\n' :: rest).getLast? = some '\n') :
      rest = [] ∨ rest.getLast? = some '\n' := by
    cases rest with
    | nil => exact .inl rfl
    | cons c rest => exact .inr (by simpa using ends)
  induction lined with
  | nil => exact behind
  | last some inner =>
    rcases ends with empty | ends
    · exact absurd empty some
    · exact absurd (List.mem_of_getLast? ends) inner
  | @feed line rest ls inner plain _ ih =>
    have later : ('\n' :: rest).getLast? = some '\n' := by simpa using ends
    simpa using Lined.feed inner plain (ih (cut later))
  | @returnFeed line rest ls inner _ ih =>
    have later : ('\n' :: rest).getLast? = some '\n' := by simpa using ends
    simpa using Lined.returnFeed inner (ih (cut later))

theorem lines_append (ends : front = [] ∨ front.getLast? = some '\n') (back : List Char) :
    lines (front ++ back) = lines front ++ lines back :=
  ((lined_lines front).append ends (lined_lines back)).eq_lines.symm

end ModuleGraph.Text
