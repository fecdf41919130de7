import Mathlib.Data.List.Induction
import ModuleGraph.Text.Split

/-!
Cutting and joining are inverse to each other: pieces without separators come back from the text that
joins them (`piecesAt_joinWith`), and a separator cuts a text in two (`pieces_append`).
-/
namespace ModuleGraph.Text
variable {α : Type} {isSeparator : α → Bool}

private theorem pieces_ne_nil (xs : List α) : pieces isSeparator xs ≠ [] := by
  cases xs with
  | nil => simp [pieces]
  | cons x rest =>
    rw [pieces]
    split
    · simp
    · cases pieces isSeparator rest <;> simp [consFirst]

private theorem consFirst_append {x : α} {front : List (List α)} (back : List (List α))
    (some : front ≠ []) : consFirst x (front ++ back) = consFirst x front ++ back := by
  cases front with
  | nil => exact absurd rfl some
  | cons piece rest => rfl

/-- A separator cuts the pieces before it from those behind it. -/
theorem pieces_append {separator : α} (front back : List α) (cuts : isSeparator separator = true) :
    pieces isSeparator (front ++ separator :: back) =
      pieces isSeparator front ++ pieces isSeparator back := by
  induction front with
  | nil => simp [pieces, cuts]
  | cons x rest ih =>
    rw [List.cons_append, pieces, pieces, ih]
    by_cases here : isSeparator x = true
    · rw [if_pos here, if_pos here, List.cons_append]
    · rw [if_neg here, if_neg here, consFirst_append _ (pieces_ne_nil rest)]

theorem pieces_of_forall_not {xs : List α} (none : ∀ x ∈ xs, isSeparator x = false) :
    pieces isSeparator xs = [xs] := by
  induction xs with
  | nil => rfl
  | cons x rest ih =>
    rw [pieces, if_neg (by simp [none x]), ih fun y inside => none y (by simp [inside])]
    rfl

theorem isSeparator_of_mem_pieces {xs piece : List α} (member : piece ∈ pieces isSeparator xs) :
    ∀ x ∈ piece, isSeparator x = false := by
  induction xs generalizing piece with
  | nil =>
    rw [List.mem_singleton.mp member]
    simp
  | cons y rest ih =>
    rw [pieces] at member
    by_cases here : isSeparator y = true
    · rw [if_pos here] at member
      rcases List.mem_cons.mp member with rfl | later
      · simp
      · exact ih later
    · rw [if_neg here] at member
      cases cut : pieces isSeparator rest with
      | nil => exact absurd cut (pieces_ne_nil rest)
      | cons first others =>
        rw [cut, consFirst] at member
        rcases List.mem_cons.mp member with rfl | later
        · intro x inside
          rcases List.mem_cons.mp inside with rfl | inside
          · simpa using here
          · exact ih (cut ▸ List.mem_cons_self) x inside
        · exact ih (cut ▸ List.mem_cons_of_mem _ later)

theorem subset_of_mem_pieces {xs piece : List α} (member : piece ∈ pieces isSeparator xs) : piece ⊆ xs := by
  induction xs generalizing piece with
  | nil =>
    rw [List.mem_singleton.mp member]
    exact List.nil_subset _
  | cons y rest ih =>
    rw [pieces] at member
    by_cases here : isSeparator y = true
    · rw [if_pos here] at member
      rcases List.mem_cons.mp member with rfl | later
      · exact List.nil_subset _
      · exact List.subset_cons_of_subset y (ih later)
    · rw [if_neg here] at member
      cases cut : pieces isSeparator rest with
      | nil => exact absurd cut (pieces_ne_nil rest)
      | cons first others =>
        rw [cut, consFirst] at member
        rcases List.mem_cons.mp member with rfl | later
        · exact List.cons_subset_cons y (ih (cut ▸ List.mem_cons_self))
        · exact List.subset_cons_of_subset y (ih (cut ▸ List.mem_cons_of_mem _ later))

theorem not_mem_of_mem_piecesAt {separator : Char} {cs piece : List Char}
    (member : piece ∈ piecesAt separator cs) : separator ∉ piece := fun inside => by
  have clean := isSeparator_of_mem_pieces member separator inside
  simp at clean

theorem piecesAt_ne_nil (separator : Char) (cs : List Char) : piecesAt separator cs ≠ [] :=
  pieces_ne_nil cs

theorem piecesAt_append (separator : Char) (front back : List Char) :
    piecesAt separator (front ++ separator :: back) = piecesAt separator front ++ piecesAt separator back :=
  pieces_append front back (by simp)

theorem piecesAt_of_not_mem {separator : Char} {cs : List Char} (clean : separator ∉ cs) :
    piecesAt separator cs = [cs] := by
  refine pieces_of_forall_not fun c inside => ?_
  simpa using fun equal : c = separator => clean (equal ▸ inside)

theorem joinWith_cons_cons (separator : Char) (first second : List Char) (rest : List (List Char)) :
    joinWith separator (first :: second :: rest) =
      first ++ separator :: joinWith separator (second :: rest) := rfl

/-- Pieces without separators come back from the text that joins them. -/
theorem piecesAt_joinWith {separator : Char} {parts : List (List Char)} (some : parts ≠ [])
    (clean : ∀ part ∈ parts, separator ∉ part) :
    piecesAt separator (joinWith separator parts) = parts := by
  induction parts with
  | nil => exact absurd rfl some
  | cons first rest ih =>
    cases rest with
    | nil => exact piecesAt_of_not_mem (clean first (by simp))
    | cons second others =>
      rw [joinWith_cons_cons, piecesAt_append, piecesAt_of_not_mem (clean first (by simp)),
        ih (by simp) fun part inside => clean part (by simp [inside])]
      rfl

private theorem joinWith_consFirst (separator c : Char) {parts : List (List Char)} (some : parts ≠ []) :
    joinWith separator (consFirst c parts) = c :: joinWith separator parts := by
  obtain ⟨first, rest, rfl⟩ := List.exists_cons_of_ne_nil some
  cases rest <;> rfl

/-- A text comes back from its pieces. -/
theorem joinWith_piecesAt (separator : Char) (cs : List Char) : joinWith separator (piecesAt separator cs) = cs := by
  induction cs with
  | nil => rfl
  | cons c rest ih =>
    have step : piecesAt separator (c :: rest) =
        if c == separator then [] :: piecesAt separator rest else consFirst c (piecesAt separator rest) := rfl
    have some := piecesAt_ne_nil separator rest
    rw [step]
    split
    · rename_i cuts
      obtain ⟨first, others, shape⟩ := List.exists_cons_of_ne_nil some
      rw [shape, joinWith_cons_cons, ← shape, ih, eq_of_beq cuts]
      rfl
    · rw [joinWith_consFirst separator c some, ih]

theorem joinWith_injective {separator : Char} {parts others : List (List Char)}
    (some : parts ≠ []) (clean : ∀ part ∈ parts, separator ∉ part) (some' : others ≠ [])
    (clean' : ∀ part ∈ others, separator ∉ part)
    (same : joinWith separator parts = joinWith separator others) : parts = others := by
  rw [← piecesAt_joinWith some clean, same, piecesAt_joinWith some' clean']

theorem mem_of_mem_joinWith {separator c : Char} {parts : List (List Char)}
    (member : c ∈ joinWith separator parts) : c = separator ∨ ∃ part ∈ parts, c ∈ part := by
  induction parts with
  | nil => simp [joinWith] at member
  | cons first rest ih =>
    cases rest with
    | nil => exact .inr ⟨first, by simp, member⟩
    | cons second others =>
      rw [joinWith_cons_cons] at member
      rcases List.mem_append.mp member with here | later
      · exact .inr ⟨first, by simp, here⟩
      · rcases List.mem_cons.mp later with here | later
        · exact .inl here
        · rcases ih later with here | ⟨part, inside, there⟩
          · exact .inl here
          · exact .inr ⟨part, by simp [inside], there⟩

theorem mem_joinWith_of_mem {separator c : Char} {parts : List (List Char)} {part : List Char}
    (member : part ∈ parts) (inside : c ∈ part) : c ∈ joinWith separator parts := by
  induction parts with
  | nil => cases member
  | cons first rest ih =>
    cases rest with
    | nil => rwa [List.mem_singleton.mp member] at inside
    | cons second others =>
      rw [joinWith_cons_cons, List.mem_append, List.mem_cons]
      rcases List.mem_cons.mp member with rfl | later
      · exact .inl inside
      · exact .inr (.inr (ih later))

theorem joinWith_concat (separator : Char) {parts : List (List Char)} (some : parts ≠ [])
    (last : List Char) :
    joinWith separator (parts ++ [last]) = joinWith separator parts ++ separator :: last := by
  induction parts with
  | nil => exact absurd rfl some
  | cons first rest ih =>
    cases rest with
    | nil => rfl
    | cons second others =>
      rw [List.cons_append, List.cons_append, joinWith_cons_cons, ← List.cons_append, ih (by simp),
        joinWith_cons_cons, List.append_assoc, List.cons_append]

theorem dropEndWhile_isPrefix {α : Type} (p : α → Bool) (xs : List α) : dropEndWhile p xs <+: xs := by
  rw [dropEndWhile, ← List.reverse_suffix, List.reverse_reverse]
  exact List.dropWhile_suffix p

variable {p : α → Bool} {xs : List α} {x : α}

@[simp] theorem dropEndWhile_concat_of_pos (dropped : p x = true) :
    dropEndWhile p (xs ++ [x]) = dropEndWhile p xs := by
  simp [dropEndWhile, dropped]

@[simp] theorem dropEndWhile_concat_of_neg (kept : p x = false) : dropEndWhile p (xs ++ [x]) = xs ++ [x] := by
  simp [dropEndWhile, kept]

theorem dropEndWhile_cons_of_neg (kept : p x = false) : dropEndWhile p (x :: xs) = x :: dropEndWhile p xs := by
  rw [dropEndWhile, dropEndWhile, List.reverse_cons, List.dropWhile_append]
  split
  · rename_i nothing
    simp [kept, List.isEmpty_iff.mp nothing]
  · exact List.reverse_concat

theorem filter_dropEndWhile (p : α → Bool) (xs : List α) :
    (dropEndWhile p xs).filter (!p ·) = xs.filter (!p ·) := by
  induction xs using List.reverseRecOn with
  | nil => rfl
  | append_singleton front x ih =>
    cases last : p x with
    | true => simp [last, ih]
    | false => rw [dropEndWhile_concat_of_neg last]

/-- A list that is cut off at its end ends with what is kept last. -/
theorem getLast?_dropEndWhile (p : α → Bool) (xs : List α) :
    (dropEndWhile p xs).getLast? = (xs.filter (!p ·)).getLast? := by
  induction xs using List.reverseRecOn with
  | nil => rfl
  | append_singleton front x ih =>
    cases last : p x with
    | true => simp [last, ih]
    | false => simp [last]

end ModuleGraph.Text
