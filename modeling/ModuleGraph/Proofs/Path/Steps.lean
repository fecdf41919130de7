import ModuleGraph.Proofs.Path.Names

/-!
Absolute paths in normal form: a slash and then steps with a slash between each two. Such a path is known by
its components (`absolute_injective`). What is joined to it, cut off it or appended to its last step leaves it in
normal form, and so does the reading of a name as a module id (`toList_normalised`).
-/
namespace ModuleGraph.Path
open Text

/-- The absolute path that goes through steps. -/
def absolute (steps : List (List Char)) : Path := ⟨String.ofList ('/' :: joinWith '/' steps)⟩

/-- Pieces of a path none of which is idle. -/
def AreSteps (steps : List (List Char)) : Prop := ∀ step ∈ steps, isIdle step = false ∧ '/' ∉ step

/-- A path in normal form without steps up. -/
def IsStraight (p : Path) : Prop := ∃ steps, AreSteps steps ∧ ['.', '.'] ∉ steps ∧ p = absolute steps

variable {steps others more front : List (List Char)} {last : List Char} {p : Path}

theorem AreSteps.clean (ok : AreSteps steps) : ∀ step ∈ steps, '/' ∉ step :=
  fun step member => (ok step member).2

theorem areSteps_append_iff : AreSteps (steps ++ more) ↔ AreSteps steps ∧ AreSteps more := List.forall_mem_append

theorem areSteps_names {names : List String} (ok : ∀ name ∈ names, IsName name) :
    AreSteps (names.map (·.toList)) := by
  intro step member
  obtain ⟨name, inside, rfl⟩ := List.mem_map.mp member
  exact ⟨(ok name inside).not_idle, (ok name inside).no_slash⟩

/-- What is left of a path without its idle pieces are steps. -/
theorem areSteps_pieces (p : Path) : AreSteps (p.pieces.filter (!isIdle ·)) := by
  intro step member
  obtain ⟨cut, solid⟩ := List.mem_filter.mp member
  exact ⟨by simpa using solid, not_mem_of_mem_piecesAt cut⟩

@[simp] theorem isAbsolute_absolute : (absolute steps).isAbsolute = true := by
  simp [absolute, isAbsolute]

theorem pieces_absolute_nil : (absolute []).pieces = [[], []] := by decide

theorem pieces_absolute (ok : AreSteps steps) (filled : steps ≠ []) : (absolute steps).pieces = [] :: steps := by
  rw [absolute, Path.pieces, String.toList_ofList]
  exact (piecesAt_append '/' [] _).trans (congrArg ([] :: ·) (piecesAt_joinWith filled ok.clean))

theorem filter_steps (ok : AreSteps steps) : steps.filter (!isIdle ·) = steps := by
  refine List.filter_eq_self.mpr fun step member => ?_
  rw [(ok step member).1]
  rfl

theorem steps_absolute (ok : AreSteps steps) : (absolute steps).pieces.filter (!isIdle ·) = steps := by
  by_cases none : steps = []
  · rw [none, pieces_absolute_nil]
    rfl
  · rw [pieces_absolute ok none]
    exact filter_steps ok

theorem components_of_isAbsolute (start : p.isAbsolute = true) :
    p.components = .root :: (p.pieces.filter (!isIdle ·)).map .ofPiece := by
  obtain ⟨rest, cut⟩ := pieces_of_isAbsolute start
  rw [components_eq cut, start, cut]
  rfl

theorem components_absolute (ok : AreSteps steps) :
    (absolute steps).components = .root :: steps.map .ofPiece := by
  rw [components_of_isAbsolute isAbsolute_absolute, steps_absolute ok]

theorem mem_toList_absolute {c : Char} {step : List Char} (member : step ∈ steps) (inside : c ∈ step) :
    c ∈ (absolute steps).text.toList := by
  rw [absolute, String.toList_ofList]
  exact List.mem_cons_of_mem _ (mem_joinWith_of_mem member inside)

/-- Paths in normal form with the same components are written in the same way. -/
theorem absolute_injective (ok : AreSteps steps) (ok' : AreSteps others)
    (same : (absolute steps).components = (absolute others).components) : steps = others := by
  rw [components_absolute ok, components_absolute ok', List.cons.injEq] at same
  exact (List.map_inj_right ofPiece_injective).mp same.2

/-! ## Joining and cutting -/

theorem joinWith_append (filled : steps ≠ []) (filled' : more ≠ []) :
    joinWith '/' (steps ++ more) = joinWith '/' steps ++ '/' :: joinWith '/' more := by
  induction steps with
  | nil => exact absurd rfl filled
  | cons first rest ih =>
    cases rest with
    | nil =>
      obtain ⟨second, others, rfl⟩ := List.exists_cons_of_ne_nil filled'
      rfl
    | cons second others =>
      rw [List.cons_append, List.cons_append, joinWith_cons_cons, ← List.cons_append, ih (by simp),
        joinWith_cons_cons, List.append_assoc, List.cons_append]

private theorem AreSteps.step_ne_nil (ok : AreSteps steps) {step : List Char} (member : step ∈ steps) :
    step ≠ [] := by
  rintro rfl
  have solid := (ok [] member).1
  simp [isIdle] at solid

theorem AreSteps.head?_ne_slash (ok : AreSteps steps) : (joinWith '/' steps).head? ≠ some '/' := by
  cases steps with
  | nil => simp [joinWith]
  | cons first rest =>
    have start : (joinWith '/' (first :: rest)).head? = first.head? := by
      cases rest with
      | nil => rfl
      | cons second others =>
        rw [joinWith_cons_cons, List.head?_append_of_ne_nil _ (ok.step_ne_nil (by simp))]
    rw [start]
    intro slash
    exact ok.clean first (by simp) (List.mem_of_head? slash)

private theorem AreSteps.getLast?_ne_slash (ok : AreSteps steps) :
    (joinWith '/' steps).getLast? ≠ some '/' := by
  obtain rfl | ⟨front, last, rfl⟩ := List.eq_nil_or_concat' steps
  · simp [joinWith]
  · have finish : (joinWith '/' (front ++ [last])).getLast? = last.getLast? := by
      have solid := ok.step_ne_nil (List.mem_append_right front (List.mem_singleton.mpr rfl))
      by_cases alone : front = []
      · rw [alone]
        rfl
      · rw [joinWith_concat '/' alone, List.getLast?_append_of_ne_nil _ (by simp),
          List.getLast?_cons_of_ne_nil solid]
    rw [finish]
    intro slash
    exact ok.clean last (by simp) (List.mem_of_getLast? slash)

/-- Steps that are joined to a path in normal form come behind its own. -/
theorem join_absolute (ok : AreSteps steps) (ok' : AreSteps more) (filled : more ≠ []) :
    (absolute steps).join ⟨String.ofList (joinWith '/' more)⟩ = absolute (steps ++ more) := by
  have relative : (Path.mk (String.ofList (joinWith '/' more))).isAbsolute = false := by
    simpa [isAbsolute] using ok'.head?_ne_slash
  rw [join, relative]
  simp only [Bool.false_eq_true, if_false]
  by_cases none : steps = []
  · subst none
    rw [if_pos (by decide)]
    refine congrArg Path.mk (String.toList_inj.mp ?_)
    simp [absolute, joinWith]
  · have solid : joinWith '/' steps ≠ [] := by
      obtain ⟨first, rest, rfl⟩ := List.exists_cons_of_ne_nil none
      have start := ok.step_ne_nil (List.mem_cons_self (l := rest))
      cases rest with
      | nil => exact start
      | cons second others => simp [joinWith_cons_cons]
    have last : (absolute steps).text.toList.getLast? ≠ some '/' := by
      rw [absolute, String.toList_ofList, List.getLast?_cons_of_ne_nil solid]
      exact ok.getLast?_ne_slash
    have start : (absolute steps).text ≠ "" := ne_empty_of_isAbsolute isAbsolute_absolute
    rw [if_neg (by simpa [start] using last)]
    refine congrArg Path.mk (String.toList_inj.mp ?_)
    simp [absolute, joinWith_append none filled]

theorem parent?_absolute_nil : (absolute []).parent? = none := by decide

theorem parent?_absolute (ok : AreSteps (front ++ [last])) :
    (absolute (front ++ [last])).parent? = some (absolute front) := by
  obtain ⟨okFront, okLast⟩ := areSteps_append_iff.mp ok
  have solid : isIdle last = false := (okLast last (by simp)).1
  have whole : dropEndWhile isIdle (front ++ [last]) = front ++ [last] := by
    simp [dropEndWhile, solid]
  have rest : withoutLast (front ++ [last]) = front := by
    rw [withoutLast, whole, List.dropLast_concat]
    obtain rfl | ⟨others, name, rfl⟩ := List.eq_nil_or_concat' front
    · rfl
    · simp [dropEndWhile, (okFront name (by simp)).1]
  rw [parent?, pieces_absolute ok (by simp)]
  simp only [isAbsolute_absolute, if_true, whole, rest]
  rw [if_neg (by simp)]
  rfl

/-- An extension belongs to the last step. -/
theorem absolute_append (steps : List (List Char)) (last : List Char) (extension : String) :
    (⟨(absolute (steps ++ [last])).text ++ extension⟩ : Path) =
      absolute (steps ++ [last ++ extension.toList]) := by
  refine congrArg Path.mk (String.toList_inj.mp ?_)
  by_cases none : steps = []
  · simp [none, absolute, joinWith]
  · simp [absolute, joinWith_concat '/' none]

/-! ## Names as ids -/

private theorem filterMap_idPart? (pieces : List (List Char)) :
    (laterComponents pieces).filterMap Component.idPart? = pieces.filter (!isIdle ·) := by
  rw [laterComponents, List.filterMap_map]
  have back : Component.idPart? ∘ Component.ofPiece = some := funext idPart?_ofPiece
  rw [back, List.filterMap_some]

private theorem head?_laterComponents (pieces : List (List Char)) :
    (laterComponents pieces).head? ≠ some .root := by
  rw [laterComponents]
  cases pieces.filter (!isIdle ·) with
  | nil => simp
  | cons piece rest =>
    simp only [List.map_cons, List.head?_cons, ne_eq, Option.some.injEq]
    intro root
    have none := idPart?_ofPiece piece
    simp [root, Component.idPart?] at none

/-- A name is read without its idle pieces. -/
theorem toList_normalised (name : String) : (normalised name).toList =
    if (Path.mk name).isAbsolute then '/' :: joinWith '/' ((Path.mk name).pieces.filter (!isIdle ·))
    else joinWith '/' ((Path.mk name).pieces.filter (!isIdle ·)) := by
  have whole : normalised name = idText (Path.mk name).components := rfl
  rw [whole]
  split
  · rename_i start
    obtain ⟨rest, cut⟩ := pieces_of_isAbsolute start
    have steps : (Path.mk name).components = .root :: laterComponents rest := by
      rw [components_eq cut, start]
      rfl
    have parts : (Component.root :: laterComponents rest).filterMap Component.idPart? =
        rest.filter (!isIdle ·) := filterMap_idPart? rest
    have solid : ([] :: rest).filter (!isIdle ·) = rest.filter (!isIdle ·) := rfl
    rw [steps, idText, parts, cut, solid]
    simp
  · rename_i start
    have relative : (Path.mk name).isAbsolute = false := by simpa using start
    obtain ⟨first, rest, cut⟩ := List.exists_cons_of_ne_nil (piecesAt_ne_nil '/' name.toList)
    have cut : (Path.mk name).pieces = first :: rest := cut
    have parts : (Path.mk name).components.filterMap Component.idPart? =
        (first :: rest).filter (!isIdle ·) := by
      rw [components_eq cut, relative, List.filterMap_append, filterMap_idPart?, List.filter_cons]
      by_cases none : first = []
      · simp [none, firstComponents, isIdle]
      by_cases here : first = ['.']
      · simp [here, firstComponents, isIdle, Component.idPart?]
      · simp [none, here, firstComponents, isIdle, idPart?_ofPiece]
    have head : (Path.mk name).components.head? ≠ some .root := by
      rw [components_eq cut, relative]
      by_cases none : first = []
      · simpa [none, firstComponents] using head?_laterComponents rest
      by_cases here : first = ['.']
      · simp [here, firstComponents]
      · have later := head?_laterComponents [first]
        simpa [none, here, firstComponents, laterComponents, isIdle] using later
    rw [idText, parts, cut]
    simp only [head, if_false, String.toList_ofList]

end ModuleGraph.Path
