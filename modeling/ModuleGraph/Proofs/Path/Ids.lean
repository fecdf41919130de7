import ModuleGraph.Proofs.Path.Steps

/-!
Module ids in normal form: steps with a slash between each two, and perhaps a slash in front (`IsId`). Every id of a
module has it (`isId_moduleId`), reading such a text as an id leaves it as it is (`IsId.normalised_eq`), and seen from
the root that it belongs to, an id leads back to the module (`moduleId_faithful`).
-/
namespace ModuleGraph.Path
open Text

/-- The text of steps, in front of which a slash stands if they start at the root. -/
def idOf (fromRoot : Bool) (steps : List (List Char)) : String :=
  String.ofList (if fromRoot then '/' :: joinWith '/' steps else joinWith '/' steps)

/-- A text in the normal form of module ids. -/
def IsId (id : String) : Prop := ∃ fromRoot steps, AreSteps steps ∧ id = idOf fromRoot steps

/-- The component in front of the steps of a path, if they start at the root. -/
def rootOf (fromRoot : Bool) : List Component := if fromRoot then [.root] else []

/-- An id as a reader takes it apart: no step in it is a dot, none is empty, and it does not end with a slash unless it
    is the root. -/
structure IsTidy (id : String) : Prop where
  no_here : ['.'] ∉ (Path.mk id).pieces
  no_gap : ¬['/', '/'] <:+: id.toList
  no_end : id.toList.getLast? = some '/' → id = "/"

variable {fromRoot : Bool} {first : List Char} {steps more : List (List Char)} {root p q : Path} {id : String}

/-! ## Steps of ids -/

theorem isAbsolute_idOf (ok : AreSteps steps) : (Path.mk (idOf fromRoot steps)).isAbsolute = fromRoot := by
  cases fromRoot with
  | true => exact isAbsolute_absolute
  | false => simpa [isAbsolute, idOf] using ok.head?_ne_slash

theorem pieces_idOf (ok : AreSteps steps) (filled : steps ≠ []) :
    (Path.mk (idOf fromRoot steps)).pieces = if fromRoot then [] :: steps else steps := by
  cases fromRoot with
  | true => exact pieces_absolute ok filled
  | false =>
    rw [Path.pieces, idOf, String.toList_ofList]
    exact piecesAt_joinWith filled ok.clean

theorem steps_idOf (ok : AreSteps steps) : (Path.mk (idOf fromRoot steps)).pieces.filter (!isIdle ·) = steps := by
  by_cases none : steps = []
  · cases fromRoot <;> rw [none] <;> rfl
  · rw [pieces_idOf ok none]
    cases fromRoot <;> exact filter_steps ok

theorem normalised_eq_idOf (text : String) :
    normalised text = idOf (Path.mk text).isAbsolute ((Path.mk text).pieces.filter (!isIdle ·)) := by
  refine String.toList_inj.mp ?_
  rw [toList_normalised, idOf, String.toList_ofList]

theorem isAbsolute_normalised (text : String) : (Path.mk (normalised text)).isAbsolute = (Path.mk text).isAbsolute := by
  rw [normalised_eq_idOf, isAbsolute_idOf (areSteps_pieces _)]

theorem isId_normalised (text : String) : IsId (normalised text) :=
  ⟨_, _, areSteps_pieces ⟨text⟩, normalised_eq_idOf text⟩

/-- What is in normal form stays as it is. -/
theorem IsId.normalised_eq (isId : IsId id) : normalised id = id := by
  obtain ⟨fromRoot, steps, ok, rfl⟩ := isId
  rw [normalised_eq_idOf, isAbsolute_idOf ok, steps_idOf ok]

theorem isId_iff : IsId id ↔ normalised id = id := by
  constructor
  · exact IsId.normalised_eq
  · intro same
    rw [← same]
    exact isId_normalised id

private theorem firstComponents_of_solid (solid : isIdle first = false) :
    firstComponents false first = [.ofPiece first] := by
  rw [isIdle, Bool.or_eq_false_iff, beq_eq_false_iff_ne, beq_eq_false_iff_ne] at solid
  simp [firstComponents, solid]

private theorem ofPiece_ne_here (piece : List Char) : Component.ofPiece piece ≠ .here := by
  rw [Component.ofPiece]
  split <;> simp

private theorem filter_ofPiece (pieces : List (List Char)) :
    (pieces.map Component.ofPiece).filter (· ≠ .here) = pieces.map .ofPiece := by
  refine List.filter_eq_self.mpr fun step member => ?_
  obtain ⟨piece, -, rfl⟩ := List.mem_map.mp member
  exact decide_eq_true (ofPiece_ne_here piece)

/-- The components of a path are its steps, but for a dot at its start. -/
theorem filter_components (p : Path) : p.components.filter (· ≠ .here) =
    rootOf p.isAbsolute ++ (p.pieces.filter (!isIdle ·)).map .ofPiece := by
  cases start : p.isAbsolute with
  | true =>
    rw [components_of_isAbsolute start, List.filter_cons_of_pos (by decide), filter_ofPiece]
    rfl
  | false =>
    obtain ⟨first, rest, cut⟩ := List.exists_cons_of_ne_nil (piecesAt_ne_nil '/' p.text.toList)
    have cut : p.pieces = first :: rest := cut
    rw [components_eq cut, start, cut, List.filter_append, laterComponents, filter_ofPiece]
    cases idle : isIdle first with
    | false =>
      have alone := filter_ofPiece [first]
      rw [List.map_singleton] at alone
      rw [firstComponents_of_solid idle, alone, List.filter_cons_of_pos (by rw [idle]; rfl)]
      rfl
    | true =>
      rw [List.filter_cons_of_neg (by simp [idle])]
      rw [isIdle, Bool.or_eq_true, beq_iff_eq, beq_iff_eq] at idle
      rcases idle with rfl | rfl <;> rfl

/-- A piece that is not idle is a component. -/
theorem ofPiece_mem_components {piece : List Char} (kept : piece ∈ p.pieces.filter (!isIdle ·)) :
    .ofPiece piece ∈ p.components := by
  have inside : .ofPiece piece ∈ p.components.filter (· ≠ .here) := by
    rw [filter_components]
    exact List.mem_append_right _ (List.mem_map_of_mem kept)
  exact (List.mem_filter.mp inside).1

theorem components_idOf (ok : AreSteps steps) :
    (Path.mk (idOf fromRoot steps)).components = rootOf fromRoot ++ steps.map .ofPiece := by
  cases fromRoot with
  | true => exact components_absolute ok
  | false =>
    cases steps with
    | nil => rfl
    | cons first rest =>
      have rest_ok : AreSteps rest := fun step later => ok step (List.mem_cons_of_mem _ later)
      rw [components_eq (pieces_idOf ok (List.cons_ne_nil _ _)), isAbsolute_idOf ok,
        firstComponents_of_solid (ok first List.mem_cons_self).1, laterComponents, filter_steps rest_ok]
      rfl

/-- Reading a path as an id leaves out the dot at its start and nothing else. -/
theorem components_normalised (text : String) :
    (Path.mk (normalised text)).components = (Path.mk text).components.filter (· ≠ .here) := by
  rw [filter_components, normalised_eq_idOf, components_idOf (areSteps_pieces _)]

private theorem joinWith_concat_eq (front : List (List Char)) (last : List Char) :
    ∃ start, joinWith '/' (front ++ [last]) = start ++ last := by
  by_cases alone : front = []
  · exact ⟨[], by rw [alone]; rfl⟩
  · refine ⟨joinWith '/' front ++ ['/'], ?_⟩
    rw [joinWith_concat '/' alone, List.append_assoc, List.singleton_append]

/-- An id ends with its last name. -/
theorem IsId.toList_eq_append {name : String} (isId : IsId id) (named : fileName? ⟨id⟩ = some name) :
    ∃ start, id.toList = start ++ name.toList := by
  obtain ⟨fromRoot, steps, ok, rfl⟩ := isId
  rw [fileName?, components_idOf ok] at named
  obtain rfl | ⟨front, last, rfl⟩ := List.eq_nil_or_concat' steps
  · cases fromRoot <;> cases named
  · have step : Component.ofPiece last = .name name := by
      rw [List.map_append, List.map_singleton, ← List.append_assoc, List.getLast?_concat] at named
      split at named
      · rename_i text same
        rw [Option.some.inj named] at same
        exact Option.some.inj same
      · cases named
    have last_eq : last = name.toList := by
      have part := idPart?_ofPiece last
      rw [step] at part
      exact (Option.some.inj part).symm
    obtain ⟨start, joined⟩ := joinWith_concat_eq front last
    rw [idOf, String.toList_ofList, joined, last_eq]
    cases fromRoot with
    | true => exact ⟨'/' :: start, rfl⟩
    | false => exact ⟨start, rfl⟩

/-! ## Ids of modules -/

theorem idText_ofPiece (steps : List (List Char)) : idText (steps.map .ofPiece) = idOf false steps :=
  String.toList_inj.mp (by rw [toList_idText_map, idOf, String.toList_ofList]; rfl)

/-- Behind the first component of a path there are steps only. -/
theorem exists_steps_drop (p : Path) {n : Nat} (behind : 0 < n) :
    ∃ steps, AreSteps steps ∧ p.components.drop n = steps.map .ofPiece := by
  obtain ⟨first, rest, cut⟩ := List.exists_cons_of_ne_nil (piecesAt_ne_nil '/' p.text.toList)
  have cut : p.pieces = first :: rest := cut
  have short : (firstComponents p.isAbsolute first).length ≤ n := by
    have one : (firstComponents p.isAbsolute first).length ≤ 1 := by
      unfold firstComponents
      split_ifs <;> simp
    exact Nat.le_trans one behind
  have steps : AreSteps (rest.filter (!isIdle ·)) := by
    have whole := areSteps_pieces p
    rw [cut, ← List.singleton_append, List.filter_append] at whole
    exact (areSteps_append_iff.mp whole).2
  refine ⟨(rest.filter (!isIdle ·)).drop (n - (firstComponents p.isAbsolute first).length),
    fun step member => steps step (List.mem_of_mem_drop member), ?_⟩
  rw [components_eq cut, List.drop_append, List.drop_eq_nil_of_le short, List.nil_append, laterComponents,
    ← List.map_drop]

/-- The id of a module: its steps behind the root, or else the whole path. -/
theorem moduleId_cases (root p : Path) :
    (∃ steps, AreSteps steps ∧ root.components ≠ [] ∧ p.components = root.components ++ steps.map .ofPiece ∧
      moduleId root p = idOf false steps) ∨ moduleId root p = normalised p.text := by
  have whole : normalised p.text = idText p.components := rfl
  rw [moduleId, stepsWithin, whole]
  split
  · rename_i inside
    by_cases empty : root.components = []
    · exact .inr (by rw [empty]; rfl)
    · obtain ⟨steps, ok, rest⟩ := exists_steps_drop p (List.length_pos_iff.mpr empty)
      obtain ⟨tail, joined⟩ := List.isPrefixOf_iff_prefix.mp inside
      refine .inl ⟨steps, ok, empty, ?_, by rw [rest, idText_ofPiece]⟩
      rw [← rest, ← joined, List.drop_left]
  · exact .inr rfl

theorem isId_moduleId (root p : Path) : IsId (moduleId root p) := by
  rcases moduleId_cases root p with ⟨steps, ok, -, -, id⟩ | id
  · exact ⟨false, steps, ok, id⟩
  · rw [id]
    exact isId_normalised p.text

/-- Seen from the root that it belongs to, the id of a module leads to the module. -/
theorem components_join_moduleId (start : root.isAbsolute = true) (start' : p.isAbsolute = true) :
    (root.join ⟨moduleId root p⟩).components = p.components := by
  rcases moduleId_cases root p with ⟨steps, ok, -, inside, id⟩ | id
  · rw [id, components_join (ne_empty_of_isAbsolute start) (isAbsolute_idOf ok), inside, laterComponents, steps_idOf ok]
  · have whole : p.components.filter (· ≠ .here) = p.components := by
      rw [filter_components, components_of_isAbsolute start', start']
      rfl
    rw [id, normalised_eq_idOf, start', join, if_pos (isAbsolute_idOf (areSteps_pieces _)),
      components_idOf (areSteps_pieces _), ← whole, filter_components, start']

/-! ## Tidiness -/

theorem IsId.isTidy (isId : IsId id) : IsTidy id := by
  obtain ⟨fromRoot, steps, ok, rfl⟩ := isId
  have no_step (piece : List Char) (idle : isIdle piece = true) : piece ∉ steps := fun member => by
    rw [(ok piece member).1] at idle
    cases idle
  by_cases none : steps = []
  · subst none
    cases fromRoot with
    | true => exact ⟨by decide, by decide, fun _ => rfl⟩
    | false => exact ⟨by decide, by decide, fun last => by simp [idOf, joinWith] at last⟩
  have cut : (Path.mk (idOf fromRoot steps)).pieces = if fromRoot then [] :: steps else steps := pieces_idOf ok none
  -- Only the first piece may be empty, in front of the root.
  have no_empty (front back : List (List Char)) (behind : front ≠ []) :
      (Path.mk (idOf fromRoot steps)).pieces ≠ front ++ [] :: back := by
    rw [cut]
    intro empty
    refine no_step [] rfl ?_
    cases fromRoot with
    | true =>
      obtain ⟨first, rest, rfl⟩ := List.exists_cons_of_ne_nil behind
      have later : steps = rest ++ [] :: back := (List.cons.inj empty).2
      simp [later]
    | false =>
      have whole : steps = front ++ [] :: back := empty
      simp [whole]
  refine ⟨fun here => ?_, fun gap => ?_, fun last => ?_⟩
  · rw [cut] at here
    cases fromRoot with
    | true => exact no_step ['.'] rfl (by simpa using here)
    | false => exact no_step ['.'] rfl here
  · obtain ⟨front, back, shape⟩ := gap
    refine no_empty (piecesAt '/' front) (piecesAt '/' back) (piecesAt_ne_nil _ _) ?_
    rw [Path.pieces, ← shape, List.append_assoc, List.cons_append, piecesAt_append]
    exact congrArg (piecesAt '/' front ++ ·) (piecesAt_append '/' [] back)
  · obtain ⟨front, shape⟩ := List.getLast?_eq_some_iff.mp last
    refine absurd ?_ (no_empty (piecesAt '/' front) [] (piecesAt_ne_nil _ _))
    rw [Path.pieces, shape, piecesAt_append]
    rfl

/-- Module ids are faithful: an id leads back to its module, so different modules of a root have different ids, and
    what is read as an id of its own is a tidy text that holds every component but for a dot. -/
theorem moduleId_faithful :
    (∀ root p : Path, root.isAbsolute = true → p.isAbsolute = true →
      (root.join ⟨moduleId root p⟩).components = p.components) ∧
    (∀ root p q : Path, root.isAbsolute = true → p.isAbsolute = true → q.isAbsolute = true →
      moduleId root p = moduleId root q → p.components = q.components) ∧
    ∀ text, normalised (normalised text) = normalised text ∧
      (Path.mk (normalised text)).components = (Path.mk text).components.filter (· ≠ .here) ∧
      IsTidy (normalised text) := by
  refine ⟨fun root p => components_join_moduleId, fun root p q start start' start'' same => ?_, fun text => ?_⟩
  · rw [← components_join_moduleId start start', same, components_join_moduleId start start'']
  · exact ⟨(isId_normalised text).normalised_eq, components_normalised text, (isId_normalised text).isTidy⟩

theorem moduleId_faithful_outside :
    (Path.mk "/proj/").isAbsolute = true ∧ (Path.mk "/project//./../a.py").isAbsolute = true ∧
      moduleId ⟨"/proj/"⟩ ⟨"/project//./../a.py"⟩ = "/project/../a.py" ∧
      ((Path.mk "/proj/").join ⟨moduleId ⟨"/proj/"⟩ ⟨"/project//./../a.py"⟩⟩).components =
        (Path.mk "/project//./../a.py").components ∧
      ((Path.mk "/project//./../a.py").components = (Path.mk "/project/../a.py/").components) :=
  ⟨by decide, by decide, by decide, moduleId_faithful.1 _ _ (by decide) (by decide),
    moduleId_faithful.2.1 ⟨"/proj/"⟩ _ _ (by decide) (by decide) (by decide) (by decide)⟩

end ModuleGraph.Path
