import ModuleGraph.Path
import ModuleGraph.Proofs.Text.Split
import Mathlib.Data.List.Basic

/-!
Names of files, and paths made of them. The steps of a path to names below a root are those of the
root and then the names (`components_join_ofNames`), so the id of the module there is its names joined
by slashes, which says which names they are (`ofNames_injective`).
-/
namespace ModuleGraph
open Text

namespace Path

/-- A name that a file can have. -/
structure IsName (name : String) : Prop where
  ne_nil : name.toList ≠ []
  ne_here : name.toList ≠ ['.']
  ne_up : name.toList ≠ ['.', '.']
  no_slash : '/' ∉ name.toList
  no_nul : '\x00' ∉ name.toList

instance (name : String) : Decidable (IsName name) :=
  decidable_of_iff (name.toList ≠ [] ∧ name.toList ≠ ['.'] ∧ name.toList ≠ ['.', '.'] ∧
      '/' ∉ name.toList ∧ '\x00' ∉ name.toList)
    ⟨fun ⟨a, b, c, d, e⟩ => ⟨a, b, c, d, e⟩, fun ⟨a, b, c, d, e⟩ => ⟨a, b, c, d, e⟩⟩

/-- A relative path that goes through names. -/
def ofNames (names : List String) : String := String.ofList (joinWith '/' (names.map (·.toList)))

/-- Names below a directory, at least one. -/
structure AreNames (names : List String) : Prop where
  ne_nil : names ≠ []
  isName : ∀ name ∈ names, IsName name

variable {name : String} {names : List String} {base root tail p q : Path}

theorem IsName.not_idle (ok : IsName name) : isIdle name.toList = false := by
  simp [isIdle, ok.ne_nil, ok.ne_here]

theorem IsName.ofPiece (ok : IsName name) : Component.ofPiece name.toList = .name name := by
  simp [Component.ofPiece, ok.ne_up]

theorem AreNames.parts_ne_nil (ok : AreNames names) : names.map (·.toList) ≠ [] := by
  simpa using ok.ne_nil

theorem AreNames.parts_clean (ok : AreNames names) : ∀ part ∈ names.map (·.toList), '/' ∉ part := by
  intro part member
  obtain ⟨name, inside, rfl⟩ := List.mem_map.mp member
  exact (ok.isName name inside).no_slash

@[simp] theorem toList_ofNames : (ofNames names).toList = joinWith '/' (names.map (·.toList)) := by
  simp [ofNames]

theorem AreNames.pieces (ok : AreNames names) : (Path.mk (ofNames names)).pieces = names.map (·.toList) := by
  unfold Path.pieces
  rw [toList_ofNames]
  exact piecesAt_joinWith ok.parts_ne_nil ok.parts_clean

/-- What joins names by slashes tells the names. -/
theorem ofNames_injective {others : List String} (ok : AreNames names) (ok' : AreNames others)
    (same : ofNames names = ofNames others) : names = others := by
  have parts : names.map (·.toList) = others.map (·.toList) := by
    rw [← ok.pieces, same, ok'.pieces]
  exact (List.map_inj_right fun _ _ equal => String.toList_inj.mp equal).mp parts

theorem AreNames.head_ne_slash (ok : AreNames names) : (ofNames names).toList.head? ≠ some '/' := by
  obtain ⟨ne, isName⟩ := ok
  rw [toList_ofNames]
  cases names with
  | nil => exact absurd rfl ne
  | cons first rest =>
    have named := isName first (by simp)
    have start : (joinWith '/' ((first :: rest).map (·.toList))).head? = first.toList.head? := by
      cases rest with
      | nil => rfl
      | cons second others =>
        rw [List.map_cons, List.map_cons, joinWith_cons_cons]
        exact List.head?_append_of_ne_nil _ named.ne_nil
    rw [start]
    intro slash
    exact named.no_slash (List.mem_of_head? slash)

theorem AreNames.relative (ok : AreNames names) : (Path.mk (ofNames names)).isAbsolute = false := by
  simpa [isAbsolute] using ok.head_ne_slash

theorem AreNames.no_nul (ok : AreNames names) : '\x00' ∉ (ofNames names).toList := by
  rw [toList_ofNames]
  intro member
  rcases mem_of_mem_joinWith member with slash | ⟨part, inside, there⟩
  · exact absurd slash (by decide)
  · obtain ⟨name, known, rfl⟩ := List.mem_map.mp inside
    exact (ok.isName name known).no_nul there

/-! ## Steps -/

theorem laterComponents_append (front back : List (List Char)) :
    laterComponents (front ++ back) = laterComponents front ++ laterComponents back := by
  simp [laterComponents]

theorem laterComponents_names (ok : ∀ name ∈ names, IsName name) :
    laterComponents (names.map (·.toList)) = names.map .name := by
  induction names with
  | nil => rfl
  | cons name rest ih =>
    have named := ok name (by simp)
    have later := ih fun other inside => ok other (by simp [inside])
    simp only [laterComponents] at later ⊢
    simp [named.not_idle, named.ofPiece, later]

/-- The step that the first piece of a path stands for, if any. -/
def firstComponents (absolute : Bool) (piece : List Char) : List Component :=
  if absolute then [.root]
  else if piece = [] then []
  else if piece = ['.'] then [.here]
  else [.ofPiece piece]

theorem components_eq {first : List Char} {rest : List (List Char)} (cut : p.pieces = first :: rest) :
    p.components = firstComponents p.isAbsolute first ++ laterComponents rest := by
  unfold components firstComponents
  rw [cut]
  simp only
  split
  · rfl
  · split
    · rfl
    · split <;> rfl

theorem components_ofNames (ok : AreNames names) :
    (Path.mk (ofNames names)).components = names.map .name := by
  obtain ⟨first, rest, rfl⟩ := List.exists_cons_of_ne_nil ok.ne_nil
  have named := ok.isName first (by simp)
  rw [components_eq ok.pieces, ok.relative, laterComponents_names fun name inside =>
    ok.isName name (by simp [inside])]
  simp [firstComponents, named.ne_nil, named.ne_here, named.ofPiece]

/-! ## Joining -/

theorem isAbsolute_join (named : base.text ≠ "") (relative : tail.isAbsolute = false) :
    (base.join tail).isAbsolute = base.isAbsolute := by
  have some : base.text.toList ≠ [] := by simpa using named
  unfold join
  rw [relative]
  simp only [isAbsolute, Bool.false_eq_true, if_false]
  split
  · rw [String.toList_append, List.head?_append_of_ne_nil _ some]
  · rw [String.toList_append, String.toList_append, List.append_assoc,
      List.head?_append_of_ne_nil _ some]

/-- The pieces of a joined path are those of its ends, apart from an empty piece where the first path
    ends with a slash. -/
theorem pieces_join (named : base.text ≠ "") (relative : tail.isAbsolute = false) :
    ∃ front, front ≠ [] ∧ (base.pieces = front ∨ base.pieces = front ++ [[]]) ∧
      (base.join tail).pieces = front ++ tail.pieces := by
  unfold join
  rw [relative]
  simp only [Bool.false_eq_true, if_false]
  by_cases slash : base.text.toList.getLast? = some '/'
  · obtain ⟨start, ends⟩ := List.getLast?_eq_some_iff.mp slash
    refine ⟨piecesAt '/' start, piecesAt_ne_nil _ _, .inr ?_, ?_⟩
    · rw [Path.pieces, ends, piecesAt_append]
      rfl
    · simp only [named, slash, beq_self_eq_true, decide_false, Bool.or_true, if_true, Path.pieces]
      rw [String.toList_append, ends, List.append_assoc, List.singleton_append, piecesAt_append]
  · refine ⟨base.pieces, piecesAt_ne_nil _ _, .inl rfl, ?_⟩
    have off : (base.text.toList.getLast? == some '/') = false := by simpa using slash
    simp only [named, off, decide_false, Bool.or_false, Bool.false_eq_true, if_false, Path.pieces]
    rw [String.toList_append, String.toList_append, List.append_assoc]
    exact piecesAt_append '/' _ _

/-- The steps of a joined path are those of the first path and then those of the second. -/
theorem components_join (named : base.text ≠ "") (relative : tail.isAbsolute = false) :
    (base.join tail).components = base.components ++ laterComponents tail.pieces := by
  obtain ⟨front, some, cut, joined⟩ := pieces_join named relative
  obtain ⟨first, rest, rfl⟩ := List.exists_cons_of_ne_nil some
  rw [List.cons_append] at joined
  rw [components_eq joined, isAbsolute_join named relative, laterComponents_append]
  rcases cut with cut | cut
  · rw [components_eq cut, List.append_assoc]
  · rw [List.cons_append] at cut
    rw [components_eq cut, laterComponents_append, List.append_assoc, List.append_assoc]
    rfl

theorem components_join_ofNames (named : root.text ≠ "") (ok : AreNames names) :
    (root.join ⟨ofNames names⟩).components = root.components ++ names.map .name := by
  rw [components_join named ok.relative, ok.pieces, laterComponents_names ok.isName]

theorem ofNames_singleton : ofNames [name] = name := String.ofList_toList

theorem IsName.relative (ok : IsName name) : (Path.mk name).isAbsolute = false := by
  have single : AreNames [name] := ⟨by simp, by simpa using ok⟩
  simpa [ofNames_singleton] using single.relative

theorem ofNames_concat (nonempty : names ≠ []) (name : String) :
    ofNames (names ++ [name]) = ofNames names ++ "/" ++ name := by
  apply String.toList_inj.mp
  rw [toList_ofNames, List.map_append, String.toList_append, String.toList_append, toList_ofNames,
    List.append_assoc]
  exact joinWith_concat '/' (by simpa using nonempty) _

/-- A path through names ends with the last of them. -/
theorem toList_ofNames_concat (front : List String) (name : String) :
    ∃ start, (ofNames (front ++ [name])).toList = start ++ name.toList := by
  by_cases alone : front = []
  · exact ⟨[], by simp [alone, ofNames_singleton]⟩
  · exact ⟨(ofNames front ++ "/").toList, by rw [ofNames_concat alone, String.toList_append]⟩

theorem AreNames.exists_concat (ok : AreNames names) :
    ∃ front name, names = front ++ [name] ∧ IsName name := by
  obtain ⟨front, name, rfl⟩ := (List.eq_nil_or_concat' names).resolve_left ok.ne_nil
  exact ⟨front, name, rfl, ok.isName name (by simp)⟩

theorem AreNames.toList_ne_nil (ok : AreNames names) : (ofNames names).toList ≠ [] := by
  obtain ⟨front, name, rfl, named⟩ := ok.exists_concat
  obtain ⟨start, shape⟩ := toList_ofNames_concat front name
  rw [shape]
  simp [named.ne_nil]

theorem AreNames.getLast?_ne_slash (ok : AreNames names) : (ofNames names).toList.getLast? ≠ some '/' := by
  obtain ⟨front, name, rfl, named⟩ := ok.exists_concat
  obtain ⟨start, shape⟩ := toList_ofNames_concat front name
  rw [shape, List.getLast?_append_of_ne_nil _ named.ne_nil]
  exact fun slash => named.no_slash (List.mem_of_getLast? slash)

theorem AreNames.concat (ok : AreNames names) (named : IsName name) : AreNames (names ++ [name]) := by
  refine ⟨by simp, fun other member => ?_⟩
  rcases List.mem_append.mp member with inside | inside
  · exact ok.isName other inside
  · rwa [List.mem_singleton.mp inside]

/-- Names may be joined to a path one after the other. -/
theorem join_join_name (named : root.text ≠ "") (ok : AreNames names) (nameOk : IsName name) :
    (root.join ⟨ofNames names⟩).join ⟨name⟩ = root.join ⟨ofNames (names ++ [name])⟩ := by
  have off (start : String) : ((start ++ ofNames names).toList.getLast? == some '/') = false := by
    rw [String.toList_append, List.getLast?_append_of_ne_nil _ ok.toList_ne_nil]
    simpa using ok.getLast?_ne_slash
  have filled (start : String) : start ++ ofNames names ≠ "" := by
    intro none
    have bare := congrArg String.toList none
    simp only [String.toList_append] at bare
    exact ok.toList_ne_nil (List.append_eq_nil_iff.mp bare).2
  have inner : ∃ start, ∀ tail, tail.isAbsolute = false → root.join tail = ⟨start ++ tail.text⟩ := by
    by_cases slash : (root.text.toList.getLast? == some '/') = true
    · exact ⟨root.text, fun tail relative => by simp [join, relative, slash]⟩
    · exact ⟨root.text ++ "/", fun tail relative => by simp [join, relative, slash, named]⟩
  obtain ⟨start, joined⟩ := inner
  rw [joined _ ok.relative, joined _ (ok.concat nameOk).relative, ofNames_concat ok.ne_nil, join,
    nameOk.relative]
  simp only [off, filled, Bool.false_eq_true, if_false, decide_false, Bool.or_false,
    String.append_assoc]

/-! ## Ids -/

theorem filterMap_idPart?_names (names : List String) :
    (names.map Component.name).filterMap Component.idPart? = names.map (·.toList) := by
  induction names with
  | nil => rfl
  | cons name rest ih => simp [Component.idPart?, ih]

theorem idText_names : idText (names.map .name) = ofNames names := by
  have start : (names.map Component.name).head? ≠ some .root := by
    cases names <;> simp
  rw [idText, filterMap_idPart?_names]
  simp only [start, if_false]
  rfl

theorem stepsWithin_append (root steps : List Component) : stepsWithin root (root ++ steps) = steps := by
  simp [stepsWithin]

/-- The id of the module at names below a root. -/
theorem moduleId_join_ofNames (named : root.text ≠ "") (ok : AreNames names) :
    moduleId root (root.join ⟨ofNames names⟩) = ofNames names := by
  rw [moduleId, components_join_ofNames named ok, stepsWithin_append, idText_names]

theorem normalised_ofNames (ok : AreNames names) : normalised (ofNames names) = ofNames names := by
  have none : (Path.mk "").components = [] := rfl
  rw [normalised, moduleId, none, components_ofNames ok]
  exact (congrArg idText (stepsWithin_append [] _)).trans idText_names

/-! ## Absolute paths -/

theorem ne_empty_of_isAbsolute (absolute : base.isAbsolute = true) : base.text ≠ "" := by
  intro none
  simp [isAbsolute, none] at absolute

theorem pieces_of_isAbsolute (absolute : p.isAbsolute = true) : ∃ rest, p.pieces = [] :: rest := by
  unfold isAbsolute at absolute
  cases shape : p.text.toList with
  | nil => simp [shape] at absolute
  | cons c cs =>
    have slash : c = '/' := by simpa [shape] using absolute
    rw [Path.pieces, shape, slash]
    exact ⟨piecesAt '/' cs, piecesAt_append '/' [] cs⟩

theorem idPart?_ofPiece (piece : List Char) : (Component.ofPiece piece).idPart? = some piece := by
  unfold Component.ofPiece
  split
  · rename_i up
    rw [up]
    rfl
  · simp [Component.idPart?]

theorem ofPiece_injective : Function.Injective Component.ofPiece := fun piece other same => by
  have parts := congrArg Component.idPart? same
  rwa [idPart?_ofPiece, idPart?_ofPiece, Option.some.injEq] at parts

theorem idText_of_head_root (steps : List Component) :
    (idText (.root :: steps)).toList.head? = some '/' := by
  simp [idText]

theorem toList_idText_map (parts : List (List Char)) :
    (idText (parts.map .ofPiece)).toList = joinWith '/' parts := by
  have back : (parts.map Component.ofPiece).filterMap Component.idPart? = parts := by
    induction parts with
    | nil => rfl
    | cons piece rest ih => simp [idPart?_ofPiece, ih]
  have start : (parts.map Component.ofPiece).head? ≠ some .root := by
    cases parts with
    | nil => simp
    | cons piece rest =>
      simp only [List.map_cons, List.head?_cons, ne_eq, Option.some.injEq]
      intro root
      have none := idPart?_ofPiece piece
      simp [root, Component.idPart?] at none
  rw [idText, back]
  simp only [start, if_false, String.toList_ofList]

/-- A module whose id consists of names has the steps of the root and then those names. -/
theorem pieces_of_moduleId (rootAbsolute : root.isAbsolute = true) (absolute : p.isAbsolute = true)
    (ok : AreNames names) (same : moduleId root p = ofNames names) :
    p.pieces.filter (!isIdle ·) = root.pieces.filter (!isIdle ·) ++ names.map (·.toList) := by
  obtain ⟨rest, cut⟩ := pieces_of_isAbsolute absolute
  obtain ⟨rootRest, rootCut⟩ := pieces_of_isAbsolute rootAbsolute
  have steps : p.components = .root :: laterComponents rest := by
    rw [components_eq cut, absolute]
    rfl
  have rootSteps : root.components = .root :: laterComponents rootRest := by
    rw [components_eq rootCut, rootAbsolute]
    rfl
  unfold moduleId stepsWithin at same
  split at same
  · rename_i inside
    obtain ⟨tail, joined⟩ := List.isPrefixOf_iff_prefix.mp inside
    have within : laterComponents rest = laterComponents rootRest ++ tail := by
      rw [steps, rootSteps] at joined
      simpa using joined.symm
    obtain ⟨front, back, parts, frontParts, backParts⟩ := List.map_eq_append_iff.mp within
    have front_eq : front = rootRest.filter (!isIdle ·) := (List.map_inj_right ofPiece_injective).mp frontParts
    rw [← joined, List.drop_left, ← backParts] at same
    have joinedNames : joinWith '/' back = joinWith '/' (names.map (·.toList)) := by
      rw [← toList_idText_map, same, toList_ofNames]
    have filled : back ≠ [] := by
      rintro rfl
      exact ok.toList_ne_nil (by rw [toList_ofNames, ← joinedNames]; rfl)
    have clean : ∀ part ∈ back, '/' ∉ part := fun part member => by
      have kept : part ∈ rest.filter (!isIdle ·) := parts ▸ List.mem_append_right _ member
      exact not_mem_of_mem_piecesAt (cut ▸ List.mem_cons_of_mem _ (List.mem_filter.mp kept).1)
    have back_eq := joinWith_injective filled clean ok.parts_ne_nil ok.parts_clean joinedNames
    rw [cut, rootCut, List.filter_cons_of_neg (by decide), List.filter_cons_of_neg (by decide), parts,
      front_eq, back_eq]
  · exfalso
    rw [steps] at same
    exact ok.head_ne_slash (same ▸ idText_of_head_root _)

end Path
end ModuleGraph
