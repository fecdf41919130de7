import ModuleGraph.Proofs.FileSystem.Flat
import ModuleGraph.Proofs.Resolution.Decision
import ModuleGraph.Proofs.Resolution.Memory

/-!
Imports stay below the directories that they start from. A step up takes the last component away, so a relative import
starts as many steps above its directory as there are (`Path.up?_min_depth`). The forms of a module add nothing but
names to the components of a directory (`Resolution.spells_of_mem_forms`). So whatever an import is resolved to, from
memory or not, lies strictly below a root or that directory (`Memo.contained_of_reply`).
-/
namespace ModuleGraph
open ModuleGraph.Path Text

namespace Path
variable {p above base place : Path} {name text : String} {step : List Char}

/-! ## Steps up -/

/-- The number of components of a path, the root aside. -/
def depth (p : Path) : Nat :=
  match p.components with
  | .root :: steps => steps.length
  | steps => steps.length

/-- The path some steps up, if there are as many. -/
def up? (steps : Nat) (p : Path) : Option Path := (·.bind Path.parent?)^[steps] (some p)

theorem depth_of_parent?_eq_none (top : p.parent? = none) : p.depth = 0 := by
  rcases parent?_eq_none_iff.mp top with none | root
  · rw [depth, none]
    rfl
  · rw [depth, root]
    rfl

theorem depth_of_parent?_eq_some (found : p.parent? = some above) : p.depth = above.depth + 1 := by
  have inner : ¬(p.components = [] ∨ p.components = [.root]) := by
    rw [← parent?_eq_none_iff, found]
    nofun
  obtain ⟨filled, deep⟩ := not_or.mp inner
  obtain ⟨first, rest, shape⟩ := List.exists_cons_of_ne_nil filled
  rw [shape] at deep
  rw [depth, depth, components_parent? found, shape]
  by_cases single : rest = []
  · subst single
    cases first with
    | root => exact absurd rfl deep
    | _ => rfl
  · have shorter : rest.length = rest.dropLast.length + 1 := by
      have some := List.length_pos_iff.mpr single
      rw [List.length_dropLast]
      omega
    rw [List.dropLast_cons_of_ne_nil single]
    cases first with
    | root => exact shorter
    | _ => exact congrArg Nat.succ shorter

/-- The directory that is reached by steps up that stay at the top is that as many steps up as there are. -/
theorem up?_min_depth (steps : Nat) (p : Path) : up? (min steps p.depth) p = some (upOrStay^[steps] p) := by
  induction steps generalizing p with
  | zero => rw [Nat.zero_min]; rfl
  | succ steps ih =>
    cases found : p.parent? with
    | none =>
      have stays : upOrStay p = p := by rw [upOrStay, found, Option.getD_none]
      rw [depth_of_parent?_eq_none found, Nat.min_zero, Function.iterate_fixed stays]
      rfl
    | some above =>
      have step : upOrStay p = above := by rw [upOrStay, found, Option.getD_some]
      rw [depth_of_parent?_eq_some found, Nat.succ_min_succ, up?, Function.iterate_succ_apply,
        Function.iterate_succ_apply, Option.bind_some, found, step]
      exact ih above

/-! ## Steps down -/

/-- Joining a step adds its component, also to the empty path. -/
theorem components_join_step (solid : isIdle step = false) (clean : '/' ∉ step) (base : Path) :
    (base.join ⟨String.ofList step⟩).components = base.components ++ [.ofPiece step] := by
  have pieces : (Path.mk (String.ofList step)).pieces = [step] := by
    rw [Path.pieces, String.toList_ofList, piecesAt_of_not_mem clean]
  have relative : (Path.mk (String.ofList step)).isAbsolute = false := by
    rw [isAbsolute, String.toList_ofList, beq_eq_false_iff_ne]
    exact fun slash => clean (List.mem_of_head? slash)
  by_cases named : base.text = ""
  · have alone : base.join ⟨String.ofList step⟩ = ⟨String.ofList step⟩ := by
      simp [join, relative, named]
    have none : base.components = [] := by
      obtain ⟨text⟩ := base
      cases named
      rfl
    rw [isIdle, Bool.or_eq_false_iff, beq_eq_false_iff_ne, beq_eq_false_iff_ne] at solid
    rw [alone, none, components_eq pieces, relative]
    simp [firstComponents, solid, laterComponents]
  · rw [components_join named relative, pieces]
    simp [laterComponents, solid]

/-- A name that is neither empty nor dots and has no slash. -/
structure IsPlain (name : String) : Prop where
  ne_empty : name ≠ ""
  ne_here : name ≠ "."
  ne_up : name ≠ ".."
  no_slash : '/' ∉ name.toList

theorem IsPlain.components_join (plain : IsPlain name) (base : Path) :
    (base.join ⟨name⟩).components = base.components ++ [.name name] := by
  have solid : isIdle name.toList = false := by
    rw [isIdle, Bool.or_eq_false_iff, beq_eq_false_iff_ne, beq_eq_false_iff_ne]
    exact ⟨fun none => plain.ne_empty (String.toList_inj.mp none), fun here => plain.ne_here (String.toList_inj.mp here)⟩
  have step : Component.ofPiece name.toList = .name name := by
    have level : name.toList ≠ ['.', '.'] := fun up => plain.ne_up (String.toList_inj.mp up)
    rw [Component.ofPiece, if_neg level, String.ofList_toList]
  have joined := components_join_step solid plain.no_slash base
  rwa [String.ofList_toList, step] at joined

/-- A name that does not start with a dot is plain. -/
theorem isPlain_of_head? (filled : name ≠ "") (noDot : name.toList.head? ≠ some '.') (noSlash : '/' ∉ name.toList) :
    IsPlain name := by
  refine ⟨filled, ?_, ?_, noSlash⟩ <;>
  · rintro rfl
    exact noDot rfl

theorem components_foldl_join {names : List String} (plain : ∀ name ∈ names, IsPlain name) (base : Path) :
    (names.foldl (fun path name => path.join ⟨name⟩) base).components = base.components ++ names.map .name := by
  induction names generalizing base with
  | nil => simp
  | cons name rest ih =>
    have first := (plain name List.mem_cons_self).components_join base
    rw [List.foldl_cons, ih (fun other member => plain other (List.mem_cons_of_mem _ member)), first]
    simp

/-- A text behind a joined name belongs to that name. -/
theorem append_join (filled : name ≠ "") (base : Path) (text : String) :
    (⟨(base.join ⟨name⟩).text ++ text⟩ : Path) = base.join ⟨name ++ text⟩ := by
  have some : name.toList ≠ [] := by simpa using filled
  have absolute : (Path.mk (name ++ text)).isAbsolute = (Path.mk name).isAbsolute := by
    rw [isAbsolute, isAbsolute, String.toList_append, List.head?_append_of_ne_nil _ some]
  unfold join
  rw [absolute]
  split
  · rfl
  · split <;> simp [String.append_assoc]

end Path

namespace Resolution
variable {fs : FileSystem} {search : SearchPath} {q : Query} {path place base : Path} {extension modulePath : String}

/-! ## Forms -/

/-- The parts of a module that are not empty. -/
def parts (modulePath : String) : List String :=
  ((modulePath.toList.splitOn '.').filter (· ≠ [])).map String.ofList

/-- What the forms of a module have behind its parts. -/
def endings (extension : String) : List String :=
  ["." ++ extension, "/__init__." ++ extension, ".pyd", ".so", ".pyc"]

/-- Plain names that spell the parts of a module and one of the endings. -/
structure Spells (extension modulePath : String) (names : List String) : Prop where
  ne_nil : names ≠ []
  plain : ∀ name ∈ names, IsPlain name
  spelled : ∃ ending ∈ endings extension, ofNames names = ofNames (parts modulePath) ++ ending

theorem plain_of_mem_parts (noSlash : '/' ∉ modulePath.toList) {part : String} (member : part ∈ parts modulePath) :
    part ≠ "" ∧ part.toList.head? ≠ some '.' ∧ '/' ∉ part.toList := by
  obtain ⟨piece, kept, rfl⟩ := List.mem_map.mp member
  obtain ⟨cut, filled⟩ := List.mem_filter.mp kept
  rw [← piecesAt_eq_splitOn] at cut
  rw [String.toList_ofList]
  refine ⟨?_, fun dot => ?_, fun slash => noSlash (subset_of_mem_pieces cut slash)⟩
  · simpa using filled
  · exact not_mem_of_mem_piecesAt cut (List.mem_of_head? dot)

theorem ofNames_append_last (front : List String) (last ending : String) :
    ofNames (front ++ [last ++ ending]) = ofNames (front ++ [last]) ++ ending := by
  by_cases alone : front = []
  · simp [alone, ofNames_singleton]
  · simp only [ofNames_concat alone, String.append_assoc]

/-- An ending behind the last part of a module. -/
private theorem spells_of_dotted {ending : String} (noSlash : '/' ∉ modulePath.toList) (filled : parts modulePath ≠ [])
    (listed : ending ∈ endings extension) (clean : '/' ∉ ending.toList) (place : Path) :
    ∃ names, Spells extension modulePath names ∧
      Path.components ⟨((parts modulePath).foldl (fun path part => path.join ⟨part⟩) place).text ++ ending⟩ =
        place.components ++ names.map .name := by
  have each (part : String) (member : part ∈ parts modulePath) := plain_of_mem_parts noSlash member
  obtain none | ⟨front, last, shape⟩ := List.eq_nil_or_concat' (parts modulePath)
  · exact absurd none filled
  rw [shape] at each ⊢
  obtain ⟨some, noDot, noSlash'⟩ := each last (List.mem_append_right _ List.mem_cons_self)
  have extended : IsPlain (last ++ ending) := by
    refine isPlain_of_head? ?_ ?_ ?_
    · simp [some]
    · rw [String.toList_append, List.head?_append_of_ne_nil _ (by simpa using some)]
      exact noDot
    · rw [String.toList_append, List.mem_append]
      exact not_or.mpr ⟨noSlash', clean⟩
  have before : ∀ part ∈ front, IsPlain part := by
    intro part member
    obtain ⟨some, noDot, noSlash'⟩ := each part (List.mem_append_left _ member)
    exact isPlain_of_head? some noDot noSlash'
  refine ⟨front ++ [last ++ ending], ⟨by simp, ?_, ending, listed, ?_⟩, ?_⟩
  · intro name member
    rcases List.mem_append.mp member with early | late
    · exact before name early
    · rw [List.mem_singleton.mp late]
      exact extended
  · rw [shape, ofNames_append_last]
  · rw [List.foldl_concat, append_join some, extended.components_join, components_foldl_join before]
    simp

/-- The file of a package. -/
private theorem spells_of_package (noSlash : '/' ∉ modulePath.toList) (filled : parts modulePath ≠ [])
    (clean : '/' ∉ extension.toList) (place : Path) :
    ∃ names, Spells extension modulePath names ∧
      (((parts modulePath).foldl (fun path part => path.join ⟨part⟩) place).join
        ⟨"__init__." ++ extension⟩).components = place.components ++ names.map .name := by
  have start : ("__init__." ++ extension).toList = '_' :: ("_init__.".toList ++ extension.toList) := by
    rw [String.toList_append]
    rfl
  have package : IsPlain ("__init__." ++ extension) := by
    refine isPlain_of_head? (by simp) ?_ ?_
    · rw [start]
      simp
    · rw [start]
      simpa using clean
  have before : ∀ part ∈ parts modulePath, IsPlain part := by
    intro part member
    obtain ⟨some, noDot, noSlash'⟩ := plain_of_mem_parts noSlash member
    exact isPlain_of_head? some noDot noSlash'
  refine ⟨parts modulePath ++ ["__init__." ++ extension],
    ⟨by simp, ?_, "/__init__." ++ extension, by simp [endings], ?_⟩, ?_⟩
  · intro name member
    rcases List.mem_append.mp member with early | late
    · exact before name early
    · rw [List.mem_singleton.mp late]
      exact package
  · have slash : "/__init__." ++ extension = "/" ++ ("__init__." ++ extension) := by
      rw [← String.append_assoc]
      rfl
    rw [ofNames_concat filled, slash, String.append_assoc]
  · rw [package.components_join, components_foldl_join before]
    simp

/-- The forms of a module in a directory lie strictly below it. -/
theorem spells_of_mem_forms (noSlash : '/' ∉ modulePath.toList) (filled : parts modulePath ≠ [])
    (noSlash' : '/' ∉ extension.toList) (member : path ∈ forms extension modulePath place) :
    ∃ names, Spells extension modulePath names ∧ path.components = place.components ++ names.map .name := by
  have stem : ((modulePath.toList.splitOn '.').filter (· ≠ [])).foldl
      (fun path part => path.join ⟨String.ofList part⟩) place =
        (parts modulePath).foldl (fun path part => path.join ⟨part⟩) place := by
    rw [parts, List.foldl_map]
  rw [forms, stem] at member
  simp only [List.mem_cons, List.not_mem_nil, or_false] at member
  rcases member with rfl | rfl | rfl | rfl | rfl
  · rw [String.append_assoc]
    exact spells_of_dotted noSlash filled (by simp [endings]) (by simpa using noSlash') place
  · exact spells_of_package noSlash filled noSlash' place
  · exact spells_of_dotted noSlash filled (by simp [endings]) (by decide) place
  · exact spells_of_dotted noSlash filled (by simp [endings]) (by decide) place
  · exact spells_of_dotted noSlash filled (by simp [endings]) (by decide) place

/-! ## Answers -/

/-- The directories that an import starts from. -/
inductive Start (search : SearchPath) (q : Query) : Path → Prop
  | root {base : Path} (absolute : q.level = 0) (known : base ∈ search.roots) : Start search q base
  | directory {source base : Path} (relative : 0 < q.level) (about : q.source = some source)
      (reached : up? (min (q.level - 1) (source.parent?.getD ⟨""⟩).depth) (source.parent?.getD ⟨""⟩) = some base) :
      Start search q base

/-- Where an import may be found from memory, the directory of its own file counts. -/
private theorem exists_start {q' : Query} {places : List Path} (key : q'.key = q.key)
    (placed : places? search.roots q' = some places) (member : place ∈ places) :
    ∃ base, Start search q base ∧ place.components = base.components := by
  obtain ⟨modulePath, sources, level⟩ := q
  obtain ⟨modulePath', sources', level'⟩ := q'
  simp only [Query.key, Prod.mk.injEq] at key
  obtain ⟨rfl, components, rfl⟩ := key
  cases level' with
  | zero =>
    have roots : places = if modulePath' = "" then [] else search.roots := (Option.some.inj placed).symm
    rw [roots] at member
    split at member
    · cases member
    · exact ⟨place, .root rfl member, rfl⟩
  | succ steps =>
    obtain ⟨source', rfl, shape⟩ := Option.map_eq_some_iff.mp placed
    obtain ⟨source, about, same⟩ := Option.map_eq_some_iff.mp components.symm
    rw [← shape, List.mem_singleton] at member
    have alike := relativeBase_alike same.symm (steps + 1)
    rw [relativeBase, relativeBase, ancestor_eq_iterate, ancestor_eq_iterate] at alike
    rw [member]
    exact ⟨_, .directory (Nat.succ_pos steps) about (up?_min_depth steps _), alike.components_eq⟩

end Resolution

/-- Whatever an import is resolved to, it lies strictly below a root or the directory that a relative import starts
    from, at names that spell the parts of its module and an ending. -/
theorem Memo.contained_of_reply {search : SearchPath} {past : History} {fs : FileSystem} {q : Query} {path : Path}
    (noSlash : '/' ∉ q.modulePath.toList) (filled : ∃ part ∈ q.modulePath.toList.splitOn '.', part ≠ [])
    (noSlash' : '/' ∉ search.extension.toList) (told : reply search past fs q = .ok (.resolved path)) :
    ∃ base names, Resolution.Start search q base ∧ Resolution.Spells search.extension q.modulePath names ∧
      path.components = base.components ++ names.map .name := by
  obtain ⟨call, -, key, searched⟩ := exists_call_of_reply told
  obtain ⟨listed, made, member, -⟩ := Resolution.candidate_of_resolved searched
  have same : call.2.modulePath = q.modulePath := congrArg Prod.fst key
  have filled' : Resolution.parts q.modulePath ≠ [] := by
    obtain ⟨part, cut, some⟩ := filled
    have kept : part ∈ (q.modulePath.toList.splitOn '.').filter (· ≠ []) :=
      List.mem_filter.mpr ⟨cut, by simpa using some⟩
    exact List.ne_nil_of_mem (List.mem_map_of_mem kept)
  rw [Resolution.candidatesOf_eq] at made
  cases placed : Resolution.places? search.roots call.2 with
  | none =>
    rw [placed] at made
    cases made
  | some places =>
    rw [placed] at made
    cases made
    obtain ⟨place, known, inside⟩ := List.mem_flatMap.mp member
    rw [same] at inside
    obtain ⟨base, start, components⟩ := Resolution.exists_start key placed known
    obtain ⟨names, spells, below⟩ := Resolution.spells_of_mem_forms noSlash filled' noSlash' inside
    exact ⟨base, names, start, spells, by rw [below, components]⟩

/-- A module. -/
private def loneFile : OrderedMap String (List UInt8) := .ofList [("b.py", [])]

/-- An import with more dots than there are directories. -/
private def distant : Query := ⟨"p.b", some ⟨"/p/a.py"⟩, 7⟩

private theorem resolve_distant :
    Resolution.resolve (.flat loneFile) ⟨[], "py"⟩ distant = .ok (.resolved ⟨"/p/b.py"⟩) := by
  have placed : Resolution.places? [] distant = some [⟨"/"⟩] := by decide
  have proper : ∀ name ∈ loneFile.keys, IsName name ∧ name.utf8ByteSize ≤ FileSystem.nameLimit := by decide
  have read : (FileSystem.flat loneFile).read ⟨"/p/b.py"⟩ = .ok [] :=
    FileSystem.read_flat "b.py" proper rfl (by decide)
  obtain ⟨loc, located⟩ := FileSystem.read_eq_ok_iff.mp read
  have stands := FileSystem.stat_eq_ok_iff.mpr located
  refine Resolution.resolve_iff_decided.mpr (.file placed ⟨⟨[], _, rfl, nofun⟩, ?_⟩ stands)
  rw [Resolution.Passed, stands]
  simp

/-- A file that was found stays below the top directory when it is gone. -/
theorem Memo.contained_of_reply_distant :
    '/' ∉ "p.b".toList ∧ (∃ part ∈ "p.b".toList.splitOn '.', part ≠ []) ∧ '/' ∉ "py".toList ∧
    Memo.reply ⟨[], "py"⟩ [(.flat loneFile, distant)] .empty distant = .ok (.resolved ⟨"/p/b.py"⟩) ∧
    ∃ base names, Resolution.Start ⟨[], "py"⟩ distant base ∧ Resolution.Spells "py" "p.b" names ∧
      (Path.mk "/p/b.py").components = base.components ++ names.map .name := by
  have noSlash : '/' ∉ "p.b".toList := by decide
  have filled : ∃ part ∈ "p.b".toList.splitOn '.', part ≠ [] := ⟨['p'], by decide, by decide⟩
  have noSlash' : '/' ∉ "py".toList := by decide
  have told : reply ⟨[], "py"⟩ [(.flat loneFile, distant)] .empty distant = .ok (.resolved ⟨"/p/b.py"⟩) := by
    have first : after ⟨[], "py"⟩ [] [(.flat loneFile, distant)] = [(distant, .resolved ⟨"/p/b.py"⟩)] :=
      congrArg Prod.snd (resolve_of_found rfl resolve_distant)
    have known : find? [(distant, .resolved ⟨"/p/b.py"⟩)] distant = some (.resolved ⟨"/p/b.py"⟩) := by
      rw [find?_cons, if_pos rfl]
    rw [reply, first, resolve_of_known known]
  exact ⟨noSlash, filled, noSlash', told, contained_of_reply noSlash filled noSlash' told⟩

end ModuleGraph
