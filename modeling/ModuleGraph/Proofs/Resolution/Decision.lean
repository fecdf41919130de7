import Mathlib.Logic.Function.Iterate
import ModuleGraph.Proofs.Resolution

/-!
The first decisive candidate. A search goes through the places of a module in order, the roots or the one directory
that a relative import starts from (`places?`), and through five forms at each of them (`forms`). It passes over what
is missing or a directory and ends with the first file or the first failure (`exists_first`), so what an import is
resolved to is decided by the places, the forms and what stands there (`resolve_eq_iff_decided`).
-/
namespace ModuleGraph

/-! ## Places -/

/-- The directory above a directory, or the directory itself where there is none. -/
def Path.upOrStay (dir : Path) : Path := dir.parent?.getD dir

namespace Resolution
open ModuleGraph.Path Text

/-- The directories that a module is looked up in, in order. A relative import has none without a source file. -/
def places? (roots : List Path) (q : Query) : Option (List Path) :=
  match q.level with
  | 0 => some (if q.modulePath = "" then [] else roots)
  | steps + 1 => q.source.map fun source => [upOrStay^[steps] (source.parent?.getD ⟨""⟩)]

/-- What a module may be in a directory, in order. -/
def forms (extension modulePath : String) (place : Path) : List Path :=
  let parts := (modulePath.toList.splitOn '.').filter (· ≠ [])
  let stem := parts.foldl (fun path part => path.join ⟨String.ofList part⟩) place
  [⟨stem.text ++ "." ++ extension⟩, stem.join ⟨"__init__." ++ extension⟩,
    ⟨stem.text ++ ".pyd"⟩, ⟨stem.text ++ ".so"⟩, ⟨stem.text ++ ".pyc"⟩]

/-- Nothing stands at a path, or a directory does. -/
def Passed (fs : FileSystem) (path : Path) : Prop :=
  fs.stat path = .error .notFound ∨ fs.stat path = .error .notDirectory ∨ ∃ loc, fs.stat path = .ok (loc, .directory)

/-- The first of some paths that is not passed over. -/
structure First (fs : FileSystem) (listed : List Path) (path : Path) : Prop where
  split : ∃ before after, listed = before ++ path :: after ∧ ∀ other ∈ before, Passed fs other
  stops : ¬Passed fs path

/-- What an import is resolved to. -/
inductive Decided (fs : FileSystem) (roots : List Path) (extension : String) (q : Query) :
    Except ResolutionError Resolution → Prop
  | missingSource (unplaced : places? roots q = none) :
    Decided fs roots extension q (.error (.missingSource q.specifier))
  | file {places path loc bytes} (placed : places? roots q = some places)
      (first : First fs (places.flatMap (forms extension q.modulePath)) path)
      (stands : fs.stat path = .ok (loc, .file bytes)) :
    Decided fs roots extension q (.ok (.resolved path))
  | failure {places path cause} (placed : places? roots q = some places)
      (first : First fs (places.flatMap (forms extension q.modulePath)) path)
      (failed : fs.stat path = .error cause) :
    Decided fs roots extension q (.error (.unexaminable path cause))
  | unresolved {places} (placed : places? roots q = some places)
      (none : ∀ path ∈ places.flatMap (forms extension q.modulePath), Passed fs path)
      (dotted : q.level = 0 ∧ '.' ∈ q.modulePath.toList ∧ q.modulePath.toList.head? ≠ some '.') :
    Decided fs roots extension q (.ok .unresolved)
  | external {places} (placed : places? roots q = some places)
      (none : ∀ path ∈ places.flatMap (forms extension q.modulePath), Passed fs path)
      (other : ¬(q.level = 0 ∧ '.' ∈ q.modulePath.toList ∧ q.modulePath.toList.head? ≠ some '.')) :
    Decided fs roots extension q (.ok .external)

variable {fs : FileSystem} {search : SearchPath} {q : Query} {path place : Path} {listed before after : List Path}
  {answer : Except ResolutionError Resolution}

/-! ## Parts, places and forms -/

theorem piecesAt_eq_splitOn (separator : Char) (cs : List Char) : piecesAt separator cs = cs.splitOn separator := by
  induction cs with
  | nil => rfl
  | cons c rest ih =>
    have cut : piecesAt separator (c :: rest) =
        if c == separator then [] :: piecesAt separator rest else consFirst c (piecesAt separator rest) := rfl
    rw [cut, List.splitOn_cons_eq_if_modifyHead, ← ih]
    obtain ⟨first, others, filled⟩ := List.exists_cons_of_ne_nil (piecesAt_ne_nil separator rest)
    rw [filled]
    rfl

theorem ancestor_eq_iterate (steps : Nat) (place : Path) : ancestor place steps = upOrStay^[steps] place := by
  induction steps generalizing place with
  | zero => rfl
  | succ steps ih =>
    rw [ancestor, Function.iterate_succ_apply]
    split
    · -- At the top every further step stays.
      rename_i above
      have stays : upOrStay place = place := by rw [upOrStay, above, Option.getD_none]
      rw [stays, Function.iterate_fixed stays]
    · rename_i parent above
      rw [ih, upOrStay, above, Option.getD_some]

theorem candidates_eq_forms (extension modulePath : String) (place : Path) :
    candidates extension (joinModule place modulePath) = forms extension modulePath place := by
  have dotted (stem : Path) (name : String) : withExtension stem name = ⟨stem.text ++ ("." ++ name)⟩ := by
    rw [withExtension, String.append_assoc]
  rw [forms, joinModule, moduleParts, piecesAt_eq_splitOn, List.foldl_map, candidates, binaryExtensions]
  simp only [List.map_cons, List.map_nil, dotted, String.append_assoc]
  rfl

theorem toList_specifier (q : Query) :
    q.specifier.toList = List.replicate q.level '.' ++ q.modulePath.toList := String.toList_ofList

theorem isExternal_eq_false_iff : q.isExternal = false ↔
    q.level = 0 ∧ '.' ∈ q.modulePath.toList ∧ q.modulePath.toList.head? ≠ some '.' := by
  unfold Query.isExternal
  rw [toList_specifier]
  cases q.level with
  | zero => simp
  | succ steps => simp [List.replicate_succ]

theorem candidatesOf_eq (search : SearchPath) (q : Query) : candidatesOf search q =
    match places? search.roots q with
    | none => .error (.missingSource q.specifier)
    | some places => .ok (places.flatMap (forms search.extension q.modulePath)) := by
  unfold candidatesOf places?
  cases level : q.level with
  | zero =>
    by_cases none : q.modulePath = ""
    · simp [none]
    · simp [none, candidates_eq_forms]
  | succ steps =>
    cases source : q.source with
    | none => rfl
    | some source => simp [candidates_eq_forms, relativeBase, ancestor_eq_iterate]

/-! ## What decides -/

theorem probe_eq_nothing_iff : probe fs path = .nothing ↔ Passed fs path := by
  unfold probe Passed
  cases stands : fs.stat path with
  | error cause => cases cause <;> simp
  | ok there =>
    obtain ⟨loc, entry⟩ := there
    cases entry with
    | file bytes => simp
    | directory => simp
    | link target => exact absurd rfl ((FileSystem.leads_of_stat stands).2.2.2.ne_link target)

theorem firstFile_append (passed : ∀ other ∈ before, Passed fs other) :
    firstFile fs (before ++ after) = firstFile fs after := by
  induction before with
  | nil => rfl
  | cons first rest ih =>
    have nothing := probe_eq_nothing_iff.mpr (passed first List.mem_cons_self)
    rw [List.cons_append, firstFile, nothing]
    exact ih fun other member => passed other (List.mem_cons_of_mem _ member)

theorem firstFile_of_forall_passed (passed : ∀ path ∈ listed, Passed fs path) : firstFile fs listed = .ok none := by
  rw [← List.append_nil listed, firstFile_append passed]
  rfl

theorem First.firstFile_of_file {loc : Location} {bytes : List UInt8} (first : First fs listed path)
    (stands : fs.stat path = .ok (loc, .file bytes)) : firstFile fs listed = .ok (some path) := by
  obtain ⟨⟨before, after, rfl, passed⟩, -⟩ := first
  have found : probe fs path = .file := by rw [probe, stands]
  rw [firstFile_append passed, firstFile, found]

theorem First.firstFile_of_error {cause : FileError} (first : First fs listed path)
    (failed : fs.stat path = .error cause) : firstFile fs listed = .error (.unexaminable path cause) := by
  obtain ⟨⟨before, after, rfl, passed⟩, stops⟩ := first
  have found : probe fs path = .failed cause := by
    unfold probe
    rw [failed]
    cases cause with
    | notFound => exact absurd (.inl failed) stops
    | notDirectory => exact absurd (.inr (.inl failed)) stops
    | _ => rfl
  rw [firstFile_append passed, firstFile, found]

theorem exists_first (fs : FileSystem) (listed : List Path) :
    (∀ path ∈ listed, Passed fs path) ∨ ∃ path, First fs listed path := by
  induction listed with
  | nil => exact .inl fun _ => nofun
  | cons head rest ih =>
    by_cases passed : Passed fs head
    · rcases ih with none | ⟨path, ⟨before, after, rfl, skipped⟩, stops⟩
      · exact .inl (List.forall_mem_cons.mpr ⟨passed, none⟩)
      · exact .inr ⟨path, ⟨head :: before, after, rfl, List.forall_mem_cons.mpr ⟨passed, skipped⟩⟩, stops⟩
    · exact .inr ⟨head, ⟨[], rest, rfl, fun _ => nofun⟩, passed⟩

/-! ## Search paths -/

private theorem same_comm (p r : Path) : p.same r = r.same p := BEq.comm

private theorem foldl_roots (extra roots : List Path) :
    extra.foldl (fun roots root => if roots.any (·.same root) then roots else roots ++ [root]) roots =
      roots ++ (extra.filter fun root => !roots.any (·.same root)).eraseDupsBy Path.same := by
  induction extra generalizing roots with
  | nil => simp
  | cons root rest ih =>
    rw [List.foldl_cons, ih]
    by_cases known : roots.any (·.same root) = true
    · rw [if_pos known, List.filter_cons_of_neg (by simp [known])]
    · -- What comes later is new if it was new before and is another place.
      have later : rest.filter (fun other => !(roots ++ [root]).any (·.same other)) =
          (rest.filter fun other => !roots.any (·.same other)).filter fun other => other.same root = false := by
        rw [List.filter_filter]
        refine List.filter_congr fun other _ => ?_
        rw [List.any_append, same_comm]
        simp [Bool.and_comm]
      rw [if_neg known, List.filter_cons_of_pos (by simpa using known), List.eraseDupsBy_cons, later,
        List.append_assoc]
      rfl

/-- A project comes first and then its extra roots, each place once. -/
theorem roots_ofRoots (project : Path) (extra : List Path) (extension : String) :
    (SearchPath.ofRoots project extra extension).roots = (project :: extra).eraseDupsBy Path.same := by
  have grown : (SearchPath.ofRoots project extra extension).roots = _ := foldl_roots extra [project]
  have fresh : (extra.filter fun root => !([project].any (·.same root))) =
      extra.filter fun root => root.same project = false := by
    refine List.filter_congr fun root _ => ?_
    rw [List.any_cons, List.any_nil, same_comm]
    simp
  rw [grown, fresh, List.eraseDupsBy_cons]
  rfl

/-! ## The decision -/

private theorem resolve_of_places {places : List Path} (placed : places? search.roots q = some places) :
    resolve fs search q =
      (firstFile fs (places.flatMap (forms search.extension q.modulePath))).map (conclude q) := by
  refine resolve_of_candidatesOf ?_
  rw [candidatesOf_eq, placed]

private theorem resolve_of_no_places (unplaced : places? search.roots q = none) :
    resolve fs search q = .error (.missingSource q.specifier) := by
  refine resolve_of_error ?_
  rw [candidatesOf_eq, unplaced]

private theorem decided_resolve (fs : FileSystem) (search : SearchPath) (q : Query) :
    Decided fs search.roots search.extension q (resolve fs search q) := by
  cases placed : places? search.roots q with
  | none =>
    rw [resolve_of_no_places placed]
    exact .missingSource placed
  | some places =>
    rw [resolve_of_places placed]
    rcases exists_first fs (places.flatMap (forms search.extension q.modulePath)) with passed | ⟨path, first⟩
    · rw [firstFile_of_forall_passed passed, Except.map, conclude]
      cases kind : q.isExternal with
      | false => exact .unresolved placed passed (isExternal_eq_false_iff.mp kind)
      | true => exact .external placed passed fun dotted => by simp [isExternal_eq_false_iff.mpr dotted] at kind
    · cases stands : fs.stat path with
      | error cause =>
        rw [first.firstFile_of_error stands]
        exact .failure placed first stands
      | ok there =>
        obtain ⟨loc, entry⟩ := there
        cases entry with
        | file bytes =>
          rw [first.firstFile_of_file stands]
          exact .file placed first stands
        | directory => exact absurd (.inr (.inr ⟨loc, stands⟩)) first.stops
        | link target => exact absurd rfl ((FileSystem.leads_of_stat stands).2.2.2.ne_link target)

private theorem Decided.resolve_eq (decided : Decided fs search.roots search.extension q answer) :
    resolve fs search q = answer := by
  cases decided with
  | missingSource unplaced => exact resolve_of_no_places unplaced
  | file placed first stands =>
    rw [resolve_of_places placed, first.firstFile_of_file stands]
    rfl
  | failure placed first failed =>
    rw [resolve_of_places placed, first.firstFile_of_error failed]
    rfl
  | unresolved placed passed dotted =>
    rw [resolve_of_places placed, firstFile_of_forall_passed passed, Except.map, conclude,
      isExternal_eq_false_iff.mpr dotted]
    rfl
  | external placed passed other =>
    have kind : q.isExternal = true := by
      rw [← Bool.not_eq_false]
      exact fun inside => other (isExternal_eq_false_iff.mp inside)
    rw [resolve_of_places placed, firstFile_of_forall_passed passed, Except.map, conclude, kind]
    rfl

theorem resolve_iff_decided :
    resolve fs search q = answer ↔ Decided fs search.roots search.extension q answer := by
  constructor
  · rintro rfl
    exact decided_resolve fs search q
  · exact Decided.resolve_eq

theorem places?_eq_none_iff (roots : List Path) : places? roots q = none ↔ 0 < q.level ∧ q.source = none := by
  unfold places?
  cases q.level <;> simp

/-- What an import is resolved to is the first file of its candidates, unless one before it cannot be examined. A
    relative import without a source file is an error, and that a file is missing is none. -/
theorem resolve_eq_iff_decided (fs : FileSystem) (project : Path) (extra : List Path) (extension : String)
    (q : Query) :
    (∀ answer, resolve fs (.ofRoots project extra extension) q = answer ↔
      Decided fs ((project :: extra).eraseDupsBy Path.same) (dropLeadingDots extension) q answer) ∧
    ((∃ specifier, resolve fs (.ofRoots project extra extension) q = .error (.missingSource specifier)) ↔
      0 < q.level ∧ q.source = none) ∧
    ¬∃ path cause, resolve fs (.ofRoots project extra extension) q = .error (.unexaminable path cause) ∧
      (cause = .notFound ∨ cause = .notDirectory) := by
  refine ⟨fun answer => ?_, ?_, ?_⟩
  · rw [← roots_ofRoots project extra extension]
    exact resolve_iff_decided
  · rw [← places?_eq_none_iff (SearchPath.ofRoots project extra extension).roots]
    constructor
    · rintro ⟨specifier, failed⟩
      cases resolve_iff_decided.mp failed with
      | missingSource unplaced => exact unplaced
    · intro unplaced
      exact ⟨_, resolve_iff_decided.mpr (.missingSource unplaced)⟩
  · rintro ⟨path, cause, failed, missing⟩
    cases resolve_iff_decided.mp failed with
    | failure placed first stands =>
      refine first.stops ?_
      rcases missing with rfl | rfl
      · exact .inl stands
      · exact .inr (.inl stands)

end Resolution
end ModuleGraph
