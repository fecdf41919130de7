import Mathlib.Data.List.Induction
import ModuleGraph.Proofs.Resolution.Decision
import ModuleGraph.Proofs.Resolution.Likeness

/-!
What a memory answers, call by call, while the file system may change. The first call with a key that succeeds decides
what later calls with that key are told, and a call that fails leaves no trace (`Memo.reply_eq`,
`Memo.reply_of_failure`). As long as the file system stays as it is, this is what a search would find
(`Memo.reply_exact`), but a search can fail where a path is written too long (`Memo.reply_spread`).
-/
namespace ModuleGraph
open ModuleGraph.Path Text

/-- Calls of a resolver, each with the file system at its time. -/
abbrev History : Type := List (FileSystem × Query)

namespace Memo

/-- What is remembered after more calls. -/
def after (search : SearchPath) (memo : Memo) (past : History) : Memo :=
  past.foldl (fun memo call => (memo.resolve call.1 search call.2).2) memo

/-- The answer to a call after other calls. -/
def reply (search : SearchPath) (past : History) (fs : FileSystem) (q : Query) : Except ResolutionError Resolution :=
  ((after search [] past).resolve fs search q).1

/-- More calls and what each of them is told. -/
def log (search : SearchPath) : Memo → History → List (Query × Except ResolutionError Resolution)
  | _, [] => []
  | memo, call :: rest =>
    (call.2, (memo.resolve call.1 search call.2).1) :: log search (memo.resolve call.1 search call.2).2 rest

/-- The first answer that was given to a call with the key of a query. -/
def given? (search : SearchPath) (past : History) (q : Query) : Option Resolution :=
  (log search [] past).findSome? fun told => if told.1.key = q.key then told.2.toOption else none

variable {fs : FileSystem} {search : SearchPath} {past later : History} {memo : Memo} {q q' : Query}
  {found : Resolution} {e : ResolutionError}

/-! ## Keys -/

theorem sameQuery_iff : sameQuery q q' = true ↔ q.key = q'.key := by
  simp only [sameQuery, Query.key, Bool.and_eq_true, beq_iff_eq, Prod.mk.injEq, and_assoc]
  exact and_congr_right fun _ => and_comm

theorem find?_congr (key : q.key = q'.key) : memo.find? q = memo.find? q' := by
  have same : (fun entry : Query × Resolution => sameQuery entry.1 q) = fun entry => sameQuery entry.1 q' := by
    funext entry
    rw [Bool.eq_iff_iff, sameQuery_iff, sameQuery_iff, key]
  rw [find?, find?, same]

theorem find?_cons : find? ((q, found) :: memo) q' = if q.key = q'.key then some found else memo.find? q' := by
  rw [find?, List.find?_cons]
  split
  · rename_i same
    rw [if_pos (sameQuery_iff.mp same)]
    rfl
  · rename_i other
    rw [if_neg (mt sameQuery_iff.mpr (by simpa using other))]
    rfl

/-! ## One call -/

theorem resolve_of_known (known : memo.find? q = some found) : memo.resolve fs search q = (.ok found, memo) := by
  rw [resolve, known]

theorem resolve_of_found (unknown : memo.find? q = none) (success : Resolution.resolve fs search q = .ok found) :
    memo.resolve fs search q = (.ok found, (q, found) :: memo) := by
  rw [resolve, unknown, success]

theorem resolve_of_failed (unknown : memo.find? q = none) (failed : Resolution.resolve fs search q = .error e) :
    memo.resolve fs search q = (.error e, memo) := by
  rw [resolve, unknown, failed]

/-- A call is told what is remembered, or else what a search finds, which is remembered then, or why it fails. -/
theorem resolve_cases (fs : FileSystem) (search : SearchPath) (memo : Memo) (q : Query) :
    (∃ found, memo.find? q = some found ∧ memo.resolve fs search q = (.ok found, memo)) ∨
    (∃ found, memo.find? q = none ∧ Resolution.resolve fs search q = .ok found ∧
      memo.resolve fs search q = (.ok found, (q, found) :: memo)) ∨
    ∃ e, memo.find? q = none ∧ Resolution.resolve fs search q = .error e ∧
      memo.resolve fs search q = (.error e, memo) := by
  cases known : memo.find? q with
  | some found => exact .inl ⟨found, rfl, resolve_of_known known⟩
  | none =>
    cases searched : Resolution.resolve fs search q with
    | ok found => exact .inr (.inl ⟨found, rfl, rfl, resolve_of_found known searched⟩)
    | error e => exact .inr (.inr ⟨e, rfl, rfl, resolve_of_failed known searched⟩)

/-- A call adds its answer to what is remembered, unless there was one or it has none. -/
theorem find?_resolve (fs : FileSystem) (search : SearchPath) (memo : Memo) (q q' : Query) :
    (memo.resolve fs search q).2.find? q' =
      (memo.find? q').or (if q.key = q'.key then (memo.resolve fs search q).1.toOption else none) := by
  rcases memo.resolve_cases fs search q with ⟨found, known, call⟩ | ⟨found, unknown, -, call⟩ | ⟨e, -, -, call⟩
  · rw [call]
    split
    · rename_i key
      rw [← find?_congr key, known]
      rfl
    · rw [Option.or_none]
  · rw [call, find?_cons]
    split
    · rename_i key
      rw [← find?_congr key, unknown]
      rfl
    · rw [Option.or_none]
  · rw [call]
    split <;> exact Option.or_none.symm

/-! ## Many calls -/

theorem after_concat (memo : Memo) (past : History) (call : FileSystem × Query) :
    after search memo (past ++ [call]) = ((after search memo past).resolve call.1 search call.2).2 :=
  List.foldl_concat _ _ _ _

theorem log_concat (memo : Memo) (past : History) (call : FileSystem × Query) :
    log search memo (past ++ [call]) =
      log search memo past ++ [(call.2, ((after search memo past).resolve call.1 search call.2).1)] := by
  induction past generalizing memo with
  | nil => rfl
  | cons first rest ih => exact congrArg (List.cons _) (ih _)

/-- What is remembered of a query is what was first answered to its key. -/
theorem find?_after (search : SearchPath) (past : History) (q : Query) :
    (after search [] past).find? q = given? search past q := by
  induction past using List.reverseRecOn with
  | nil => rfl
  | append_singleton past call ih =>
    rw [after_concat, find?_resolve, ih, given?, given?, log_concat, List.findSome?_append]
    refine congrArg _ ?_
    rw [List.findSome?_cons, List.findSome?_nil]
    split <;> split <;> simp_all

/-- A call is told what the first call with its key that succeeded was told, or else what a search finds. -/
theorem reply_eq (search : SearchPath) (past : History) (fs : FileSystem) (q : Query) :
    reply search past fs q =
      match given? search past q with
      | some found => .ok found
      | none => Resolution.resolve fs search q := by
  rw [reply, ← find?_after]
  rcases resolve_cases fs search (after search [] past) q with
    ⟨found, known, call⟩ | ⟨found, unknown, searched, call⟩ | ⟨e, unknown, searched, call⟩
  · rw [call, known]
  · rw [call, unknown, searched]
  · rw [call, unknown, searched]

/-- A call that fails leaves no trace. -/
theorem reply_of_failure (failed : reply search past fs q = .error e) (later : History) (fs' : FileSystem)
    (q' : Query) : reply search (past ++ (fs, q) :: later) fs' q' = reply search (past ++ later) fs' q' := by
  have unchanged : ((after search [] past).resolve fs search q).2 = after search [] past := by
    rw [reply] at failed
    rcases resolve_cases fs search (after search [] past) q with
      ⟨found, -, call⟩ | ⟨found, -, -, call⟩ | ⟨e, -, -, call⟩
    · rw [call]
    · rw [call] at failed
      cases failed
    · rw [call]
  have same : after search [] (past ++ (fs, q) :: later) = after search [] (past ++ later) := by
    rw [after, after, List.foldl_append, List.foldl_append, List.foldl_cons]
    exact congrArg (after search · later) unchanged
  rw [reply, reply, same]

/-- What is remembered was found by a call. -/
theorem exists_call_of_mem_after {entry : Query × Resolution} (member : entry ∈ after search [] past) :
    ∃ call ∈ past, call.2 = entry.1 ∧ Resolution.resolve call.1 search call.2 = .ok entry.2 := by
  induction past using List.reverseRecOn with
  | nil => cases member
  | append_singleton past call ih =>
    have earlier (old : entry ∈ after search [] past) : ∃ other ∈ past ++ [call],
        other.2 = entry.1 ∧ Resolution.resolve other.1 search other.2 = .ok entry.2 := by
      obtain ⟨other, listed, right⟩ := ih old
      exact ⟨other, List.mem_append_left _ listed, right⟩
    rw [after_concat] at member
    rcases resolve_cases call.1 search (after search [] past) call.2 with
      ⟨found, -, told⟩ | ⟨found, -, searched, told⟩ | ⟨e, -, -, told⟩
    · rw [told] at member
      exact earlier member
    · rw [told] at member
      rcases List.mem_cons.mp member with rfl | old
      · exact ⟨call, List.mem_append_right _ List.mem_cons_self, rfl, searched⟩
      · exact earlier old
    · rw [told] at member
      exact earlier member

/-- What was answered first to a key was found by a call with that key. -/
theorem exists_call_of_given (given : given? search past q = some found) :
    ∃ call ∈ past, call.2.key = q.key ∧ Resolution.resolve call.1 search call.2 = .ok found := by
  rw [← find?_after, find?, Option.map_eq_some_iff] at given
  obtain ⟨entry, first, rfl⟩ := given
  obtain ⟨call, listed, same, searched⟩ := exists_call_of_mem_after (List.mem_of_find?_eq_some first)
  refine ⟨call, listed, ?_, searched⟩
  rw [same]
  exact sameQuery_iff.mp (by simpa using List.find?_some first)

/-- What a call is told was found by the call itself or by an earlier one with the same key. -/
theorem exists_call_of_reply (told : reply search past fs q = .ok found) :
    ∃ call ∈ past ++ [(fs, q)], call.2.key = q.key ∧ Resolution.resolve call.1 search call.2 = .ok found := by
  rw [reply_eq] at told
  cases given : given? search past q with
  | some known =>
    rw [given] at told
    cases told
    obtain ⟨call, listed, right⟩ := exists_call_of_given given
    exact ⟨call, List.mem_append_left _ listed, right⟩
  | none =>
    rw [given] at told
    exact ⟨(fs, q), List.mem_append_right _ List.mem_cons_self, rfl, told⟩

/-- While the file system stays as it is, a call is told what a search finds, unless the search fails at a path that is
    too long. -/
theorem same_of_unchanged (unchanged : ∀ call ∈ past, call.1 = fs) :
    Resolution.Same (reply search past fs q) (Resolution.resolve fs search q) ∨
      (∃ found, given? search past q = some found) ∧
        ∃ path, Resolution.resolve fs search q = .error (.unexaminable path .nameTooLong) ∧
          FileSystem.pathLimit < path.text.utf8ByteSize := by
  rw [reply_eq]
  cases given : given? search past q with
  | none => exact .inl (.refl _)
  | some found =>
    obtain ⟨call, listed, key, searched⟩ := exists_call_of_given given
    rw [unchanged call listed] at searched
    rcases Resolution.resolve_of_key_eq key searched with same | long
    · exact .inl same
    · exact .inr ⟨⟨found, rfl⟩, long⟩

/-- A memory is exact and remembers no failures. A call is told what the first call with its key that succeeded was
    told, or else what a search finds, and after a call that fails all answers are as if it had not been made. While the
    file system stays as it is, every answer is that of a search, unless the search fails at a path that is too long. -/
theorem reply_exact (search : SearchPath) (past : History) (fs : FileSystem) (q : Query) :
    (reply search past fs q =
      match given? search past q with
      | some found => .ok found
      | none => Resolution.resolve fs search q) ∧
    (∀ e later fs' q', reply search past fs q = .error e →
      reply search (past ++ (fs, q) :: later) fs' q' = reply search (past ++ later) fs' q') ∧
    ((∀ call ∈ past, call.1 = fs) →
      Resolution.Same (reply search past fs q) (Resolution.resolve fs search q) ∨
        (∃ found, given? search past q = some found) ∧
          ∃ path, Resolution.resolve fs search q = .error (.unexaminable path .nameTooLong) ∧
            FileSystem.pathLimit < path.text.utf8ByteSize) :=
  ⟨reply_eq search past fs q, fun _ later fs' q' failed => reply_of_failure failed later fs' q', same_of_unchanged⟩

/-! ## Slashes -/

/-- The directory of a directory, written with slashes in a row. -/
def spread (slashes : Nat) (cs : List Char) : Path := ⟨String.ofList ('p' :: '/' :: (List.replicate slashes '/' ++ cs))⟩

private theorem pieces_replicate (slashes : Nat) (cs : List Char) :
    piecesAt '/' (List.replicate slashes '/' ++ cs) = List.replicate slashes [] ++ piecesAt '/' cs := by
  induction slashes with
  | zero => rfl
  | succ slashes ih => exact congrArg ([] :: ·) ih

private theorem pieces_spread (slashes : Nat) (cs : List Char) :
    (spread slashes cs).pieces = ['p'] :: (List.replicate slashes [] ++ piecesAt '/' cs) := by
  rw [spread, Path.pieces, String.toList_ofList, ← pieces_replicate]
  exact piecesAt_append '/' ['p'] _

private theorem isAbsolute_spread (slashes : Nat) (cs : List Char) : (spread slashes cs).isAbsolute = false := by
  simp [spread, isAbsolute]

private theorem pieces_file : piecesAt '/' "q/a.py".toList = [['q'], "a.py".toList] := by decide

theorem components_spread (slashes : Nat) :
    (spread slashes "q/a.py".toList).components = [.name "p", .name "q", .name "a.py"] := by
  have idle : laterComponents (List.replicate slashes []) = [] := by simp [laterComponents, isIdle]
  rw [components_eq (pieces_spread slashes _), isAbsolute_spread, laterComponents_append, idle, pieces_file]
  decide

theorem parent?_spread (slashes : Nat) : (spread slashes "q/a.py".toList).parent? = some (spread slashes ['q']) := by
  have concat : List.replicate slashes [] ++ [['q'], "a.py".toList] =
      List.replicate slashes [] ++ [['q']] ++ ["a.py".toList] := by simp
  have left : withoutLast (List.replicate slashes [] ++ [['q']] ++ ["a.py".toList]) =
      List.replicate slashes [] ++ [['q']] := by
    rw [withoutLast, dropEndWhile_concat_of_neg (by decide), List.dropLast_concat,
      dropEndWhile_concat_of_neg (by decide)]
  have text : String.ofList (joinWith '/' (['p'] :: (List.replicate slashes [] ++ [['q']]))) =
      (spread slashes ['q']).text := by
    have pieces : (spread slashes ['q']).pieces = ['p'] :: (List.replicate slashes [] ++ [['q']]) :=
      pieces_spread slashes ['q']
    rw [← pieces, Path.pieces, joinWith_piecesAt, String.ofList_toList]
  rw [parent?, pieces_spread, pieces_file, concat]
  simp only [isAbsolute_spread, Bool.false_eq_true, if_false, left, text]
  exact if_pos (by simp [dropEndWhile, isIdle])

private theorem length_le_utf8ByteSize (cs : List Char) : cs.length ≤ (String.ofList cs).utf8ByteSize := by
  induction cs with
  | nil => simp
  | cons c rest ih =>
    have cut : String.ofList (c :: rest) = String.singleton c ++ String.ofList rest := by
      rw [String.singleton_eq_ofList, ← String.ofList_append]
      rfl
    have one := c.utf8Size_pos
    rw [cut, String.utf8ByteSize_append, String.utf8ByteSize_singleton, List.length_cons]
    omega

/-- A module beside a file. -/
private def plain : Query := ⟨"m", some ⟨"p/q/a.py"⟩, 1⟩

/-- The same module beside the same file, whose path is written with slashes in a row. -/
private def crowded (slashes : Nat) : Query := ⟨"m", some (spread slashes "q/a.py".toList), 1⟩

private theorem key_crowded (slashes : Nat) : plain.key = (crowded slashes).key := by
  have components : (Path.mk "p/q/a.py").components = [.name "p", .name "q", .name "a.py"] := by decide
  rw [Query.key, Query.key, plain, crowded, Option.map_some, Option.map_some, components_spread, components]

private theorem join_spread (slashes : Nat) :
    (spread slashes ['q']).join ⟨"m"⟩ = spread slashes "q/m".toList := by
  have filled : (spread slashes ['q']).text ≠ "" := by simp [spread]
  have last : ((spread slashes ['q']).text.toList.getLast? == some '/') = false := by
    simp [spread, List.getLast?_cons, List.getLast?_append]
  rw [join, if_neg (by decide), last, decide_eq_false filled, if_neg (by decide)]
  refine congrArg Path.mk (String.toList_inj.mp ?_)
  simp [spread]

private theorem exists_forms (place : Path) : ∃ rest,
    Resolution.forms "py" "m" place = ⟨(place.join ⟨"m"⟩).text ++ "." ++ "py"⟩ :: rest := ⟨_, rfl⟩

private theorem stat_crowded {slashes : Nat} (many : FileSystem.pathLimit ≤ slashes + 1) :
    FileSystem.stat .empty ⟨((spread slashes ['q']).join ⟨"m"⟩).text ++ "." ++ "py"⟩ = .error .nameTooLong := by
  have text : ((spread slashes ['q']).join ⟨"m"⟩).text ++ "." ++ "py" =
      String.ofList ('p' :: '/' :: (List.replicate slashes '/' ++ "q/m.py".toList)) := by
    rw [join_spread]
    refine String.toList_inj.mp ?_
    simp [spread]
  rw [text]
  refine FileSystem.stat_of_long ?_ (Nat.lt_of_lt_of_le ?_ (length_le_utf8ByteSize _))
  · rw [String.toList_ofList]
    simp
  · simp
    omega

private theorem resolve_crowded {slashes : Nat} (many : FileSystem.pathLimit ≤ slashes + 1) : ∃ path,
    Resolution.resolve .empty ⟨[], "py"⟩ (crowded slashes) = .error (.unexaminable path .nameTooLong) := by
  have placed : Resolution.places? [] (crowded slashes) = some [spread slashes ['q']] := by
    rw [Resolution.places?, crowded]
    simp only [Option.map_some, parent?_spread, Option.getD_some]
    rfl
  obtain ⟨rest, forms⟩ := exists_forms (spread slashes ['q'])
  refine ⟨_, Resolution.resolve_iff_decided.mpr (.failure placed ⟨⟨[], rest, ?_, nofun⟩, ?_⟩ (stat_crowded many))⟩
  · rw [List.flatMap_cons, List.flatMap_nil, List.append_nil]
    exact forms
  · rw [Resolution.Passed, stat_crowded many]
    simp

private theorem stat_empty {path : Path} (start : path.pieces.head? = some ['p'])
    (noNul : '\x00' ∉ path.text.toList) (filled : path.text ≠ "")
    (fits : path.text.utf8ByteSize ≤ FileSystem.pathLimit) : FileSystem.stat .empty path = .error .notFound := by
  obtain ⟨rest, cut⟩ := List.head?_eq_some_iff.mp start
  have named : FileSystem.IsEntryName ['p'] := ⟨by decide, by decide, by decide⟩
  rw [FileSystem.stat, FileSystem.locate, if_neg noNul, if_neg filled, if_neg (Nat.not_lt.mpr fits), cut,
    FileSystem.walk_none named rfl]
  split
  · rename_i found
    split at found <;> cases found
  · rfl
  · rename_i failed
    split at failed <;> cases failed
    rfl

private theorem resolve_plain : Resolution.resolve .empty ⟨[], "py"⟩ plain = .ok .external := by
  have placed : Resolution.places? [] plain = some [⟨"p/q"⟩] := by rfl
  refine Resolution.resolve_iff_decided.mpr (.external placed (fun path member => .inl ?_) (by decide))
  have forms : [⟨"p/q"⟩].flatMap (Resolution.forms "py" "m") =
      [⟨"p/q/m.py"⟩, ⟨"p/q/m/__init__.py"⟩, ⟨"p/q/m.pyd"⟩, ⟨"p/q/m.so"⟩, ⟨"p/q/m.pyc"⟩] := by rfl
  have plainly : ∀ path ∈ [⟨"p/q"⟩].flatMap (Resolution.forms "py" "m"), path.pieces.head? = some ['p'] ∧
      '\x00' ∉ path.text.toList ∧ path.text ≠ "" ∧ path.text.utf8ByteSize ≤ FileSystem.pathLimit := by
    rw [forms]
    decide
  obtain ⟨start, noNul, filled, fits⟩ := plainly path member
  exact stat_empty start noNul filled fits

/-- The second of two calls with one key is told what the first one was told, though a search would fail, as the path
    of its file is written with too many slashes. -/
theorem reply_spread :
    reply ⟨[], "py"⟩ [(.empty, ⟨"m", some ⟨"p/q/a.py"⟩, 1⟩)] .empty ⟨"m", some (spread 4094 "q/a.py".toList), 1⟩ =
      .ok .external ∧
    (∃ path, Resolution.resolve .empty ⟨[], "py"⟩ ⟨"m", some (spread 4094 "q/a.py".toList), 1⟩ =
      .error (.unexaminable path .nameTooLong)) ∧
    ¬Resolution.Same
      (reply ⟨[], "py"⟩ [(.empty, ⟨"m", some ⟨"p/q/a.py"⟩, 1⟩)] .empty ⟨"m", some (spread 4094 "q/a.py".toList), 1⟩)
      (Resolution.resolve .empty ⟨[], "py"⟩ ⟨"m", some (spread 4094 "q/a.py".toList), 1⟩) := by
  have told : reply ⟨[], "py"⟩ [(.empty, plain)] .empty (crowded 4094) = .ok .external := by
    have known : (after ⟨[], "py"⟩ [] [(.empty, plain)]).find? (crowded 4094) = some .external := by
      have first : after ⟨[], "py"⟩ [] [(.empty, plain)] = [(plain, .external)] :=
        congrArg Prod.snd (resolve_of_found rfl resolve_plain)
      rw [first, find?_cons, if_pos (key_crowded 4094)]
    rw [reply, resolve_of_known known]
  obtain ⟨path, failed⟩ := resolve_crowded (show FileSystem.pathLimit ≤ 4094 + 1 by decide)
  refine ⟨told, ⟨path, failed⟩, fun same => ?_⟩
  have differ : ¬Resolution.Same (.ok .external) (.error (.unexaminable path .nameTooLong)) := by
    rintro ⟨⟩
  rw [← told, ← failed] at differ
  exact differ same

end Memo
end ModuleGraph
