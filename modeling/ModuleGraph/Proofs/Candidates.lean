import ModuleGraph.Proofs.FileSystem.Location
import ModuleGraph.Proofs.Resolution

/-!
How candidates are written. Roots are paths in normal form without steps up, and so is whatever is made of them:
joining the parts of a module, going to a parent and appending an extension keep that form. So if names and extension
have no slash, an import is always resolved to a straight path (`Resolution.isStraight_of_resolved`).
-/
namespace ModuleGraph
open ModuleGraph.Path Text

namespace Path
variable {p above : Path} {step : List Char}

theorem IsStraight.parent? (straight : p.IsStraight) (found : p.parent? = some above) : above.IsStraight := by
  obtain ⟨steps, ok, level, rfl⟩ := straight
  obtain rfl | ⟨front, last, rfl⟩ := List.eq_nil_or_concat' steps
  · rw [parent?_absolute_nil] at found
    cases found
  · rw [parent?_absolute ok, Option.some.injEq] at found
    exact ⟨front, (areSteps_append_iff.mp ok).1, fun up => level (List.mem_append_left _ up), found.symm⟩

theorem IsStraight.exists_parent (straight : p.IsStraight) (deep : p ≠ ⟨"/"⟩) :
    ∃ above, p.parent? = some above := by
  obtain ⟨steps, ok, -, rfl⟩ := straight
  obtain rfl | ⟨front, last, rfl⟩ := List.eq_nil_or_concat' steps
  · exact absurd rfl deep
  · exact ⟨_, parent?_absolute ok⟩

theorem IsStraight.join (straight : p.IsStraight) (solid : isIdle step = false) (level : step ≠ ['.', '.'])
    (noSlash : '/' ∉ step) : (p.join ⟨String.ofList step⟩).IsStraight := by
  obtain ⟨steps, ok, level', rfl⟩ := straight
  have single : AreSteps [step] := by
    intro other here
    rw [List.mem_singleton.mp here]
    exact ⟨solid, noSlash⟩
  have joined := join_absolute ok single (List.cons_ne_nil step [])
  rw [joinWith] at joined
  refine ⟨steps ++ [step], areSteps_append_iff.mpr ⟨ok, single⟩, ?_, joined⟩
  rw [List.mem_append, List.mem_singleton]
  rintro (up | up)
  · exact level' up
  · exact level up.symm

end Path

namespace Resolution
variable {fs : FileSystem} {search : SearchPath} {q : Query} {path source base : Path} {extension : String}

theorem isStraight_ancestor (straight : base.IsStraight) (steps : Nat) : (ancestor base steps).IsStraight := by
  induction steps generalizing base with
  | zero => exact straight
  | succ steps ih =>
    rw [ancestor]
    split
    · exact straight
    · rename_i above found
      exact ih (straight.parent? found)

theorem isStraight_relativeBase (straight : source.IsStraight) (deep : source ≠ ⟨"/"⟩) (level : Nat) :
    (relativeBase source level).IsStraight := by
  obtain ⟨above, found⟩ := straight.exists_parent deep
  rw [relativeBase, found]
  exact isStraight_ancestor (straight.parent? found) _

theorem isStraight_joinModule {modulePath : String} (straight : base.IsStraight)
    (noSlash : '/' ∉ modulePath.toList) : (joinModule base modulePath).IsStraight := by
  have parts : ∀ part ∈ moduleParts modulePath, isIdle part.toList = false ∧ part.toList ≠ ['.', '.'] ∧
      '/' ∉ part.toList := by
    intro part member
    obtain ⟨piece, kept, rfl⟩ := List.mem_map.mp member
    obtain ⟨cut, filled⟩ := List.mem_filter.mp kept
    have noDot : '.' ∉ piece := not_mem_of_mem_piecesAt cut
    have filled : piece ≠ [] := by simpa using filled
    rw [String.toList_ofList]
    refine ⟨?_, ?_, fun slash => noSlash (subset_of_mem_pieces cut slash)⟩
    · rw [isIdle, Bool.or_eq_false_iff, beq_eq_false_iff_ne, beq_eq_false_iff_ne]
      refine ⟨filled, ?_⟩
      rintro rfl
      simp at noDot
    · rintro rfl
      simp at noDot
  unfold joinModule
  generalize moduleParts modulePath = listed at parts
  induction listed generalizing base with
  | nil => exact straight
  | cons part rest ih =>
    obtain ⟨solid, level, noSlash⟩ := parts part (by simp)
    have joined := straight.join solid level noSlash
    rw [String.ofList_toList] at joined
    exact ih joined fun other later => parts other (by simp [later])

theorem isStraight_withExtension (straight : base.IsStraight) (noSlash : '/' ∉ extension.toList)
    (noDot : extension.toList.head? ≠ some '.') (isFile : fs.isFile (withExtension base extension) = true) :
    (withExtension base extension).IsStraight := by
  obtain ⟨steps, ok, level, rfl⟩ := straight
  have tail : '/' ∉ '.' :: extension.toList := by simpa using noSlash
  obtain rfl | ⟨front, last, rfl⟩ := List.eq_nil_or_concat' steps
  · -- Behind the root itself the extension is a name of its own, and without it a dot is left, which is no file.
    have shape : withExtension (absolute []) extension = absolute ['.' :: extension.toList] := by
      refine congrArg Path.mk (String.toList_inj.mp ?_)
      simp [absolute, joinWith]
    have filled : extension.toList ≠ [] := by
      intro none
      have bare : withExtension (absolute []) extension = ⟨"/."⟩ := by
        rw [shape, none]
        rfl
      rw [bare, FileSystem.isFile, FileSystem.stat_of_idle (by decide) (by decide) (by decide) (by decide)] at isFile
      cases isFile
    refine ⟨_, fun step here => ?_, fun up => ?_, shape⟩
    · rw [List.mem_singleton.mp here]
      exact ⟨by simp [isIdle, filled], tail⟩
    · have dot : extension.toList = ['.'] := by simpa using (List.mem_singleton.mp up).symm
      rw [dot] at noDot
      exact noDot rfl
  · obtain ⟨okFront, okLast⟩ := areSteps_append_iff.mp ok
    obtain ⟨solid, clean⟩ := okLast last (by simp)
    rw [isIdle, Bool.or_eq_false_iff, beq_eq_false_iff_ne, beq_eq_false_iff_ne] at solid
    have shape : withExtension (absolute (front ++ [last])) extension =
        absolute (front ++ [last ++ '.' :: extension.toList]) := by
      have joined := absolute_append front last ("." ++ extension)
      rw [← String.append_assoc, String.toList_append] at joined
      exact joined
    obtain ⟨c, cs, rfl⟩ := List.exists_cons_of_ne_nil solid.1
    refine ⟨_, areSteps_append_iff.mpr ⟨okFront, fun step here => ?_⟩, ?_, shape⟩
    · rw [List.mem_singleton.mp here]
      refine ⟨by simp [isIdle], ?_⟩
      rw [List.mem_append]
      exact not_or.mpr ⟨clean, tail⟩
    · rw [List.mem_append, List.mem_singleton]
      rintro (up | up)
      · exact level (List.mem_append_left _ up)
      · rw [List.cons_append, List.cons.injEq] at up
        cases cs with
        | nil => exact solid.2 (by rw [← up.1])
        | cons second others => simp at up

private theorem isStraight_of_mem_candidates (straight : base.IsStraight) (noSlash : '/' ∉ extension.toList)
    (noDot : extension.toList.head? ≠ some '.') (member : path ∈ candidates extension base)
    (isFile : fs.isFile path = true) : path.IsStraight := by
  rcases List.mem_cons.mp member with rfl | member
  · exact isStraight_withExtension straight noSlash noDot isFile
  rcases List.mem_cons.mp member with rfl | member
  · have name : "__init__." ++ extension = String.ofList ("__init__.".toList ++ extension.toList) := by
      rw [← String.toList_append, String.ofList_toList]
    have start : "__init__.".toList = '_' :: "_init__.".toList := rfl
    rw [name]
    refine straight.join ?_ ?_ ?_
    · simp [isIdle, start]
    · simp [start]
    · rw [List.mem_append]
      exact not_or.mpr ⟨by decide, noSlash⟩
  · obtain ⟨binary, listed, rfl⟩ := List.mem_map.mp member
    have plain : ∀ binary ∈ binaryExtensions, '/' ∉ binary.toList ∧ binary.toList.head? ≠ some '.' := by
      decide
    exact isStraight_withExtension straight (plain binary listed).1 (plain binary listed).2 isFile

/-- From straight roots and files, an import is resolved to a straight path. -/
theorem isStraight_of_resolved (roots : ∀ root ∈ search.roots, root.IsStraight) (about : q.source = some source)
    (straight : source.IsStraight) (deep : source ≠ ⟨"/"⟩) (noSlash : '/' ∉ q.modulePath.toList)
    (noSlash' : '/' ∉ search.extension.toList) (noDot : search.extension.toList.head? ≠ some '.')
    (found : resolve fs search q = .ok (.resolved path)) : path.IsStraight := by
  obtain ⟨listed, made, member, isFile⟩ := candidate_of_resolved found
  unfold candidatesOf at made
  rw [about] at made
  split at made
  · split at made
    · cases made
      cases member
    · cases made
      obtain ⟨root, known, inside⟩ := List.mem_flatMap.mp member
      exact isStraight_of_mem_candidates (isStraight_joinModule (roots root known) noSlash) noSlash' noDot
        inside isFile
  · cases made
    have start := isStraight_joinModule (isStraight_relativeBase straight deep q.level) noSlash
    exact isStraight_of_mem_candidates start noSlash' noDot member isFile

end Resolution

namespace Extraction
variable {fs : FileSystem} {loc : Location} {configured : List Path} {extension : String} {root : Path}

/-- The roots that a project is searched from are straight. -/
theorem isStraight_of_mem_roots (named : fs.WellNamed) (isName : ∀ name ∈ loc, IsName name)
    (member : root ∈ (SearchPath.ofRoots (FileSystem.locationPath loc)
      (extraRoots fs (FileSystem.locationPath loc) configured) extension).roots) : root.IsStraight := by
  rcases SearchPath.mem_of_mem_roots member with rfl | extra
  · exact FileSystem.isStraight_location isName
  · obtain ⟨path, -, found⟩ := List.mem_filterMap.mp extra
    cases canonical : fs.canonical ((FileSystem.locationPath loc).join path) with
    | error e => simp [canonical, Except.toOption] at found
    | ok other =>
      rw [canonical] at found
      cases found
      obtain ⟨deep, isName', rfl⟩ := named.canonical canonical
      exact FileSystem.isStraight_location isName'

end Extraction
end ModuleGraph
