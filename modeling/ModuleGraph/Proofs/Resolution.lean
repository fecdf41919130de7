import ModuleGraph.Extraction.Run
import ModuleGraph.Proofs.FileSystem.Tree

/-!
Where imports lead. Every candidate for an import of an absolute file starts at the root of the file
system (`isAbsolute_of_mem_candidatesOf`), and what is found is a file. So a module with the id of names
below a root is a file of that root's tree (`contentBelow_of_moduleId`).
-/
namespace ModuleGraph
open ModuleGraph.Path Text

namespace Path
variable {base tail p above : Path}

theorem isAbsolute_join_of_isAbsolute (absolute : base.isAbsolute = true) (tail : Path) :
    (base.join tail).isAbsolute = true := by
  cases relative : tail.isAbsolute with
  | true => rwa [join, if_pos relative]
  | false => rwa [isAbsolute_join (ne_empty_of_isAbsolute absolute) relative]

private theorem isAbsolute_parent (absolute : p.isAbsolute = true) (found : p.parent? = some above) :
    above.isAbsolute = true := by
  unfold parent? at found
  split at found
  · cases found
  · simp only [absolute, if_true] at found
    split at found
    · cases found
    · cases found
      simp [isAbsolute]

/-- An absolute path to a name has a parent. -/
private theorem exists_parent (absolute : p.isAbsolute = true) {front : List (List Char)} {last : List Char}
    (ends : p.pieces = front ++ [last]) (named : isIdle last = false) : ∃ above, p.parent? = some above := by
  obtain ⟨rest, cut⟩ := pieces_of_isAbsolute absolute
  cases front with
  | nil =>
    have shape := ends.symm.trans cut
    cases shape
    cases named
  | cons first middle =>
    have shape : rest = middle ++ [last] := by
      have both := ends.symm.trans cut
      rw [List.cons_append, List.cons.injEq] at both
      exact both.2.symm
    have steps : dropEndWhile isIdle rest ≠ [] := by simp [dropEndWhile, shape, named]
    unfold parent?
    rw [cut]
    simp only [absolute, if_true, if_neg steps]
    exact ⟨_, rfl⟩

end Path

namespace Resolution
variable {fs : FileSystem} {search : SearchPath} {q : Query} {path source base : Path}

theorem isAbsolute_ancestor (absolute : base.isAbsolute = true) (steps : Nat) :
    (ancestor base steps).isAbsolute = true := by
  induction steps generalizing base with
  | zero => exact absolute
  | succ steps ih =>
    rw [ancestor]
    split
    · exact absolute
    · rename_i above found
      exact ih (isAbsolute_parent absolute found)

/-- Relative imports of a file below an absolute root start at an absolute path. -/
theorem isAbsolute_relativeBase {root : Path} {names : List String} (absolute : root.isAbsolute = true)
    (ok : AreNames names) (level : Nat) :
    (relativeBase (root.join ⟨ofNames names⟩) level).isAbsolute = true := by
  have whole := isAbsolute_join_of_isAbsolute absolute ⟨ofNames names⟩
  obtain ⟨front, _, _, joined⟩ := pieces_join (ne_empty_of_isAbsolute absolute) ok.relative
  obtain ⟨others, name, rfl, named⟩ := ok.exists_concat
  rw [ok.pieces, List.map_append, ← List.append_assoc] at joined
  obtain ⟨above, found⟩ := exists_parent whole joined named.not_idle
  rw [relativeBase, found]
  exact isAbsolute_ancestor (isAbsolute_parent whole found) _

theorem isAbsolute_joinModule (absolute : base.isAbsolute = true) (modulePath : String) :
    (joinModule base modulePath).isAbsolute = true := by
  unfold joinModule
  generalize moduleParts modulePath = parts
  induction parts generalizing base with
  | nil => exact absolute
  | cons part rest ih => exact ih (isAbsolute_join_of_isAbsolute absolute _)

private theorem isAbsolute_withExtension (absolute : base.isAbsolute = true) (extension : String) :
    (withExtension base extension).isAbsolute = true := by
  have filled : base.text.toList ≠ [] := by simpa using ne_empty_of_isAbsolute absolute
  unfold isAbsolute withExtension at *
  rwa [String.toList_append, String.toList_append, List.append_assoc,
    List.head?_append_of_ne_nil _ filled]

private theorem isAbsolute_candidates (absolute : base.isAbsolute = true) {extension : String}
    (member : path ∈ candidates extension base) : path.isAbsolute = true := by
  rcases List.mem_cons.mp member with rfl | member
  · exact isAbsolute_withExtension absolute _
  · rcases List.mem_cons.mp member with rfl | member
    · exact isAbsolute_join_of_isAbsolute absolute _
    · obtain ⟨extension, _, rfl⟩ := List.mem_map.mp member
      exact isAbsolute_withExtension absolute _

/-- All candidates start at the root of the file system. -/
theorem isAbsolute_of_mem_candidatesOf {listed : List Path}
    (roots : ∀ root ∈ search.roots, root.isAbsolute = true)
    (about : q.source = some source) (start : ∀ level, (relativeBase source level).isAbsolute = true)
    (made : candidatesOf search q = .ok listed) (member : path ∈ listed) : path.isAbsolute = true := by
  unfold candidatesOf at made
  rw [about] at made
  split at made
  · split at made
    · cases made
      simp at member
    · cases made
      obtain ⟨root, known, inside⟩ := List.mem_flatMap.mp member
      exact isAbsolute_candidates (isAbsolute_joinModule (roots root known) _) inside
  · cases made
    exact isAbsolute_candidates (isAbsolute_joinModule (start _) _) member

theorem probe_eq_file_iff : probe fs path = .file ↔ fs.isFile path = true := by
  unfold probe FileSystem.isFile
  cases fs.stat path with
  | error e => cases e <;> simp
  | ok there =>
    obtain ⟨loc, entry⟩ := there
    cases entry <;> simp

theorem firstFile_eq_some {paths : List Path} (found : firstFile fs paths = .ok (some path)) :
    path ∈ paths ∧ fs.isFile path = true := by
  induction paths with
  | nil => cases found
  | cons first rest ih =>
    rw [firstFile] at found
    split at found
    · rename_i isFile
      cases found
      exact ⟨by simp, probe_eq_file_iff.mp isFile⟩
    · obtain ⟨member, isFile⟩ := ih found
      exact ⟨by simp [member], isFile⟩
    · cases found

/-- What is said of an import once its candidates have been looked at. -/
def conclude (q : Query) : Option Path → Resolution
  | some path => .resolved path
  | none => if q.isExternal then .external else .unresolved

theorem resolve_of_candidatesOf {listed : List Path} (made : candidatesOf search q = .ok listed) :
    resolve fs search q = (firstFile fs listed).map (conclude q) := by
  rw [resolve, made]
  simp only [bind, Except.bind]
  cases firstFile fs listed with
  | error e => rfl
  | ok found => cases found <;> rfl

theorem resolve_of_error {e : ResolutionError} (failed : candidatesOf search q = .error e) :
    resolve fs search q = .error e := by
  rw [resolve, failed]
  rfl

/-- An import is resolved to a candidate that is a file. -/
theorem candidate_of_resolved (found : resolve fs search q = .ok (.resolved path)) :
    ∃ listed, candidatesOf search q = .ok listed ∧ path ∈ listed ∧ fs.isFile path = true := by
  cases made : candidatesOf search q with
  | error e =>
    rw [resolve_of_error made] at found
    cases found
  | ok listed =>
    rw [resolve_of_candidatesOf made] at found
    cases first : firstFile fs listed with
    | error e =>
      rw [first] at found
      cases found
    | ok decisive =>
      rw [first, Except.map, Except.ok.injEq] at found
      cases decisive with
      | none =>
        rw [conclude] at found
        split at found <;> cases found
      | some decisive =>
        cases found
        exact ⟨listed, rfl, firstFile_eq_some first⟩

/-- An import is resolved to a file, by an absolute path. -/
theorem isFile_of_resolved (roots : ∀ root ∈ search.roots, root.isAbsolute = true)
    (about : q.source = some source) (start : ∀ level, (relativeBase source level).isAbsolute = true)
    (found : resolve fs search q = .ok (.resolved path)) :
    path.isAbsolute = true ∧ fs.isFile path = true := by
  obtain ⟨listed, made, member, isFile⟩ := candidate_of_resolved found
  exact ⟨isAbsolute_of_mem_candidatesOf roots about start made member, isFile⟩

end Resolution

/-! ## Search paths -/

theorem isAbsolute_locationPath (loc : Location) : (FileSystem.locationPath loc).isAbsolute = true := by
  simp [FileSystem.locationPath, isAbsolute]

private theorem isAbsolute_canonical {fs : FileSystem} {path canonical : Path}
    (found : fs.canonical path = .ok canonical) : canonical.isAbsolute = true := by
  unfold FileSystem.canonical at found
  cases stands : fs.stat path with
  | error e => simp [stands, Except.map] at found
  | ok there =>
    simp only [stands, Except.map, Except.ok.injEq] at found
    exact found ▸ isAbsolute_locationPath _

theorem Extraction.isAbsolute_canonicalRoot {fs : FileSystem} {root top : Path}
    (found : canonicalRoot fs root = .ok top) : top.isAbsolute = true := by
  unfold canonicalRoot at found
  split at found
  · rename_i path canonical
    split at found
    · cases found
      exact isAbsolute_canonical canonical
    · cases found
  · cases found

theorem SearchPath.mem_of_mem_roots {project : Path} {extra : List Path} {extension : String} {root : Path}
    (member : root ∈ (SearchPath.ofRoots project extra extension).roots) :
    root = project ∨ root ∈ extra := by
  have grown (extra roots : List Path)
      (member : root ∈ extra.foldl (fun roots root => if roots.any (·.same root) then roots
        else roots ++ [root]) roots) : root ∈ roots ∨ root ∈ extra := by
    induction extra generalizing roots with
    | nil => exact .inl member
    | cons first rest ih =>
      rcases ih _ member with old | later
      · simp only at old
        split at old
        · exact .inl old
        · rcases List.mem_append.mp old with old | new
          · exact .inl old
          · exact .inr (List.mem_cons.mpr (.inl (List.mem_singleton.mp new)))
      · exact .inr (List.mem_cons_of_mem _ later)
  simpa using grown extra [project] member

/-- A project and its extra roots are searched by absolute paths. -/
theorem Extraction.isAbsolute_of_mem_roots {fs : FileSystem} {top : Path} (absolute : top.isAbsolute = true)
    (configured : List Path) (extension : String) : ∀ root ∈
      (SearchPath.ofRoots top (extraRoots fs top configured) extension).roots, root.isAbsolute = true := by
  intro root member
  rcases SearchPath.mem_of_mem_roots member with rfl | extra
  · exact absolute
  · obtain ⟨path, _, found⟩ := List.mem_filterMap.mp extra
    cases canonical : fs.canonical (top.join path) with
    | error e => simp [canonical, Except.toOption] at found
    | ok other =>
      rw [canonical] at found
      cases found
      exact isAbsolute_canonical canonical

/-! ## Modules of a tree -/

/-- A module that is found and has the id of names below a root is a file of the root's tree. -/
theorem FileSystem.IsTree.contentBelow_of_moduleId {fs : FileSystem} {top path : Path} {base : Location}
    {names : List String} (tree : fs.IsTree top base) (topAbsolute : top.isAbsolute = true)
    (absolute : path.isAbsolute = true) (isFile : fs.isFile path = true) (ok : AreNames names)
    (same : moduleId top path = ofNames names) : (fs.contentBelow base names).isSome := by
  obtain ⟨bytes, read⟩ := isFile_iff.mp isFile
  obtain ⟨found, located⟩ := read_eq_ok_iff.mp read
  have stands : fs.stat path = .ok (found, .file bytes) := by rw [stat, located]
  have kept (piece : List Char) (named : isIdle piece = false) : (!isIdle piece) = true := by simp [named]
  have leads := (leads_of_stat stands).2.2.2
  have rootLeads := (leads_of_stat tree.stat_root).2.2.2
  rw [if_pos absolute] at leads
  rw [if_pos topAbsolute] at rootLeads
  -- Without the pieces that add nothing, the path is that of the root and then the names.
  have short : fs.Leads true linkLimit [] ([] ++ path.pieces.filter (!isIdle ·)) found (.file bytes) :=
    Leads.filter kept leads
  rw [List.nil_append, pieces_of_moduleId topAbsolute absolute ok same] at short
  have rootShort : fs.Leads true linkLimit [] ([] ++ top.pieces.filter (!isIdle ·)) base .directory :=
    Leads.filter kept rootLeads
  obtain ⟨left, on⟩ := rootShort.append
  have walked := short.walk
  rw [List.nil_append] at on
  rw [on true _ ok.parts_ne_nil, tree.walk_names List.suffix_rfl tree.directory ok.isName] at walked
  obtain ⟨rfl, entry⟩ := walked
  exact Option.isSome_iff_exists.mpr ⟨bytes, contentBelow_eq_some_iff.mpr entry⟩

end ModuleGraph
