import ModuleGraph.FileSystem.Change
import ModuleGraph.Proofs.Path.Names

/-!
Looking paths up. A look-up that finds something is a derivation with one rule for each kind of piece
(`leads_iff`). By induction on it, a look-up that passes a directory goes on from there (`Leads.append`)
and pieces that add nothing to a path may be left out (`Leads.filter`), so what is looked up below a
directory is looked up from its location (`locate_join`). A directory is found again after a change that
keeps directories and links (`Leads.of_kept`).
-/
namespace ModuleGraph.FileSystem
open Text ModuleGraph.Path

/-- A piece that is looked up as a name. -/
structure IsEntryName (piece : List Char) : Prop where
  not_idle : isIdle piece = false
  ne_up : piece ≠ ['.', '.']
  fits : (String.ofList piece).utf8ByteSize ≤ nameLimit

/-- A look-up finds an entry. -/
inductive Leads (fs : FileSystem) (follow : Bool) :
    Nat → Location → List (List Char) → Location → Entry → Prop where
  | here {links loc} : Leads fs follow links loc [] loc .directory
  | idle {links loc piece rest found entry} (idle : isIdle piece = true)
      (later : Leads fs follow links loc rest found entry) :
      Leads fs follow links loc (piece :: rest) found entry
  | up {links loc rest found entry} (later : Leads fs follow links loc.tail rest found entry) :
      Leads fs follow links loc (['.', '.'] :: rest) found entry
  | directory {links loc piece rest found entry} (named : IsEntryName piece)
      (stands : fs.entry? (String.ofList piece :: loc) = some .directory)
      (later : Leads fs follow links (String.ofList piece :: loc) rest found entry) :
      Leads fs follow links loc (piece :: rest) found entry
  | file {links loc piece bytes} (named : IsEntryName piece)
      (stands : fs.entry? (String.ofList piece :: loc) = some (.file bytes)) :
      Leads fs follow links loc [piece] (String.ofList piece :: loc) (.file bytes)
  | link {links loc piece rest target found entry} (named : IsEntryName piece)
      (stands : fs.entry? (String.ofList piece :: loc) = some (.link target))
      (through : rest ≠ [] ∨ follow = true)
      (later : Leads fs follow links (linkStart loc ⟨target⟩) (Path.pieces ⟨target⟩ ++ rest) found entry) :
      Leads fs follow (links + 1) loc (piece :: rest) found entry
  | lastLink {links loc piece target} (named : IsEntryName piece)
      (stands : fs.entry? (String.ofList piece :: loc) = some (.link target)) (stop : follow = false) :
      Leads fs follow links loc [piece] (String.ofList piece :: loc) (.link target)

variable {fs : FileSystem} {follow : Bool} {links : Nat} {loc found base : Location} {entry : Entry}
  {piece : List Char} {rest : List (List Char)} {root tail path : Path}

theorem isEntryName_toList {name : String} (named : IsName name) (fits : name.utf8ByteSize ≤ nameLimit) :
    IsEntryName name.toList := ⟨named.not_idle, named.ne_up, by simpa using fits⟩

/-! ## Single pieces -/

@[simp] theorem walk_nil : fs.walk follow links loc [] = .ok (.present loc .directory) := by
  rw [walk]

theorem walk_idle (idle : isIdle piece = true) :
    fs.walk follow links loc (piece :: rest) = fs.walk follow links loc rest := by
  rw [walk, if_pos idle]

theorem walk_up : fs.walk follow links loc (['.', '.'] :: rest) = fs.walk follow links loc.tail rest := by
  rw [walk, if_neg (by decide), if_pos rfl]

theorem walk_entry (named : IsEntryName piece) :
    fs.walk follow links loc (piece :: rest) =
      match fs.entry? (String.ofList piece :: loc) with
      | none =>
        if rest = [] then .ok (.absent (String.ofList piece :: loc)) else .error .notFound
      | some .directory => fs.walk follow links (String.ofList piece :: loc) rest
      | some (.file bytes) =>
        if rest = [] then .ok (.present (String.ofList piece :: loc) (.file bytes))
        else .error .notDirectory
      | some (.link target) =>
        if rest = [] ∧ follow = false then
          .ok (.present (String.ofList piece :: loc) (.link target))
        else
          match links with
          | 0 => .error .tooManyLinks
          | links + 1 =>
            fs.walk follow links (linkStart loc ⟨target⟩) (Path.pieces ⟨target⟩ ++ rest) := by
  rw [walk, if_neg (by simp [named.not_idle]), if_neg named.ne_up]
  exact if_neg (Nat.not_lt.mpr named.fits)

theorem walk_long (not_idle : isIdle piece = false) (ne_up : piece ≠ ['.', '.'])
    (long : nameLimit < (String.ofList piece).utf8ByteSize) :
    fs.walk follow links loc (piece :: rest) = .error .nameTooLong := by
  rw [walk, if_neg (by simp [not_idle]), if_neg ne_up]
  simp only
  rw [if_pos long]

theorem walk_none (named : IsEntryName piece) (stands : fs.entry? (String.ofList piece :: loc) = none) :
    fs.walk follow links loc (piece :: rest) =
      if rest = [] then .ok (.absent (String.ofList piece :: loc)) else .error .notFound := by
  rw [walk_entry named, stands]

theorem walk_directory (named : IsEntryName piece)
    (stands : fs.entry? (String.ofList piece :: loc) = some .directory) :
    fs.walk follow links loc (piece :: rest) =
      fs.walk follow links (String.ofList piece :: loc) rest := by
  rw [walk_entry named, stands]

theorem walk_file {bytes : List UInt8} (named : IsEntryName piece)
    (stands : fs.entry? (String.ofList piece :: loc) = some (.file bytes)) :
    fs.walk follow links loc (piece :: rest) =
      if rest = [] then .ok (.present (String.ofList piece :: loc) (.file bytes))
      else .error .notDirectory := by
  rw [walk_entry named, stands]

theorem walk_link {target : String} (named : IsEntryName piece)
    (stands : fs.entry? (String.ofList piece :: loc) = some (.link target))
    (through : rest ≠ [] ∨ follow = true) :
    fs.walk follow (links + 1) loc (piece :: rest) =
      fs.walk follow links (linkStart loc ⟨target⟩) (Path.pieces ⟨target⟩ ++ rest) := by
  have last : ¬(rest = [] ∧ follow = false) := by
    rintro ⟨none, stop⟩
    rcases through with some | on
    · exact some none
    · simp [stop] at on
  rw [walk_entry named, stands]
  simp only [if_neg last]

theorem walk_lastLink {target : String} (named : IsEntryName piece)
    (stands : fs.entry? (String.ofList piece :: loc) = some (.link target)) :
    fs.walk false links loc [piece] = .ok (.present (String.ofList piece :: loc) (.link target)) := by
  rw [walk_entry named, stands]
  simp

/-! ## Derivations -/

theorem Leads.walk {pieces : List (List Char)} (leads : fs.Leads follow links loc pieces found entry) :
    fs.walk follow links loc pieces = .ok (.present found entry) := by
  induction leads with
  | here => exact walk_nil
  | idle idle _ ih => rw [walk_idle idle, ih]
  | up _ ih => rw [walk_up, ih]
  | directory named stands _ ih => rw [walk_directory named stands, ih]
  | file named stands => rw [walk_file named stands, if_pos rfl]
  | link named stands through _ ih => rw [walk_link named stands through, ih]
  | lastLink named stands stop =>
    subst stop
    exact walk_lastLink named stands

private theorem leads_of_walk {links : Nat} {loc : Location} {pieces : List (List Char)}
    (walked : fs.walk follow links loc pieces = .ok (.present found entry)) :
    fs.Leads follow links loc pieces found entry := by
  match pieces with
  | [] =>
    rw [walk_nil] at walked
    cases walked
    exact .here
  | piece :: rest =>
    by_cases idle : isIdle piece = true
    · rw [walk_idle idle] at walked
      exact .idle idle (leads_of_walk walked)
    by_cases up : piece = ['.', '.']
    · subst up
      rw [walk_up] at walked
      exact .up (leads_of_walk walked)
    by_cases long : nameLimit < (String.ofList piece).utf8ByteSize
    · rw [walk_long (by simpa using idle) up long] at walked
      cases walked
    have named : IsEntryName piece := ⟨by simpa using idle, up, Nat.not_lt.mp long⟩
    cases stands : fs.entry? (String.ofList piece :: loc) with
    | none =>
      rw [walk_none named stands] at walked
      split at walked <;> cases walked
    | some there =>
      cases there with
      | directory =>
        rw [walk_directory named stands] at walked
        exact .directory named stands (leads_of_walk walked)
      | file bytes =>
        rw [walk_file named stands] at walked
        split at walked
        · rename_i last
          cases walked
          subst last
          exact .file named stands
        · cases walked
      | link target =>
        by_cases last : rest = [] ∧ follow = false
        · obtain ⟨rfl, rfl⟩ := last
          rw [walk_lastLink named stands] at walked
          cases walked
          exact .lastLink named stands rfl
        have through : rest ≠ [] ∨ follow = true := by
          by_cases none : rest = []
          · exact .inr (by simpa [none] using last)
          · exact .inl none
        cases links with
        | zero =>
          rw [walk_entry named, stands] at walked
          simp only [if_neg last] at walked
          cases walked
        | succ links =>
          rw [walk_link named stands through] at walked
          exact .link named stands through (leads_of_walk walked)
termination_by (links, pieces.length)

theorem leads_iff {pieces : List (List Char)} :
    fs.Leads follow links loc pieces found entry ↔
      fs.walk follow links loc pieces = .ok (.present found entry) :=
  ⟨Leads.walk, leads_of_walk⟩

/-- A look-up that passes a directory goes on from there. -/
theorem Leads.append {front : List (List Char)} (passed : fs.Leads true links loc front found .directory) :
    ∃ left, ∀ follow back, back ≠ [] →
      fs.walk follow links loc (front ++ back) = fs.walk follow left found back := by
  generalize stands : Entry.directory = entry at passed
  induction passed with
  | here => exact ⟨_, fun _ _ _ => rfl⟩
  | idle idle _ ih =>
    obtain ⟨left, on⟩ := ih stands
    exact ⟨left, fun follow back some => by rw [List.cons_append, walk_idle idle, on follow back some]⟩
  | up _ ih =>
    obtain ⟨left, on⟩ := ih stands
    exact ⟨left, fun follow back some => by rw [List.cons_append, walk_up, on follow back some]⟩
  | directory named entered _ ih =>
    obtain ⟨left, on⟩ := ih stands
    exact ⟨left, fun follow back some => by
      rw [List.cons_append, walk_directory named entered, on follow back some]⟩
  | file => cases stands
  | link named entered _ _ ih =>
    obtain ⟨left, on⟩ := ih stands
    exact ⟨left, fun follow back some => by
      rw [List.cons_append, walk_link named entered (.inl (by simp [some])), ← List.append_assoc,
        on follow back some]⟩
  | lastLink => cases stands

private theorem filter_cons_of_append {front back : List (List Char)} {keep : List Char → Bool}
    (kept : keep piece = true) (whole : front ++ back = piece :: rest) :
    ∃ front' back', rest = front' ++ back' ∧
      front ++ back.filter keep = piece :: (front' ++ back'.filter keep) := by
  cases front with
  | nil =>
    subst whole
    exact ⟨[], rest, rfl, by simp [kept]⟩
  | cons first others =>
    cases whole
    exact ⟨others, back, rfl, rfl⟩

/-- Pieces that add nothing may be left out of a path that leads somewhere. -/
theorem Leads.filter {front back : List (List Char)} {keep : List Char → Bool}
    (kept : ∀ piece, isIdle piece = false → keep piece = true)
    (leads : fs.Leads true links loc (front ++ back) found entry) :
    fs.Leads true links loc (front ++ back.filter keep) found entry := by
  -- The pieces of a link's target come in front of the others and are left as they are.
  generalize whole : front ++ back = pieces at leads
  induction leads generalizing front back with
  | here =>
    obtain ⟨rfl, rfl⟩ := List.append_eq_nil_iff.mp whole
    exact .here
  | @idle _ _ piece rest _ _ idle later ih =>
    by_cases keeps : keep piece = true
    · obtain ⟨front', back', rfl, shape⟩ := filter_cons_of_append keeps whole
      rw [shape]
      exact .idle idle (ih rfl)
    · cases front with
      | nil =>
        subst whole
        simpa [keeps] using @ih [] rest rfl
      | cons first others =>
        cases whole
        exact .idle idle (ih rfl)
  | up later ih =>
    obtain ⟨front', back', rfl, shape⟩ := filter_cons_of_append (kept _ (by decide)) whole
    rw [shape]
    exact .up (ih rfl)
  | directory named stands later ih =>
    obtain ⟨front', back', rfl, shape⟩ := filter_cons_of_append (kept _ named.not_idle) whole
    rw [shape]
    exact .directory named stands (ih rfl)
  | file named stands =>
    obtain ⟨front', back', none, shape⟩ := filter_cons_of_append (kept _ named.not_idle) whole
    obtain ⟨rfl, rfl⟩ := List.append_eq_nil_iff.mp none.symm
    rw [shape]
    exact .file named stands
  | link named stands _ later ih =>
    obtain ⟨front', back', rfl, shape⟩ := filter_cons_of_append (kept _ named.not_idle) whole
    rw [shape]
    refine .link named stands (.inr rfl) ?_
    rw [← List.append_assoc]
    exact ih (List.append_assoc _ _ _)
  | lastLink _ _ stop => cases stop

theorem Leads.filter_ne_nil {pieces : List (List Char)}
    (leads : fs.Leads true links loc pieces found entry) :
    fs.Leads true links loc (pieces.filter (· ≠ [])) found entry := by
  have kept : ∀ piece : List Char, isIdle piece = false → decide (piece ≠ []) = true := by
    intro piece solid
    rw [isIdle, Bool.or_eq_false_iff] at solid
    simpa using solid.1
  have short : fs.Leads true links loc ([] ++ pieces.filter (· ≠ [])) found entry := Leads.filter kept leads
  exact short

/-- A look-up that goes beyond some pieces passes a directory at them. -/
theorem Leads.split {front back : List (List Char)} (more : back ≠ [])
    (leads : fs.Leads follow links loc (front ++ back) found entry) :
    ∃ left mid, fs.Leads true links loc front mid .directory ∧
      fs.Leads follow left mid back found entry := by
  generalize whole : front ++ back = pieces at leads
  induction leads generalizing front with
  | here => exact absurd (List.append_eq_nil_iff.mp whole).2 more
  | idle idle later ih =>
    cases front with
    | nil => cases whole; exact ⟨_, _, .here, .idle idle later⟩
    | cons first others =>
      cases whole
      obtain ⟨left, mid, before, behind⟩ := ih rfl
      exact ⟨left, mid, .idle idle before, behind⟩
  | up later ih =>
    cases front with
    | nil => cases whole; exact ⟨_, _, .here, .up later⟩
    | cons first others =>
      cases whole
      obtain ⟨left, mid, before, behind⟩ := ih rfl
      exact ⟨left, mid, .up before, behind⟩
  | directory named stands later ih =>
    cases front with
    | nil => cases whole; exact ⟨_, _, .here, .directory named stands later⟩
    | cons first others =>
      cases whole
      obtain ⟨left, mid, before, behind⟩ := ih rfl
      exact ⟨left, mid, .directory named stands before, behind⟩
  | @file links _ _ _ named stands =>
    cases front with
    | nil => cases whole; exact ⟨links, _, .here, .file named stands⟩
    | cons first others => exact absurd (List.append_eq_nil_iff.mp (List.cons.inj whole).2).2 more
  | link named stands through later ih =>
    cases front with
    | nil => cases whole; exact ⟨_, _, .here, .link named stands through later⟩
    | cons first others =>
      cases whole
      obtain ⟨left, mid, before, behind⟩ := ih (List.append_assoc _ _ _)
      exact ⟨left, mid, .link named stands (.inr rfl) before, behind⟩
  | @lastLink links _ _ _ named stands stop =>
    cases front with
    | nil => cases whole; exact ⟨links, _, .here, .lastLink named stands stop⟩
    | cons first others => exact absurd (List.append_eq_nil_iff.mp (List.cons.inj whole).2).2 more

theorem Leads.of_prefix {front pieces : List (List Char)} (start : front <+: pieces)
    (leads : fs.Leads true links loc pieces found .directory) :
    ∃ mid, fs.Leads true links loc front mid .directory := by
  obtain ⟨back, rfl⟩ := start
  by_cases none : back = []
  · subst none
    exact ⟨_, by rwa [List.append_nil] at leads⟩
  · obtain ⟨_, mid, before, _⟩ := leads.split none
    exact ⟨mid, before⟩

/-- What is found is found through all links, unless it is a link. -/
theorem Leads.through {pieces : List (List Char)} (leads : fs.Leads follow links loc pieces found entry)
    (solid : ∀ target, entry ≠ .link target) : fs.Leads true links loc pieces found entry := by
  induction leads with
  | here => exact .here
  | idle idle _ ih => exact .idle idle (ih solid)
  | up _ ih => exact .up (ih solid)
  | directory named stands _ ih => exact .directory named stands (ih solid)
  | file named stands => exact .file named stands
  | link named stands _ _ ih => exact .link named stands (.inr rfl) (ih solid)
  | lastLink => exact absurd rfl (solid _)

/-! ## Changes elsewhere -/

/-- A directory is found again if directories and links are kept. -/
theorem Leads.of_kept {fs' : FileSystem} {pieces : List (List Char)}
    (kept : ∀ loc entry, (∀ bytes, entry ≠ .file bytes) → fs.entry? loc = some entry →
      fs'.entry? loc = some entry)
    (leads : fs.Leads follow links loc pieces found .directory) :
    fs'.Leads follow links loc pieces found .directory := by
  generalize isDirectory : Entry.directory = entry at leads
  induction leads with
  | here => exact .here
  | idle idle _ ih => exact .idle idle (ih isDirectory)
  | up _ ih => exact .up (ih isDirectory)
  | directory named stands _ ih => exact .directory named (kept _ _ nofun stands) (ih isDirectory)
  | file => cases isDirectory
  | link named stands through _ ih => exact .link named (kept _ _ nofun stands) through (ih isDirectory)
  | lastLink => cases isDirectory

private theorem walk_ne_present (named : IsEntryName piece)
    (stands : fs.entry? (String.ofList piece :: loc) = none) :
    fs.walk follow links loc (piece :: rest) ≠ .ok (.present found entry) := by
  rw [walk_none named stands]
  split <;> nofun

/-- Where each entry is kept or gone, a path that still leads anywhere leads to where it led. -/
theorem Leads.of_lost {fs' : FileSystem} {pieces : List (List Char)} {found' : Location} {entry' : Entry}
    (lost : ∀ loc entry, fs.entry? loc = some entry →
      fs'.entry? loc = some entry ∨ fs'.entry? loc = none)
    (leads : fs.Leads follow links loc pieces found entry)
    (walked : fs'.walk true links loc pieces = .ok (.present found' entry')) :
    fs'.Leads follow links loc pieces found entry := by
  induction leads with
  | here => exact .here
  | idle idle _ ih =>
    rw [walk_idle idle] at walked
    exact .idle idle (ih walked)
  | up _ ih =>
    rw [walk_up] at walked
    exact .up (ih walked)
  | directory named stands _ ih =>
    rcases lost _ _ stands with same | gone
    · rw [walk_directory named same] at walked
      exact .directory named same (ih walked)
    · exact absurd walked (walk_ne_present named gone)
  | file named stands =>
    rcases lost _ _ stands with same | gone
    · exact .file named same
    · exact absurd walked (walk_ne_present named gone)
  | link named stands through _ ih =>
    rcases lost _ _ stands with same | gone
    · rw [walk_link named same (.inr rfl)] at walked
      exact .link named same through (ih walked)
    · exact absurd walked (walk_ne_present named gone)
  | lastLink named stands stop =>
    rcases lost _ _ stands with same | gone
    · exact .lastLink named same stop
    · exact absurd walked (walk_ne_present named gone)

/-! ## Whole paths -/

/-- A path is looked up if it is neither empty nor too long and holds no character that no path may
    hold. -/
theorem locate_eq (clean : '\x00' ∉ path.text.toList) (named : path.text ≠ "")
    (fits : path.text.utf8ByteSize ≤ pathLimit) :
    fs.locate follow path =
      fs.walk follow linkLimit (if path.isAbsolute then [] else fs.here) path.pieces := by
  rw [locate, if_neg clean, if_neg named, if_neg (Nat.not_lt.mpr fits)]

/-- What a path has if looking it up does not fail. -/
theorem locate_eq_ok_iff {found : Found} :
    fs.locate follow path = .ok found ↔
      '\x00' ∉ path.text.toList ∧ path.text ≠ "" ∧ path.text.utf8ByteSize ≤ pathLimit ∧
        fs.walk follow linkLimit (if path.isAbsolute then [] else fs.here) path.pieces = .ok found := by
  constructor
  · intro located
    unfold locate at located
    by_cases clean : '\x00' ∈ path.text.toList
    · simp [clean] at located
    by_cases named : path.text = ""
    · simp [named] at located
    by_cases long : pathLimit < path.text.utf8ByteSize
    · simp [clean, named, long] at located
    rw [if_neg clean, if_neg named, if_neg long] at located
    exact ⟨clean, named, Nat.not_lt.mp long, located⟩
  · rintro ⟨clean, named, fits, walked⟩
    rw [locate_eq clean named fits, walked]

/-- What a path has if it leads somewhere. -/
theorem locate_eq_present_iff :
    fs.locate follow path = .ok (.present found entry) ↔
      '\x00' ∉ path.text.toList ∧ path.text ≠ "" ∧ path.text.utf8ByteSize ≤ pathLimit ∧
        fs.Leads follow linkLimit (if path.isAbsolute then [] else fs.here) path.pieces found entry := by
  rw [leads_iff, locate_eq_ok_iff]

theorem stat_eq_ok_iff :
    fs.stat path = .ok (found, entry) ↔ fs.locate true path = .ok (.present found entry) := by
  rw [stat]
  split
  · rename_i located
    simp [located]
  · rename_i located
    simp [located]
  · rename_i located
    simp [located]

theorem leads_of_stat (stands : fs.stat path = .ok (found, entry)) :
    '\x00' ∉ path.text.toList ∧ path.text ≠ "" ∧ path.text.utf8ByteSize ≤ pathLimit ∧
      fs.Leads true linkLimit (if path.isAbsolute then [] else fs.here) path.pieces found entry :=
  locate_eq_present_iff.mp (stat_eq_ok_iff.mp stands)

/-- A look-up that follows links never ends at one. -/
theorem Leads.ne_link {pieces : List (List Char)} (leads : fs.Leads true links loc pieces found entry)
    (target : String) : entry ≠ .link target := by
  induction leads with
  | here => nofun
  | file => nofun
  | idle _ _ ih => exact ih
  | up _ ih => exact ih
  | directory _ _ _ ih => exact ih
  | link _ _ _ _ ih => exact ih
  | lastLink _ _ stop => cases stop

theorem toList_join (root : Path) (relative : tail.isAbsolute = false) :
    (root.join tail).text.toList = root.text.toList ++ tail.text.toList ∨
      (root.join tail).text.toList = root.text.toList ++ '/' :: tail.text.toList := by
  unfold join
  rw [relative]
  simp only [Bool.false_eq_true, if_false]
  split
  · exact .inl String.toList_append
  · right
    rw [String.toList_append, String.toList_append, List.append_assoc]
    rfl

theorem not_mem_toList_join {c : Char} (relative : tail.isAbsolute = false) (solid : c ≠ '/')
    (front : c ∉ root.text.toList) (back : c ∉ tail.text.toList) :
    c ∉ (root.join tail).text.toList := by
  rcases toList_join root relative with joined | joined
  · simp [joined, front, back]
  · simp [joined, front, back, solid]

theorem join_ne_empty (named : root.text ≠ "") (relative : tail.isAbsolute = false) :
    (root.join tail).text ≠ "" := by
  intro none
  have some : root.text.toList ≠ [] := by simpa using named
  rcases toList_join root relative with joined | joined <;> simp [none, some] at joined

theorem utf8ByteSize_join_le (root tail : Path) :
    (root.join tail).text.utf8ByteSize ≤ root.text.utf8ByteSize + 1 + tail.text.utf8ByteSize := by
  have slash : "/".utf8ByteSize = 1 := rfl
  unfold join
  split
  · omega
  split
  · simp only [String.utf8ByteSize_append]
    omega
  · simp only [String.utf8ByteSize_append, slash]
    omega

theorem utf8ByteSize_le_join (relative : tail.isAbsolute = false) :
    root.text.utf8ByteSize ≤ (root.join tail).text.utf8ByteSize := by
  unfold join
  rw [relative]
  simp only [Bool.false_eq_true, if_false]
  split <;> simp only [String.utf8ByteSize_append] <;> omega

/-- Below a directory a path is looked up from the directory's location, unless it is too long. -/
theorem locate_join (stands : fs.stat root = .ok (base, .directory))
    (relative : tail.isAbsolute = false) (clean : '\x00' ∉ tail.text.toList) :
    ∃ left, ∀ follow, fs.locate follow (root.join tail) =
      if pathLimit < (root.join tail).text.utf8ByteSize then .error .nameTooLong
      else fs.walk follow left base tail.pieces := by
  obtain ⟨cleanRoot, named, _, leads⟩ := leads_of_stat stands
  obtain ⟨front, _, cut, joined⟩ := pieces_join named relative
  have passed : fs.Leads true linkLimit (if root.isAbsolute then [] else fs.here) front base .directory := by
    rcases cut with cut | cut
    · rwa [cut] at leads
    · rw [cut] at leads
      have short : fs.Leads true linkLimit (if root.isAbsolute then [] else fs.here)
          (front ++ [[]].filter (!isIdle ·)) base .directory :=
        leads.filter fun piece solid => by simp [solid]
      simpa [isIdle] using short
  obtain ⟨left, on⟩ := passed.append
  refine ⟨left, fun follow => ?_⟩
  rw [locate, if_neg (not_mem_toList_join relative (by decide) cleanRoot clean),
    if_neg (join_ne_empty named relative), isAbsolute_join named relative, joined,
    on follow tail.pieces (piecesAt_ne_nil _ _)]

end ModuleGraph.FileSystem
