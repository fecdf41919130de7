import ModuleGraph.Proofs.FileSystem.Lookup
import ModuleGraph.Proofs.Path.Steps

/-!
Locations and their paths. The path of a location goes through its names (`locationPath_eq`), and where all names
are proper, whatever can be looked up stands at a location with proper names, links or not
(`WellNamed.stat`, `WellNamed.canonical`).
-/
namespace ModuleGraph
open ModuleGraph.Path Text

namespace FileSystem

/-- All entries, and the directory that relative paths start from, have names that files can have. -/
structure WellNamed (fs : FileSystem) : Prop where
  here : ∀ name ∈ fs.here, IsName name
  entry : ∀ loc entry, fs.entry? loc = some entry → ∀ name ∈ loc, IsName name

variable {fs : FileSystem} {follow : Bool} {links : Nat} {loc found : Location} {entry : Entry} {path top : Path}

theorem Leads.isName {pieces : List (List Char)} (leads : fs.Leads follow links loc pieces found entry)
    (named : fs.WellNamed) (start : ∀ name ∈ loc, IsName name) : ∀ name ∈ found, IsName name := by
  induction leads with
  | here => exact start
  | idle _ _ ih => exact ih start
  | up _ ih => exact ih fun name member => start name (List.mem_of_mem_tail member)
  | directory _ stands _ ih => exact ih (named.entry _ _ stands)
  | file _ stands => exact named.entry _ _ stands
  | link _ _ _ _ ih =>
    refine ih ?_
    rw [linkStart]
    split
    · nofun
    · exact start
  | lastLink _ stands _ => exact named.entry _ _ stands

theorem WellNamed.stat (named : fs.WellNamed) (stands : fs.stat path = .ok (loc, entry)) :
    ∀ name ∈ loc, IsName name := by
  refine (leads_of_stat stands).2.2.2.isName named ?_
  split
  · nofun
  · exact named.here

/-- An absolute path without steps leads to the root of the file system. -/
theorem stat_of_idle (absolute : path.isAbsolute = true) (clean : '\x00' ∉ path.text.toList)
    (fits : path.text.utf8ByteSize ≤ pathLimit) (idle : ∀ piece ∈ path.pieces, isIdle piece = true) :
    fs.stat path = .ok ([], .directory) := by
  have walked (pieces : List (List Char)) (idle : ∀ piece ∈ pieces, isIdle piece = true) :
      fs.walk true linkLimit [] pieces = .ok (.present [] .directory) := by
    induction pieces with
    | nil => exact walk_nil
    | cons piece rest ih =>
      rw [walk_idle (idle piece (by simp))]
      exact ih fun other later => idle other (by simp [later])
  rw [stat_eq_ok_iff, locate_eq clean (ne_empty_of_isAbsolute absolute) fits, absolute, if_pos rfl]
  exact walked path.pieces idle

theorem locationPath_eq (loc : Location) : locationPath loc = absolute (loc.reverse.map (·.toList)) := rfl

/-- What is canonical leads through names. -/
theorem WellNamed.canonical (named : fs.WellNamed) (known : fs.canonical path = .ok top) :
    ∃ loc, (∀ name ∈ loc, IsName name) ∧ top = locationPath loc := by
  unfold FileSystem.canonical at known
  cases stands : fs.stat path with
  | error e =>
    rw [stands] at known
    cases known
  | ok there =>
    rw [stands] at known
    cases known
    exact ⟨there.1, named.stat stands, rfl⟩

theorem areSteps_location {loc : Location} (isName : ∀ name ∈ loc, IsName name) :
    AreSteps (loc.reverse.map (·.toList)) := by
  refine areSteps_names fun name member => ?_
  exact isName name (List.mem_reverse.mp member)

/-- Names below a location lead to the location behind them. -/
theorem join_location {names : List String} (isName : ∀ name ∈ loc, IsName name) (ok : AreNames names) :
    (locationPath loc).join ⟨ofNames names⟩ = locationPath (names.reverse ++ loc) := by
  have joined := join_absolute (areSteps_location isName) (areSteps_names ok.isName) ok.parts_ne_nil
  rw [locationPath_eq, locationPath_eq, List.reverse_append, List.reverse_reverse, List.map_append]
  exact joined

theorem isStraight_location (isName : ∀ name ∈ loc, IsName name) : (locationPath loc).IsStraight := by
  refine ⟨_, areSteps_location isName, fun up => ?_, locationPath_eq loc⟩
  obtain ⟨name, inside, same⟩ := List.mem_map.mp up
  exact (isName name (List.mem_reverse.mp inside)).ne_up same

end FileSystem
end ModuleGraph
