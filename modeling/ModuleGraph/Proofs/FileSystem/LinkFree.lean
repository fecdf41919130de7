import ModuleGraph.Proofs.FileSystem.Location
import ModuleGraph.Proofs.FileSystem.Tree

/-!
File systems without links. There a path in normal form that does not step up leads to the location that it spells
(`IsLinkFree.stat_straight`), so every file has one such path. What the id of a module at a location is depends on
whether the location is below the root of the project, and different locations have different ids
(`moduleId_location_injective`).
-/
namespace ModuleGraph
open ModuleGraph.Path Text

namespace FileSystem

/-- Nothing is a link, everything stands in a directory, and all names are proper. -/
structure IsLinkFree (fs : FileSystem) : Prop where
  here : ∀ name ∈ fs.here, IsName name
  tree : fs.IsTree ⟨"/"⟩ []

variable {fs : FileSystem} {loc base found : Location} {entry : Entry} {path : Path} {names : List String}

theorem IsLinkFree.wellNamed (free : fs.IsLinkFree) : fs.WellNamed where
  here := free.here
  entry loc := by
    induction loc with
    | nil => nofun
    | cons name loc ih =>
      intro entry stands other member
      rcases List.mem_cons.mp member with rfl | outer
      · exact (free.tree.isName other loc entry (List.nil_suffix) stands).1
      · exact ih _ (free.tree.parent name loc entry (List.nil_suffix) stands) other outer

theorem components_location (isName : ∀ name ∈ loc, IsName name) :
    (locationPath loc).components = .root :: loc.reverse.map .name := by
  have names : ∀ name ∈ loc.reverse, IsName name := fun name member => isName name (List.mem_reverse.mp member)
  rw [locationPath_eq, components_absolute (areSteps_location isName), List.map_map]
  refine congrArg (Component.root :: ·) (List.map_congr_left fun name member => ?_)
  exact (names name member).ofPiece

theorem location_injective (isName : ∀ name ∈ loc, IsName name) (isName' : ∀ name ∈ base, IsName name)
    (same : locationPath loc = locationPath base) : loc = base := by
  have steps := congrArg Path.components same
  rw [components_location isName, components_location isName', List.cons.injEq] at steps
  have names := (List.map_inj_right fun _ _ equal => Component.name.inj equal).mp steps.2
  exact List.reverse_inj.mp names

/-- A straight path leads to the location that it spells. -/
theorem IsLinkFree.stat_straight (free : fs.IsLinkFree) (straight : path.IsStraight)
    (stands : fs.stat path = .ok (loc, entry)) : path = locationPath loc ∧ fs.entry? loc = some entry := by
  obtain ⟨steps, ok, level, rfl⟩ := straight
  obtain ⟨clean, -, -, leads⟩ := leads_of_stat stands
  rw [isAbsolute_absolute, if_pos rfl] at leads
  have short : fs.Leads true linkLimit [] ([] ++ (absolute steps).pieces.filter (!isIdle ·)) loc entry :=
    Leads.filter (fun piece solid => by simp [solid]) leads
  rw [List.nil_append, steps_absolute ok] at short
  have spelled : (steps.map String.ofList).map (·.toList) = steps := by simp [Function.comp_def]
  have isName : ∀ name ∈ steps.map String.ofList, IsName name := by
    intro name member
    obtain ⟨step, inside, rfl⟩ := List.mem_map.mp member
    obtain ⟨solid, noSlash⟩ := ok step inside
    rw [isIdle, Bool.or_eq_false_iff] at solid
    refine ⟨by simpa using solid.1, by simpa using solid.2, ?_, by simpa using noSlash, ?_⟩
    · rw [String.toList_ofList]
      exact fun up => level (up ▸ inside)
    · rw [String.toList_ofList]
      exact fun nul => clean (mem_toList_absolute inside nul)
  have walked := short.walk
  rw [← spelled, free.tree.walk_names List.nil_suffix free.tree.directory isName] at walked
  obtain ⟨rfl, there⟩ := walked
  refine ⟨?_, there⟩
  rw [locationPath_eq, List.append_nil, List.reverse_reverse, spelled]

/-- A location is found at the path that spells it, unless that path is too long. -/
theorem IsLinkFree.stat_location (free : fs.IsLinkFree) (there : fs.entry? loc = some entry)
    (fits : (locationPath loc).text.utf8ByteSize ≤ pathLimit) : fs.stat (locationPath loc) = .ok (loc, entry) := by
  have isName := free.wellNamed.entry loc entry there
  have isName' : ∀ name ∈ loc.reverse, IsName name := fun name member => isName name (List.mem_reverse.mp member)
  have ok := areSteps_location isName
  have absolute : (locationPath loc).isAbsolute = true := isAbsolute_absolute
  have clean : '\x00' ∉ (locationPath loc).text.toList := by
    rw [locationPath, String.toList_ofList, List.mem_cons, not_or]
    refine ⟨by decide, fun nul => ?_⟩
    rcases mem_of_mem_joinWith nul with slash | ⟨part, inside, there⟩
    · exact absurd slash (by decide)
    · obtain ⟨name, known, rfl⟩ := List.mem_map.mp inside
      exact (isName' name known).no_nul there
  have walked : fs.walk true linkLimit [] (loc.reverse.map (·.toList)) = .ok (.present loc entry) := by
    rw [free.tree.walk_names List.nil_suffix free.tree.directory isName', List.reverse_reverse, List.append_nil]
    exact ⟨rfl, there⟩
  rw [stat_eq_ok_iff, locate_eq clean (ne_empty_of_isAbsolute absolute) fits, absolute, if_pos rfl, locationPath_eq]
  by_cases none : loc = []
  · subst none
    rw [List.reverse_nil, List.map_nil, walk_nil] at walked
    rw [List.reverse_nil, List.map_nil, pieces_absolute_nil, walk_idle (by decide), walk_idle (by decide), walk_nil,
      walked]
  · rw [pieces_absolute ok (by simpa using none), walk_idle (by decide)]
    exact walked

/-- Every directory is the root of a tree. -/
theorem IsLinkFree.isTree (free : fs.IsLinkFree) (straight : path.IsStraight)
    (stands : fs.stat path = .ok (base, .directory)) : fs.IsTree path base where
  stat_root := stands
  directory := (free.stat_straight straight stands).2
  isName name loc entry _ := free.tree.isName name loc entry List.nil_suffix
  parent name loc entry _ := free.tree.parent name loc entry List.nil_suffix
  no_link loc target _ := free.tree.no_link loc target List.nil_suffix

/-! ## Ids of locations -/

theorem moduleId_location_below (isName : ∀ name ∈ names.reverse ++ base, IsName name) :
    moduleId (locationPath base) (locationPath (names.reverse ++ base)) = ofNames names := by
  have outer : ∀ name ∈ base, IsName name := fun name member => isName name (List.mem_append_right _ member)
  rw [moduleId, components_location isName, components_location outer, List.reverse_append, List.reverse_reverse,
    List.map_append, ← List.cons_append, stepsWithin_append, idText_names]

theorem moduleId_location_outside (isName : ∀ name ∈ loc, IsName name) (isName' : ∀ name ∈ base, IsName name)
    (outside : ¬base <:+ loc) : moduleId (locationPath base) (locationPath loc) = (locationPath loc).text := by
  have apart : ¬(locationPath base).components.isPrefixOf (locationPath loc).components := by
    have injective : Function.Injective Component.name := fun _ _ same => Component.name.inj same
    rw [List.isPrefixOf_iff_prefix, components_location isName, components_location isName', List.cons_prefix_cons,
      List.prefix_map_iff_of_injective injective, List.reverse_prefix]
    exact fun inside => outside inside.2
  rw [moduleId, stepsWithin, if_neg apart, components_location isName, idText, List.filterMap_cons_none rfl,
    filterMap_idPart?_names]
  rfl

/-- The id of a location below another one, read as names. -/
theorem exists_moduleId_location_below (isName : ∀ name ∈ loc, IsName name) (differ : loc ≠ base)
    (inside : base <:+ loc) :
    ∃ names, loc = names.reverse ++ base ∧ AreNames names ∧
      moduleId (locationPath base) (locationPath loc) = ofNames names := by
  obtain ⟨front, rfl⟩ := inside
  have shape : front ++ base = front.reverse.reverse ++ base := by rw [List.reverse_reverse]
  have filled : front ≠ [] := by
    rintro rfl
    exact differ rfl
  refine ⟨front.reverse, shape, ⟨by simpa using filled, fun name member => ?_⟩, ?_⟩
  · exact isName name (List.mem_append_left _ (List.mem_reverse.mp member))
  · rw [shape] at isName ⊢
    exact moduleId_location_below isName

/-- Different files have different ids, be they below the root or not. -/
theorem moduleId_location_injective (isName : ∀ name ∈ loc, IsName name)
    (isName' : ∀ name ∈ found, IsName name) (isNameBase : ∀ name ∈ base, IsName name)
    (differ : loc ≠ base) (differ' : found ≠ base)
    (same : moduleId (locationPath base) (locationPath loc) = moduleId (locationPath base) (locationPath found)) :
    loc = found := by
  have absolute (loc : Location) : (locationPath loc).text.toList.head? = some '/' := by simp [locationPath]
  -- The id of a file outside the root starts with a slash, that of a file below it does not.
  by_cases inside : base <:+ loc <;> by_cases inside' : base <:+ found
  · obtain ⟨names, rfl, ok, id⟩ := exists_moduleId_location_below isName differ inside
    obtain ⟨names', rfl, ok', id'⟩ := exists_moduleId_location_below isName' differ' inside'
    rw [id, id'] at same
    rw [ofNames_injective ok ok' same]
  · obtain ⟨names, rfl, ok, id⟩ := exists_moduleId_location_below isName differ inside
    rw [id, moduleId_location_outside isName' isNameBase inside'] at same
    exact absurd (same ▸ absolute found) ok.head_ne_slash
  · obtain ⟨names, rfl, ok, id⟩ := exists_moduleId_location_below isName' differ' inside'
    rw [id, moduleId_location_outside isName isNameBase inside] at same
    exact absurd (same ▸ absolute loc) ok.head_ne_slash
  · rw [moduleId_location_outside isName isNameBase inside, moduleId_location_outside isName' isNameBase inside']
      at same
    exact location_injective isName isName' (congrArg Path.mk same)

end FileSystem
end ModuleGraph
