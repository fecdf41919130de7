import ModuleGraph.FileSystem.Basic
import ModuleGraph.Settings
import ModuleGraph.Toml.Document

/-!
Settings from a TOML document. Each field has a default; a key that names no field is an error. A
record may also be given as the list of its fields.
-/
namespace ModuleGraph
open Toml (find?)

/-- Why there are no settings. -/
inductive SettingsError where
  | unreadable (cause : FileError)
  | malformed
  deriving DecidableEq

/-- The wording of an error. -/
def SettingsError.message : SettingsError → String
  | .unreadable cause => "I/O error: " ++ cause.message
  | .malformed => "invalid configuration: not a document with these settings"

namespace Settings

/-- The values of the fields of a record, those that are missing as none. -/
def fieldsOf? (names : List String) : Toml → Option (List (Option Toml))
  | .table _ entries =>
    if entries.all fun (key, _) => names.contains key then
      some (names.map fun name => find? name entries)
    else none
  | .array elements => some ((elements.map some ++ names.map fun _ => none).take names.length)
  | .tables elements =>
    some ((elements.map (fun entries => some (Toml.table .header entries)) ++
      names.map fun _ => none).take names.length)
  | _ => none

/-- A text. -/
def textOf? : Toml → Option String
  | .string text => some text
  | _ => none

/-- A list of texts. -/
def textsOf? : Toml → Option (List String)
  | .array elements => elements.mapM textOf?
  | _ => none

/-- A number that is not negative. -/
def countOf? : Toml → Option Nat
  | .integer n => if 0 ≤ n then some n.toNat else none
  | _ => none

/-- The value of a field, or its default where it is missing. -/
def fieldOr {α : Type} (read : Toml → Option α) (missing : α) : Option Toml → Option α
  | none => some missing
  | some value => read value

/-- Reads the settings of the extraction. -/
def extractionOf? (value : Toml) : Option ExtractionSettings := do
  match ← fieldsOf? ["include", "exclude", "search_roots", "source_extension", "threads"] value with
  | [included, excluded, searchRoots, sourceExtension, threads] =>
    let d := ExtractionSettings.default
    some
      { included := ← fieldOr textsOf? d.included included
        excluded := ← fieldOr textsOf? d.excluded excluded
        searchRoots :=
          ← fieldOr (fun value => (textsOf? value).map (·.map Path.mk)) d.searchRoots searchRoots
        sourceExtension := ← fieldOr textOf? d.sourceExtension sourceExtension
        threads := ← fieldOr countOf? d.threads threads }
  | _ => none

/-- Reads the settings of the store of snapshots. -/
def cacheOf? (value : Toml) : Option CacheSettings := do
  match ← fieldsOf? ["cache_dir", "max_snapshots"] value with
  | [directory, maxSnapshots] =>
    let d := CacheSettings.default
    some
      { directory := ← fieldOr (fun value => (textOf? value).map Path.mk) d.directory directory
        maxSnapshots := ← fieldOr countOf? d.maxSnapshots maxSnapshots }
  | _ => none

/-- Reads all settings off the table of a document. -/
def ofEntries? (entries : Toml.Entries) : Option Settings := do
  match ← fieldsOf? ["extraction", "incremental"] (.table .header entries) with
  | [extraction, cache] =>
    some
      { extraction := ← fieldOr extractionOf? .default extraction
        cache := ← fieldOr cacheOf? .default cache }
  | _ => none

/-- Reads settings off a text. -/
def ofText (text : String) : Except SettingsError Settings :=
  match (Toml.ofText? text).bind ofEntries? with
  | some settings => .ok settings
  | none => .error .malformed

/-- Reads the settings in a file. -/
def ofFile (fs : FileSystem) (path : Path) : Except SettingsError Settings :=
  match fs.readText path with
  | .error cause => .error (.unreadable cause)
  | .ok text => ofText text

/-- The name of the file of settings in a project root. -/
def fileName : String := "depwatch.toml"

/-- The settings of a project: those in its file, or the defaults if it has none. -/
def discover (fs : FileSystem) (root : Path) : Except SettingsError Settings :=
  let path := root.join ⟨fileName⟩
  if fs.isFile path then ofFile fs path else .ok default

end Settings
end ModuleGraph
