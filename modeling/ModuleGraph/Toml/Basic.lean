/-!
Documents in TOML as values. What a table was made by is kept with it, because it decides what may
be added to the table later.
-/
namespace ModuleGraph

/-- How a table came to be. -/
inductive Toml.Origin where
  /-- It stands in braces, and is complete. -/
  | braces
  /-- It has a header of its own. -/
  | header
  /-- It is on the way to a table with a header. -/
  | implied
  /-- It is on the way of a dotted key. -/
  | dotted
  deriving DecidableEq

/-- A value in TOML. Of floating point numbers, dates and times no more is kept than that they are
    there. -/
inductive Toml where
  | string (text : String)
  | integer (value : Int)
  | float
  | boolean (value : Bool)
  | moment
  | array (elements : List Toml)
  | table (origin : Toml.Origin) (entries : List (String × Toml))
  /-- An array of tables, each with a header. -/
  | tables (elements : List (List (String × Toml)))

namespace Toml

/-- The entries of a table. -/
abbrev Entries : Type := List (String × Toml)

/-- The value at a key. -/
def find? (key : String) (entries : Entries) : Option Toml :=
  (entries.find? (·.1 = key)).map Prod.snd

/-- The entries with a value at a key, old or new. -/
def put (key : String) (value : Toml) (entries : Entries) : Entries :=
  entries.filter (·.1 ≠ key) ++ [(key, value)]

/-- Changes the table at the end of a path, with the tables on the way made if they are missing.
    Values are no tables to go through, and a dotted key does not go through a table with a header
    of its own. -/
def alter (dotted : Bool) (change : Origin → Entries → Option Toml) :
    List String → Origin → Entries → Option Toml
  | [], origin, entries => change origin entries
  | key :: path, origin, entries =>
    match find? key entries with
    | none =>
      (alter dotted change path (if dotted then .dotted else .implied) []).map fun t =>
        .table origin (put key t entries)
    | some (.table .braces _) => none
    | some (.table sub subentries) =>
      if dotted ∧ sub = .header then none
      else (alter dotted change path sub subentries).map fun t => .table origin (put key t entries)
    | some (.tables elements) =>
      match elements.getLast? with
      | none => none
      | some last =>
        match alter dotted change path .header last with
        | some (.table _ changed) =>
          some (.table origin (put key (.tables (elements.dropLast ++ [changed])) entries))
        | _ => none
    | some _ => none

/-- Writes a value at a dotted key, which is new. -/
def define (entries : Entries) : List String × Toml → Option Entries
  | (path, value) =>
    match path.getLast? with
    | none => none
    | some key =>
      let place (origin : Origin) (entries : Entries) : Option Toml :=
        -- Only tables made by dotted keys take more of them.
        if (origin = .dotted ↔ path.dropLast = []) ∨ (find? key entries).isSome then none
        else some (.table origin (put key value entries))
      match alter true place path.dropLast .header entries with
      | some (.table _ entries) => some entries
      | _ => none

/-- Writes values at dotted keys, one after the other. -/
def defineAll (entries : Entries) (pairs : List (List String × Toml)) : Option Entries :=
  pairs.foldlM define entries

end Toml
end ModuleGraph
