import ModuleGraph.CommandLine.Options
import ModuleGraph.Count
import ModuleGraph.Graph.Summary
import ModuleGraph.Path

/-!
The commands and their options. An option that takes one value may be given once; options that
belong to all commands may stand in front of the command too.
-/
namespace ModuleGraph.CommandLine

/-- The options of all commands. -/
structure SharedOptions where
  config : Option Path
  verbose : Bool
  deriving DecidableEq

/-- The options of an extraction, as far as they are given. -/
structure ExtractOptions where
  shared : SharedOptions
  root : Option Path
  output : Option Path
  summary : Option Path
  included : List String
  excluded : List String
  searchRoots : List Path
  top : Option Nat
  deriving DecidableEq

/-- The options of an incremental analysis, as far as they are given. -/
structure IncrementalOptions where
  shared : SharedOptions
  root : Option Path
  output : Option Path
  forceFull : Bool
  metrics : Bool
  deriving DecidableEq

/-- What the command line asks for. -/
inductive Invocation where
  | notice (notice : Notice)
  | extract (config : Option Path) (options : ExtractOptions)
  | incremental (config : Option Path) (options : IncrementalOptions)
  deriving DecidableEq

/-! ## Values -/

/-- The path of a value. It may not be empty. -/
def pathOf? (value : String) : Option Path := if value = "" then none else some ⟨value⟩

/-- The count of a value: decimal digits, with or without a plus, of at most 64 bits. -/
def countOf? (value : String) : Option Nat :=
  let digits :=
    match value.toList with
    | '+' :: rest => rest
    | cs => cs
  if digits ≠ [] ∧ digits.all Char.isDigit then
    let n := digits.foldl (fun n c => n * 10 + (c.toNat - '0'.toNat)) 0
    if n < wordLimit then some n else none
  else none

/-- A value in a place that must be free. -/
def once {β : Type} (place value : Option β) : Option (Option β) :=
  match place, value with
  | none, some v => some (some v)
  | _, _ => none

/-- A flag that must not be set yet. -/
def setOnce (flag : Bool) : Option Bool := if flag then none else some true

/-! ## Options -/

/-- The options that all commands take, within the options of one. -/
def sharedSpecs {α : Type} (get : α → SharedOptions) (put : α → SharedOptions → α) :
    List (OptionSpec α) :=
  [⟨"config", none, .value fun v o =>
      (once (get o).config (pathOf? v)).map fun config => put o { get o with config }⟩,
    ⟨"verbose", some 'v', .flag fun o =>
      (setOnce (get o).verbose).map fun verbose => put o { get o with verbose }⟩,
    ⟨"help", some 'h', .stop .help⟩]

/-- The options in front of a command. -/
def leadingSpecs : List (OptionSpec SharedOptions) :=
  ⟨"version", some 'V', .stop .version⟩ :: sharedSpecs id fun _ o => o

/-- The options of an extraction. -/
def extractSpecs : List (OptionSpec ExtractOptions) :=
  [⟨"root", some 'r', .value fun v o =>
      (once o.root (pathOf? v)).map fun root => { o with root }⟩,
    ⟨"output", some 'o', .value fun v o =>
      (once o.output (pathOf? v)).map fun output => { o with output }⟩,
    ⟨"summary", some 's', .value fun v o =>
      (once o.summary (pathOf? v)).map fun summary => { o with summary }⟩,
    ⟨"include", none, .value fun v o => some { o with included := o.included ++ [v] }⟩,
    ⟨"exclude", none, .value fun v o => some { o with excluded := o.excluded ++ [v] }⟩,
    ⟨"search-root", none, .value fun v o =>
      (pathOf? v).map fun path => { o with searchRoots := o.searchRoots ++ [path] }⟩,
    ⟨"top", none, .value fun v o => (once o.top (countOf? v)).map fun top => { o with top }⟩] ++
  sharedSpecs (·.shared) fun o shared => { o with shared }

/-- The options of an incremental analysis. -/
def incrementalSpecs : List (OptionSpec IncrementalOptions) :=
  [⟨"root", some 'r', .value fun v o =>
      (once o.root (pathOf? v)).map fun root => { o with root }⟩,
    ⟨"output", some 'o', .value fun v o =>
      (once o.output (pathOf? v)).map fun output => { o with output }⟩,
    ⟨"force-full", none, .flag fun o =>
      (setOnce o.forceFull).map fun forceFull => { o with forceFull }⟩,
    ⟨"metrics", none, .flag fun o =>
      (setOnce o.metrics).map fun metrics => { o with metrics }⟩] ++
  sharedSpecs (·.shared) fun o shared => { o with shared }

/-! ## Commands -/

/-- No option. -/
def SharedOptions.none : SharedOptions := ⟨.none, false⟩

/-- No option. -/
def ExtractOptions.none : ExtractOptions := ⟨.none, .none, .none, .none, [], [], [], .none⟩

/-- No option. -/
def IncrementalOptions.none : IncrementalOptions := ⟨.none, .none, .none, false, false⟩

/-- Reads the options of a command, behind which nothing may come. -/
def readCommand {α : Type} (specs : List (OptionSpec α)) (start : α) (run : α → Invocation)
    (words : List String) : Option Invocation := do
  match ← readOptions specs start words with
  | (options, .nothing) => some (run options)
  | (_, .notice n) => some (.notice n)
  | (_, .word ..) => none

/-- What a command line asks for, nothing for a wrong one. -/
def Invocation.parse (words : List String) : Option Invocation := do
  match ← readOptions leadingSpecs .none words with
  | (_, .nothing) => none
  | (_, .notice n) => some (.notice n)
  | (leading, .word name rest) =>
    match name with
    | "extract" =>
      readCommand extractSpecs .none (fun o => .extract (o.shared.config.or leading.config) o) rest
    | "incremental" =>
      readCommand incrementalSpecs .none
        (fun o => .incremental (o.shared.config.or leading.config) o) rest
    | "help" =>
      match rest with
      | [] => some (.notice .help)
      | [topic] => if topic ∈ ["extract", "incremental", "help"] then some (.notice .help) else none
      | _ => none
    | _ => none

end ModuleGraph.CommandLine
