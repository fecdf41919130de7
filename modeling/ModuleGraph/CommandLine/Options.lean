/-!
Options on a command line. A word is an option by name, a group of one-letter options, a mark that
no option follows, or none of these. A value stands behind its option, in the same word or as the
next one.
-/
namespace ModuleGraph.CommandLine

/-- What is asked for instead of a command. -/
inductive Notice where
  | help
  | version
  deriving DecidableEq

/-- What an option does to the options read before it; nothing comes of a wrong use. -/
inductive Effect (α : Type) where
  | flag (set : α → Option α)
  | value (set : String → α → Option α)
  | stop (notice : Notice)

/-- An option with its names. -/
structure OptionSpec (α : Type) where
  long : String
  short : Option Char
  effect : Effect α

/-- What a word on the command line is. -/
inductive Word where
  /-- Two dashes alone: no option follows. -/
  | dashes
  | long (name : String) (value : Option String)
  | shorts (letters : List Char)
  | plain

/-- What a word is. -/
def Word.of (text : String) : Word :=
  match text.toList with
  | ['-', '-'] => .dashes
  | '-' :: '-' :: rest =>
    match rest.dropWhile (· ≠ '=') with
    | [] => .long (.ofList rest) none
    | _ :: value => .long (.ofList (rest.takeWhile (· ≠ '='))) (some (.ofList value))
  | '-' :: c :: rest => .shorts (c :: rest)
  | _ => .plain

/-- What comes behind the options. -/
inductive Behind where
  | nothing
  | word (text : String) (rest : List String)
  | notice (notice : Notice)

/-- Where a group of one-letter options ends. -/
inductive GroupEnd (α : Type) where
  | done (options : α)
  /-- The value of the last option is the next word. -/
  | awaits (set : String → Option α)
  | notice (notice : Notice)

variable {α : Type}

/-- The effect of the first option with a property. -/
def effect? (specs : List (OptionSpec α)) (p : OptionSpec α → Bool) : Option (Effect α) :=
  (specs.find? p).map (·.effect)

/-- Reads a group of one-letter options. An option with a value takes the rest of the group as its
    value, without an equals sign in front. -/
def readGroup (specs : List (OptionSpec α)) : α → List Char → Option (GroupEnd α)
  | options, [] => some (.done options)
  | options, c :: rest =>
    match effect? specs (·.short = some c) with
    | none => none
    | some (.stop notice) => some (.notice notice)
    | some (.flag set) => (set options).bind fun options => readGroup specs options rest
    | some (.value set) =>
      match rest with
      | [] => some (.awaits (set · options))
      | '=' :: value => (set (.ofList value) options).map .done
      | value => (set (.ofList value) options).map .done

/-- Reads options up to the first word that is none. -/
def readOptions (specs : List (OptionSpec α)) : α → List String → Option (α × Behind)
  | options, [] => some (options, .nothing)
  | options, text :: rest =>
    let next (set : String → Option α) : Option (α × Behind) :=
      match rest with
      | [] => none
      | value :: rest =>
        match Word.of value with
        | .plain => (set value).bind fun options => readOptions specs options rest
        | _ => none
    match Word.of text with
    | .plain => some (options, .word text rest)
    | .dashes => if rest = [] then some (options, .nothing) else none
    | .shorts letters =>
      match readGroup specs options letters with
      | none => none
      | some (.done options) => readOptions specs options rest
      | some (.awaits set) => next set
      | some (.notice notice) => some (options, .notice notice)
    | .long name value =>
      match effect? specs (·.long = name), value with
      | some (.value set), some value =>
        (set value options).bind fun options => readOptions specs options rest
      | some (.value set), none => next (set · options)
      | some (.flag set), none =>
        (set options).bind fun options => readOptions specs options rest
      | some (.stop notice), none => some (options, .notice notice)
      | _, _ => none
termination_by _ words => words.length

end ModuleGraph.CommandLine
