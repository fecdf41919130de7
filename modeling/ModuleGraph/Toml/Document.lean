import ModuleGraph.Toml.Value

/-!
A whole TOML document: a list of statements that define keys and open tables, put together to one
table.
-/
namespace ModuleGraph.Toml
open Reader

/-- The header of a table. -/
inductive Header where
  /-- Of the one table with a name. -/
  | table (path : List String)
  /-- Of one more table of an array. -/
  | element (path : List String)

/-- A line with something to say, or without. -/
inductive Statement where
  | blank
  | definition (path : List String) (value : Toml)
  | opening (header : Header)

/-- Reads a header. -/
def Reader.header : Reader Header :=
  ((((expect ['[', '[']).skipping key).followedBy (expect [']', ']'])).map .element).orElse
    ((((expect ['[']).skipping key).followedBy (expect [']'])).map .table)

/-- Reads a statement with the end of its line. -/
def Reader.statement : Reader Statement := fun cs =>
  if cs = [] then none
  else
    ((((((header.map .opening).orElse
      ((keyValue value).map fun (path, value) => .definition path value)).followedBy
      lineEnd).orElse (lineEnd.map fun _ => .blank)) : Reader Statement)
      (cs.dropWhile isSpace))

/-- The definitions in front of the first header, and each header with those behind it. -/
def sections : List Statement → List (List String × Toml) × List (Header × List (List String × Toml))
  | [] => ([], [])
  | s :: rest =>
    let (leading, later) := sections rest
    match s with
    | .blank => (leading, later)
    | .definition path value => ((path, value) :: leading, later)
    | .opening header => ([], (header, leading) :: later)

/-- The table of a header with its definitions, put into the table that it belongs to. A table has
    one header; before it, it may be on the way to another. -/
def openTable (key : String) (definitions : List (List String × Toml)) (origin : Origin)
    (entries : Entries) : Option Toml :=
  let known : Option Entries :=
    match find? key entries with
    | none => some []
    | some (.table .implied known) => some known
    | some _ => none
  (known.bind (defineAll · definitions)).map fun table =>
    .table origin (put key (.table .header table) entries)

/-- One more table of an array with its definitions, put into the table that the array belongs
    to. -/
def openElement (key : String) (definitions : List (List String × Toml)) (origin : Origin)
    (entries : Entries) : Option Toml :=
  let known : Option (List Entries) :=
    match find? key entries with
    | none => some []
    | some (.tables elements) => some elements
    | some _ => none
  known.bind fun elements => (defineAll [] definitions).map fun table =>
    .table origin (put key (.tables (elements ++ [table])) entries)

/-- Adds a header with its definitions to a document. -/
def addSection (document : Entries) : Header × List (List String × Toml) → Option Entries
  | (header, definitions) =>
    let (path, change) :=
      match header with
      | .table path => (path, openTable)
      | .element path => (path, openElement)
    match path.getLast? with
    | none => none
    | some key =>
      match alter false (change key definitions) path.dropLast .header document with
      | some (.table _ document) => some document
      | _ => none

/-- The table of a document. -/
def ofStatements (statements : List Statement) : Option Entries := do
  let (leading, later) := sections statements
  later.foldlM addSection (← defineAll [] leading)

/-- Reads a document, which may begin with a byte order mark. -/
def ofText? (text : String) : Option Entries :=
  let cs :=
    match text.toList with
    | '\uFEFF' :: rest => rest
    | cs => cs
  let (statements, rest) := manyFrom statement cs
  if rest = [] then ofStatements statements else none

end ModuleGraph.Toml
