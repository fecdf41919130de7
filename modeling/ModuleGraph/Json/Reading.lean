import ModuleGraph.Json.Draft
import ModuleGraph.OrderedMap

/-!
Readers of JSON values. Each gives the value or the first problem that it meets from left to right.
An object with fixed fields may also be written as the array of its values.
-/
namespace ModuleGraph.Json.Draft

/-- The error of a value that is not of the wanted form. -/
def wrong : Draft → ReadError
  | .fault f => f.read
  | .number .huge => .malformed
  | .string none => .malformed
  | _ => .mismatch

/-- Reads a string. -/
def readString : Draft → Except ReadError String
  | .string (some text) => .ok text
  | d => .error d.wrong

/-- Reads a natural number of at most 64 bits. -/
def readNat : Draft → Except ReadError Nat
  | .number (.natural value _) => .ok value
  | d => .error d.wrong

/-- Reads a value that may be null. -/
def readOption {α : Type} (read : Draft → Except ReadError α) : Draft → Except ReadError (Option α)
  | .null => .ok none
  | d => (read d).map some

/-- Reads the items of an array and its end. -/
def readItems {α : Type} (read : Draft → Except ReadError α) (ending : Ending) :
    List Draft → Except ReadError (List α)
  | [] =>
    match ending with
    | .closed => .ok []
    | .fault f => .error f.read
  | item :: items =>
    match read item with
    | .error e => .error e
    | .ok value => (readItems read ending items).map (value :: ·)

/-- Reads an array. -/
def readList {α : Type} (read : Draft → Except ReadError α) : Draft → Except ReadError (List α)
  | .array items ending => readItems read ending items
  | d => .error d.wrong

/-- Reads the fields of an object one after the other and then its end. -/
def readFields {σ : Type} (field : σ → String → Draft → Except ReadError σ) (ending : Ending) :
    σ → List (FieldName × Draft) → Except ReadError σ
  | s, [] =>
    match ending with
    | .closed => .ok s
    | .fault f => .error f.read
  | _, (.fault f, _) :: _ => .error f.glance
  | _, (.text none, _) :: _ => .error .malformed
  | s, (.text (some name), value) :: fields =>
    match field s name value with
    | .error e => .error e
    | .ok s => readFields field ending s fields

/-- Reads an object whose names are free. A name that comes again keeps its place and takes the new
    value. -/
def readMap {β : Type} (read : Draft → Except ReadError β) :
    Draft → Except ReadError (OrderedMap String β)
  | .object fields ending =>
    readFields (fun m name value => (read value).map (m.insert name)) ending .empty fields
  | d => .error d.wrong

/-- Skips the value of an unknown field. -/
def skip {σ : Type} (s : σ) (value : Draft) : Except ReadError σ :=
  match value.skipFault? with
  | some e => .error e
  | none => .ok s

/-- Reads a field that must not have come before. -/
def readOnce {α σ : Type} (old : Option α) (read : Draft → Except ReadError α) (set : α → σ)
    (value : Draft) : Except ReadError σ :=
  match old with
  | some _ => .error .mismatch
  | none => (read value).map set

/-- Reads an object with fixed fields: `slots` read one field each, in order, into a record that
    starts as `start`, and `done` turns the record into the value, if no needed field is missing. -/
def readRecord {α σ : Type} (slots : List (String × (σ → Draft → Except ReadError σ)))
    (start : σ) (done : σ → Option α) : Draft → Except ReadError α
  | .object fields ending => do
    let field (s : σ) (name : String) (value : Draft) : Except ReadError σ :=
      match slots.find? (·.1 = name) with
      | some slot => slot.2 s value
      | none => skip s value
    let s ← readFields field ending start fields
    match done s with
    | some value => .ok value
    | none => .error .mismatch
  | .array items ending => fromItems (slots.map (·.2)) start items ending
  | d => .error d.wrong
where
  /-- Reads the values of the fields in order. Fields at the end may be missing, items behind the
      last field may not be there. -/
  fromItems : List (σ → Draft → Except ReadError σ) → σ → List Draft → Ending → Except ReadError α
    | [], s, [], .closed =>
      match done s with
      | some value => .ok value
      | none => .error .mismatch
    | [], _, _ :: _, _ => .error .malformed
    | slot :: slots, s, item :: items, ending => do fromItems slots (← slot s item) items ending
    | _ :: _, s, [], .closed =>
      match done s with
      | some value => .ok value
      | none => .error .mismatch
    | _, _, [], .fault f => .error f.read

end ModuleGraph.Json.Draft
