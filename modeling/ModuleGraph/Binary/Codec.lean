import ModuleGraph.Binary64.Basic
import ModuleGraph.OrderedMap
import ModuleGraph.Text.Utf8

/-!
Values as bytes. A codec writes a value, and reads one off the front of a list of bytes. Numbers
take eight bytes, the lowest first; texts and lists carry their length in front; a value that may be
missing is announced by a byte; the parts of a record follow each other without a mark.
-/
namespace ModuleGraph

/-- A way to write values of a type as bytes and to read them back. -/
structure Codec (α : Type) where
  write : α → List UInt8
  /-- The value at the front of some bytes, and the bytes behind it. -/
  read : List UInt8 → Option (α × List UInt8)

namespace Codec
variable {α β : Type}

/-- The value that bytes begin with, whatever follows. -/
def decode (c : Codec α) (bytes : List UInt8) : Option α := (c.read bytes).map Prod.fst

/-- The first bytes of a list, if there are that many. -/
def take? (count : Nat) (bytes : List UInt8) : Option (List UInt8 × List UInt8) :=
  let front := bytes.take count
  if front.length = count then some (front, bytes.drop count) else none

/-- The lowest bytes of a number, the lowest first. -/
def lowBytes : Nat → Nat → List UInt8
  | 0, _ => []
  | count + 1, n => UInt8.ofNat n :: lowBytes count (n / 256)

/-- The number with given bytes, the lowest first. -/
def ofLowBytes : List UInt8 → Nat
  | [] => 0
  | b :: rest => b.toNat + 256 * ofLowBytes rest

/-- A number below 2 to the 64. -/
def word : Codec Nat where
  write := lowBytes 8
  read bytes := (take? 8 bytes).map fun (front, rest) => (ofLowBytes front, rest)

/-- Bytes behind their number. -/
def blob : Codec (List UInt8) where
  write bytes := word.write bytes.length ++ bytes
  read bytes := do
    let (count, rest) ← word.read bytes
    take? count rest

/-- A text as the blob of its bytes. -/
def text : Codec String where
  write s := blob.write (Text.utf8Bytes s)
  read bytes := do
    let (front, rest) ← blob.read bytes
    let s ← Text.ofUtf8? front
    some (s, rest)

/-- A pair of values. -/
def pair (first : Codec α) (second : Codec β) : Codec (α × β) where
  write v := first.write v.1 ++ second.write v.2
  read bytes := do
    let (a, rest) ← first.read bytes
    let (b, rest) ← second.read rest
    some ((a, b), rest)

/-- Reads a number of values. -/
def readMany (c : Codec α) : Nat → List UInt8 → Option (List α × List UInt8)
  | 0, bytes => some ([], bytes)
  | count + 1, bytes => do
    let (a, rest) ← c.read bytes
    let (as, rest) ← readMany c count rest
    some (a :: as, rest)

/-- Values behind their number. -/
def list (c : Codec α) : Codec (List α) where
  write as := word.write as.length ++ as.flatMap c.write
  read bytes := do
    let (count, rest) ← word.read bytes
    c.readMany count rest

/-- A value that may be missing. -/
def option (c : Codec α) : Codec (Option α) where
  write
    | none => [0]
    | some a => 1 :: c.write a
  read
    | 0 :: rest => some (none, rest)
    | 1 :: rest => (c.read rest).map fun (a, rest) => (some a, rest)
    | _ => none

/-- A type that has the values of another. -/
def via (c : Codec α) (forth : β → α) (back : α → β) : Codec β where
  write b := c.write (forth b)
  read bytes := (c.read bytes).map fun (a, rest) => (back a, rest)

/-- A map as the list of its entries. Of entries with one key, the first gives the place and the
    last the value. -/
def map [DecidableEq α] (key : Codec α) (value : Codec β) : Codec (OrderedMap α β) :=
  (key.pair value).list.via (·.entries) .ofList

/-- A number in binary floating point. -/
def float : Codec Binary64 := word.via (·.bits.toNat) fun n => ⟨.ofNat n⟩

end Codec
end ModuleGraph
