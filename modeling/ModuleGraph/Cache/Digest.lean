/-!
A digest of 64 bits for names of files: SipHash with the zero key, one round for each word of eight
bytes and three at the end. Bytes are taken one at a time.
-/
namespace ModuleGraph

/-- A digest in progress: four lanes, the bytes of a word that is not yet full, and the number of
    bytes so far. -/
structure Digest where
  v0 : UInt64
  v1 : UInt64
  v2 : UInt64
  v3 : UInt64
  pending : UInt64
  length : Nat

namespace Digest

/-- The digest before the first byte. -/
def start : Digest :=
  ⟨0x736f6d6570736575, 0x646f72616e646f6d, 0x6c7967656e657261, 0x7465646279746573, 0, 0⟩

/-- A word with its bits moved up, those at the top to the bottom. -/
def rotate (word bits : UInt64) : UInt64 := (word <<< bits) ||| (word >>> (64 - bits))

/-- One round. -/
def mix (d : Digest) : Digest :=
  let v0 := d.v0 + d.v1
  let v1 := rotate d.v1 13 ^^^ v0
  let v0 := rotate v0 32
  let v2 := d.v2 + d.v3
  let v3 := rotate d.v3 16 ^^^ v2
  let v0 := v0 + v3
  let v3 := rotate v3 21 ^^^ v0
  let v2 := v2 + v1
  let v1 := rotate v1 17 ^^^ v2
  { d with v0, v1, v2 := rotate v2 32, v3 }

/-- Takes a word. -/
def absorb (d : Digest) (word : UInt64) : Digest :=
  let d := mix { d with v3 := d.v3 ^^^ word }
  { d with v0 := d.v0 ^^^ word }

/-- Takes a byte. -/
def step (d : Digest) (byte : UInt8) : Digest :=
  let place := d.length % 8
  let word := d.pending ||| (byte.toUInt64 <<< UInt64.ofNat (8 * place))
  if place = 7 then { d.absorb word with pending := 0, length := d.length + 1 }
  else { d with pending := word, length := d.length + 1 }

/-- The digest behind the last byte. The last word holds the number of bytes in its top byte. -/
def finish (d : Digest) : UInt64 :=
  let d := d.absorb (d.pending ||| (UInt64.ofNat d.length <<< 56))
  let d := ({ d with v2 := d.v2 ^^^ 0xff }).mix.mix.mix
  d.v0 ^^^ d.v1 ^^^ d.v2 ^^^ d.v3

/-- The digest of bytes. -/
def ofBytes (bytes : List UInt8) : UInt64 := (bytes.foldl step start).finish

end Digest
end ModuleGraph
