import ModuleGraph.Binary.Codec
import Mathlib.Algebra.Ring.Nat

/-!
What codecs read back. Numbers that fit into a word, texts and lists that are not too long to be counted
by one, and what is put together from them (`ReadsBack.pair`, `ReadsBack.list`, `ReadsBack.via`) is read
as it was written, whatever follows.
-/
namespace ModuleGraph.Codec
variable {α β : Type}

/-- The number of words. -/
def wordLimit : Nat := 2 ^ 64

/-- What is written for a value is read as that value, whatever follows. -/
def ReadsBack (c : Codec α) (a : α) : Prop := ∀ rest, c.read (c.write a ++ rest) = some (a, rest)

theorem ReadsBack.decode {c : Codec α} {a : α} (back : c.ReadsBack a) : c.decode (c.write a) = some a := by
  have read := back []
  rw [List.append_nil] at read
  rw [Codec.decode, read, Option.map_some]

/-! ## Numbers and texts -/

private theorem length_lowBytes (count n : Nat) : (lowBytes count n).length = count := by
  induction count generalizing n with
  | zero => rfl
  | succ count ih => rw [lowBytes, List.length_cons, ih]

private theorem ofLowBytes_lowBytes {count n : Nat} (fits : n < 256 ^ count) :
    ofLowBytes (lowBytes count n) = n := by
  induction count generalizing n with
  | zero =>
    have single : n = 0 := by simpa using fits
    rw [single, lowBytes, ofLowBytes]
  | succ count ih =>
    have later : n / 256 < 256 ^ count := by
      rw [Nat.div_lt_iff_lt_mul (by decide), ← Nat.pow_succ]
      exact fits
    have lowest : (UInt8.ofNat n).toNat = n % 256 := by simp
    rw [lowBytes, ofLowBytes, ih later, lowest, Nat.mod_add_div]

theorem take?_append (bytes rest : List UInt8) :
    take? bytes.length (bytes ++ rest) = some (bytes, rest) := by
  simp [take?]

theorem readsBack_word {n : Nat} (fits : n < wordLimit) : word.ReadsBack n := by
  intro rest
  have front := take?_append (lowBytes 8 n) rest
  have number : ofLowBytes (lowBytes 8 n) = n := ofLowBytes_lowBytes fits
  rw [length_lowBytes] at front
  simp only [word, front, Option.map_some, number]

theorem readsBack_blob {bytes : List UInt8} (fits : bytes.length < wordLimit) : blob.ReadsBack bytes := by
  intro rest
  simp only [blob, List.append_assoc, readsBack_word fits _]
  exact take?_append bytes rest

theorem readsBack_text {s : String} (fits : s.utf8ByteSize < wordLimit) : text.ReadsBack s := by
  intro rest
  have count : (Text.utf8Bytes s).length < wordLimit := fits
  simp only [text, readsBack_blob count _]
  simp

/-! ## Values put together -/

theorem ReadsBack.pair {c : Codec α} {d : Codec β} {v : α × β} (first : c.ReadsBack v.1)
    (second : d.ReadsBack v.2) : (c.pair d).ReadsBack v := by
  intro rest
  simp only [Codec.pair, List.append_assoc, first _]
  simp [second rest]

private theorem readMany_flatMap {c : Codec α} {as : List α} (each : ∀ a ∈ as, c.ReadsBack a)
    (rest : List UInt8) : c.readMany as.length (as.flatMap c.write ++ rest) = some (as, rest) := by
  induction as with
  | nil => rfl
  | cons a as ih =>
    have later := ih fun other member => each other (List.mem_cons_of_mem _ member)
    rw [List.length_cons, readMany, List.flatMap_cons, List.append_assoc, each a List.mem_cons_self]
    simp [later]

theorem ReadsBack.list {c : Codec α} {as : List α} (each : ∀ a ∈ as, c.ReadsBack a)
    (fits : as.length < wordLimit) : c.list.ReadsBack as := by
  intro rest
  simp only [Codec.list, List.append_assoc, readsBack_word fits _]
  exact readMany_flatMap each rest

theorem ReadsBack.via {c : Codec α} {forth : β → α} {back : α → β} {b : β}
    (inverse : back (forth b) = b) (inner : c.ReadsBack (forth b)) : (c.via forth back).ReadsBack b := by
  intro rest
  simp only [Codec.via, inner rest, Option.map_some, inverse]

end ModuleGraph.Codec
