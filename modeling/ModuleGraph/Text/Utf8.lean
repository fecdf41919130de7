/-!
Texts as bytes in UTF-8. Reading is strict (`ofUtf8?`), or every longest start of a character that
never ends becomes one replacement character (`ofUtf8Lossy`).
-/
namespace ModuleGraph.Text

/-- The bytes of a text. -/
def utf8Bytes (text : String) : List UInt8 := text.toUTF8.data.toList

/-- The text whose bytes are given, if there is one. -/
def ofUtf8? (bytes : List UInt8) : Option String := String.fromUTF8? ⟨bytes.toArray⟩

@[simp] theorem ofUtf8?_utf8Bytes (text : String) : ofUtf8? (utf8Bytes text) = some text := by
  simp [ofUtf8?, utf8Bytes, String.fromUTF8?,
    text.isValidUTF8, String.fromUTF8]

/-- A text read byte by byte: the characters so far in reverse and the character in progress, by
    the number of bytes that it lacks, the bounds of the next one and its value so far. -/
structure LossyReader where
  reversed : List Char
  owed : Nat
  low : UInt8
  high : UInt8
  value : Nat

namespace LossyReader

/-- The character that stands for bytes that are no character. -/
def replacement : Char := Char.ofNat 0xFFFD

/-- The reader in front of the first byte. -/
def start : LossyReader := ⟨[], 0, 0x80, 0xBF, 0⟩

/-- The reader with one more character, between characters. -/
def push (r : LossyReader) (c : Char) : LossyReader := ⟨c :: r.reversed, 0, 0x80, 0xBF, 0⟩

/-- The reader inside a character. -/
def await (r : LossyReader) (owed : Nat) (low high : UInt8) (value : Nat) : LossyReader :=
  { r with owed, low, high, value }

/-- Reads the first byte of a character. -/
def first (r : LossyReader) (b : UInt8) : LossyReader :=
  let n := b.toNat
  if n < 0x80 then r.push (Char.ofNat n)
  else if 0xC2 ≤ n ∧ n ≤ 0xDF then r.await 1 0x80 0xBF (n - 0xC0)
  else if n = 0xE0 then r.await 2 0xA0 0xBF 0
  else if n = 0xED then r.await 2 0x80 0x9F 0xD
  else if 0xE1 ≤ n ∧ n ≤ 0xEF then r.await 2 0x80 0xBF (n - 0xE0)
  else if n = 0xF0 then r.await 3 0x90 0xBF 0
  else if 0xF1 ≤ n ∧ n ≤ 0xF3 then r.await 3 0x80 0xBF (n - 0xF0)
  else if n = 0xF4 then r.await 3 0x80 0x8F 4
  else r.push replacement

/-- Reads one byte. -/
def step (r : LossyReader) (b : UInt8) : LossyReader :=
  if r.owed = 0 then r.first b
  else if r.low ≤ b ∧ b ≤ r.high then
    let value := r.value * 64 + (b.toNat - 0x80)
    if r.owed = 1 then r.push (Char.ofNat value) else r.await (r.owed - 1) 0x80 0xBF value
  else (r.push replacement).first b

/-- Reads the end. -/
def finish (r : LossyReader) : LossyReader := if r.owed = 0 then r else r.push replacement

end LossyReader

/-- The text of bytes, with a replacement character wherever they are no text. -/
def ofUtf8Lossy (bytes : List UInt8) : String :=
  String.ofList (bytes.foldl LossyReader.step .start).finish.reversed.reverse

end ModuleGraph.Text
