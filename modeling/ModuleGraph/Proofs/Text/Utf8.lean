import ModuleGraph.Text.Utf8
import Mathlib.Data.List.Basic

/-!
The bytes of texts and their order. The bytes of a text are those of its characters, one after the other. The bytes of
two characters differ at a byte that tells which character comes first (`utf8EncodeChar_lt`), so the order of texts by
their characters is the order by their bytes (`utf8Bytes_lt`).
-/
namespace ModuleGraph.Text

theorem utf8Bytes_eq (text : String) : utf8Bytes text = text.toList.flatMap String.utf8EncodeChar := by
  conv_lhs => rw [← String.ofList_toList (s := text)]
  rw [utf8Bytes, String.toUTF8_eq_toByteArray, String.toByteArray_ofList, List.utf8Encode, List.data_toByteArray]

/-- The number of bytes of a text. -/
def byteCount (cs : List Char) : Nat := (utf8Bytes (.ofList cs)).length

theorem byteCount_append (front back : List Char) : byteCount (front ++ back) = byteCount front + byteCount back := by
  simp only [byteCount, utf8Bytes_eq, String.toList_ofList, List.flatMap_append, List.length_append]

theorem byteCount_pos {cs : List Char} (some : cs ≠ []) : 0 < byteCount cs := by
  obtain ⟨c, rest, rfl⟩ := List.exists_cons_of_ne_nil some
  have first : 0 < (String.utf8EncodeChar c).length := List.length_pos_iff.mpr String.utf8EncodeChar_ne_nil
  rw [byteCount, utf8Bytes_eq, String.toList_ofList, List.flatMap_cons, List.length_append]
  omega

/-! ## Order -/

private theorem cons_ofNat_lt_iff {n m : Nat} (small : n < 256) (small' : m < 256) {back back' : List UInt8} :
    UInt8.ofNat n :: back < UInt8.ofNat m :: back' ↔ n < m ∨ n = m ∧ back < back' := by
  have value {k : Nat} (small : k < 256) : (UInt8.ofNat k).toNat = k := by
    rw [UInt8.toNat_ofNat', Nat.mod_eq_of_lt small]
  rw [List.cons_lt_cons_iff, UInt8.lt_iff_toNat_lt, ← UInt8.toNat_inj, value small, value small']

/-- A character that comes first has bytes that come first, whatever stands behind them. -/
theorem utf8EncodeChar_lt {c d : Char} (less : c < d) (back back' : List UInt8) :
    String.utf8EncodeChar c ++ back < String.utf8EncodeChar d ++ back' := by
  have less : c.val.toNat < d.val.toNat := less
  have top : d.val.toNat < 0x110000 := by
    have valid := d.valid
    unfold UInt32.isValidChar Nat.isValidChar at valid
    omega
  simp only [String.utf8EncodeChar]
  generalize c.val.toNat = v at less
  generalize d.val.toNat = w at less top
  have digits (n : Nat) : n / 4096 = n / 64 / 64 ∧ n / 262144 = n / 64 / 64 / 64 := by omega
  rw [(digits v).1, (digits v).2, (digits w).1, (digits w).2]
  -- The first byte tells how many there are, so only characters of the same size agree in it.
  split_ifs <;> simp (disch := omega) only [List.cons_append, cons_ofNat_lt_iff] <;> omega

/-- The order of texts is the order of their bytes. -/
theorem utf8Bytes_lt {a b : String} (less : a < b) : utf8Bytes a < utf8Bytes b := by
  have less : List.Lex (· < ·) a.toList b.toList := less
  rw [utf8Bytes_eq, utf8Bytes_eq]
  generalize a.toList = front at less
  generalize b.toList = back at less
  induction less with
  | @nil d rest =>
    obtain ⟨byte, bytes, start⟩ := List.exists_cons_of_ne_nil (String.utf8EncodeChar_ne_nil (c := d))
    rw [List.flatMap_nil, List.flatMap_cons, start]
    exact List.nil_lt_cons _ _
  | rel first => exact utf8EncodeChar_lt first _ _
  | cons rest ih =>
    rw [List.flatMap_cons, List.flatMap_cons]
    exact List.append_left_lt ih

end ModuleGraph.Text
