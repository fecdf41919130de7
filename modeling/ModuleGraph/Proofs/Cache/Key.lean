import ModuleGraph.Cache.Key
import ModuleGraph.FileSystem.Basic
import ModuleGraph.Proofs.Binary.Codec
import ModuleGraph.Proofs.Path.Names
import Mathlib.Data.String.Basic

/-!
Names and bytes of keys. Every key has an entry name that a file can have (`CacheKey.isName_entryName`),
and it is not the name of the manifest. A key with texts that are not too long is read back from its bytes.
-/
namespace ModuleGraph.CacheKey
open ModuleGraph.Path

/-- The texts of a key are short enough for their lengths to be written. -/
def Fits (key : CacheKey) : Prop :=
  key.kind.utf8ByteSize < Codec.wordLimit ∧ key.revision.utf8ByteSize < Codec.wordLimit

instance (key : CacheKey) : Decidable key.Fits := inferInstanceAs (Decidable (_ ∧ _))

theorem readsBack_codec {key : CacheKey} (fits : key.Fits) : codec.ReadsBack key :=
  .via rfl (.pair (Codec.readsBack_text fits.1) (Codec.readsBack_text fits.2))

/-! ## Entry names -/

private theorem digitChar_of_mem_toDigits {n : Nat} {c : Char} (member : c ∈ Nat.toDigits 16 n) :
    ∃ d < 16, c = Nat.digitChar d := by
  induction n using Nat.strongRecOn with
  | ind n ih =>
    by_cases small : n < 16
    · rw [Nat.toDigits_of_lt_base small, List.mem_singleton] at member
      exact ⟨n, small, member⟩
    · rw [Nat.toDigits_of_base_le (by decide) (Nat.not_lt.mp small)] at member
      rcases List.mem_append.mp member with front | last
      · exact ih (n / 16) (Nat.div_lt_self (by omega) (by decide)) front
      · exact ⟨n % 16, Nat.mod_lt n (by decide), List.mem_singleton.mp last⟩

private theorem not_mem_toDigits {n : Nat} {c : Char} (other : ∀ d < 16, c ≠ Nat.digitChar d) :
    c ∉ Nat.toDigits 16 n := fun member => by
  obtain ⟨d, small, same⟩ := digitChar_of_mem_toDigits member
  exact other d small same

private theorem utf8Len_le (cs : List Char) : String.utf8Len cs ≤ 4 * cs.length := by
  induction cs with
  | nil => simp
  | cons c cs ih =>
    have size := c.utf8Size_le_four
    simp only [String.utf8Len_cons, List.length_cons]
    omega

variable (key : CacheKey)

private theorem toList_entryName : key.entryName.toList =
    "snapshot_".toList ++ Nat.toDigits 16 key.digest.toNat ++ ".bincode".toList := by
  simp [entryName]

theorem isName_entryName : IsName key.entryName := by
  have long : 9 < key.entryName.toList.length := by
    rw [toList_entryName]
    simp
  refine ⟨?_, ?_, ?_, ?_, ?_⟩
  · rintro none
    simp [none] at long
  · rintro here
    simp [here] at long
  · rintro up
    simp [up] at long
  · rw [toList_entryName]
    have digits := not_mem_toDigits (n := key.digest.toNat) (c := '/') (by decide)
    simp [digits]
  · rw [toList_entryName]
    have digits := not_mem_toDigits (n := key.digest.toNat) (c := '\x00') (by decide)
    simp [digits]

theorem entryName_fits : key.entryName.utf8ByteSize ≤ FileSystem.nameLimit := by
  have digits : (Nat.toDigits 16 key.digest.toNat).length ≤ 16 :=
    (Nat.length_toDigits_le_iff (by decide) (by decide)).mpr key.digest.toNat_lt
  have bytes := utf8Len_le key.entryName.toList
  rw [← String.utf8ByteSize_ofList, String.ofList_toList] at bytes
  have front : "snapshot_".toList.length = 9 := by decide
  have back : ".bincode".toList.length = 8 := by decide
  have length : key.entryName.toList.length ≤ 9 + 16 + 8 := by
    rw [toList_entryName, List.length_append, List.length_append, front, back]
    omega
  unfold FileSystem.nameLimit
  omega

theorem entryName_ne_manifest : key.entryName ≠ "manifest.bincode" := fun same => by
  have first := congrArg (·.toList.head?) same
  simp [toList_entryName] at first

end ModuleGraph.CacheKey
