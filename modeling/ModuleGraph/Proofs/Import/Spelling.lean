import ModuleGraph.Import.Python

/-!
The characters of names, and dotted names without what stands around their dots.
-/
namespace ModuleGraph.Python
open Text
variable {c : Char}

/-- The characters with which names begin: letters, the underscore, and beyond ASCII what is not blank. -/
def IsNameStart (c : Char) : Prop :=
  let n := c.toNat
  0x41 ≤ n ∧ n ≤ 0x5A ∨ n = 0x5F ∨ 0x61 ≤ n ∧ n ≤ 0x7A ∨ 0x80 ≤ n ∧ isBlank c = false

/-- The characters of names. -/
def IsNameChar (c : Char) : Prop := IsNameStart c ∨ 0x30 ≤ c.toNat ∧ c.toNat ≤ 0x39

instance (c : Char) : Decidable (IsNameStart c) := inferInstanceAs (Decidable (_ ∨ _ ∨ _ ∨ _))

instance (c : Char) : Decidable (IsNameChar c) := inferInstanceAs (Decidable (_ ∨ _))

theorem IsNameChar.isBlank_eq_false (ofName : IsNameChar c) : isBlank c = false := by
  rcases ofName with (upper | underscore | lower | ⟨-, solid⟩) | digit
  case inl.inr.inr.inr => exact solid
  all_goals
    simp only [isBlank, Bool.or_eq_false_iff, Bool.and_eq_false_iff, decide_eq_false_iff_not, beq_eq_false_iff_ne]
    omega

theorem IsNameChar.ne {sign : Char} (ofName : IsNameChar c) (other : ¬IsNameChar sign) : c ≠ sign := by
  rintro rfl
  exact other ofName

/-- Whether a character stays in a dotted name. -/
def isKept (c : Char) : Bool := !isBlank c && c != '\\'

theorem isKept_iff : isKept c = true ↔ isBlank c = false ∧ c ≠ '\\' := by
  simp [isKept]

theorem IsNameChar.isKept (ofName : IsNameChar c) : isKept c = true :=
  isKept_iff.mpr ⟨ofName.isBlank_eq_false, ofName.ne (by decide)⟩

theorem normaliseDotted_ofList (cs : List Char) : normaliseDotted (.ofList cs) = .ofList (cs.filter isKept) := by
  rw [normaliseDotted, String.toList_ofList]
  rfl

theorem clean_normaliseDotted (text : String) : ∀ c ∈ (normaliseDotted text).toList, isBlank c = false ∧ c ≠ '\\' := by
  intro c member
  rw [normaliseDotted, String.toList_ofList] at member
  exact isKept_iff.mp (List.mem_filter.mp member).2

end ModuleGraph.Python
