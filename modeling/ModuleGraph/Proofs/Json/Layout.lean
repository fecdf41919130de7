import ModuleGraph.Graph.Document
import ModuleGraph.Proofs.Json.Script

/-!
The layout of the writer as one of the ways to write a value. What is written of a text, a number, a list, a map or a
record is a script that means it (`Laid.string`, `Laid.number`, `Laid.list`, `Laid.map`, `Laid.record`).
-/
namespace ModuleGraph.Json

/-! ## Strings -/

/-- The piece of a string that the writer chooses for a character. -/
def Letter.ofChar (c : Char) : Letter :=
  if quote : c = '"' then .short .quote
  else if backslash : c = '\\' then .short .backslash
  else if c = '\x08' then .short .backspace
  else if c = '\x0c' then .short .formFeed
  else if c = '\n' then .short .newline
  else if c = '\r' then .short .carriageReturn
  else if c = '\t' then .short .tab
  else if control : c.toNat < 0x20 then
    .unit ⟨0, false⟩ ⟨0, false⟩ ⟨⟨c.toNat / 16, by omega⟩, false⟩ ⟨⟨c.toNat % 16, by omega⟩, false⟩
  else .plain c ⟨Nat.not_lt.mp control, quote, backslash⟩

def lettersOf (text : String) : List Letter := text.toList.map Letter.ofChar

private theorem text_ofChar (c : Char) : (Letter.ofChar c).text = escaped c := by
  unfold Letter.ofChar escaped
  split_ifs <;> rfl

private theorem units_ofChar (c : Char) : (Letter.ofChar c).units = utf16 c := by
  have digits : ((0 * 16 + 0) * 16 + c.toNat / 16) * 16 + c.toNat % 16 = c.toNat := by omega
  have single (control : c.toNat < 0x20) : utf16 c = [c.toNat] := if_pos (by omega)
  unfold Letter.ofChar
  split_ifs with quote backslash backspace formFeed newline carriageReturn tab control
  · subst quote; rfl
  · subst backslash; rfl
  · subst backspace; rfl
  · subst formFeed; rfl
  · subst newline; rfl
  · subst carriageReturn; rfl
  · subst tab; rfl
  · exact (congrArg (fun unit => [unit]) digits).trans (single control).symm
  · rfl

theorem spells_lettersOf (text : String) : Spells (lettersOf text) text := by
  rw [Spells, lettersOf, List.flatMap_map]
  exact List.flatMap_congr fun c _ => units_ofChar c

theorem quotedLetters_lettersOf (text : String) : quotedLetters (lettersOf text) = quoted text := by
  rw [quotedLetters, quoted, lettersOf, List.flatMap_map]
  simp only [text_ofChar]

/-! ## Numbers -/

private theorem exists_digits (n : Nat) : ∃ digits : Digits, digits.text = Nat.toDigits 10 n ∧
    (digits.first = 0 → n = 0 ∧ digits.more = []) := by
  induction n using Nat.strongRecOn with
  | ind n ih =>
    rw [Nat.toDigits_eq_if (by decide)]
    by_cases small : n < 10
    · refine ⟨⟨⟨n, small⟩, []⟩, by rw [if_pos small]; rfl, fun zero => ⟨congrArg Fin.val zero, rfl⟩⟩
    · obtain ⟨digits, text, leading⟩ := ih (n / 10) (by omega)
      refine ⟨⟨digits.first, digits.more ++ [⟨n % 10, Nat.mod_lt n (by decide)⟩]⟩, ?_, fun zero => ?_⟩
      · rw [if_neg small, ← text]
        simp [Digits.text, Digits.values]
      · have none := (leading zero).1
        omega

theorem exists_numeral (n : Nat) : ∃ numeral : Numeral, numeral.text = Nat.toDigits 10 n := by
  obtain ⟨digits, text, leading⟩ := exists_digits n
  exact ⟨⟨false, digits, fun zero => (leading zero).2, none, none⟩, by simpa [Numeral.text] using text⟩

/-! ## Values -/

/-- At every level of nesting the written form of a value is a script of some kind. -/
def Laid (kind : Script → Prop) (v : Json) : Prop := ∀ depth, ∃ s, kind s ∧ s.text = v.render depth

/-- The line break in front of an item. -/
private def lineBreak (depth : Nat) : List Blank := .newline :: List.replicate (2 * depth) .space

private theorem blanks_lineBreak (depth : Nat) : blanks (lineBreak depth) = newLine depth := by
  simp [blanks, lineBreak, newLine, Blank.char]

namespace Laid

theorem string (text : String) : Laid (·.IsText text) (.string text) := fun _ =>
  ⟨.string (lettersOf text), ⟨_, rfl, spells_lettersOf text⟩, quotedLetters_lettersOf text⟩

theorem number (n : Nat) : Laid (·.IsNat n) (.number n) := fun _ => by
  obtain ⟨numeral, text⟩ := exists_numeral n
  exact ⟨.number numeral, ⟨numeral, rfl, text⟩, text⟩

section
variable {α : Type} {means : Script → α → Prop} {toJson : α → Json}

/-- The items of an array after its first, and the blanks in front of what comes next. -/
private theorem items (depth last : Nat) {as : List α} (each : ∀ a ∈ as, Laid (means · a) (toJson a)) :
    ∃ after items, List.Forall₂ (fun item a => means item.value a) items as ∧
      blanks after ++ Script.itemsText items = renderItems depth (as.map toJson) ++ newLine last := by
  induction as with
  | nil => exact ⟨lineBreak last, [], .nil, by simp [Script.itemsText, renderItems, blanks_lineBreak]⟩
  | cons a rest ih =>
    obtain ⟨first, later⟩ := List.forall_mem_cons.mp each
    obtain ⟨s, meant, text⟩ := first depth
    obtain ⟨after, items, alike, rest⟩ := ih later
    refine ⟨[], ⟨lineBreak depth, s, after⟩ :: items, .cons meant alike, ?_⟩
    simp [Script.itemsText, renderItems, blanks_lineBreak, text, ← rest]

theorem list {as : List α} (each : ∀ a ∈ as, Laid (means · a) (toJson a)) :
    Laid (·.IsList means as) (.array (as.map toJson)) := by
  intro depth
  cases as with
  | nil => exact ⟨.array [] [], ⟨[], [], rfl, .nil⟩, by simp [Script.text, render]⟩
  | cons a rest =>
    obtain ⟨first, later⟩ := List.forall_mem_cons.mp each
    obtain ⟨s, meant, text⟩ := first (depth + 1)
    obtain ⟨after, items, alike, rest⟩ := items (depth + 1) depth later
    refine ⟨.array [] (⟨lineBreak (depth + 1), s, after⟩ :: items), ⟨_, _, rfl, .cons meant alike⟩, ?_⟩
    have rest := congrArg (· ++ [']']) rest
    simp only [List.append_assoc] at rest
    simp [Script.text, render, blanks_lineBreak, text, ← rest]

end

section
variable {ι : Type} (name : ι → String) {value : ι → Json} {kind : ι → Script → Prop}

/-- Fields with given names whose values are of given kinds. -/
private def Alike {ι : Type} (name : ι → String) (kind : ι → Script → Prop) : List (Field Script) → List ι → Prop :=
  List.Forall₂ fun field entry => Spells field.name.value (name entry) ∧ kind entry field.value.value

/-- The fields of an object after its first, and the blanks in front of what comes next. -/
private theorem fields (depth last : Nat) {entries : List ι} (each : ∀ e ∈ entries, Laid (kind e) (value e)) :
    ∃ after fields, Alike name kind fields entries ∧ blanks after ++ Script.fieldsText fields =
      renderFields depth (entries.map fun e => (name e, value e)) ++ newLine last := by
  induction entries with
  | nil => exact ⟨lineBreak last, [], .nil, by simp [Script.fieldsText, renderFields, blanks_lineBreak]⟩
  | cons entry rest ih =>
    obtain ⟨first, later⟩ := List.forall_mem_cons.mp each
    obtain ⟨s, meant, text⟩ := first depth
    obtain ⟨after, fields, alike, rest⟩ := ih later
    refine ⟨[], ⟨⟨lineBreak depth, lettersOf (name entry), []⟩, ⟨[.space], s, after⟩⟩ :: fields,
      .cons ⟨spells_lettersOf _, meant⟩ alike, ?_⟩
    simp [Script.fieldsText, renderFields, blanks_lineBreak, quotedLetters_lettersOf, text, ← rest, Blank.char]

/-- The written form of an object has its fields in order. -/
private theorem object {entries : List ι} (each : ∀ e ∈ entries, Laid (kind e) (value e)) :
    Laid (fun s => ∃ inner fields, s = .object inner fields ∧ Alike name kind fields entries)
      (.object (entries.map fun e => (name e, value e))) := by
  intro depth
  cases entries with
  | nil => exact ⟨.object [] [], ⟨[], [], rfl, .nil⟩, by simp [Script.text, render]⟩
  | cons entry rest =>
    obtain ⟨first, later⟩ := List.forall_mem_cons.mp each
    obtain ⟨s, meant, text⟩ := first (depth + 1)
    obtain ⟨after, fields, alike, rest⟩ := fields name (depth + 1) depth later
    refine ⟨.object [] (⟨⟨lineBreak (depth + 1), lettersOf (name entry), []⟩, ⟨[.space], s, after⟩⟩ :: fields),
      ⟨_, _, rfl, .cons ⟨spells_lettersOf _, meant⟩ alike⟩, ?_⟩
    have rest := congrArg (· ++ ['}']) rest
    simp only [List.append_assoc] at rest
    simp [Script.text, render, blanks_lineBreak, quotedLetters_lettersOf, text, ← rest, Blank.char]

end

theorem map {α : Type} {means : Script → α → Prop} {toJson : α → Json} {m : OrderedMap String α}
    (each : ∀ key a, (key, a) ∈ m.entries → Laid (means · a) (toJson a)) :
    Laid (·.IsMap means m) (m.toJson toJson) :=
  object Prod.fst fun entry member => each entry.1 entry.2 member

/-! ## Records -/

/-- A field that is written as a value, or left out if it may be. -/
def Given (entry : Script.Slot × Option Json) : Prop :=
  match entry.2 with
  | some v => Laid entry.1.means v
  | none => entry.1.optional

theorem given_unless {slot : Script.Slot} {empty : Prop} [Decidable empty] {v : Json} (omitted : empty → slot.optional)
    (laid : Laid slot.means v) : Given (slot, if empty then none else some v) := by
  unfold Given
  split <;> rename_i same <;> split at same
  · cases same
  · cases same
    exact laid
  · exact omitted ‹_›
  · cases same

/-- The fields of a record that are written. -/
def written (plan : List (Script.Slot × Option Json)) : List (String × Json) :=
  plan.filterMap fun entry => entry.2.map fun v => (entry.1.name, v)

private def present (plan : List (Script.Slot × Option Json)) : List (Script.Slot × Json) :=
  plan.filterMap fun entry => entry.2.map fun v => (entry.1, v)

private theorem fill {plan : List (Script.Slot × Option Json)} (given : ∀ entry ∈ plan, Given entry)
    {fields : List (Field Script)} (alike : Alike (·.1.name) (·.1.means) fields (present plan)) :
    Script.Fill (plan.map Prod.fst) fields := by
  induction plan generalizing fields with
  | nil =>
    cases alike
    exact .nil
  | cons entry rest ih =>
    obtain ⟨first, later⟩ := List.forall_mem_cons.mp given
    obtain ⟨slot, v?⟩ := entry
    cases v? with
    | none => exact .omitted first (ih later alike)
    | some v =>
      cases alike with
      | cons head others => exact .written head.1 head.2 (ih later others)

/-- A record whose fields are written in order, but for those that are left out. -/
theorem record (plan : List (Script.Slot × Option Json)) (given : ∀ entry ∈ plan, Given entry) :
    Laid (·.IsRecord (plan.map Prod.fst)) (.object (written plan)) := by
  have each : ∀ entry ∈ present plan, Laid entry.1.means entry.2 := by
    rintro ⟨slot, v⟩ member
    obtain ⟨⟨slot', v?⟩, listed, same⟩ := List.mem_filterMap.mp member
    obtain ⟨v', rfl, same⟩ := Option.map_eq_some_iff.mp same
    cases same
    exact given _ listed
  have laid := object (fun entry : Script.Slot × Json => entry.1.name) each
  have names : (present plan).map (fun entry => (entry.1.name, entry.2)) = written plan := by
    rw [present, written, List.map_filterMap]
    simp only [Option.map_map, Function.comp_def]
  rw [names] at laid
  intro depth
  obtain ⟨s, ⟨inner, fields, rfl, alike⟩, text⟩ := laid depth
  exact ⟨_, ⟨inner, fields, fields, [], rfl, by simp, fill given alike, by simp⟩, text⟩

end Laid
end ModuleGraph.Json
