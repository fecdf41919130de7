import ModuleGraph.Proofs.Binary.Codec
import ModuleGraph.Proofs.OrderedMap

/-!
What codecs do not read. A codec that reads a value off the front of some bytes reads it whatever else
follows (`Codec.IgnoresRest`), which holds of all that is put together here. If it also reads back what it
writes, then no part of what it writes that ends early is read as anything at all
(`Codec.ReadsBack.faithful`).
-/
namespace ModuleGraph.Codec
variable {α β : Type}

/-- A value that is read is read in the same way when more bytes follow. -/
def IgnoresRest (c : Codec α) : Prop :=
  ∀ bytes a rest more, c.read bytes = some (a, rest) → c.read (bytes ++ more) = some (a, rest ++ more)

/-- What is written for a value is decoded as that value whatever follows, and no part of it that ends
    early is decoded. -/
structure Faithful (c : Codec α) (a : α) : Prop where
  decode_append : ∀ rest, c.decode (c.write a ++ rest) = some a
  decode_truncated : ∀ front, front <+: c.write a → front ≠ c.write a → c.decode front = none

theorem ReadsBack.faithful {c : Codec α} {a : α} (back : c.ReadsBack a) (ignores : c.IgnoresRest) :
    c.Faithful a where
  decode_append rest := by rw [Codec.decode, back rest, Option.map_some]
  decode_truncated := by
    rintro front ⟨more, whole⟩ short
    rw [Codec.decode, Option.map_eq_none_iff, Option.eq_none_iff_forall_ne_some]
    rintro ⟨b, rest⟩ read
    have extended := ignores front b rest more read
    have exact := back []
    rw [List.append_nil, ← whole, extended] at exact
    -- Nothing is left behind the whole text, so there was nothing more than the front.
    have none : rest ++ more = [] := congrArg Prod.snd (Option.some.inj exact)
    exact short (by rw [← whole, (List.append_eq_nil_iff.mp none).2, List.append_nil])

/-! ## Numbers and texts -/

theorem take?_eq_some_iff {count : Nat} {bytes front rest : List UInt8} :
    take? count bytes = some (front, rest) ↔ front.length = count ∧ bytes = front ++ rest := by
  constructor
  · intro taken
    simp only [take?, Option.ite_none_right_eq_some, Option.some.injEq, Prod.mk.injEq] at taken
    obtain ⟨long, rfl, rfl⟩ := taken
    exact ⟨long, (List.take_append_drop ..).symm⟩
  · rintro ⟨rfl, rfl⟩
    exact take?_append front rest

private theorem take?_more {count : Nat} {bytes front rest : List UInt8} (more : List UInt8)
    (taken : take? count bytes = some (front, rest)) :
    take? count (bytes ++ more) = some (front, rest ++ more) := by
  obtain ⟨long, rfl⟩ := take?_eq_some_iff.mp taken
  exact take?_eq_some_iff.mpr ⟨long, List.append_assoc ..⟩

theorem ignoresRest_word : word.IgnoresRest := by
  intro bytes n rest more read
  simp only [word, Option.map_eq_some_iff, Prod.mk.injEq] at read ⊢
  obtain ⟨⟨front, _⟩, taken, number, rfl⟩ := read
  exact ⟨_, take?_more more taken, number, rfl⟩

theorem ignoresRest_blob : blob.IgnoresRest := by
  intro bytes blob' rest more read
  simp only [blob, Option.bind_eq_bind, Option.bind_eq_some_iff] at read ⊢
  obtain ⟨⟨count, behind⟩, counted, taken⟩ := read
  exact ⟨_, ignoresRest_word _ _ _ more counted, take?_more more taken⟩

theorem ignoresRest_text : text.IgnoresRest := by
  intro bytes s rest more read
  simp only [text, Option.bind_eq_bind, Option.bind_eq_some_iff, Option.some.injEq, Prod.mk.injEq] at read ⊢
  obtain ⟨⟨front, _⟩, taken, s, decoded, rfl, rfl⟩ := read
  exact ⟨_, ignoresRest_blob _ _ _ more taken, s, decoded, rfl, rfl⟩

/-! ## Values put together -/

theorem IgnoresRest.pair {c : Codec α} {d : Codec β} (first : c.IgnoresRest) (second : d.IgnoresRest) :
    (c.pair d).IgnoresRest := by
  intro bytes v rest more read
  simp only [Codec.pair, Option.bind_eq_bind, Option.bind_eq_some_iff, Option.some.injEq, Prod.mk.injEq] at read ⊢
  obtain ⟨⟨a, behind⟩, front, ⟨b, _⟩, back, same, rfl⟩ := read
  exact ⟨_, first _ _ _ more front, _, second _ _ _ more back, same, rfl⟩

private theorem readMany_more {c : Codec α} (each : c.IgnoresRest) (more : List UInt8) {count : Nat}
    {bytes rest : List UInt8} {as : List α} (read : c.readMany count bytes = some (as, rest)) :
    c.readMany count (bytes ++ more) = some (as, rest ++ more) := by
  induction count generalizing bytes as with
  | zero =>
    cases read
    rfl
  | succ count ih =>
    simp only [readMany, Option.bind_eq_bind, Option.bind_eq_some_iff, Option.some.injEq, Prod.mk.injEq] at read ⊢
    obtain ⟨⟨a, behind⟩, front, ⟨as, _⟩, later, same, rfl⟩ := read
    exact ⟨_, each _ _ _ more front, _, ih later, same, rfl⟩

theorem IgnoresRest.list {c : Codec α} (each : c.IgnoresRest) : c.list.IgnoresRest := by
  intro bytes as rest more read
  simp only [Codec.list, Option.bind_eq_bind, Option.bind_eq_some_iff] at read ⊢
  obtain ⟨⟨count, behind⟩, counted, many⟩ := read
  exact ⟨_, ignoresRest_word _ _ _ more counted, readMany_more each more many⟩

theorem IgnoresRest.option {c : Codec α} (inner : c.IgnoresRest) : c.option.IgnoresRest := by
  intro bytes a rest more read
  simp only [Codec.option] at read ⊢
  split at read
  · cases read
    rfl
  · simp only [List.cons_append, Option.map_eq_some_iff, Prod.mk.injEq] at read ⊢
    obtain ⟨⟨a, _⟩, front, same, rfl⟩ := read
    exact ⟨_, inner _ _ _ more front, same, rfl⟩
  · cases read

theorem IgnoresRest.via {c : Codec α} (forth : β → α) (back : α → β) (inner : c.IgnoresRest) :
    (c.via forth back).IgnoresRest := by
  intro bytes b rest more read
  simp only [Codec.via, Option.map_eq_some_iff, Prod.mk.injEq] at read ⊢
  obtain ⟨⟨a, _⟩, front, same, rfl⟩ := read
  exact ⟨_, inner _ _ _ more front, same, rfl⟩

theorem IgnoresRest.map [DecidableEq α] {key : Codec α} {value : Codec β} (first : key.IgnoresRest)
    (second : value.IgnoresRest) : (key.map value).IgnoresRest :=
  (first.pair second).list.via _ _

theorem ignoresRest_float : float.IgnoresRest := ignoresRest_word.via _ _

theorem readsBack_float (number : Binary64) : float.ReadsBack number :=
  .via (by simp) (readsBack_word number.bits.toNat_lt)

theorem ReadsBack.option {c : Codec α} {a : Option α} (each : ∀ v ∈ a, c.ReadsBack v) : c.option.ReadsBack a := by
  intro rest
  cases a with
  | none => rfl
  | some v =>
    have inner := each v rfl rest
    simp only [Codec.option, List.cons_append, inner, Option.map_some]

/-- The keys of a map are distinct, so no entry is written over another one. -/
theorem ReadsBack.map [DecidableEq α] {key : Codec α} {value : Codec β} {m : OrderedMap α β}
    (each : ∀ entry ∈ m.entries, key.ReadsBack entry.1 ∧ value.ReadsBack entry.2) (fits : m.size < wordLimit) :
    (key.map value).ReadsBack m :=
  .via OrderedMap.insertAll_entries (.list (fun entry member => .pair (each entry member).1 (each entry member).2) fits)

end ModuleGraph.Codec
