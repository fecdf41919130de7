import ModuleGraph.Proofs.Binary.Truncation

/-!
The values that can be read at all. What is read of a number is below the limit of its eight bytes, so what is read of
a text or of a list is no longer than can be written again, and what holds of the parts of a value that was read holds
of the parts of the whole (`Codec.ReadsOnly`).
-/
namespace ModuleGraph.Codec
variable {α β : Type} {c : Codec α} {d : Codec β} {P : α → Prop} {Q : β → Prop}

/-- Every value that is read has a property. -/
def ReadsOnly (c : Codec α) (P : α → Prop) : Prop := ∀ bytes a rest, c.read bytes = some (a, rest) → P a

theorem ReadsOnly.decode {bytes : List UInt8} {a : α} (only : c.ReadsOnly P) (decoded : c.decode bytes = some a) : P a := by
  rw [Codec.decode, Option.map_eq_some_iff] at decoded
  obtain ⟨⟨b, rest⟩, read, rfl⟩ := decoded
  exact only bytes b rest read

theorem ofLowBytes_lt (bytes : List UInt8) : ofLowBytes bytes < 256 ^ bytes.length := by
  induction bytes with
  | nil => exact Nat.one_pos
  | cons b rest ih =>
    have digit := b.toNat_lt
    rw [ofLowBytes, List.length_cons, Nat.pow_succ]
    omega

theorem readsOnly_word : word.ReadsOnly (· < wordLimit) := by
  intro bytes n rest read
  simp only [word, Option.map_eq_some_iff, Prod.mk.injEq] at read
  obtain ⟨⟨front, _⟩, taken, rfl, rfl⟩ := read
  have bound := ofLowBytes_lt front
  rwa [(take?_eq_some_iff.mp taken).1] at bound

theorem readsOnly_blob : blob.ReadsOnly (·.length < wordLimit) := by
  intro bytes front rest read
  simp only [blob, Option.bind_eq_bind, Option.bind_eq_some_iff] at read
  obtain ⟨⟨count, behind⟩, counted, taken⟩ := read
  rw [(take?_eq_some_iff.mp taken).1]
  exact readsOnly_word bytes count behind counted

/-- A text that is read has the bytes that it is read from. -/
theorem utf8Bytes_of_decoded {bytes : List UInt8} {s : String} (decoded : Text.ofUtf8? bytes = some s) :
    Text.utf8Bytes s = bytes := by
  rw [Text.ofUtf8?, String.fromUTF8?] at decoded
  split at decoded
  · cases decoded
    rfl
  · cases decoded

theorem readsOnly_text : text.ReadsOnly (·.utf8ByteSize < wordLimit) := by
  intro bytes s rest read
  simp only [text, Option.bind_eq_bind, Option.bind_eq_some_iff] at read
  obtain ⟨⟨front, behind⟩, found, s', decoded, same⟩ := read
  cases same
  have short : front.length < wordLimit := readsOnly_blob bytes front _ found
  have whole : Text.utf8Bytes s = front := utf8Bytes_of_decoded decoded
  rw [← whole] at short
  exact short

theorem ReadsOnly.pair (first : c.ReadsOnly P) (second : d.ReadsOnly Q) :
    (c.pair d).ReadsOnly fun v => P v.1 ∧ Q v.2 := by
  intro bytes v rest read
  simp only [Codec.pair, Option.bind_eq_bind, Option.bind_eq_some_iff] at read
  obtain ⟨⟨a, behind⟩, front, ⟨b, rest'⟩, back, same⟩ := read
  cases same
  exact ⟨first bytes a behind front, second behind b _ back⟩

theorem ReadsOnly.via {Q : β → Prop} (forth : β → α) {back : α → β} (inner : c.ReadsOnly P) (carries : ∀ a, P a → Q (back a)) :
    (c.via forth back).ReadsOnly Q := by
  intro bytes b rest read
  simp only [Codec.via, Option.map_eq_some_iff] at read
  obtain ⟨⟨a, behind⟩, found, same⟩ := read
  cases same
  exact carries a (inner bytes a _ found)

theorem ReadsOnly.list (each : c.ReadsOnly P) : c.list.ReadsOnly (∀ a ∈ ·, P a) := by
  have many (count : Nat) (bytes : List UInt8) (as : List α) (rest : List UInt8)
      (read : c.readMany count bytes = some (as, rest)) : ∀ a ∈ as, P a := by
    induction count generalizing bytes as with
    | zero =>
      cases read
      nofun
    | succ count ih =>
      simp only [readMany, Option.bind_eq_bind, Option.bind_eq_some_iff] at read
      obtain ⟨⟨a, behind⟩, first, ⟨others, rest'⟩, later, same⟩ := read
      cases same
      exact List.forall_mem_cons.mpr ⟨each bytes a behind first, ih behind others later⟩
  intro bytes as rest read
  simp only [Codec.list, Option.bind_eq_bind, Option.bind_eq_some_iff] at read
  obtain ⟨⟨count, behind⟩, -, found⟩ := read
  exact many count behind as rest found

end ModuleGraph.Codec
