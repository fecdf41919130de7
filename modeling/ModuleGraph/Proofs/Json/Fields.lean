import ModuleGraph.Proofs.Json.Reading
import ModuleGraph.Proofs.Json.Scanning

/-!
Fields in any order. Readers of different fields may change places (`Draft.swap_readOnce`), so a record is read alike
from every order of its fields, and fields with other names do not matter (`Draft.readRecord_perm`). So the readers
of texts, numbers, lists, maps and records read from a script what it means, whichever way it is written.
-/
namespace ModuleGraph.Json

namespace Draft
variable {α β γ σ : Type} {s t u : σ} {f g : σ → Draft → Except ReadError σ}
  {field : σ → String → Draft → Except ReadError σ} {fields others known unknown : List (FieldName × Draft)}
  {slots : List (String × (σ → Draft → Except ReadError σ))} {start : σ} {done : σ → Option α} {a : α}

/-! ## Readers that change places -/

/-- Where one reader succeeds behind another one, they succeed in the other order with the same result. -/
def Swap (f g : σ → Draft → Except ReadError σ) : Prop :=
  ∀ s d e t u, f s d = .ok t → g t e = .ok u → ∃ v, g s e = .ok v ∧ f v d = .ok u

theorem swap_readOnce {get : σ → Option β} {get' : σ → Option γ} {set : σ → β → σ} {set' : σ → γ → σ}
    {read : Draft → Except ReadError β} {read' : Draft → Except ReadError γ}
    (other : ∀ s b, get' (set s b) = get' s) (other' : ∀ s c, get (set' s c) = get s)
    (both : ∀ s b c, set' (set s b) c = set (set' s c) b) :
    Swap (fun s => readOnce (get s) read (set s)) fun s => readOnce (get' s) read' (set' s) := by
  intro s d e t u first second
  obtain ⟨b, found, rfl⟩ := of_readOnce first
  obtain ⟨c, found', rfl⟩ := of_readOnce second
  have fresh : get s = none := by
    cases old : get s with
    | none => rfl
    | some _ => simp [old, readOnce] at first
  have fresh' : get' s = none := by
    cases old : get' s with
    | none => rfl
    | some _ => simp [other, old, readOnce] at second
  refine ⟨set' s c, ?_, ?_⟩
  · simp only [fresh', readOnce, found', Except.map]
  · simp only [other', fresh, readOnce, found, Except.map, both]

/-- A field is not read twice. -/
theorem swap_self {get : σ → Option β} {set : σ → β → σ} {read : Draft → Except ReadError β}
    (taken : ∀ s b, (get (set s b)).isSome) :
    Swap (fun s => readOnce (get s) read (set s)) fun s => readOnce (get s) read (set s) := by
  intro s d e t u first second
  obtain ⟨b, -, rfl⟩ := of_readOnce first
  obtain ⟨b', known⟩ := Option.isSome_iff_exists.mp (taken s b)
  simp [known, readOnce] at second

private theorem skip_eq_ok_iff {value : Draft} : skip s value = .ok t ↔ value.skipFault? = none ∧ s = t := by
  unfold skip
  split <;> rename_i found <;> simp [found]

private theorem swap_skip (f : σ → Draft → Except ReadError σ) : Swap f skip ∧ Swap skip f := by
  constructor
  · intro s d e t u first second
    obtain ⟨clean, rfl⟩ := skip_eq_ok_iff.mp second
    exact ⟨s, skip_eq_ok_iff.mpr ⟨clean, rfl⟩, first⟩
  · intro s d e t u first second
    obtain ⟨clean, rfl⟩ := skip_eq_ok_iff.mp first
    exact ⟨u, second, skip_eq_ok_iff.mpr ⟨clean, rfl⟩⟩

theorem swap_readSlot (swaps : ∀ a ∈ slots, ∀ b ∈ slots, Swap a.2 b.2) (x y : String) :
    Swap (fun s => readSlot slots s x) fun s => readSlot slots s y := by
  unfold readSlot
  cases first : slots.find? (·.1 = x) with
  | none => exact (swap_skip _).2
  | some slot =>
    cases second : slots.find? (·.1 = y) with
    | none => exact (swap_skip _).1
    | some slot' => exact swaps slot (List.mem_of_find?_eq_some first) slot' (List.mem_of_find?_eq_some second)

/-! ## Fields -/

private theorem readFields_cons {head : FieldName × Draft} : readFields field .closed s (head :: fields) = .ok u ↔
    ∃ name t, head.1 = .text (some name) ∧ field s name head.2 = .ok t ∧ readFields field .closed t fields = .ok u := by
  obtain ⟨name, value⟩ := head
  match name with
  | .fault _ | .text none => simp [readFields]
  | .text (some name) => cases read : field s name value <;> simp [readFields, read]

theorem readFields_append : readFields field .closed s (fields ++ others) = .ok u ↔
    ∃ t, readFields field .closed s fields = .ok t ∧ readFields field .closed t others = .ok u := by
  induction fields generalizing s with
  | nil => simp [readFields]
  | cons head rest ih =>
    simp only [List.cons_append, readFields_cons, ih]
    grind

/-- Fields are read in any order if their readers may change places. -/
theorem readFields_perm (swap : ∀ x y, Swap (fun s => field s x) fun s => field s y) (perm : fields.Perm others)
    (read : readFields field .closed s fields = .ok u) : readFields field .closed s others = .ok u := by
  induction perm generalizing s with
  | nil => exact read
  | cons head _ ih =>
    obtain ⟨name, t, named, first, later⟩ := readFields_cons.mp read
    exact readFields_cons.mpr ⟨name, t, named, first, ih later⟩
  | swap second first rest =>
    obtain ⟨x, t, named, read₁, later⟩ := readFields_cons.mp read
    obtain ⟨y, t', named', read₂, later⟩ := readFields_cons.mp later
    obtain ⟨v, read₂, read₁⟩ := swap x y s _ _ t t' read₁ read₂
    exact readFields_cons.mpr ⟨y, v, named', read₂, readFields_cons.mpr ⟨x, t', named, read₁, later⟩⟩
  | trans _ _ ih ih' => exact ih' (ih read)

/-- A field that a record does not have and that can be skipped. -/
def IsStrange (slots : List (String × (σ → Draft → Except ReadError σ))) (head : FieldName × Draft) : Prop :=
  ∃ name, head.1 = .text (some name) ∧ (∀ slot ∈ slots, slot.1 ≠ name) ∧ head.2.skipFault? = none

private theorem readFields_strange (strange : ∀ head ∈ unknown, IsStrange slots head) :
    readFields (readSlot slots) .closed s unknown = .ok s := by
  induction unknown with
  | nil => rfl
  | cons head rest ih =>
    obtain ⟨first, later⟩ := List.forall_mem_cons.mp strange
    obtain ⟨name, named, other, clean⟩ := first
    have missing : slots.find? (·.1 = name) = none :=
      List.find?_eq_none.mpr fun slot member => by simpa using other slot member
    refine readFields_cons.mpr ⟨name, s, named, ?_, ih later⟩
    rw [readSlot, missing]
    exact skip_eq_ok_iff.mpr ⟨clean, rfl⟩

/-- A record is read from any order of its fields among fields that it does not have. -/
theorem readRecord_perm (swaps : ∀ a ∈ slots, ∀ b ∈ slots, Swap a.2 b.2) (perm : fields.Perm (known ++ unknown))
    (strange : ∀ head ∈ unknown, IsStrange slots head)
    (collected : readFields (readSlot slots) .closed start known = .ok s) (complete : done s = some a) :
    readRecord slots start done (.object fields .closed) = .ok a := by
  have whole := readFields_append.mpr ⟨s, collected, readFields_strange (s := s) strange⟩
  exact readRecord_object (readFields_perm (swap_readSlot swaps) perm.symm whole) complete

end Draft
namespace Script
variable {α σ : Type} {s : Script} {read : Draft → Except ReadError α} {means : Script → α → Prop}

/-! ## What is read from scripts -/

theorem draft_of_isText {text : String} (isText : s.IsText text) : s.draft = .string (some text) := by
  obtain ⟨letters, rfl, spells⟩ := isText
  rw [draft, spelt?_of_spells spells]

theorem readString_of_isText {text : String} (isText : s.IsText text) : Draft.readString s.draft = .ok text := by
  rw [draft_of_isText isText]
  rfl

theorem readNat_of_isNat {n : Nat} (fits : n < wordLimit) (isNat : s.IsNat n) : Draft.readNat s.draft = .ok n := by
  obtain ⟨numeral, rfl, decimal⟩ := isNat
  rw [draft, Numeral.kind_read fits decimal]
  rfl

private theorem forall₂_mem {β : Type} {r : β → α → Prop} {bs : List β} {as : List α} (alike : List.Forall₂ r bs as) :
    List.Forall₂ (fun b a => a ∈ as ∧ r b a) bs as :=
  ((List.forall₂_and_left (p := (· ∈ as)) as bs).mpr ⟨fun _ => id, alike.flip⟩).flip

theorem readList_of_isList {as : List α} (each : ∀ a ∈ as, ∀ s, means s a → read s.draft = .ok a)
    (isList : s.IsList means as) : Draft.readList read s.draft = .ok as := by
  obtain ⟨inner, items, rfl, alike⟩ := isList
  rw [draft, draftItems_eq]
  refine Draft.readItems_of_forall₂ (List.forall₂_map_left_iff.mpr ((forall₂_mem alike).imp ?_))
  rintro item a ⟨member, meant⟩
  exact each a member item.value meant

theorem readMap_of_isMap {m : OrderedMap String α}
    (each : ∀ key a, (key, a) ∈ m.entries → ∀ s, means s a → read s.draft = .ok a) (isMap : s.IsMap means m) :
    Draft.readMap read s.draft = .ok m := by
  obtain ⟨inner, fields, rfl, alike⟩ := isMap
  have entries : List.Forall₂ (fun field entry => field.1 = .text (some entry.1) ∧ read field.2 = .ok entry.2)
      (fields.map draftField) m.entries := by
    refine List.forall₂_map_left_iff.mpr ((forall₂_mem alike).imp ?_)
    rintro field ⟨key, a⟩ ⟨member, spells, meant⟩
    exact ⟨congrArg FieldName.text (spelt?_of_spells spells), each key a member field.value.value meant⟩
  have inserted := Draft.readFields_insert (m := .empty) entries
  rw [OrderedMap.insertAll_entries] at inserted
  rw [draft, draftFields_eq]
  exact inserted

/-! ## Records -/

/-- The first field of a record comes first, or it is left out. -/
theorem Fill.field_or_omitted {slot : Slot} {slots : List Slot} {known : List (Field Script)}
    (fill : Fill (slot :: slots) known) : (∃ field rest, known = field :: rest ∧
      draftField field = (.text (some slot.name), field.value.value.draft) ∧ slot.means field.value.value ∧
        Fill slots rest) ∨ slot.optional ∧ Fill slots known := by
  cases fill with
  | written named said later => exact .inl ⟨_, _, rfl, by rw [draftField, spelt?_of_spells named], said, later⟩
  | omitted optional later => exact .inr ⟨optional, later⟩

theorem Fill.exists_field {name : String} {means : Script → Prop} {slots : List Slot} {known : List (Field Script)}
    (fill : Fill (⟨name, means, False⟩ :: slots) known) : ∃ field rest, known = field :: rest ∧
      draftField field = (.text (some name), field.value.value.draft) ∧ means field.value.value ∧ Fill slots rest :=
  fill.field_or_omitted.resolve_right And.left

theorem Fill.eq_nil {known : List (Field Script)} (fill : Fill [] known) : known = [] := by
  cases fill
  rfl

theorem readRecord_of_isRecord {fields : List Slot} {slots : List (String × (σ → Draft → Except ReadError σ))}
    {start : σ} {done : σ → Option α} {a : α} (isRecord : s.IsRecord fields)
    (swaps : ∀ a ∈ slots, ∀ b ∈ slots, Draft.Swap a.2 b.2) (names : slots.map Prod.fst = fields.map Slot.name)
    (collected : ∀ known, Fill fields known → ∃ t,
      Draft.readFields (Draft.readSlot slots) .closed start (known.map draftField) = .ok t ∧ done t = some a) :
    Draft.readRecord slots start done s.draft = .ok a := by
  obtain ⟨inner, listed, known, unknown, rfl, perm, fill, strange⟩ := isRecord
  obtain ⟨t, read, complete⟩ := collected known fill
  rw [draft, draftFields_eq]
  have perm' := perm.map draftField
  rw [List.map_append] at perm'
  refine Draft.readRecord_perm swaps perm' (fun head member => ?_) read complete
  obtain ⟨field, inside, rfl⟩ := List.mem_map.mp member
  obtain ⟨name, spells, other⟩ := strange field inside
  refine ⟨name, congrArg FieldName.text (spelt?_of_spells spells), fun slot listed same => ?_, skipFault?_draft _⟩
  have named : slot.1 ∈ fields.map Slot.name := names ▸ List.mem_map_of_mem listed
  obtain ⟨slot', inside, same'⟩ := List.mem_map.mp named
  exact other slot' inside (same.symm.trans same'.symm)

end Script
end ModuleGraph.Json
