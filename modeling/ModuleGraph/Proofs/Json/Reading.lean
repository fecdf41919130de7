import ModuleGraph.Graph.Document
import ModuleGraph.Proofs.Json.Draft
import ModuleGraph.Proofs.OrderedMap
import Mathlib.Data.List.Forall2

/-!
What the readers of lists, maps and records make of values. Of written ones they give back what was
written; of any others they accept, each part has what the readers of the parts guarantee.
-/
namespace ModuleGraph.Json.Draft
variable {α σ : Type} {read : Draft → Except ReadError α} {toJson : α → Json}

/-! ## Written values -/

@[simp] theorem readString_draft (text : String) : readString (Json.string text).draft = .ok text := rfl

theorem readNat_draft {value : Nat} (fits : value < wordLimit) :
    readNat (Json.number value).draft = .ok value := by
  rw [draft, dif_pos fits]
  rfl

theorem readItems_of_forall₂ {items : List Draft} {as : List α}
    (each : List.Forall₂ (fun item a => read item = .ok a) items as) : readItems read .closed items = .ok as := by
  induction each with
  | nil => rfl
  | cons first _ ih => simp [readItems, first, ih, Except.map]

/-- A written list is read back if its items are. -/
theorem readList_draft {items : List α} (each : ∀ a ∈ items, read (toJson a).draft = .ok a) :
    readList read (Json.array (items.map toJson)).draft = .ok items := by
  rw [draft, draftItems_eq, List.map_map]
  exact readItems_of_forall₂ (List.forall₂_map_left_iff.mpr (List.forall₂_same.mpr each))

@[simp] theorem readList_strings (texts : List String) : readList readString (Json.strings texts).draft = .ok texts :=
  readList_draft fun _ _ => rfl

theorem readFields_insert {fields : List (FieldName × Draft)} {entries : List (String × α)} {m : OrderedMap String α}
    (each : List.Forall₂ (fun field entry => field.1 = .text (some entry.1) ∧ read field.2 = .ok entry.2) fields
      entries) :
    readFields (fun m name value => (read value).map (OrderedMap.insert m name)) .closed m fields =
      .ok (m.insertAll entries) := by
  induction each generalizing m with
  | nil => rfl
  | @cons field entry _ _ first _ ih =>
    obtain ⟨name, value⟩ := field
    obtain ⟨rfl, found⟩ := first
    rw [readFields]
    simp only [found, Except.map]
    exact ih

/-- A written map is read back, its order included, if its values are. -/
theorem readMap_draft {m : OrderedMap String α}
    (each : ∀ key a, (key, a) ∈ m.entries → read (toJson a).draft = .ok a) :
    readMap read (m.toJson toJson).draft = .ok m := by
  have fields := readFields_insert (m := .empty) (List.forall₂_map_left_iff
    (f := fun entry : String × α => (FieldName.text (some entry.1), (toJson entry.2).draft)).mpr
    (List.forall₂_same.mpr fun entry member => ⟨rfl, each entry.1 entry.2 member⟩))
  rw [OrderedMap.insertAll_entries] at fields
  rw [OrderedMap.toJson, draft, draftFields_eq, List.map_map]
  exact fields

/-- Reads a field with fixed name, or skips it. -/
def readSlot (slots : List (String × (σ → Draft → Except ReadError σ))) (s : σ) (name : String)
    (value : Draft) : Except ReadError σ :=
  match slots.find? (·.1 = name) with
  | some slot => slot.2 s value
  | none => skip s value

variable {slots : List (String × (σ → Draft → Except ReadError σ))} {start s : σ}
  {done : σ → Option α} {fields : List (FieldName × Draft)} {a : α}

/-- The value of a record whose fields are read. -/
def completed (done : σ → Option α) (s : σ) : Except ReadError α :=
  match done s with
  | some value => .ok value
  | none => .error .mismatch

private theorem readRecord_eq (ending : Ending) :
    readRecord slots start done (.object fields ending) =
      (readFields (readSlot slots) ending start fields).bind (completed done) := rfl

theorem readRecord_object (collected : readFields (readSlot slots) .closed start fields = .ok s)
    (complete : done s = some a) : readRecord slots start done (.object fields .closed) = .ok a := by
  rw [readRecord_eq, collected]
  simp only [Except.bind, completed, complete]

/-! ## Accepted values -/

section
variable {P : α → Prop} (accepted : ∀ d a, read d = .ok a → P a)

include accepted in
private theorem of_readItems {ending : Ending} {items : List Draft} {as : List α}
    (accept : readItems read ending items = .ok as) : ∀ a ∈ as, P a := by
  induction items generalizing as with
  | nil =>
    cases ending with
    | closed =>
      cases accept
      simp
    | fault f => cases accept
  | cons item rest ih =>
    rw [readItems] at accept
    cases first : read item with
    | error e => simp [first] at accept
    | ok a =>
      cases later : readItems read ending rest with
      | error e => simp [first, later, Except.map] at accept
      | ok others =>
        simp only [first, later, Except.map, Except.ok.injEq] at accept
        subst accept
        exact List.forall_mem_cons.mpr ⟨accepted item a first, ih later⟩

include accepted in
theorem of_readList {d : Draft} {as : List α} (accept : readList read d = .ok as) : ∀ a ∈ as, P a := by
  cases d with
  | array items ending => exact of_readItems accepted accept
  | _ => cases accept

end

/-- What holds of the state before a run of fields and is kept by each field holds behind them. -/
private theorem of_readFields {I : σ → Prop} {field : σ → String → Draft → Except ReadError σ}
    (kept : ∀ s name value t, I s → field s name value = .ok t → I t) {ending : Ending} (holds : I start)
    (accept : readFields field ending start fields = .ok s) : I s := by
  induction fields generalizing start with
  | nil =>
    cases ending with
    | closed =>
      cases accept
      exact holds
    | fault f => cases accept
  | cons head rest ih =>
    obtain ⟨name, value⟩ := head
    match name with
    | .fault f => cases accept
    | .text none => cases accept
    | .text (some name) =>
      rw [readFields] at accept
      cases next : field start name value with
      | error e => simp [next] at accept
      | ok t =>
        simp only [next] at accept
        exact ih (kept start name value t holds next) accept

theorem of_readMap {P : α → Prop} (accepted : ∀ d a, read d = .ok a → P a) {d : Draft}
    {m : OrderedMap String α} (accept : readMap read d = .ok m) :
    ∀ key a, m.get? key = some a → P a := by
  cases d with
  | object fields ending =>
    refine of_readFields (I := fun m => ∀ key a, m.get? key = some a → P a) ?_ (by simp) accept
    intro m name value grown holds written key a found
    cases readValue : read value with
    | error e => simp [readValue, Except.map] at written
    | ok b =>
      simp only [readValue, Except.map, Except.ok.injEq] at written
      subst written
      rw [OrderedMap.get?_insert] at found
      split at found
      · cases found
        exact accepted value _ readValue
      · exact holds key a found
  | _ => cases accept

private theorem of_skip {value : Draft} {t : σ} (skipped : skip s value = .ok t) : t = s := by
  unfold skip at skipped
  split at skipped
  · cases skipped
  · cases skipped
    rfl

private theorem of_completed {I : σ → Prop} {P : α → Prop}
    (complete : ∀ s a, I s → done s = some a → P a) (holds : I s) (ended : completed done s = .ok a) :
    P a := by
  unfold completed at ended
  cases last : done s with
  | none => simp [last] at ended
  | some b =>
    simp only [last, Except.ok.injEq] at ended
    exact ended ▸ complete s b holds last

private theorem of_fromItems {I : σ → Prop} {P : α → Prop} (readers : List (σ → Draft → Except ReadError σ))
    (kept : ∀ reader ∈ readers, ∀ s value t, I s → reader s value = .ok t → I t)
    (complete : ∀ s a, I s → done s = some a → P a) (holds : I s) {items : List Draft} {ending : Ending}
    (accept : readRecord.fromItems done readers s items ending = .ok a) : P a := by
  induction readers generalizing s items with
  | nil =>
    match items, ending with
    | [], .closed => exact of_completed complete holds accept
    | [], .fault f => cases accept
    | item :: items, ending => cases accept
  | cons reader later ih =>
    match items, ending with
    | [], .closed => exact of_completed complete holds accept
    | [], .fault f => cases accept
    | item :: items, ending =>
      rw [readRecord.fromItems] at accept
      cases next : reader s item with
      | error e => simp [next, bind, Except.bind] at accept
      | ok t =>
        simp only [next, bind, Except.bind] at accept
        exact ih (fun other member => kept other (List.mem_cons_of_mem _ member))
          (kept reader List.mem_cons_self s item t holds next) accept

/-- A record has what its slots keep and its completion makes of that. -/
theorem of_readRecord {I : σ → Prop} {P : α → Prop}
    (kept : ∀ slot ∈ slots, ∀ s value t, I s → slot.2 s value = .ok t → I t)
    (complete : ∀ s a, I s → done s = some a → P a) (holds : I start) {d : Draft}
    (accept : readRecord slots start done d = .ok a) : P a := by
  cases d with
  | object fields ending =>
    rw [readRecord_eq] at accept
    cases collected : readFields (readSlot slots) ending start fields with
    | error e => simp [collected, Except.bind] at accept
    | ok s =>
      simp only [collected, Except.bind] at accept
      refine of_completed complete (of_readFields (I := I) ?_ holds collected) accept
      intro s name value t holds stepped
      unfold readSlot at stepped
      split at stepped
      · rename_i slot found
        exact kept slot (List.mem_of_find?_eq_some found) s value t holds stepped
      · exact of_skip stepped ▸ holds
  | array items ending =>
    refine of_fromItems (slots.map Prod.snd) ?_ complete holds accept
    intro reader listed
    obtain ⟨slot, member, rfl⟩ := List.mem_map.mp listed
    exact kept slot member
  | _ => cases accept

/-- A slot that reads a field once adds the field to the record. -/
theorem of_readOnce {β : Type} {old : Option β} {read : Draft → Except ReadError β} {set : β → σ}
    {value : Draft} {t : σ} (accept : readOnce old read set value = .ok t) :
    ∃ b, read value = .ok b ∧ t = set b := by
  cases old with
  | some _ => cases accept
  | none =>
    rw [readOnce] at accept
    cases found : read value with
    | error e => simp [found, Except.map] at accept
    | ok b =>
      simp only [found, Except.map, Except.ok.injEq] at accept
      exact ⟨b, rfl, accept.symm⟩

theorem of_readNat {d : Draft} {n : Nat} (accept : readNat d = .ok n) : n < wordLimit := by
  unfold readNat at accept
  split at accept
  · rename_i value fits
    cases accept
    exact fits
  · cases accept

end ModuleGraph.Json.Draft
