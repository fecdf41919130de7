import ModuleGraph.Count
import ModuleGraph.OrderedMap
import Mathlib.Data.List.Perm.Basic
import Mathlib.Data.List.Nodup

/-!
What each operation of an ordered map does to its two views: the values at the keys (`get?`) and the
order of the entries. Two maps with the same value at every key hold the same entries, in some order
(`perm_of_get?_eq`), and so they have the same totals (`total_values_eq`).
-/
namespace ModuleGraph.OrderedMap
variable {α β γ : Type} {m n : OrderedMap α β}

/-! ## Changed values -/

@[simp] theorem keys_mapValues (f : β → γ) : (m.mapValues f).keys = m.keys := by
  simp [keys, mapValues, Function.comp_def]

theorem keys_eq_nil_iff : m.keys = [] ↔ m.size = 0 := by
  simp [keys, size]

theorem mapValues_mapValues {δ : Type} (f : β → γ) (g : γ → δ) :
    (m.mapValues f).mapValues g = m.mapValues fun v => g (f v) := by
  ext1
  simp [mapValues]

theorem mapValues_congr {f g : β → γ} (same : ∀ key value, (key, value) ∈ m.entries → f value = g value) :
    m.mapValues f = m.mapValues g := by
  ext1
  refine List.map_congr_left ?_
  rintro ⟨key, value⟩ member
  exact congrArg (key, ·) (same key value member)

theorem mapValues_id (m : OrderedMap α β) : m.mapValues id = m := by
  ext1
  exact List.map_id _

theorem filter_eq_self {p : α × β → Bool} (all : ∀ pair ∈ m.entries, p pair = true) :
    m.filter p = m := by
  ext1
  exact List.filter_eq_self.mpr all

variable [DecidableEq α] {key other : α} {value : β}

/-! ## Lists of pairs -/

private theorem find_eq_none_iff {pairs : List (α × β)} :
    find key pairs = none ↔ key ∉ pairs.map Prod.fst := by
  induction pairs with
  | nil => simp [find]
  | cons head rest ih =>
    obtain ⟨k, v⟩ := head
    by_cases same : k = key
    · simp [find, same]
    · simpa [find, same, Ne.symm same] using ih

private theorem find_eq_some_iff {pairs : List (α × β)} (nodup : (pairs.map Prod.fst).Nodup) :
    find key pairs = some value ↔ (key, value) ∈ pairs := by
  induction pairs with
  | nil => simp [find]
  | cons head rest ih =>
    obtain ⟨k, v⟩ := head
    rw [List.map_cons, List.nodup_cons] at nodup
    by_cases same : k = key
    · subst same
      have absent : (k, value) ∉ rest := fun member =>
        nodup.1 (List.mem_map.mpr ⟨_, member, rfl⟩)
      simp [find, absent, eq_comm]
    · simp [find, same, Ne.symm same, ih nodup.2]

private theorem find_put (pairs : List (α × β)) :
    find other (put key value pairs) = if key = other then some value else find other pairs := by
  induction pairs with
  | nil => simp [put, find]
  | cons head rest ih =>
    obtain ⟨k, v⟩ := head
    by_cases same : k = key
    · subst same
      by_cases sought : k = other
      · simp [put, find, sought]
      · simp [put, find, sought]
    · by_cases sought : k = other
      · subst sought
        simp [put, find, same, Ne.symm same]
      · simp [put, find, same, sought, ih]

private theorem find_filter (p : α × β → Bool) {pairs : List (α × β)}
    (nodup : (pairs.map Prod.fst).Nodup) :
    find key (pairs.filter p) = (find key pairs).filter fun v => p (key, v) := by
  cases found : find key pairs with
  | none =>
    have absent := find_eq_none_iff.mp found
    refine find_eq_none_iff.mpr fun member => absent ?_
    exact (List.filter_sublist.map Prod.fst).subset member
  | some v =>
    have member := (find_eq_some_iff nodup).mp found
    by_cases kept : p (key, v) = true
    · simpa [Option.filter, kept] using
        (find_eq_some_iff (nodup.sublist (List.filter_sublist.map Prod.fst))).mpr
          (List.mem_filter.mpr ⟨member, kept⟩)
    · simp only [Option.filter, kept]
      refine find_eq_none_iff.mpr fun again => ?_
      obtain ⟨⟨k, w⟩, inside, rfl⟩ := List.mem_map.mp again
      obtain ⟨inside, holds⟩ := List.mem_filter.mp inside
      have equal : some w = some v := ((find_eq_some_iff nodup).mpr inside).symm.trans found
      cases equal
      exact kept holds

/-! ## Values -/

@[simp] theorem get?_empty : (empty : OrderedMap α β).get? key = none := rfl

theorem mem_entries_iff : (key, value) ∈ m.entries ↔ m.get? key = some value :=
  (find_eq_some_iff m.nodup).symm

theorem get?_eq_none_iff : m.get? key = none ↔ key ∉ m.keys := find_eq_none_iff

theorem mem_keys_iff : key ∈ m.keys ↔ ∃ value, m.get? key = some value := by
  rw [← not_iff_not, ← get?_eq_none_iff, Option.eq_none_iff_forall_ne_some]
  simp

theorem mem_keys_of_get? (found : m.get? key = some value) : key ∈ m.keys :=
  mem_keys_iff.mpr ⟨value, found⟩

theorem contains_iff : m.contains key = true ↔ key ∈ m.keys := by
  rw [contains, Option.isSome_iff_exists, mem_keys_iff]

theorem contains_eq_false_iff : m.contains key = false ↔ m.get? key = none := by
  rw [contains, Option.isSome_eq_false_iff, Option.isNone_iff_eq_none]

theorem get?_insert :
    (m.insert key value).get? other = if key = other then some value else m.get? other :=
  find_put m.entries

@[simp] theorem get?_insert_self : (m.insert key value).get? key = some value := by
  rw [get?_insert, if_pos rfl]

/-- A new entry shows only where there was none. -/
theorem get?_insertNew :
    (m.insertNew key value).get? other =
      (m.get? other).or (if key = other then some value else none) := by
  unfold insertNew
  split
  · rename_i known
    obtain ⟨old, found⟩ := mem_keys_iff.mp (contains_iff.mp known)
    by_cases same : key = other
    · subst same
      simp [found]
    · simp [same]
  · rename_i fresh
    rw [get?_insert]
    by_cases same : key = other
    · subst same
      simp [contains_eq_false_iff.mp (Bool.not_eq_true _ ▸ fresh)]
    · simp [same]

theorem get?_erase : (m.erase key).get? other = if key = other then none else m.get? other := by
  rw [get?, erase, find_filter _ m.nodup]
  by_cases same : key = other
  · subst same
    cases find key m.entries <;> simp [Option.filter]
  · simp only [same, if_false, get?]
    cases find other m.entries <;> simp [Option.filter, Ne.symm same]

/-- Keys that are erased one after the other are all gone. -/
theorem get?_foldl_erase {γ : Type} (l : List γ) (f : γ → α) :
    (l.foldl (fun m x => m.erase (f x)) m).get? other =
      if ∃ x ∈ l, f x = other then none else m.get? other := by
  induction l generalizing m with
  | nil => simp
  | cons x rest ih =>
    rw [List.foldl_cons, ih, get?_erase]
    by_cases same : f x = other <;> simp [same]

/-- Keys that are written one after the other are all there. -/
theorem get?_foldl_insert (l : List α) (f : α → β) :
    (l.foldl (fun m x => m.insert x (f x)) m).get? key =
      if key ∈ l then some (f key) else m.get? key := by
  induction l generalizing m with
  | nil => simp
  | cons x rest ih =>
    rw [List.foldl_cons, ih, get?_insert]
    by_cases same : x = key
    · subst same
      simp
    · simp [same, Ne.symm same]

theorem get?_foldl_insertNew (l : List α) (f : α → β) :
    (l.foldl (fun m x => m.insertNew x (f x)) m).get? key =
      (m.get? key).or (if key ∈ l then some (f key) else none) := by
  induction l generalizing m with
  | nil => simp
  | cons x rest ih =>
    rw [List.foldl_cons, ih, get?_insertNew, Option.or_assoc]
    by_cases same : x = key
    · subst same
      simp
    · simp [same, Ne.symm same]

theorem get?_filter (p : α × β → Bool) :
    (m.filter p).get? key = (m.get? key).filter fun v => p (key, v) :=
  find_filter p m.nodup

theorem get?_mapValues (f : β → γ) : (m.mapValues f).get? key = (m.get? key).map f := by
  obtain ⟨entries, nodup⟩ := m
  simp only [get?, mapValues]
  clear nodup
  induction entries with
  | nil => rfl
  | cons head rest ih =>
    obtain ⟨k, v⟩ := head
    by_cases same : k = key
    · simp [find, same]
    · simpa [find, same] using ih

/-- What is written from another map covers what was there. -/
theorem get?_insertAll : (m.insertAll n.entries).get? key = (n.get? key).or (m.get? key) := by
  obtain ⟨entries, nodup⟩ := n
  simp only [get?, insertAll]
  induction entries generalizing m with
  | nil => rfl
  | cons head rest ih =>
    obtain ⟨k, v⟩ := head
    rw [List.map_cons, List.nodup_cons] at nodup
    rw [List.foldl_cons, ih nodup.2]
    have step : (m.insert k v).get? key = if k = key then some v else m.get? key := get?_insert
    simp only [get?] at step
    rw [step]
    by_cases same : k = key
    · subst same
      simp [find, find_eq_none_iff.mpr nodup.1]
    · simp [find, same]

/-! ## Order -/

theorem entries_insert_of_not_mem (fresh : key ∉ m.keys) :
    (m.insert key value).entries = m.entries ++ [(key, value)] := put_of_not_mem fresh

theorem keys_insert_of_mem (known : key ∈ m.keys) : (m.insert key value).keys = m.keys :=
  fst_put_of_mem known

theorem keys_insert_of_not_mem (fresh : key ∉ m.keys) :
    (m.insert key value).keys = m.keys ++ [key] := by
  rw [keys, entries_insert_of_not_mem fresh, List.map_append]
  rfl

theorem mem_keys_insert : other ∈ (m.insert key value).keys ↔ other = key ∨ other ∈ m.keys := by
  by_cases known : key ∈ m.keys
  · rw [keys_insert_of_mem known]
    constructor
    · exact .inr
    · rintro (rfl | old)
      · exact known
      · exact old
  · rw [keys_insert_of_not_mem known, List.mem_append, List.mem_singleton, or_comm]

theorem keys_prefix_insert : m.keys <+: (m.insert key value).keys := by
  by_cases known : key ∈ m.keys
  · simp only [keys_insert_of_mem known, List.prefix_rfl]
  · rw [keys_insert_of_not_mem known]
    exact List.prefix_append _ _

theorem insertNew_of_mem (known : key ∈ m.keys) : m.insertNew key value = m :=
  if_pos (contains_iff.mpr known)

theorem insertNew_of_not_mem (fresh : key ∉ m.keys) : m.insertNew key value = m.insert key value :=
  if_neg fun known => fresh (contains_iff.mp known)

theorem entries_prefix_insertNew : m.entries <+: (m.insertNew key value).entries := by
  by_cases known : key ∈ m.keys
  · simp only [insertNew_of_mem known, List.prefix_rfl]
  · rw [insertNew_of_not_mem known, entries_insert_of_not_mem known]
    exact List.prefix_append _ _

theorem mem_keys_insertNew : other ∈ (m.insertNew key value).keys ↔ other = key ∨ other ∈ m.keys := by
  by_cases known : key ∈ m.keys
  · rw [insertNew_of_mem known]
    constructor
    · exact .inr
    · rintro (rfl | old)
      · exact known
      · exact old
  · rw [insertNew_of_not_mem known, mem_keys_insert]

/-- The keys of pairs that are written only where they are new are all there. -/
theorem mem_keys_foldl_insertNew (l : List γ) (f : γ → α) (h : γ → β) :
    key ∈ (l.foldl (fun m x => m.insertNew (f x) (h x)) m).keys ↔
      key ∈ m.keys ∨ ∃ x ∈ l, f x = key := by
  induction l generalizing m with
  | nil => simp
  | cons x rest ih =>
    rw [List.foldl_cons, ih, mem_keys_insertNew]
    grind

theorem entries_insertAll_of_nodup (pairs : List (α × β)) (nodup : (pairs.map Prod.fst).Nodup)
    (fresh : ∀ pair ∈ pairs, pair.1 ∉ m.keys) : (m.insertAll pairs).entries = m.entries ++ pairs := by
  induction pairs generalizing m with
  | nil => simp [insertAll]
  | cons head rest ih =>
    obtain ⟨k, v⟩ := head
    rw [List.map_cons, List.nodup_cons] at nodup
    have first : k ∉ m.keys := fresh (k, v) (by simp)
    have later : ∀ pair ∈ rest, pair.1 ∉ (m.insert k v).keys := by
      intro pair member again
      rcases mem_keys_insert.mp again with same | old
      · exact nodup.1 (same ▸ List.mem_map.mpr ⟨_, member, rfl⟩)
      · exact fresh pair (by simp [member]) old
    have step := ih nodup.2 later
    rw [entries_insert_of_not_mem first] at step
    simpa [insertAll] using step

/-- Pairs that are written only where their keys are new come last, the first one with each key. -/
theorem entries_foldl_insertNew (l : List γ) (f : γ → α) (h : γ → β) :
    (l.foldl (fun m x => m.insertNew (f x) (h x)) m).entries =
      m.entries ++ ((l.filter (f · ∉ m.keys)).eraseDupsBy fun x y => f x == f y).map fun x => (f x, h x) := by
  induction l generalizing m with
  | nil => simp
  | cons x rest ih =>
    rw [List.foldl_cons, ih]
    by_cases known : f x ∈ m.keys
    · rw [insertNew_of_mem known, List.filter_cons_of_neg (by simpa using known)]
    · -- What comes later is new if it was new before and has another key.
      have later : rest.filter (f · ∉ (m.insert (f x) (h x)).keys) =
          (rest.filter (f · ∉ m.keys)).filter fun y => (f y == f x) = false := by
        rw [List.filter_filter, keys_insert_of_not_mem known]
        refine List.filter_congr fun other _ => ?_
        simp [Bool.and_comm]
      rw [insertNew_of_not_mem known, List.filter_cons_of_pos (by simpa using known), List.eraseDupsBy_cons,
        entries_insert_of_not_mem known, later, List.map_cons, List.append_assoc]
      rfl

theorem entries_foldl_insertNew_empty (l : List γ) (f : γ → α) (h : γ → β) :
    (l.foldl (fun m x => m.insertNew (f x) (h x)) (.empty : OrderedMap α β)).entries =
      (l.eraseDupsBy fun x y => f x == f y).map fun x => (f x, h x) := by
  have fresh : l.filter (f · ∉ (empty : OrderedMap α β).keys) = l := List.filter_eq_self.mpr fun _ _ => rfl
  rw [entries_foldl_insertNew, fresh]
  rfl

/-- A list of pairs with distinct keys is the list of the entries of its map. -/
theorem entries_ofList {pairs : List (α × β)} (nodup : (pairs.map Prod.fst).Nodup) :
    (ofList pairs).entries = pairs := by
  simpa [ofList, empty] using
    entries_insertAll_of_nodup (m := empty) pairs nodup (by simp [empty, keys])

theorem get?_ofList {pairs : List (α × β)} (nodup : (pairs.map Prod.fst).Nodup) :
    (ofList pairs).get? key = some value ↔ (key, value) ∈ pairs := by
  rw [← mem_entries_iff, entries_ofList nodup]

/-- The first pair with a key is the one that looking up finds. -/
theorem get?_eq_lookup (m : OrderedMap α β) (key : α) : m.get? key = m.entries.lookup key := by
  obtain ⟨entries, nodup⟩ := m
  simp only [get?]
  clear nodup
  induction entries with
  | nil => rfl
  | cons head rest ih =>
    obtain ⟨k, v⟩ := head
    by_cases same : k = key
    · simp [find, same]
    · have differ : (key == k) = false := by simpa using Ne.symm same
      simpa [find, List.lookup_cons, same, differ] using ih

/-! ## Writing again -/

/-- Writing a key again is writing the last value alone. -/
theorem insert_insert {later : β} : (m.insert key value).insert key later = m.insert key later := by
  ext1
  obtain ⟨entries, nodup⟩ := m
  simp only [insert]
  clear nodup
  induction entries with
  | nil => simp [put]
  | cons head rest ih =>
    obtain ⟨k, v⟩ := head
    by_cases same : k = key
    · simp [put, same]
    · simp [put, same, ih]

theorem insert_of_get? (found : m.get? key = some value) : m.insert key value = m := by
  ext1
  obtain ⟨entries, nodup⟩ := m
  simp only [insert, get?] at found ⊢
  clear nodup
  induction entries with
  | nil => cases found
  | cons head rest ih =>
    obtain ⟨k, v⟩ := head
    by_cases same : k = key
    · obtain rfl : v = value := by simpa [find, same] using found
      simp [put, same]
    · have later : find key rest = some value := by simpa [find, same] using found
      simp [put, same, ih later]

/-- Keys that have their values already may be written one after the other. -/
theorem foldl_insert_of_get? {l : List α} {f : α → β} (found : ∀ x ∈ l, m.get? x = some (f x)) :
    l.foldl (fun m x => m.insert x (f x)) m = m := by
  induction l with
  | nil => rfl
  | cons x rest ih =>
    rw [List.foldl_cons, insert_of_get? (found x List.mem_cons_self)]
    exact ih fun y inside => found y (List.mem_cons_of_mem x inside)

theorem foldl_insertNew_of_mem {l : List α} {f : α → β} (known : ∀ x ∈ l, x ∈ m.keys) :
    l.foldl (fun m x => m.insertNew x (f x)) m = m := by
  induction l with
  | nil => rfl
  | cons x rest ih =>
    rw [List.foldl_cons, insertNew_of_mem (known x List.mem_cons_self)]
    exact ih fun y inside => known y (List.mem_cons_of_mem x inside)

theorem insertAll_entries : empty.insertAll m.entries = m := by
  ext1
  simpa [empty] using
    entries_insertAll_of_nodup (m := empty) m.entries m.nodup (by simp [empty, keys])

/-! ## Maps with the same values -/

theorem perm_of_get?_eq (same : ∀ key, m.get? key = n.get? key) : m.entries.Perm n.entries := by
  refine (List.perm_ext_iff_of_nodup (.of_map Prod.fst m.nodup) (.of_map Prod.fst n.nodup)).mpr ?_
  rintro ⟨key, value⟩
  rw [mem_entries_iff, mem_entries_iff, same key]

theorem size_eq_of_get?_eq (same : ∀ key, m.get? key = n.get? key) : m.size = n.size :=
  (perm_of_get?_eq same).length_eq

private theorem total_filter_ne_zero {δ : Type} (f : δ → Nat) (l : List δ) :
    total ((l.filter (f · ≠ 0)).map f) = total (l.map f) := by
  induction l with
  | nil => rfl
  | cons head rest ih =>
    by_cases zero : f head = 0 <;> simp_all

/-- A total does not depend on the order of the keys, nor on keys that count nothing. -/
theorem total_values_eq (f : β → Nat)
    (same : ∀ key, (m.get? key).filter (f · ≠ 0) = (n.get? key).filter (f · ≠ 0)) :
    total (m.values.map f) = total (n.values.map f) := by
  have perm : (m.filter (f ·.2 ≠ 0)).entries.Perm (n.filter (f ·.2 ≠ 0)).entries :=
    perm_of_get?_eq fun key => by rw [get?_filter, get?_filter]; exact same key
  have counted := total_perm (perm.map fun pair => f pair.2)
  rw [filter, filter, total_filter_ne_zero, total_filter_ne_zero] at counted
  simpa [values, Function.comp_def] using counted

end ModuleGraph.OrderedMap

namespace ModuleGraph.OrderedSet
variable {α : Type} [DecidableEq α]

theorem mem_foldl_add {x : α} {xs : List α} {s : OrderedSet α} :
    x ∈ (xs.foldl add s).toList ↔ x ∈ s.toList ∨ x ∈ xs := by
  rw [toList, toList]
  exact (OrderedMap.mem_keys_foldl_insertNew xs (fun x => x) fun _ => ()).trans (by simp)

/-- The members of a list in the order in which they first occur. -/
theorem toList_ofList_eq (xs : List α) : (ofList xs).toList = xs.eraseDups := by
  have entries := OrderedMap.entries_foldl_insertNew_empty xs (fun x => x) fun _ => ()
  have members := congrArg (List.map Prod.fst) entries
  rw [List.map_map] at members
  exact members.trans (List.map_id _)

end ModuleGraph.OrderedSet
