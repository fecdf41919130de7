import ModuleGraph.Cache.Basic
import ModuleGraph.Proofs.OrderedMap
import Mathlib.Data.List.Basic
import Mathlib.Data.List.Nodup

/-!
A bounded log of snapshots: keys with their snapshots in the order in which they were written. It says what
a store of snapshots answers (`CacheLog.step`), without a memory, a manifest or files. Both drop the same
keys when there are too many of a kind (`dropOldest_eq_keepLatest`).
-/
namespace ModuleGraph

/-- The elements of a list without the first of those that satisfy a condition, so that no more than a given
    number of them are left. -/
def keepLatest {α : Type} (p : α → Bool) (count : Nat) : List α → List α
  | [] => []
  | x :: rest =>
    if p x ∧ count ≤ rest.countP p then keepLatest p count rest else x :: keepLatest p count rest

section
variable {α β : Type} {p : α → Bool} {count : Nat}

theorem keepLatest_sublist (l : List α) : (keepLatest p count l).Sublist l := by
  induction l with
  | nil => exact .slnil
  | cons x rest ih =>
    rw [keepLatest]
    split
    · exact ih.cons x
    · exact ih.cons_cons x

theorem keepLatest_of_le {l : List α} (few : l.countP p ≤ count) : keepLatest p count l = l := by
  induction l with
  | nil => rfl
  | cons x rest ih =>
    rw [List.countP_cons] at few
    rw [keepLatest, if_neg, ih (by omega)]
    rintro ⟨counted, many⟩
    rw [if_pos counted] at few
    omega

theorem keepLatest_map (f : β → α) (l : List β) :
    keepLatest p count (l.map f) = (keepLatest (p ∘ f) count l).map f := by
  induction l with
  | nil => rfl
  | cons x rest ih =>
    rw [List.map_cons, keepLatest, keepLatest, List.countP_map, ih, Function.comp_apply]
    by_cases drops : p (f x) = true ∧ count ≤ rest.countP (p ∘ f)
    · rw [if_pos drops, if_pos drops]
    · rw [if_neg drops, if_neg drops, List.map_cons]

end

/-- What is asked of a store of snapshots. -/
inductive CacheCall where
  | set (key : CacheKey) (snapshot : List UInt8)
  | get (key : CacheKey)
  | listKeys
  | clear
  /-- Opens the directory of the store again, with another number of keys of a kind to keep. -/
  | reopen (count : Nat)
  deriving DecidableEq

/-- What a store of snapshots answers. -/
inductive CacheAnswer where
  | done
  | snapshot (found : Option (List UInt8))
  | keys (listed : List CacheKey)
  deriving DecidableEq

/-- Keys with their snapshots, the one written longest ago first, and the number of keys of a kind that are
    kept. -/
structure CacheLog where
  entries : List (CacheKey × List UInt8)
  maxEntries : Nat

namespace CacheLog

/-- The keys, the one written longest ago first. -/
def keys (log : CacheLog) : List CacheKey := log.entries.map Prod.fst

/-- The snapshot of a key. -/
def get (log : CacheLog) (key : CacheKey) : Option (List UInt8) := log.entries.lookup key

/-- The entries with a snapshot written last, before there are too many. -/
def appended (log : CacheLog) (key : CacheKey) (snapshot : List UInt8) : List (CacheKey × List UInt8) :=
  log.entries.filter (·.1 ≠ key) ++ [(key, snapshot)]

/-- Writes a snapshot under a key, and drops the oldest entries of the key's kind if there are too many. -/
def set (log : CacheLog) (key : CacheKey) (snapshot : List UInt8) : CacheLog :=
  { log with entries := keepLatest (·.1.kind = key.kind) log.maxEntries (log.appended key snapshot) }

/-- Drops all entries. -/
def clear (log : CacheLog) : CacheLog := { log with entries := [] }

/-- The log that keeps at most a given number of keys of a kind, but at least one. -/
def withMaxEntries (log : CacheLog) (count : Nat) : CacheLog := { log with maxEntries := max count 1 }

/-- The log without entries that keeps at most a given number of keys of a kind, but at least one. -/
def start (count : Nat) : CacheLog := ⟨[], max count 1⟩

/-- The answer to a call, and the log behind it. -/
def step (log : CacheLog) : CacheCall → CacheAnswer × CacheLog
  | .set key snapshot => (.done, log.set key snapshot)
  | .get key => (.snapshot (log.get key), log)
  | .listKeys => (.keys log.keys, log)
  | .clear => (.done, log.clear)
  | .reopen count => (.done, log.withMaxEntries count)

/-- The answers to calls in a row, each with the log behind it. -/
def trace (log : CacheLog) : List CacheCall → List (CacheAnswer × CacheLog)
  | [] => []
  | call :: rest => log.step call :: (log.step call).2.trace rest

variable {log : CacheLog} {key other : CacheKey} {snapshot value : List UInt8}

theorem get_eq_some_iff (distinct : log.keys.Nodup) :
    log.get key = some snapshot ↔ (key, snapshot) ∈ log.entries := by
  have found := OrderedMap.get?_eq_lookup ⟨log.entries, distinct⟩ key
  rw [get, ← found, ← OrderedMap.mem_entries_iff]

theorem mem_keys_iff : key ∈ log.keys ↔ ∃ snapshot, (key, snapshot) ∈ log.entries := by
  simp [keys]

theorem get_eq_none_iff (distinct : log.keys.Nodup) : log.get key = none ↔ key ∉ log.keys := by
  rw [mem_keys_iff, Option.eq_none_iff_forall_ne_some, not_exists]
  exact forall_congr' fun snapshot => not_congr (get_eq_some_iff distinct)

/-! ## Writing -/

theorem keys_appended (snapshot : List UInt8) :
    (log.appended key snapshot).map Prod.fst = log.keys.filter (· ≠ key) ++ [key] := by
  rw [appended, List.map_append, keys, List.filter_map]
  rfl

theorem nodup_appended (snapshot : List UInt8) (distinct : log.keys.Nodup) :
    ((log.appended key snapshot).map Prod.fst).Nodup := by
  rw [keys_appended]
  exact (distinct.filter _).append (List.nodup_singleton key) (by simp)

theorem mem_appended_iff : (other, value) ∈ log.appended key snapshot ↔
    (other = key ∧ value = snapshot) ∨ (other ≠ key ∧ (other, value) ∈ log.entries) := by
  simp only [appended, List.mem_append, List.mem_filter, List.mem_singleton, Prod.mk.injEq,
    decide_eq_true_eq, ne_eq]
  tauto

theorem keys_set (snapshot : List UInt8) : (log.set key snapshot).keys =
    keepLatest (·.kind = key.kind) log.maxEntries (log.keys.filter (· ≠ key) ++ [key]) := by
  rw [← keys_appended snapshot, keepLatest_map]
  rfl

theorem keys_set_subset : (log.set key snapshot).keys ⊆ (log.appended key snapshot).map Prod.fst :=
  ((keepLatest_sublist _).map Prod.fst).subset

theorem nodup_set (distinct : log.keys.Nodup) : (log.set key snapshot).keys.Nodup :=
  (nodup_appended snapshot distinct).sublist ((keepLatest_sublist _).map _)

/-- An entry that is left keeps its snapshot, and the key that is written has the new one. -/
theorem mem_entries_set_iff (distinct : log.keys.Nodup) :
    (other, value) ∈ (log.set key snapshot).entries ↔ other ∈ (log.set key snapshot).keys ∧
      ((other = key ∧ value = snapshot) ∨ (other ≠ key ∧ (other, value) ∈ log.entries)) := by
  rw [← mem_appended_iff]
  constructor
  · intro member
    exact ⟨mem_keys_iff.mpr ⟨value, member⟩, (keepLatest_sublist _).subset member⟩
  · rintro ⟨listed, member⟩
    obtain ⟨value', member'⟩ := mem_keys_iff.mp listed
    have same := List.inj_on_of_nodup_map (nodup_appended _ distinct) member
      ((keepLatest_sublist _).subset member') rfl
    rwa [same]

end CacheLog

/-! ## Dropped keys -/

namespace SnapshotCache

theorem dropOldest_eq_keepLatest (kind : String) (count : Nat) (keys : List CacheKey) :
    (dropOldest kind (keys.countP (·.kind = kind) - count) keys).1 =
      keepLatest (·.kind = kind) count keys := by
  induction keys with
  | nil => simp [dropOldest, keepLatest]
  | cons key rest ih =>
    rw [keepLatest, List.countP_cons]
    by_cases counted : key.kind = kind
    · by_cases many : count ≤ rest.countP (·.kind = kind)
      · have more : rest.countP (·.kind = kind) + 1 - count = rest.countP (·.kind = kind) - count + 1 := by
          omega
        simp only [counted, decide_true, if_true, many, and_self, more, dropOldest, ih]
      · have few : rest.countP (·.kind = kind) + 1 - count = 0 := by omega
        have later := keepLatest_of_le (p := fun key : CacheKey => key.kind = kind) (Nat.le_of_lt (Nat.not_le.mp many))
        simp only [counted, decide_true, if_true, many, and_false, if_false, few, dropOldest, later]
    · simp only [counted, decide_false, Bool.false_eq_true, false_and, if_false, Nat.add_zero]
      cases excess : rest.countP (·.kind = kind) - count with
      | zero =>
        rw [dropOldest, keepLatest_of_le (by omega)]
      | succ excess =>
        rw [dropOldest, if_neg counted]
        rw [excess] at ih
        simp only [ih]

theorem dropOldest_perm (kind : String) (excess : Nat) (keys : List CacheKey) :
    ((dropOldest kind excess keys).1 ++ (dropOldest kind excess keys).2).Perm keys := by
  induction keys generalizing excess with
  | nil => cases excess <;> simp [dropOldest]
  | cons key rest ih =>
    cases excess with
    | zero => simp [dropOldest]
    | succ excess =>
      rw [dropOldest]
      split
      · exact List.perm_middle.trans ((ih excess).cons key)
      · exact (ih (excess + 1)).cons key

theorem dropOldest_sublist {kind : String} {excess : Nat} {keys : List CacheKey} :
    (dropOldest kind excess keys).1.Sublist keys := by
  induction keys generalizing excess with
  | nil => cases excess <;> simp [dropOldest]
  | cons key rest ih =>
    cases excess with
    | zero => exact List.Sublist.refl _
    | succ excess =>
      rw [dropOldest]
      split
      · exact ih.cons key
      · exact ih.cons_cons key

/-- Of the keys of the kind the first ones are dropped. -/
theorem dropOldest_own (kind : String) (excess : Nat) (keys : List CacheKey) :
    (dropOldest kind excess keys).1.filter (·.kind = kind) = (keys.filter (·.kind = kind)).drop excess ∧
      (dropOldest kind excess keys).2 = (keys.filter (·.kind = kind)).take excess := by
  induction keys generalizing excess with
  | nil => cases excess <;> simp [dropOldest]
  | cons key rest ih =>
    cases excess with
    | zero => simp [dropOldest]
    | succ excess =>
      rw [dropOldest]
      split
      · rename_i same
        simp [same, ih excess]
      · rename_i differ
        simp [differ, ih (excess + 1)]

/-- The keys of other kinds all stay, in the order in which they were. -/
theorem dropOldest_foreign {kind : String} {p : CacheKey → Bool} (foreign : ∀ key, p key = true → key.kind ≠ kind)
    (excess : Nat) (keys : List CacheKey) : (dropOldest kind excess keys).1.filter p = keys.filter p := by
  induction keys generalizing excess with
  | nil => cases excess <;> simp [dropOldest]
  | cons key rest ih =>
    cases excess with
    | zero => simp [dropOldest]
    | succ excess =>
      rw [dropOldest]
      split
      · rename_i same
        rw [List.filter_cons_of_neg fun holds => foreign key holds same]
        exact ih excess
      · simp [List.filter_cons, ih (excess + 1)]

/-- Where enough keys of the kind come first, those behind them are not looked at. -/
theorem dropOldest_append {kind : String} {excess : Nat} {keys : List CacheKey} (back : List CacheKey)
    (enough : excess ≤ keys.countP (·.kind = kind)) :
    (dropOldest kind excess (keys ++ back)).1 = (dropOldest kind excess keys).1 ++ back := by
  induction keys generalizing excess with
  | nil =>
    obtain rfl : excess = 0 := Nat.le_zero.mp enough
    simp [dropOldest]
  | cons first rest ih =>
    cases excess with
    | zero => simp [dropOldest]
    | succ excess =>
      rw [List.cons_append, dropOldest, dropOldest]
      by_cases own : first.kind = kind
      · simp only [List.countP_cons, own, decide_true, if_true] at enough
        simp only [if_pos own, ih (Nat.le_of_succ_le_succ enough)]
      · simp only [List.countP_cons, own, decide_false, Bool.false_eq_true, if_false] at enough
        simp only [if_neg own, ih enough, List.cons_append]

end SnapshotCache
end ModuleGraph
