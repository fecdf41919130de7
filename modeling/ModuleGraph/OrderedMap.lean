/-!
Maps that remember the order in which their keys first came in. Writing to a known key keeps its
place. Equality of two maps is equality of their entries, order included.
-/
namespace ModuleGraph

/-- Pairs of a key and a value with distinct keys, oldest key first. -/
structure OrderedMap (α β : Type) where
  entries : List (α × β)
  nodup : (entries.map Prod.fst).Nodup

namespace OrderedMap
variable {α β γ : Type}

@[ext] theorem ext {m n : OrderedMap α β} (same : m.entries = n.entries) : m = n := by
  cases m; cases n; cases same; rfl

instance [DecidableEq α] [DecidableEq β] : DecidableEq (OrderedMap α β) := fun m n =>
  decidable_of_iff (m.entries = n.entries) ⟨ext, fun same => same ▸ rfl⟩

/-- The map without entries. -/
def empty : OrderedMap α β := ⟨[], .nil⟩

instance : Inhabited (OrderedMap α β) := ⟨empty⟩

/-- The keys, oldest first. -/
def keys (m : OrderedMap α β) : List α := m.entries.map Prod.fst

/-- The values in the order of their keys. -/
def values (m : OrderedMap α β) : List β := m.entries.map Prod.snd

/-- The number of keys. -/
def size (m : OrderedMap α β) : Nat := m.entries.length

section
variable [DecidableEq α]

/-- The value at a key in a list of pairs, the first one winning. -/
def find (key : α) : List (α × β) → Option β
  | [] => none
  | (k, v) :: rest => if k = key then some v else find key rest

/-- Writes a value at a key: in place when the key is there, at the end otherwise. -/
def put (key : α) (value : β) : List (α × β) → List (α × β)
  | [] => [(key, value)]
  | (k, v) :: rest => if k = key then (k, value) :: rest else (k, v) :: put key value rest

theorem fst_put_of_mem {key : α} {value : β} {l : List (α × β)} (known : key ∈ l.map Prod.fst) :
    (put key value l).map Prod.fst = l.map Prod.fst := by
  induction l with
  | nil => simp at known
  | cons head rest ih =>
    obtain ⟨k, v⟩ := head
    by_cases same : k = key
    · simp [put, same]
    · have later : key ∈ rest.map Prod.fst := by
        rcases List.mem_cons.1 known with here | there
        · exact absurd here.symm same
        · exact there
      simp [put, same, ih later]

theorem put_of_not_mem {key : α} {value : β} {l : List (α × β)} (fresh : key ∉ l.map Prod.fst) :
    put key value l = l ++ [(key, value)] := by
  induction l with
  | nil => rfl
  | cons head rest ih =>
    obtain ⟨k, v⟩ := head
    simp only [List.map_cons, List.mem_cons, not_or] at fresh
    simp [put, Ne.symm fresh.1, ih fresh.2]

theorem nodup_put {key : α} {value : β} {l : List (α × β)} (nodup : (l.map Prod.fst).Nodup) :
    ((put key value l).map Prod.fst).Nodup := by
  by_cases known : key ∈ l.map Prod.fst
  · rwa [fst_put_of_mem known]
  · rw [put_of_not_mem known, List.map_append, List.nodup_append]
    refine ⟨nodup, by simp, ?_⟩
    intro a old b new
    simp only [List.map_cons, List.map_nil, List.mem_singleton] at new
    exact fun same => known (new ▸ same ▸ old)

/-- The value at a key. -/
def get? (m : OrderedMap α β) (key : α) : Option β := find key m.entries

/-- Whether a key is there. -/
def contains (m : OrderedMap α β) (key : α) : Bool := (m.get? key).isSome

/-- Writes a value at a key, which keeps its place if it has one. -/
def insert (m : OrderedMap α β) (key : α) (value : β) : OrderedMap α β :=
  ⟨put key value m.entries, nodup_put m.nodup⟩

/-- Writes a value at a key unless the key is there. -/
def insertNew (m : OrderedMap α β) (key : α) (value : β) : OrderedMap α β :=
  if m.contains key then m else m.insert key value

/-- Removes a key; the others keep their order. -/
def erase (m : OrderedMap α β) (key : α) : OrderedMap α β :=
  ⟨m.entries.filter (·.1 ≠ key), m.nodup.sublist (List.filter_sublist.map Prod.fst)⟩

/-- The value at a key, or a given one where the key is missing. -/
def getD (m : OrderedMap α β) (key : α) (missing : β) : β := (m.get? key).getD missing

/-- Writes all pairs of a list, one after the other. -/
def insertAll (m : OrderedMap α β) (pairs : List (α × β)) : OrderedMap α β :=
  pairs.foldl (fun m (k, v) => m.insert k v) m

/-- The map that the pairs of a list leave when written one after the other. -/
def ofList (pairs : List (α × β)) : OrderedMap α β := empty.insertAll pairs

end

/-- The same keys with their values changed. -/
def mapValues (f : β → γ) (m : OrderedMap α β) : OrderedMap α γ :=
  ⟨m.entries.map fun (k, v) => (k, f v), by
    simpa [List.map_map, Function.comp_def] using m.nodup⟩

/-- The entries that satisfy a condition. -/
def filter (p : α × β → Bool) (m : OrderedMap α β) : OrderedMap α β :=
  ⟨m.entries.filter p, m.nodup.sublist (List.filter_sublist.map Prod.fst)⟩

end OrderedMap

/-- A set that remembers the order in which its members came in. -/
abbrev OrderedSet (α : Type) : Type := OrderedMap α Unit

namespace OrderedSet
variable {α : Type} [DecidableEq α]

/-- The members, oldest first. -/
def toList (s : OrderedSet α) : List α := OrderedMap.keys s

/-- Adds a member; one that is there keeps its place. -/
def add (s : OrderedSet α) (x : α) : OrderedSet α := OrderedMap.insertNew s x ()

/-- The distinct elements of a list, in the order of their first occurrence. -/
def ofList (xs : List α) : OrderedSet α := xs.foldl add OrderedMap.empty

end OrderedSet
end ModuleGraph
