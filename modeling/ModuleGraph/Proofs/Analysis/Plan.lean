import ModuleGraph.Analysis.Plan
import ModuleGraph.Proofs.Change

/-!
The choice of a plan. Each call that it makes is told apart from the others by the state at which it
is made, so that every call may change the state and may fail. A plan is either to start anew, for a
reason that is a doubt (`Surroundings.Doubt`), or to update what is kept at a base revision
(`Surroundings.Updatable`), never both (`Plan.chosen_cases`, `Updatable.not_doubt`).
-/
namespace ModuleGraph

namespace Surroundings
variable {σ : Type} {s : Surroundings σ} {kind : AnalysisKind} {forced : Bool} {state : σ}
  {current base : String} {changes : ChangeSet}

/-- What the calls before an analysis lead to: those that ask for revisions, keys, changes and
    snapshots, but write nothing. -/
inductive Reads (s : Surroundings σ) (before : σ) : σ → Prop
  | here : Reads s before before
  | revision {after : σ} (reads : Reads s before after) : Reads s before (s.latestRevision after).2
  | keys {after : σ} (reads : Reads s before after) : Reads s before (s.listKeys after).2
  | changes {after : σ} (reads : Reads s before after) (old new : String) :
      Reads s before (s.changes old new after).2
  | snapshot {after : σ} (reads : Reads s before after) (key : CacheKey) :
      Reads s before (s.getSnapshot key after).2

/-- Reading leaves a view of the state as it is. -/
def Keeps {γ : Type} (s : Surroundings σ) (view : σ → γ) : Prop :=
  ∀ before after, s.Reads before after → view after = view before

/-- The keys that a run is told once it knows the current revision. -/
def keysAt (s : Surroundings σ) (state : σ) : Option (List CacheKey) × σ :=
  s.listKeys (s.latestRevision state).2

/-- The changes that a run is told once it knows the keys. -/
def changesAt (s : Surroundings σ) (state : σ) (base current : String) : Option ChangeSet × σ :=
  s.changes base current (s.keysAt state).2

/-- There are a current revision and a base, the revision of the last key of the kind. -/
structure Based (s : Surroundings σ) (kind : AnalysisKind) (state : σ) (current base : String) :
    Prop where
  revision : (s.latestRevision state).1 = some current
  last : ∃ front back, (s.keysAt state).1 = some (front ++ .of kind base :: back) ∧
    ∀ key ∈ back, key.kind ≠ kind.name

/-- Why a run is planned to start anew. -/
inductive Doubt (s : Surroundings σ) (kind : AnalysisKind) (forced : Bool) (state : σ) : Prop
  | forced (wanted : forced = true)
  | noRevision (unknown : (s.latestRevision state).1 = none)
  | noKeys (unknown : (s.keysAt state).1 = none)
  | noKeyOfKind {keys : List CacheKey} (listed : (s.keysAt state).1 = some keys)
      (others : ∀ key ∈ keys, key.kind ≠ kind.name)
  | noChanges {current base : String} (based : s.Based kind state current base)
      (unknown : (s.changesAt state base current).1 = none)
  | tooManyChanges {current base : String} {changes : ChangeSet}
      (based : s.Based kind state current base)
      (changed : (s.changesAt state base current).1 = some changes) (many : 100 < changes.paths.card)

/-- Why it is not. -/
structure Updatable (s : Surroundings σ) (kind : AnalysisKind) (forced : Bool) (state : σ)
    (current base : String) (changes : ChangeSet) : Prop extends s.Based kind state current base where
  unforced : forced = false
  changed : (s.changesAt state base current).1 = some changes
  few : changes.paths.card ≤ 100

theorem Reads.changesAt (s : Surroundings σ) (state : σ) (base current : String) :
    s.Reads state (s.changesAt state base current).2 :=
  Reads.here.revision.keys.changes base current

end Surroundings

namespace Plan
variable {σ : Type} {kind : AnalysisKind} {keys : List CacheKey} {base : String}

theorem lastRevision?_eq_none_iff :
    lastRevision? kind keys = none ↔ ∀ key ∈ keys, key.kind ≠ kind.name := by
  simp [lastRevision?]

theorem lastRevision?_eq_some_iff :
    lastRevision? kind keys = some base ↔
      ∃ front back, keys = front ++ .of kind base :: back ∧ ∀ key ∈ back, key.kind ≠ kind.name := by
  rw [lastRevision?, Option.map_eq_some_iff]
  constructor
  · rintro ⟨⟨name, revision⟩, found, rfl⟩
    obtain ⟨same, later, earlier, split, others⟩ := List.find?_eq_some_iff_append.mp found
    obtain rfl : name = kind.name := by simpa using same
    refine ⟨earlier.reverse, later.reverse, ?_, fun key member => ?_⟩
    · simpa [CacheKey.of] using congrArg List.reverse split
    · simpa using others key (List.mem_reverse.mp member)
  · rintro ⟨front, back, rfl, others⟩
    refine ⟨.of kind base, List.find?_eq_some_iff_append.mpr ?_, rfl⟩
    refine ⟨by simp [CacheKey.of], back.reverse, front.reverse, by simp, fun key member => ?_⟩
    simpa using others key (List.mem_reverse.mp member)

theorem based_iff {σ : Type} {s : Surroundings σ} {state : σ} {current : String} :
    s.Based kind state current base ↔ (s.latestRevision state).1 = some current ∧
      ∃ keys, (s.keysAt state).1 = some keys ∧ lastRevision? kind keys = some base := by
  constructor
  · rintro ⟨revision, front, back, listed, others⟩
    exact ⟨revision, _, listed, lastRevision?_eq_some_iff.mpr ⟨front, back, rfl, others⟩⟩
  · rintro ⟨revision, keys, listed, last⟩
    obtain ⟨front, back, rfl, others⟩ := lastRevision?_eq_some_iff.mp last
    exact ⟨revision, front, back, listed, others⟩

/-- The plan of a run that begins at a state. -/
def chosen (s : Surroundings σ) (kind : AnalysisKind) (forced : Bool) (state : σ) : Plan × σ :=
  choose s kind (s.latestRevision state).1 forced (s.latestRevision state).2

/-- The plan for changes that may be unknown. -/
theorem ofChanges_cases (base : String) (answer : Option ChangeSet) :
    (∃ reason, ofChanges base answer = .full reason ∧
        (answer = none ∨ ∃ changes, answer = some changes ∧ 100 < changes.paths.card)) ∨
      ∃ changes, answer = some changes ∧ changes.paths.card ≤ 100 ∧
        ofChanges base answer = .incremental base changes := by
  cases answer with
  | none => exact .inl ⟨_, rfl, .inl rfl⟩
  | some changes =>
    rw [ofChanges, changes.size_allFiles, changeThreshold]
    split
    · rename_i many
      exact .inl ⟨_, rfl, .inr ⟨changes, rfl, many⟩⟩
    · rename_i few
      exact .inr ⟨changes, rfl, Nat.le_of_not_lt few, rfl⟩

/-- A plan is to start anew with doubt, or to update a base by the changes since. -/
theorem chosen_cases (s : Surroundings σ) (kind : AnalysisKind) (forced : Bool) (state : σ) :
    (∃ reason after, chosen s kind forced state = (.full reason, after) ∧ s.Reads state after ∧
        s.Doubt kind forced state) ∨
      ∃ current base changes, s.Updatable kind forced state current base changes ∧
        chosen s kind forced state = (.incremental base changes, (s.changesAt state base current).2) := by
  cases forced with
  | true => exact .inl ⟨_, _, rfl, .revision .here, .forced rfl⟩
  | false =>
    have reads : s.Reads state (s.keysAt state).2 := .keys (.revision .here)
    have told : s.listKeys (s.latestRevision state).2 = ((s.keysAt state).1, (s.keysAt state).2) := rfl
    simp only [chosen, choose, bind, StateT.bind, pure, Bool.false_eq_true, if_false, told]
    cases listed : (s.keysAt state).1 with
    | none => exact .inl ⟨_, _, rfl, reads, .noKeys listed⟩
    | some keys =>
      cases last : lastRevision? kind keys with
      | none =>
        have doubt : s.Doubt kind false state := .noKeyOfKind listed (lastRevision?_eq_none_iff.mp last)
        cases keys with
        | nil => exact .inl ⟨_, _, rfl, reads, doubt⟩
        | cons key rest =>
          cases (s.latestRevision state).1 with
          | none => exact .inl ⟨_, _, rfl, reads, doubt⟩
          | some current =>
            simp only [last]
            exact .inl ⟨_, _, rfl, reads, doubt⟩
      | some base =>
        obtain ⟨key, rest, rfl⟩ : ∃ key rest, keys = key :: rest := by
          refine List.exists_cons_of_ne_nil ?_
          rintro rfl
          cases last
        cases revision : (s.latestRevision state).1 with
        | none => exact .inl ⟨_, _, rfl, reads, .noRevision revision⟩
        | some current =>
          have based : s.Based kind state current base := based_iff.mpr ⟨revision, _, listed, last⟩
          have reads := Surroundings.Reads.changesAt s state base current
          simp only [last]
          rcases ofChanges_cases base (s.changesAt state base current).1 with
            ⟨reason, plan, unknown | ⟨changes, changed, many⟩⟩ | ⟨changes, changed, few, plan⟩
          · exact .inl ⟨reason, _, Prod.ext plan rfl, reads, .noChanges based unknown⟩
          · exact .inl ⟨reason, _, Prod.ext plan rfl, reads, .tooManyChanges based changed many⟩
          · exact .inr ⟨current, base, changes, ⟨based, rfl, changed, few⟩, Prod.ext plan rfl⟩

end Plan

namespace Surroundings
variable {σ : Type} {s : Surroundings σ} {kind : AnalysisKind} {forced : Bool} {state : σ}
  {current base : String} {changes : ChangeSet}

/-- The base is one revision only. -/
theorem Based.unique {current' base' : String} (based : s.Based kind state current base)
    (other : s.Based kind state current' base') : current' = current ∧ base' = base := by
  obtain ⟨revision, keys, listed, last⟩ := Plan.based_iff.mp based
  obtain ⟨revision', keys', listed', last'⟩ := Plan.based_iff.mp other
  obtain rfl := Option.some.inj (listed'.symm.trans listed)
  exact ⟨Option.some.inj (revision'.symm.trans revision), Option.some.inj (last'.symm.trans last)⟩

theorem Updatable.not_doubt (ready : s.Updatable kind forced state current base changes) :
    ¬s.Doubt kind forced state := by
  intro doubt
  obtain ⟨revision, front, back, listed, -⟩ := ready.toBased
  cases doubt with
  | forced wanted => cases ready.unforced.symm.trans wanted
  | noRevision unknown => cases revision.symm.trans unknown
  | noKeys unknown => cases listed.symm.trans unknown
  | noKeyOfKind listed' others =>
    obtain rfl := Option.some.inj (listed'.symm.trans listed)
    exact others (.of kind base) (by simp) rfl
  | noChanges based unknown =>
    obtain ⟨rfl, rfl⟩ := ready.toBased.unique based
    cases ready.changed.symm.trans unknown
  | tooManyChanges based changed many =>
    obtain ⟨rfl, rfl⟩ := ready.toBased.unique based
    obtain rfl := Option.some.inj (changed.symm.trans ready.changed)
    exact absurd ready.few (Nat.not_le_of_lt many)

theorem Updatable.chosen (ready : s.Updatable kind forced state current base changes) :
    Plan.chosen s kind forced state =
      (.incremental base changes, (s.changesAt state base current).2) := by
  rcases Plan.chosen_cases s kind forced state with
    ⟨reason, after, -, -, doubt⟩ | ⟨current', base', changes', other, plan⟩
  · exact absurd doubt ready.not_doubt
  · obtain ⟨rfl, rfl⟩ := ready.toBased.unique other.toBased
    obtain rfl := Option.some.inj (other.changed.symm.trans ready.changed)
    exact plan

end Surroundings
end ModuleGraph
