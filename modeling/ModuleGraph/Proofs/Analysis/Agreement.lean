import ModuleGraph.Proofs.Analysis.Run

/-!
Analyses in two surroundings. Where two surroundings answer alike whatever an analysis asks of them, the runs
of the analysis answer alike (`Analysis.run_agrees`); of the keys that a store lists only the last one of the
kind matters, and of what it holds only the snapshots of that kind at revisions that can come up.
-/
namespace ModuleGraph

variable {σ τ α β : Type}

/-- Two computations that start at related states have the same answer and end at states that are related
    as the answer allows. -/
def Agree (R : σ → τ → Prop) (f : StateM σ α) (g : StateM τ α) (R' : α → σ → τ → Prop) : Prop :=
  ∀ x y, R x y → (f x).1 = (g y).1 ∧ R' (f x).1 (f x).2 (g y).2

namespace Agree
variable {R : σ → τ → Prop} {f : StateM σ α} {g : StateM τ α}

theorem pure {R' : α → σ → τ → Prop} {a : α} (ends : ∀ x y, R x y → R' a x y) :
    Agree R (Pure.pure a) (Pure.pure a) R' :=
  fun x y related => ⟨rfl, ends x y related⟩

theorem bind {between : α → σ → τ → Prop} {R' : β → σ → τ → Prop} {next : α → StateM σ β}
    {next' : α → StateM τ β} (first : Agree R f g between)
    (rest : ∀ a, Agree (between a) (next a) (next' a) R') : Agree R (f >>= next) (g >>= next') R' := by
  intro x y related
  obtain ⟨same, related⟩ := first x y related
  have followed := rest (f x).1 _ _ related
  rw [show (g >>= next') y = next' (f x).1 (g y).2 by rw [same]; rfl]
  exact followed

/-- The states themselves may be read where what follows depends on them in the same way. -/
theorem read {R' : α → σ → τ → Prop} {next : σ → StateM σ α} {next' : τ → StateM τ α}
    (rest : ∀ x y, R x y → Agree R (next x) (next' y) R') : Agree R (get >>= next) (get >>= next') R' :=
  fun x y related => rest x y related x y related

/-- A fact that does not depend on the states can be used apart from them. -/
theorem assuming {p : Prop} {R' : α → σ → τ → Prop} (agree : p → Agree R f g R') :
    Agree (fun x y => R x y ∧ p) f g R' :=
  fun x y related => agree related.2 x y related.1

end Agree

/-- The revision of the last key of a kind that a store lists. -/
def Surroundings.base (s : Surroundings σ) (kind : AnalysisKind) : StateM σ (Option String) :=
  (·.bind (Plan.lastRevision? kind)) <$> s.listKeys

/-- Two surroundings answer alike all that an analysis of a kind asks. The answers keep a relation between the
    states, and writing a snapshot leads to another one. -/
structure Surroundings.Alike (s : Surroundings σ) (t : Surroundings τ) (kind : AnalysisKind)
    (known : String → Prop) (R R' : σ → τ → Prop) : Prop where
  files : ∀ x y, R x y → s.files x = t.files y
  revision : Agree R s.latestRevision t.latestRevision
    fun revision x y => R x y ∧ ∀ current ∈ revision, known current
  base : Agree R (s.base kind) (t.base kind) fun base x y => R x y ∧ ∀ revision ∈ base, known revision
  changes : ∀ old new, Agree R (s.changes old new) (t.changes old new) fun _ => R
  commit : Agree R s.currentCommit t.currentCommit fun _ => R
  snapshot : ∀ revision, known revision →
    Agree R (s.getSnapshot (.of kind revision)) (t.getSnapshot (.of kind revision)) fun _ => R
  write : ∀ revision bytes, known revision →
    Agree R (s.setSnapshot (.of kind revision) bytes) (t.setSnapshot (.of kind revision) bytes) fun _ => R'
  unwritten : ∀ x y, R x y → R' x y

namespace Analysis
variable {a : Analysis α} {s : Surroundings σ} {t : Surroundings τ} {known : String → Prop}
  {R R' : σ → τ → Prop} {sourceExtension : String} {forced : Bool} {current base : String}

/-- The course for a revision and the base there is for it. -/
def courseFrom (a : Analysis α) (s : Surroundings σ) : Option String → Option String → StateM σ (Course α)
  | some current, some base => do a.courseOf s current (.ofChanges base (← s.changes base current))
  | revision, _ => return .full revision

/-- Of the keys only the base counts, and why there is none does not. -/
theorem course_eq (a : Analysis α) (s : Surroundings σ) (forced : Bool) :
    a.course s forced = s.latestRevision >>= fun revision =>
      if forced then pure (.full revision) else s.base a.kind >>= a.courseFrom s revision := by
  rw [course]
  refine bind_congr fun revision => ?_
  cases forced with
  | true => simp [Plan.choose, courseOf]
  | false =>
    simp only [Plan.choose, Surroundings.base, Bool.false_eq_true, if_false, map_eq_pure_bind, bind_assoc, pure_bind]
    refine bind_congr fun keys => ?_
    rcases keys with _ | _ | ⟨key, rest⟩
    · cases revision <;> simp [courseFrom, courseOf]
    · cases revision <;> simp [courseFrom, courseOf, Plan.lastRevision?]
    · simp only [Option.bind_some]
      cases revision with
      | none => simp [courseFrom, courseOf]
      | some current =>
        cases Plan.lastRevision? a.kind (key :: rest) with
        | none => simp [courseFrom, courseOf]
        | some base => simp [courseFrom]

theorem load_agrees (alike : s.Alike t a.kind known R R') {revision : String} (asked : known revision) :
    Agree R (a.load s revision) (a.load t revision) fun _ => R :=
  (alike.snapshot revision asked).bind fun _ => .pure fun _ _ => id

theorem loadLatest_agrees (alike : s.Alike t a.kind known R R') (new : known current) (old : known base) :
    Agree R (a.loadLatest s current base) (a.loadLatest t current base) fun _ => R := by
  refine (load_agrees alike new).bind fun loaded => ?_
  cases loaded with
  | some snapshot => exact .pure fun _ _ => id
  | none => exact (load_agrees alike old).bind fun _ => .pure fun _ _ => id

theorem courseOf_agrees (alike : s.Alike t a.kind known R R') (new : known current) (old : known base)
    (changes : Option ChangeSet) :
    Agree R (a.courseOf s current (.ofChanges base changes)) (a.courseOf t current (.ofChanges base changes))
      fun course x y => R x y ∧ ∀ revision ∈ course.revision, known revision := by
  have ends (course : Course α) (same : course.revision = some current) :
      Agree R (pure course) (pure course) fun course x y =>
        R x y ∧ ∀ revision ∈ course.revision, known revision :=
    .pure fun x y related => ⟨related, by simpa [same] using new⟩
  rcases Plan.ofChanges_cases base changes with ⟨reason, plan, -⟩ | ⟨changes, -, -, plan⟩
  · rw [plan]
    exact ends (.full current) rfl
  · rw [plan]
    refine (loadLatest_agrees alike new old).bind fun loaded => ?_
    cases loaded with
    | none => exact ends (.full current) rfl
    | some loaded => exact ends (.incremental current loaded.1 loaded.2 changes) rfl

theorem course_agrees (alike : s.Alike t a.kind known R R') (forced : Bool) :
    Agree R (a.course s forced) (a.course t forced) fun course x y =>
      R x y ∧ ∀ revision ∈ course.revision, known revision := by
  rw [course_eq, course_eq]
  refine alike.revision.bind fun revision => .assuming fun new => ?_
  have anew : Agree R (pure (Course.full revision)) (pure (Course.full revision)) fun course x y =>
      R x y ∧ ∀ revision ∈ (course : Course α).revision, known revision :=
    .pure fun x y related => ⟨related, new⟩
  cases forced with
  | true => exact anew
  | false =>
    refine alike.base.bind fun base => .assuming fun old => ?_
    cases revision with
    | none => exact anew
    | some current =>
      cases base with
      | none => exact anew
      | some base =>
        exact (alike.changes base current).bind fun changes =>
          courseOf_agrees alike (new current rfl) (old base rfl) changes

theorem store_agrees (alike : s.Alike t a.kind known R R') {revision : String} (asked : known revision)
    (snapshot : α) (result : β) :
    Agree R (a.store s revision snapshot >>= fun _ => pure result)
      (a.store t revision snapshot >>= fun _ => pure result) fun _ => R' :=
  (alike.write revision _ asked).bind fun _ => .pure fun _ _ => id

theorem runFull_agrees (alike : s.Alike t a.kind known R R') {revision : Option String}
    (asked : ∀ current ∈ revision, known current) :
    Agree R (a.runFull s revision) (a.runFull t revision) fun _ => R' := by
  refine .read fun x y related => ?_
  rw [alike.files x y related]
  cases a.full (t.files y) with
  | error e => exact .pure alike.unwritten
  | ok snapshot =>
    refine alike.commit.bind fun stamp => ?_
    cases revision with
    | none => exact .pure alike.unwritten
    | some revision => exact store_agrees alike (asked revision rfl) _ _

theorem runIncremental_agrees (alike : s.Alike t a.kind known R R') (asked : known current) (snapshot : α)
    (isBase : Bool) (relevant : ChangeSet) :
    Agree R (a.runIncremental s current snapshot isBase relevant)
      (a.runIncremental t current snapshot isBase relevant) fun _ => R' := by
  unfold runIncremental
  cases relevant.isEmpty with
  | true =>
    cases isBase with
    | true => exact store_agrees alike asked _ _
    | false => exact .pure alike.unwritten
  | false =>
    refine .read fun x y related => ?_
    rw [alike.files x y related]
    cases a.update (t.files y) snapshot relevant with
    | error e => exact .pure alike.unwritten
    | ok fresh => exact alike.commit.bind fun stamp => store_agrees alike asked _ _

/-- Runs in surroundings that answer alike have the same result. -/
theorem run_agrees (alike : s.Alike t a.kind known R R') (sourceExtension : String) (forced : Bool) :
    Agree R (a.run s sourceExtension forced) (a.run t sourceExtension forced) fun _ => R' := by
  rw [run_eq, run_eq]
  refine (course_agrees alike forced).bind fun course => .assuming fun asked => ?_
  cases course with
  | full revision => exact runFull_agrees alike asked
  | incremental current snapshot isBase changes => exact runIncremental_agrees alike (asked current rfl) _ _ _

end Analysis
end ModuleGraph
