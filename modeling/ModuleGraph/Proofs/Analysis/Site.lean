import ModuleGraph.Proofs.Analysis.Agreement
import ModuleGraph.Proofs.Cache.Lookup

/-!
Sites: files to analyse, a history and a store. A run of one kind depends only on the part of the store that is of
its kind (`Site.run_same`), and leaves the part of the other kind as it is (`Site.run_other`). Both are shown for
what a run asks of a store and what it writes there (`Site.ask`, `Site.keep`); what a run does with the answers is
left to `Analysis.run_agrees`. Which course a run takes can be told from what the site holds (`Site.Ready.course`).
-/
namespace ModuleGraph

/-- Where analyses are run: the files that they look at, what is known of the history, a store with the files
    of its directory, and the faults of the store so far. -/
structure Site where
  tree : FileSystem
  revision : Option String
  commit : Option Commit
  cache : SnapshotCache
  disk : FileSystem
  faults : List CacheError

namespace Site
variable {α : Type}

/-- The site with a failure of the store added to the faults. -/
def noting (site : Site) : Except CacheError α → Site
  | .ok _ => site
  | .error e => { site with faults := site.faults ++ [e] }

/-- Asks the store for a snapshot. -/
def ask (site : Site) (key : CacheKey) : Option (List UInt8) × Site :=
  let (answer, cache) := site.cache.get site.disk key
  (answer.toOption.join, { site with cache }.noting answer)

/-- Keeps a snapshot in the store. -/
def keep (site : Site) (key : CacheKey) (snapshot : List UInt8) : Site :=
  let (result, cache, disk) := site.cache.set site.disk key snapshot
  { site with cache, disk }.noting result

/-- The surroundings at a site, where the changes depend on the two revisions only. -/
def surroundings (changes : String → String → Option ChangeSet) : Surroundings Site where
  files := tree
  listKeys := return some (← get).cache.listKeys
  getSnapshot key := modifyGet (·.ask key)
  setSnapshot key snapshot := modify (·.keep key snapshot)
  latestRevision := return (← get).revision
  changes old new := return changes old new
  currentCommit := return (← get).commit

/-- Nothing failed for the files of the store. -/
def Smooth (site : Site) : Prop := ∀ cause, .fileError cause ∉ site.faults

/-- A store that has its place, with names of their own for the keys of known revisions, at a known revision. -/
structure Orderly (known : String → Prop) (site : Site) : Prop where
  placed : site.cache.Placed site.disk
  named : ∀ kind kind' revision revision', known revision → known revision' →
    site.cache.entryName (.of kind revision) = site.cache.entryName (.of kind' revision') →
    CacheKey.of kind revision = .of kind' revision'
  listed : ∀ kind revision, .of kind revision ∈ site.cache.manifest → known revision
  revision : ∀ revision ∈ site.revision, known revision

/-- Two sites are the same for one kind of analysis. -/
structure Same (known : String → Prop) (kind : AnalysisKind) (x y : Site) : Prop where
  tree : x.tree = y.tree
  revision : x.revision = y.revision
  commit : x.commit = y.commit
  maxEntries : x.cache.maxEntries = y.cache.maxEntries
  listed : x.cache.listed kind.name = y.cache.listed kind.name
  lookup : ∀ revision, known revision →
    x.cache.lookup x.disk (.of kind revision) = y.cache.lookup y.disk (.of kind revision)

variable {known : String → Prop} {kind other : AnalysisKind} {x y z : Site} {key : CacheKey}
  {snapshot : List UInt8} {revision : String} {changes : String → String → Option ChangeSet}

theorem Smooth.of_subset (smooth : y.Smooth) (earlier : x.faults ⊆ y.faults) : x.Smooth :=
  fun cause member => smooth cause (earlier member)

theorem Same.refl (known : String → Prop) (kind : AnalysisKind) (x : Site) : x.Same known kind x :=
  ⟨rfl, rfl, rfl, rfl, rfl, fun _ _ => rfl⟩

theorem Same.symm (same : x.Same known kind y) : y.Same known kind x :=
  ⟨same.tree.symm, same.revision.symm, same.commit.symm, same.maxEntries.symm, same.listed.symm,
    fun revision asked => (same.lookup revision asked).symm⟩

theorem Same.trans (first : x.Same known kind y) (second : y.Same known kind z) : x.Same known kind z :=
  ⟨first.tree.trans second.tree, first.revision.trans second.revision, first.commit.trans second.commit,
    first.maxEntries.trans second.maxEntries, first.listed.trans second.listed,
    fun revision asked => (first.lookup revision asked).trans (second.lookup revision asked)⟩

/-! ## Asking -/

private theorem noting_eq (site : Site) (result : Except CacheError α) : ∃ faults,
    site.noting result = { site with faults := site.faults ++ faults } := by
  cases result with
  | ok _ => exact ⟨[], by simp [noting]⟩
  | error e => exact ⟨[e], rfl⟩

theorem ask_eq (x : Site) (key : CacheKey) : ∃ faults, x.ask key = (x.cache.lookup x.disk key,
    { x with cache := (x.cache.get x.disk key).2, faults := x.faults ++ faults }) := by
  obtain ⟨faults, noted⟩ := noting_eq { x with cache := (x.cache.get x.disk key).2 } (x.cache.get x.disk key).1
  exact ⟨faults, Prod.ext rfl noted⟩

theorem Same.ask (x : Site) (key : CacheKey) : x.Same known kind (x.ask key).2 := by
  obtain ⟨faults, asked⟩ := x.ask_eq key
  rw [asked]
  have kept : (x.cache.get x.disk key).2.manifest = x.cache.manifest ∧
      (x.cache.get x.disk key).2.maxEntries = x.cache.maxEntries := by
    rcases x.cache.get_cases x.disk key with same | ⟨snapshot, -, remembered⟩
    · rw [same]
      exact ⟨rfl, rfl⟩
    · rw [remembered]
      exact ⟨rfl, rfl⟩
  refine ⟨rfl, rfl, rfl, kept.2.symm, ?_, fun revision _ => (SnapshotCache.lookup_get ..).symm⟩
  simp only [SnapshotCache.listed, kept.1]

theorem Orderly.ask (orderly : x.Orderly known) (key : CacheKey) : (x.ask key).2.Orderly known := by
  obtain ⟨faults, asked⟩ := x.ask_eq key
  rw [asked]
  rcases x.cache.get_cases x.disk key with same | ⟨snapshot, -, remembered⟩
  · rw [same]
    exact ⟨orderly.placed, orderly.named, orderly.listed, orderly.revision⟩
  · rw [remembered]
    exact ⟨⟨orderly.placed.naming, orderly.placed.folder⟩, orderly.named, orderly.listed, orderly.revision⟩

/-! ## Keeping -/

theorem faults_keep (x : Site) (key : CacheKey) (snapshot : List UInt8) :
    x.faults ⊆ (x.keep key snapshot).faults := by
  obtain ⟨faults, noted⟩ := noting_eq { x with
    cache := (x.cache.set x.disk key snapshot).2.1
    disk := (x.cache.set x.disk key snapshot).2.2 } (x.cache.set x.disk key snapshot).1
  have kept : (x.keep key snapshot).faults = x.faults ++ faults := congrArg Site.faults noted
  rw [kept]
  exact List.subset_append_left ..

/-- Only files make the store fail to keep a snapshot. -/
theorem keep_of_smooth (smooth : (x.keep key snapshot).Smooth) :
    ∃ cache disk, x.cache.set x.disk key snapshot = (.ok (), cache, disk) ∧
      x.keep key snapshot = { x with cache, disk } := by
  rcases done : x.cache.set x.disk key snapshot with ⟨result, cache, disk⟩
  cases result with
  | ok _ =>
    refine ⟨cache, disk, rfl, ?_⟩
    rw [keep, done]
    rfl
  | error e =>
    obtain ⟨cause, rfl⟩ := SnapshotCache.set_error (congrArg Prod.fst done)
    refine absurd ?_ (smooth cause)
    rw [keep, done]
    simp [noting]

section
variable {cache cache' : SnapshotCache} {disk disk' : FileSystem}

/-- The keys that a write touches are of its kind and of known revisions. -/
private theorem exists_touched (orderly : x.Orderly known) (asked : known revision)
    (member : key ∈ CacheKey.of kind revision :: x.cache.dropping (.of kind revision)) :
    ∃ touched, key = .of kind touched ∧ known touched := by
  have own : key.kind = kind.name := by
    rcases List.mem_cons.mp member with rfl | dropped
    · rfl
    · exact SnapshotCache.kind_of_mem_dropping dropped
  have shape : key = .of kind key.revision := by
    cases key
    cases own
    rfl
  refine ⟨key.revision, shape, ?_⟩
  rcases List.mem_cons.mp member with same | dropped
  · rw [same]
    exact asked
  · rcases SnapshotCache.mem_manifest_of_mem_dropping dropped with same | listed
    · rw [same]
      exact asked
    · exact orderly.listed kind key.revision (shape ▸ listed)

theorem Orderly.keep (orderly : x.Orderly known) (asked : known revision)
    (done : x.cache.set x.disk (.of kind revision) snapshot = (.ok (), cache, disk)) :
    Orderly known { x with cache, disk } := by
  have placed := orderly.placed.set done
  obtain ⟨rfl, -⟩ := SnapshotCache.set_eq_ok done
  refine ⟨placed, orderly.named, fun kind' revision' listed => ?_, orderly.revision⟩
  rcases SnapshotCache.mem_manifest_written listed with same | old
  · have dated : revision' = revision := congrArg CacheKey.revision same
    rw [dated]
    exact asked
  · exact orderly.listed kind' revision' old

theorem lookup_keep (other : AnalysisKind) (orderly : x.Orderly known) (asked : known revision) {target : String}
    (wanted : known target)
    (done : x.cache.set x.disk (.of kind revision) snapshot = (.ok (), cache, disk)) :
    cache.lookup disk (.of other target) =
      if .of other target ∈ x.cache.dropping (.of kind revision) then none
      else if CacheKey.of kind revision = .of other target then some snapshot
      else x.cache.lookup x.disk (.of other target) := by
  refine SnapshotCache.lookup_set orderly.placed done fun key member same => ?_
  obtain ⟨touched, rfl, dated⟩ := exists_touched orderly asked member
  exact orderly.named kind other touched target dated wanted same

/-- A snapshot that is kept at two sites that are the same for its kind leaves them the same. -/
theorem Same.keep (same : x.Same known kind y) (left : x.Orderly known) (right : y.Orderly known)
    (asked : known revision)
    (done : x.cache.set x.disk (.of kind revision) snapshot = (.ok (), cache, disk))
    (done' : y.cache.set y.disk (.of kind revision) snapshot = (.ok (), cache', disk')) :
    Same known kind { x with cache, disk } { y with cache := cache', disk := disk' } := by
  obtain ⟨dropping, listed⟩ := SnapshotCache.listed_written_congr (.of kind revision) snapshot snapshot
    same.listed same.maxEntries
  refine ⟨same.tree, same.revision, same.commit, ?_, ?_, fun target wanted => ?_⟩
  · obtain ⟨rfl, -⟩ := SnapshotCache.set_eq_ok done
    obtain ⟨rfl, -⟩ := SnapshotCache.set_eq_ok done'
    exact same.maxEntries
  · obtain ⟨rfl, -⟩ := SnapshotCache.set_eq_ok done
    obtain ⟨rfl, -⟩ := SnapshotCache.set_eq_ok done'
    exact listed
  · have before := lookup_keep kind left asked wanted done
    have after := lookup_keep kind right asked wanted done'
    exact before.trans (by rw [after, dropping, same.lookup target wanted])

end

/-! ## Room -/

/-- Nothing failed at a site, and no path of its store is too long. -/
structure Roomy (site : Site) : Prop where
  placed : site.cache.Placed site.disk
  short : ∀ directory, site.cache.directory = some directory →
    directory.text.utf8ByteSize + FileSystem.nameLimit < FileSystem.pathLimit
  smooth : site.Smooth

theorem Roomy.ask (roomy : x.Roomy) (key : CacheKey) : (x.ask key).2.Roomy := by
  have answered : ∀ cause, (x.cache.get x.disk key).1 ≠ .error (.fileError cause) := by
    intro cause failed
    cases roomy.placed.get_error failed
  have noted : (x.ask key).2.Smooth := by
    intro cause member
    change _ ∈ (noting { x with cache := (x.cache.get x.disk key).2 } (x.cache.get x.disk key).1).faults at member
    cases answer : (x.cache.get x.disk key).1 with
    | ok found =>
      rw [answer] at member
      exact roomy.smooth cause member
    | error e =>
      rw [answer] at member
      rcases List.mem_append.mp member with old | new
      · exact roomy.smooth cause old
      · obtain rfl := List.mem_singleton.mp new
        exact answered cause answer
  obtain ⟨faults, asked⟩ := x.ask_eq key
  rw [asked] at noted ⊢
  rcases x.cache.get_cases x.disk key with same | ⟨snapshot, -, remembered⟩
  · rw [same] at noted ⊢
    exact ⟨roomy.placed, roomy.short, noted⟩
  · rw [remembered] at noted ⊢
    exact ⟨⟨roomy.placed.naming, roomy.placed.folder⟩, roomy.short, noted⟩

theorem Roomy.keep (roomy : x.Roomy) (key : CacheKey) (snapshot : List UInt8) : (x.keep key snapshot).Roomy := by
  obtain ⟨cache, disk, done⟩ := roomy.placed.set_ok key snapshot roomy.short
  have kept : x.keep key snapshot = { x with cache, disk } := by
    rw [Site.keep, done]
    rfl
  have placed := roomy.placed.set done
  obtain ⟨rfl, -⟩ := SnapshotCache.set_eq_ok done
  rw [kept]
  exact ⟨placed, roomy.short, roomy.smooth⟩

/-! ## Runs -/

theorem base_eq (changes : String → String → Option ChangeSet) (kind : AnalysisKind) (x : Site) :
    (surroundings changes).base kind x =
      (((x.cache.listed kind.name).getLast?).map CacheKey.revision, x) := by
  have last : Plan.lastRevision? kind x.cache.manifest =
      ((x.cache.listed kind.name).getLast?).map CacheKey.revision := by
    rw [Plan.lastRevision?, SnapshotCache.listed, List.getLast?_eq_head?_reverse, ← List.filter_reverse,
      List.head?_filter]
  rw [← last]
  rfl

theorem known_of_base (orderly : x.Orderly known) :
    ∀ revision ∈ ((surroundings changes).base kind x).1, known revision := by
  intro revision based
  rw [base_eq] at based
  obtain ⟨key, last, rfl⟩ := Option.map_eq_some_iff.mp based
  obtain ⟨member, own⟩ := List.mem_filter.mp (List.mem_of_getLast? last)
  refine orderly.listed kind key.revision ?_
  have shape : key = .of kind key.revision := by
    cases key
    cases of_decide_eq_true own
    rfl
  rwa [← shape]

/-- What asking keeps and keeping a snapshot leads to holds behind a run. -/
theorem run_keeps (known : String → Prop) {a : Analysis α} {P Q : Site → Prop}
    (sourceExtension : String) (forced : Bool)
    (dated : ∀ x, P x → (∀ revision ∈ x.revision, known revision) ∧
      ∀ revision ∈ ((surroundings changes).base a.kind x).1, known revision)
    (asking : ∀ x key, P x → P (x.ask key).2)
    (keeping : ∀ x revision snapshot, P x → known revision → Q (x.keep (.of a.kind revision) snapshot))
    (weaker : ∀ x, P x → Q x) (holds : P x) :
    Q (a.run (surroundings changes) sourceExtension forced x).2 := by
  have alike : (surroundings changes).Alike (surroundings changes) a.kind known
      (fun x y => x = y ∧ P x) (fun x y => x = y ∧ Q x) := by
    constructor
    case files =>
      rintro x _ ⟨rfl, -⟩
      rfl
    case revision =>
      rintro x _ ⟨rfl, holds⟩
      exact ⟨rfl, ⟨rfl, holds⟩, (dated x holds).1⟩
    case base =>
      rintro x _ ⟨rfl, holds⟩
      exact ⟨rfl, ⟨rfl, by rwa [base_eq]⟩, (dated x holds).2⟩
    case changes =>
      rintro old new x _ ⟨rfl, holds⟩
      exact ⟨rfl, rfl, holds⟩
    case commit =>
      rintro x _ ⟨rfl, holds⟩
      exact ⟨rfl, rfl, holds⟩
    case snapshot =>
      rintro revision - x _ ⟨rfl, holds⟩
      exact ⟨rfl, rfl, asking x _ holds⟩
    case write =>
      rintro revision bytes asked x _ ⟨rfl, holds⟩
      exact ⟨rfl, rfl, keeping x revision bytes holds asked⟩
    case unwritten =>
      rintro x _ ⟨rfl, holds⟩
      exact ⟨rfl, weaker x holds⟩
  exact (Analysis.run_agrees alike sourceExtension forced x x ⟨rfl, holds⟩).2.2

theorem faults_run {a : Analysis α} (changes : String → String → Option ChangeSet) (sourceExtension : String)
    (forced : Bool) (x : Site) : x.faults ⊆ (a.run (surroundings changes) sourceExtension forced x).2.faults := by
  refine run_keeps (fun _ => True) (P := fun y => x.faults ⊆ y.faults) (Q := fun y => x.faults ⊆ y.faults)
    sourceExtension forced (fun _ _ => ⟨fun _ _ => trivial, fun _ _ => trivial⟩) ?_ ?_ (fun _ => id)
    (List.Subset.refl _)
  · intro y key earlier
    obtain ⟨faults, asked⟩ := y.ask_eq key
    rw [asked]
    exact fun fault member => List.mem_append_left _ (earlier member)
  · intro y revision snapshot earlier _
    exact fun fault member => y.faults_keep _ snapshot (earlier member)

/-- A forced run starts anew and keeps its snapshot under the revision. -/
theorem run_of_forced (a : Analysis α) (changes : String → String → Option ChangeSet) (sourceExtension : String)
    {fresh : α} (current : x.revision = some revision) (computed : a.full x.tree = .ok fresh) :
    a.run (surroundings changes) sourceExtension true x =
      (.ok ⟨.full, some revision, a.restamp fresh x.commit⟩,
        x.keep (.of a.kind revision) (a.codec.write (a.restamp fresh x.commit))) := by
  have decided : a.course (surroundings changes) true x = (.full (some revision), x) := by
    rw [Analysis.course_eq, ← current]
    rfl
  have done : a.full ((surroundings changes).files x) = .ok fresh := computed
  have ran : a.runFull (surroundings changes) (some revision) x = _ := Analysis.runFull_of_ok done
  exact (Analysis.run_of_course decided).trans ran

/-- A site at which the snapshot of a revision is held, and what has changed since the last key of its kind is known
    and not too much. -/
structure Ready (a : Analysis α) (changes : String → String → Option ChangeSet) (revision : String) (snapshot : α)
    (changed : ChangeSet) (site : Site) : Prop where
  based : ∃ last, (site.cache.listed a.kind.name).getLast? = some last ∧
    changes last.revision revision = some changed
  few : changed.paths.card ≤ 100
  held : (site.cache.lookup site.disk (.of a.kind revision)).bind a.codec.decode = some snapshot

/-- The course at such a site is to update the snapshot, which is asked for and nothing else. -/
theorem Ready.course {a : Analysis α} {held : α} {changed : ChangeSet}
    (ready : x.Ready a changes revision held changed) (current : x.revision = some revision) :
    a.course (surroundings changes) false x =
      (.incremental revision held false changed, (x.ask (.of a.kind revision)).2) := by
  obtain ⟨last, based, told⟩ := ready.based
  have loaded : a.loadLatest (surroundings changes) revision last.revision x =
      (some (held, false), (x.ask (.of a.kind revision)).2) := by
    have load : a.load (surroundings changes) revision x = (some held, (x.ask (.of a.kind revision)).2) :=
      Prod.ext ready.held rfl
    rcases a.loadLatest_cases (surroundings changes) revision last.revision x with ⟨found, first, same⟩ | ⟨none, -⟩
    · rw [load] at first same
      cases first
      exact same
    · rw [load] at none
      cases none
  have plan : Plan.ofChanges last.revision (changes last.revision revision) = .incremental last.revision changed := by
    rw [told, Plan.ofChanges, if_neg]
    rw [changed.size_allFiles]
    exact Nat.not_lt_of_le ready.few
  have chosen : a.course (surroundings changes) false x = a.courseFrom (surroundings changes) x.revision
      ((surroundings changes).base a.kind x).1 ((surroundings changes).base a.kind x).2 := by
    rw [Analysis.course_eq]
    rfl
  have unfolded : a.courseFrom (surroundings changes) (some revision) (some last.revision) x =
      a.courseOf (surroundings changes) revision
        (.ofChanges last.revision (changes last.revision revision)) x := rfl
  rw [chosen, base_eq, current, based, Option.map_some, unfolded, plan]
  simp only [Analysis.courseOf, bind, StateT.bind, loaded]
  rfl

/-- A run at such a site brings the snapshot up to date. -/
theorem Ready.run {a : Analysis α} {held fresh : α} {changed : ChangeSet} {sourceExtension : String}
    (ready : x.Ready a changes revision held changed) (current : x.revision = some revision)
    (busy : (changed.filtered sourceExtension).isEmpty = false)
    (computed : a.update x.tree held (changed.filtered sourceExtension) = .ok fresh) :
    (a.run (surroundings changes) sourceExtension false x).1 =
      .ok ⟨.incremental, some revision, a.restamp fresh x.commit⟩ := by
  have same : x.Same (fun _ => True) a.kind (x.ask (.of a.kind revision)).2 := .ask x _
  have done : a.update ((surroundings changes).files (x.ask (.of a.kind revision)).2) held
      (changed.filtered sourceExtension) = .ok fresh := by
    rw [← computed, same.tree]
    rfl
  have ran : a.runIncremental (surroundings changes) revision held false (changed.filtered sourceExtension)
      (x.ask (.of a.kind revision)).2 = _ := Analysis.runIncremental_of_ok busy done
  rw [Analysis.run_of_course (ready.course current), same.commit]
  exact congrArg Prod.fst ran

/-- A snapshot that is kept under a revision is at hand for it. -/
theorem Ready.of_keep {a : Analysis α} {kept : α} {changed : ChangeSet} (orderly : x.Orderly known)
    (asked : known revision) (room : 0 < x.cache.maxEntries) (told : changes revision revision = some changed)
    (few : changed.paths.card ≤ 100) (decoded : a.codec.decode (a.codec.write kept) = some kept)
    (smooth : (x.keep (.of a.kind revision) (a.codec.write kept)).Smooth) :
    (x.keep (.of a.kind revision) (a.codec.write kept)).Ready a changes revision kept changed := by
  obtain ⟨cache, disk, done, same⟩ := keep_of_smooth smooth
  rw [same]
  constructor
  · obtain ⟨rfl, -⟩ := SnapshotCache.set_eq_ok done
    exact ⟨.of a.kind revision, SnapshotCache.getLast?_listed_written room, told⟩
  · exact few
  · have held := lookup_keep a.kind orderly asked asked done
    rw [if_neg (SnapshotCache.not_mem_dropping room), if_pos rfl] at held
    change (cache.lookup disk (.of a.kind revision)).bind a.codec.decode = some kept
    rw [held]
    exact decoded

end Site

end ModuleGraph
