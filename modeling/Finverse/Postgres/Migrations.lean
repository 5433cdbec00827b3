import Finverse.Framework.History
import Mathlib.Data.List.Sort
import Mathlib.Data.String.Basic

/-! The migrations of the database, by runners that may race one another, fail or lose their lock. -/

namespace Finverse.Postgres

open Interleave

/-! ### A release and the database -/

def isSql (name : String) : Bool := ".sql".toList.isSuffixOf name.toList

/-- The migrations that come with a release, as its directory lists them. -/
structure Release where
  directory : List String
  distinct : directory.Nodup

def Release.files (release : Release) : List String := (release.directory.filter isSql).insertionSort (· ≤ ·)

theorem Release.files_sorted (release : Release) : release.files.Pairwise (· < ·) := by
  have distinct : release.files.Nodup :=
    (List.perm_insertionSort (· ≤ ·) _).nodup_iff.mpr (release.distinct.sublist List.filter_sublist)
  have sorted : release.files.Pairwise (· ≤ ·) := List.pairwise_insertionSort (· ≤ ·) _
  exact (sorted.and distinct).imp fun both => lt_of_le_of_ne both.1 both.2

structure MigrationStatus where
  applied : List String
  pending : List String
  unknown : List String
  deriving DecidableEq, Repr

/-- What the records of a database are to a release. -/
def inspectMigrations (release : Release) (names : List String) : MigrationStatus :=
  let recorded := names.insertionSort (· ≤ ·)
  { applied := recorded.filter (· ∈ release.files)
    pending := release.files.filter (· ∉ recorded)
    unknown := recorded.filter (· ∉ release.files) }

/-- The migrations that were applied, in order, each with its record, and who holds the advisory lock. -/
structure Database where
  applied : List String := []
  lock : Option Nat := none
  sessions : Nat := 0
  deriving DecidableEq, Repr

inductive MigrationError
  | database
  | alreadyRunning
  | unknownRecords (names : List String)
  deriving DecidableEq, Repr

/-- What the message of an error says. -/
def MigrationError.message : MigrationError → Option String
  | .database => none
  | .alreadyRunning => some "Another database migration is already running."
  | .unknownRecords names =>
    some ("Database contains migration records missing from this release: " ++ ", ".intercalate names)

/-- Whether a statement fails, and whether it has taken effect then. -/
inductive Fate
  | done
  | failed
  | unacknowledged
  deriving DecidableEq, Repr

inductive Call
  | tryLock
  | inspect
  | apply (file : String)
  | unlock (session : Nat)
  | connectionLost
  deriving DecidableEq

@[reducible] def Call.Reply : Call → Type
  | .tryLock => Except MigrationError (Option Nat)
  | .inspect => Except MigrationError (List String)
  | .apply _ | .unlock _ => Except MigrationError Unit
  | .connectionLost => Unit

abbrev ports : Interface := ⟨Call, Call.Reply⟩

/-- A migration and its record are one transaction: where the record is there already, nothing is done.
A session that is gone has no lock. -/
def perform (call : Call) (fate : Fate) (db : Database) : call.Reply × Database :=
  match call with
  | .tryLock =>
    if fate ≠ .done then (.error .database, db)
    else if db.lock.isSome then (.ok none, db)
    else (.ok (some db.sessions), { db with lock := some db.sessions, sessions := db.sessions + 1 })
  | .inspect => if fate ≠ .done then (.error .database, db) else (.ok db.applied, db)
  | .apply file =>
    if fate = .failed || file ∈ db.applied then (.error .database, db)
    else (if fate = .done then .ok () else .error .database, { db with applied := db.applied ++ [file] })
  | .unlock session =>
    if fate ≠ .done || db.lock ≠ some session then (.error .database, db)
    else (.ok (), { db with lock := none })
  | .connectionLost => ((), { db with lock := none })

def machine : Machine ports Fate Database where
  ready := fun _ _ _ => true
  exec := perform

/-! ### A runner -/

abbrev Runner (α : Type) : Type := Task ports MigrationError α

def call (c : Call) : Runner c.Reply := Task.call (I := ports) c

def applyAll : List String → List String → Runner (List String)
  | [], ran => pure ran
  | file :: pending, ran => do
    let applied ← call (.apply file)
    Task.ofExcept (I := ports) applied
    applyAll pending (ran ++ [file])

/-- What is run under the lock. -/
def runPending (release : Release) : Runner (List String) := do
  let rows ← call .inspect
  let names ← Task.ofExcept (I := ports) rows
  let status := inspectMigrations release names
  if status.unknown ≠ [] then throw (.unknownRecords status.unknown)
  else applyAll status.pending []

def unlock (session : Nat) : Runner Unit := do
  let unlocked ← call (.unlock session)
  Task.ofExcept (I := ports) unlocked

/-- The lock is given back whatever happens. -/
def runLocked (release : Release) (session : Nat) : Runner (List String) := do
  let ran ← tryCatch (runPending release) fun e => do
    unlock session
    throw e
  unlock session
  pure ran

def runMigrations (release : Release) : Runner (List String) := do
  let reply ← call .tryLock
  let acquired ← Task.ofExcept (I := ports) reply
  match acquired with
  | none => throw .alreadyRunning
  | some session => runLocked release session

inductive Request
  | runMigrations (release : Release)
  | connectionLost

def handle : Request → Runner (List String)
  | .runMigrations release => runMigrations release
  | .connectionLost => do
    let _ ← call .connectionLost
    pure []

def system : System ports Fate Database Request (Except MigrationError (List String)) where
  machine := machine
  serve := fun _ r => (handle r).run

abbrev Deed : Type := Entry ports Fate Database Request

/-! ### What a runner asks for -/

def acquires (e : Event ports) : Bool :=
  match e with
  | ⟨.tryLock, .ok (some _)⟩ => true
  | _ => false

def releases (e : Event ports) : Bool :=
  match e with
  | ⟨.unlock _, .ok _⟩ => true
  | _ => false

/-- The runner has taken the lock and not given it back. -/
abbrev Within (h : List (Event ports)) : Prop := Pool.inside acquires releases h false = true

theorem Within.snoc {h : List (Event ports)} {e : Event ports} (within : Within h) (quiet : releases e = false) :
    Within (h ++ [e]) := by
  rw [Within, Pool.inside_snoc, quiet]
  split
  · rfl
  · exact within

/-- What the runner knows when it applies a migration: it is new, and all those before it are there. -/
structure Due (release : Release) (h : List (Event ports)) (file : String) (names : List String) : Prop where
  read : (⟨.inspect, .ok names⟩ : Event ports) ∈ h
  known : ∀ name ∈ names, name ∈ release.files
  member : file ∈ release.files
  new : file ∉ names
  first : ∀ reply, (⟨.apply file, reply⟩ : Event ports) ∉ h
  earlier : ∀ other ∈ release.files, other < file → other ∈ names ∨ (⟨.apply other, .ok ()⟩ : Event ports) ∈ h

def Asked (r : Request) (h : List (Event ports)) (op : Call) : Prop :=
  match op, r with
  | .apply file, .runMigrations release => Within h ∧ ∃ names, Due release h file names
  | .apply _, .connectionLost => False
  | .unlock _, _ => Within h
  | .tryLock, _ => h = []
  | .connectionLost, r => r = .connectionLost
  | _, _ => True

section Runner

variable {release : Release} {names : List String} {file : String} {h : List (Event ports)}

theorem mem_pending : file ∈ (inspectMigrations release names).pending ↔ file ∈ release.files ∧ file ∉ names := by
  simp [inspectMigrations]

theorem known_of_none_unknown (none_ : (inspectMigrations release names).unknown = []) :
    ∀ name ∈ names, name ∈ release.files := by
  intro name read
  have known := List.filter_eq_nil_iff.mp none_ name ((List.mem_insertionSort _).mpr read)
  simpa using known

/-- Each migration of the release was found, or is applied. -/
def Complete (release : Release) (h : List (Event ports)) : Prop :=
  ∃ names, (⟨.inspect, .ok names⟩ : Event ports) ∈ h ∧
    ∀ file ∈ release.files, file ∈ names ∨ (⟨.apply file, .ok ()⟩ : Event ports) ∈ h

theorem Complete.snoc {e : Event ports} (complete : Complete release h) : Complete release (h ++ [e]) := by
  obtain ⟨names, read, every⟩ := complete
  refine ⟨names, List.mem_append_left _ read, fun file member => ?_⟩
  exact (every file member).imp id fun applied => List.mem_append_left _ applied

theorem applyAll_asks (pending ran : List String) (read : (⟨.inspect, .ok names⟩ : Event ports) ∈ h)
    (known : ∀ name ∈ names, name ∈ release.files) (within : Within h) (sorted : pending.Pairwise (· < ·))
    (due : ∀ file ∈ pending, file ∈ release.files ∧ file ∉ names ∧
      ∀ reply, (⟨.apply file, reply⟩ : Event ports) ∉ h)
    (every : ∀ file ∈ release.files, file ∈ names ∨ (⟨.apply file, .ok ()⟩ : Event ports) ∈ h ∨ file ∈ pending) :
    Task.Asks (Asked (.runMigrations release)) (fun h _ => Within h ∧ Complete release h)
      (fun h _ => Within h) h (applyAll pending ran) := by
  induction pending generalizing h ran with
  | nil => exact ⟨within, names, read, fun file member => (every file member).imp id (Or.resolve_right · List.not_mem_nil)⟩
  | cons file pending ih =>
    obtain ⟨least, sorted⟩ := List.pairwise_cons.mp sorted
    obtain ⟨⟨member, new, first⟩, due⟩ := List.forall_mem_cons.mp due
    have earlier : ∀ other ∈ release.files, other < file →
        other ∈ names ∨ (⟨.apply other, .ok ()⟩ : Event ports) ∈ h := by
      intro other member before
      rcases every other member with found | applied | later
      · exact .inl found
      · exact .inr applied
      · rcases List.mem_cons.mp later with rfl | later
        · exact absurd before (lt_irrefl _)
        · exact absurd before (lt_asymm (least other later))
    refine Task.asks_call_bind.mpr ⟨⟨within, names, ⟨read, known, member, new, first, earlier⟩⟩, fun reply => ?_⟩
    cases reply with
    | error e => exact within.snoc rfl
    | ok _ =>
      refine ih (ran ++ [file]) (List.mem_append_left _ read) (within.snoc rfl) sorted ?_ ?_
      · intro other later
        obtain ⟨member, new, first⟩ := due other later
        refine ⟨member, new, fun reply there => ?_⟩
        rcases List.mem_append.mp there with there | there
        · exact first reply there
        · have same := congrArg Event.op (List.mem_singleton.mp there)
          obtain rfl := Call.apply.inj same
          exact lt_irrefl _ (least _ later)
      · intro other member
        rcases every other member with found | applied | later
        · exact .inl found
        · exact .inr (.inl (List.mem_append_left _ applied))
        · rcases List.mem_cons.mp later with rfl | later
          · exact .inr (.inl (List.mem_append_right _ (List.mem_singleton_self _)))
          · exact .inr (.inr later)

theorem runPending_asks (within : Within h) (nothing : ∀ file reply, (⟨.apply file, reply⟩ : Event ports) ∉ h) :
    Task.Asks (Asked (.runMigrations release)) (fun h _ => Within h ∧ Complete release h)
      (fun h _ => Within h) h (runPending release) := by
  refine Task.asks_call_bind.mpr ⟨trivial, fun rows => ?_⟩
  cases rows with
  | error e => exact within.snoc rfl
  | ok names =>
    have within' : Within (h ++ [⟨.inspect, .ok names⟩]) := within.snoc rfl
    change Task.Asks _ _ _ _ (if (inspectMigrations release names).unknown ≠ [] then _ else _)
    split
    · exact within'
    · rename_i known
      refine applyAll_asks _ [] (List.mem_append_right _ (List.mem_singleton_self _))
        (known_of_none_unknown (not_not.mp known)) within' (release.files_sorted.sublist List.filter_sublist) ?_ ?_
      · intro file pending
        obtain ⟨member, new⟩ := mem_pending.mp pending
        refine ⟨member, new, fun reply there => ?_⟩
        rcases List.mem_append.mp there with there | there
        · exact nothing file reply there
        · cases List.mem_singleton.mp there
      · intro file member
        by_cases found : file ∈ names
        · exact .inl found
        · exact .inr (.inr (mem_pending.mpr ⟨member, found⟩))

theorem unlock_asks {session : Nat} {r : Request} {ok : List (Event ports) → Unit → Prop}
    {err : List (Event ports) → MigrationError → Prop} (within : Within h)
    (done : ∀ reply, ok (h ++ [⟨.unlock session, reply⟩]) ()) (failed : ∀ h e, err h e) :
    Task.Asks (Asked r) ok err h (unlock session) := by
  refine Task.asks_call_bind.mpr ⟨within, fun reply => ?_⟩
  cases reply with
  | error e => exact failed _ e
  | ok _ => exact done _

theorem runLocked_asks {session : Nat} (within : Within h)
    (nothing : ∀ file reply, (⟨.apply file, reply⟩ : Event ports) ∉ h) :
    Task.Asks (Asked (.runMigrations release)) (fun h _ => Complete release h) (fun _ _ => True) h
      (runLocked release session) := by
  refine Task.asks_bind.mpr (Task.asks_tryCatch.mpr ((runPending_asks within nothing).weaken ?_ ?_))
  · rintro h ran ⟨within, complete⟩
    exact Task.asks_bind.mpr (unlock_asks within (fun _ => complete.snoc) fun _ _ => trivial)
  · intro h e within
    exact Task.asks_bind.mpr (unlock_asks within (fun _ => trivial) fun _ _ => trivial)

theorem runMigrations_asks (release : Release) :
    Task.Asks (Asked (.runMigrations release)) (fun h _ => Complete release h) (fun _ _ => True) []
      (runMigrations release) := by
  refine Task.asks_call_bind.mpr ⟨rfl, fun reply => ?_⟩
  match reply with
  | .error e => trivial
  | .ok none => trivial
  | .ok (some session) =>
    refine runLocked_asks rfl fun file reply there => ?_
    cases List.mem_singleton.mp there

theorem handle_asks (r : Request) :
    Task.Asks (Asked r) (fun _ _ => True) (fun _ _ => True) [] (handle r) := by
  cases r with
  | runMigrations release => exact (runMigrations_asks release).weaken (fun _ _ _ => trivial) fun _ _ _ => trivial
  | connectionLost => exact Task.asks_call_bind.mpr ⟨rfl, fun _ => trivial⟩

end Runner

/-! ### Runs -/

section Runs

open Pool

variable {db₀ : Database} {cond : List Deed → Deed → Prop} {log before after : List Deed} {e : Deed} {n : Nat}
  {c : Pool ports Database Request (Except MigrationError (List String))} {release : Release} {file : String}

theorem deed_asked (recorded : Recorded system db₀ cond (before ++ e :: after) c) :
    Asked e.req (own machine before e.thread) e.op :=
  recorded.asks (handle_asks e.req)

/-- What a deed does to the record: one migration more at most, and only a new one. -/
theorem applied_after (e : Deed) : (e.after machine).applied = e.before.applied ∨
    ∃ file, e.op = .apply file ∧ file ∉ e.before.applied ∧
      (e.after machine).applied = e.before.applied ++ [file] := by
  obtain ⟨thread, req, op, fate, db⟩ := e
  change (perform op fate db).2.applied = _ ∨ ∃ file, op = _ ∧ _ ∧ (perform op fate db).2.applied = _
  cases op with
  | apply file =>
    by_cases refused : fate = .failed ∨ file ∈ db.applied
    · left
      simp [perform, refused]
    · right
      have new := (not_or.mp refused).2
      exact ⟨file, rfl, new, by simp [perform, refused]⟩
  | tryLock =>
    left
    simp only [perform]
    split
    · rfl
    · split <;> rfl
  | inspect | unlock =>
    left
    simp only [perform]
    split <;> rfl
  | connectionLost => exact .inl rfl

theorem applied_version (e : Deed) : e.before.applied <+: (e.after machine).applied := by
  rcases applied_after e with same | ⟨file, -, -, more⟩
  · exact ⟨[], by rw [List.append_nil, same]⟩
  · exact ⟨[file], more.symm⟩

/-- Nothing that was applied is ever taken back. -/
theorem applied_grows (recorded : Recorded system db₀ cond (before ++ after) c) :
    (ending machine db₀ before).applied <+: (ending machine db₀ (before ++ after)).applied := by
  refine recorded.since (P := fun mid => (ending machine db₀ before).applied <+:
    (ending machine db₀ (before ++ mid)).applied) ?_ ?_
  · exact ⟨[], by rw [List.append_nil, List.append_nil]⟩
  rintro mid e rest rfl from_ - sofar
  rw [← List.append_assoc, ending_snoc]
  refine sofar.trans ?_
  have more := applied_version e
  rwa [from_] at more

theorem inspected {names : List String} (found : e.event machine = ⟨.inspect, .ok names⟩) :
    names = e.before.applied := by
  obtain ⟨asked, replied⟩ := Entry.of_event found
  simp only [machine, perform] at replied
  split at replied
  · cases replied
  · exact (Except.ok.inj replied).symm

theorem applied_of_ok (done : e.event machine = ⟨.apply file, .ok ()⟩) : file ∈ (e.after machine).applied := by
  obtain ⟨thread, req, op, fate, db⟩ := e
  obtain ⟨rfl, replied⟩ := Entry.of_event done
  change file ∈ (perform (.apply file) fate db).2.applied
  simp only [machine, perform] at replied ⊢
  split at replied
  · cases replied
  · rename_i taken
    rw [if_neg taken]
    exact List.mem_append_right _ (List.mem_singleton_self _)

/-- What a runner found or has applied is there for good. -/
theorem settled (recorded : Recorded system db₀ cond log c) :
    (∀ names, (⟨.inspect, .ok names⟩ : Event ports) ∈ own machine log n →
      ∀ name ∈ names, name ∈ (ending machine db₀ log).applied) ∧
    ∀ file, (⟨.apply file, .ok ()⟩ : Event ports) ∈ own machine log n → file ∈ (ending machine db₀ log).applied := by
  have later {e : Deed} (done : e ∈ log) : (e.after machine).applied <+: (ending machine db₀ log).applied := by
    obtain ⟨before, after, rfl⟩ := List.append_of_mem done
    rw [List.append_cons] at recorded ⊢
    have grown := applied_grows recorded
    rwa [ending_snoc] at grown
  constructor
  · intro names read name there
    obtain ⟨e, done, -, found⟩ := mem_own.mp read
    rw [inspected found] at there
    exact ((applied_version e).trans (later done)).subset there
  · intro file applied
    obtain ⟨e, done, -, found⟩ := mem_own.mp applied
    exact (later done).subset (applied_of_ok found)

/-- A migration is applied after all those of the release before it. -/
theorem earlier_applied (recorded : Recorded system db₀ cond (before ++ e :: after) c)
    (asks : e.req = .runMigrations release) (applies : e.op = .apply file) :
    ∀ other ∈ release.files, other < file → other ∈ e.before.applied := by
  have asked := deed_asked recorded
  rw [asks, applies] at asked
  obtain ⟨-, names, due⟩ := asked
  obtain ⟨c', sofar⟩ := recorded.of_append
  obtain ⟨from_, -⟩ := recorded.step
  obtain ⟨found, applied⟩ := settled (n := e.thread) sofar
  intro other member smaller
  rw [from_]
  rcases due.earlier other member smaller with read | done
  · exact found names due.read other read
  · exact applied other done

theorem applies_member (recorded : Recorded system db₀ cond (before ++ e :: after) c) (applies : e.op = .apply file) :
    ∃ release, e.req = .runMigrations release ∧ file ∈ release.files := by
  have asked := deed_asked recorded
  rw [applies] at asked
  cases asks : e.req with
  | connectionLost =>
    rw [asks] at asked
    cases asked
  | runMigrations release =>
    rw [asks] at asked
    obtain ⟨-, names, due⟩ := asked
    exact ⟨release, rfl, due.member⟩

/-- Runners of any releases, that may race, fail anywhere or lose their lock: each migration is applied
once at most, and after all those of the runner's release before it; a runner that returns leaves nothing
of its release out. -/
theorem migrations_safe (distinct : db₀.applied.Nodup) (recorded : Recorded system db₀ cond log c) :
    c.state.applied.Nodup ∧
    (∀ before e after, log = before ++ e :: after → (e.after machine).applied ≠ e.before.applied →
      ∃ release file, e.req = .runMigrations release ∧ file ∈ release.files ∧ file ∉ e.before.applied ∧
        (e.after machine).applied = e.before.applied ++ [file] ∧
        ∀ other ∈ release.files, other < file → other ∈ e.before.applied) ∧
    ∀ n release ran, c.Finished n (.runMigrations release) (.ok ran) →
      ∀ file ∈ release.files, file ∈ c.state.applied := by
  refine ⟨?_, ?_, ?_⟩
  · rw [recorded.state]
    refine recorded.induct (P := fun log => (ending machine db₀ log).applied.Nodup) distinct ?_
    intro log e c _ from_ _ sofar
    rw [ending_snoc]
    replace from_ : e.before = ending machine db₀ log := from_
    rw [← from_] at sofar
    rcases applied_after e with same | ⟨file, -, new, more⟩
    · rwa [same]
    · rw [more]
      exact List.nodup_append.mpr ⟨sofar, List.nodup_singleton _, fun name there other here same =>
        new (by rw [← List.mem_singleton.mp here, ← same]; exact there)⟩
  · rintro before e after rfl changes
    rcases applied_after e with same | ⟨file, applies, new, more⟩
    · exact absurd same changes
    · obtain ⟨release, asks, member⟩ := applies_member recorded applies
      exact ⟨release, file, asks, member, new, more, earlier_applied recorded asks applies⟩
  · intro n release ran finished file member
    obtain ⟨names, read, every⟩ := recorded.finished finished (runMigrations_asks release)
    obtain ⟨found, applied⟩ := settled (n := n) recorded
    rw [recorded.state]
    rcases every file member with there | done
    · exact found names read file there
    · exact applied file done

/-! ### Releases that continue one another -/

/-- The next one, where all those before it are there and it is not. -/
theorem prefix_next {files done more : List String} (sorted : files.Pairwise (· < ·)) (sofar : done <+: files)
    (within : more <+: files) (member : file ∈ more) (new : file ∉ done)
    (earlier : ∀ other ∈ more, other < file → other ∈ done) : done ++ [file] <+: files := by
  obtain ⟨rest, rfl⟩ := sofar
  cases rest with
  | nil =>
    rw [List.append_nil] at within
    exact absurd (within.subset member) new
  | cons next rest =>
    suffices same : next = file by
      exact ⟨rest, by rw [same, List.append_assoc, List.singleton_append]⟩
    obtain ⟨-, sorted', before⟩ := List.pairwise_append.mp sorted
    have later : ∀ other ∈ rest, next < other := (List.pairwise_cons.mp sorted').1
    have there : file ∈ next :: rest := (List.mem_append.mp (within.subset member)).resolve_left new
    rcases List.mem_cons.mp there with same | after
    · exact same.symm
    · -- The release has all that comes before one of its files.
      exfalso
      have smaller := later file after
      have has : next ∈ more := by
        obtain ⟨others, split⟩ := within
        rcases List.mem_append.mp (split ▸ List.mem_append_right done List.mem_cons_self : next ∈ more ++ others)
          with has | beyond
        · exact has
        · rw [← split] at sorted
          exact absurd ((List.pairwise_append.mp sorted).2.2 file member next beyond) (lt_asymm smaller)
      exact lt_irrefl _ (before next (earlier next has smaller) next List.mem_cons_self)

/-- All releases are versions of one list of migrations. -/
def Versions (files : List String) (_ : List Deed) (e : Deed) : Prop :=
  ∀ release, e.req = .runMigrations release → release.files <+: files

/-- The database is at a version of the schema at every time, whoever races, fails or loses its lock, and
at that of a release at least once a runner of it has returned. -/
theorem schema_is_version {files : List String} (sorted : files.Pairwise (· < ·)) (start : db₀.applied <+: files)
    (recorded : Recorded system db₀ (Versions files) log c) :
    c.state.applied <+: files ∧
    ∀ n release ran, c.Finished n (.runMigrations release) (.ok ran) → release.files <+: c.state.applied := by
  have version : (ending machine db₀ log).applied <+: files := by
    refine recorded.induct (P := fun log => (ending machine db₀ log).applied <+: files) start ?_
    intro log e c recorded from_ versions sofar
    replace from_ : e.before = ending machine db₀ log := from_
    rw [ending_snoc]
    rw [← from_] at sofar
    rcases applied_after e with same | ⟨file, applies, new, more⟩
    · rwa [same]
    · obtain ⟨release, asks, member⟩ := applies_member recorded applies
      rw [more]
      exact prefix_next sorted sofar (versions release asks) member new (earlier_applied recorded asks applies)
  rw [recorded.state]
  refine ⟨version, fun n release ran finished => ?_⟩
  have complete := recorded.finished finished (runMigrations_asks release)
  obtain ⟨names, read, every⟩ := complete
  obtain ⟨found, applied⟩ := settled (n := n) recorded
  have within : release.files <+: files := by
    obtain ⟨e, done, rfl, -⟩ := mem_own.mp read
    obtain ⟨th, there, same⟩ := recorded.thread done
    have thread : c.threads[e.thread]? = some ⟨.runMigrations release, .ret (.ok ran)⟩ := finished
    rw [thread] at there
    obtain rfl := Option.some.inj there
    obtain ⟨before, after, rfl⟩ := List.append_of_mem done
    exact recorded.step.2 release same.symm
  rcases List.prefix_or_prefix_of_prefix within version with shorter | longer
  · exact shorter
  · refine (longer.eq_of_length_le ?_) ▸ List.prefix_rfl
    refine (List.subperm_of_subset (release.files_sorted.imp ne_of_lt) fun file member => ?_).length_le
    rcases every file member with there | done
    · exact found names read file there
    · exact applied file done

/-! ### What the lock is for -/

theorem locks : Locks system (fun _ e => e.op ≠ .connectionLost) (fun db : Database => db.lock.isSome)
    acquires releases where
  acquire e took := by
    obtain ⟨thread, req, op, fate, db⟩ := e
    cases op with
    | tryLock =>
      change acquires ⟨.tryLock, (perform .tryLock fate db).1⟩ = true at took
      change db.lock.isSome = false ∧ (perform .tryLock fate db).2.lock.isSome = true
      simp only [perform] at took ⊢
      by_cases bad : fate ≠ .done
      · rw [if_pos bad] at took
        cases took
      · rw [if_neg bad] at took ⊢
        cases held : db.lock.isSome with
        | true =>
          rw [held, if_pos rfl] at took
          cases took
        | false => exact ⟨rfl, rfl⟩
    | _ => cases took
  release e gave := by
    obtain ⟨thread, req, op, fate, db⟩ := e
    cases op with
    | unlock session =>
      change releases ⟨.unlock session, (perform (.unlock session) fate db).1⟩ = true at gave
      change (perform (.unlock session) fate db).2.lock.isSome = false
      simp only [perform] at gave ⊢
      split at gave
      · cases gave
      · rename_i fits
        rw [if_neg fits]
        rfl
    | _ => cases gave
  other _ e connected idle quiet := by
    obtain ⟨thread, req, op, fate, db⟩ := e
    cases op with
    | connectionLost => exact absurd rfl connected
    | tryLock =>
      change acquires ⟨.tryLock, (perform .tryLock fate db).1⟩ = false at idle
      change (perform .tryLock fate db).2.lock.isSome = db.lock.isSome
      simp only [perform] at idle ⊢
      by_cases bad : fate ≠ .done
      · rw [if_pos bad]
      · rw [if_neg bad] at idle ⊢
        cases held : db.lock.isSome with
        | true => rw [if_pos rfl, held]
        | false =>
          rw [held, if_neg Bool.false_ne_true] at idle
          cases idle
    | unlock session =>
      change releases ⟨.unlock session, (perform (.unlock session) fate db).1⟩ = false at quiet
      change (perform (.unlock session) fate db).2.lock.isSome = db.lock.isSome
      simp only [perform] at quiet ⊢
      split at quiet
      · rename_i refused
        rw [if_pos refused]
      · cases quiet
    | inspect | apply =>
      change (ite _ _ _ : _ × Database).2.lock.isSome = db.lock.isSome
      split <;> rfl
  mine n r := Prog.Asks.weaken (handle_asks r) (fun h op asked reply gave => by
    cases op with
    | unlock session => exact asked
    | _ => cases gave) fun _ _ _ => trivial

/-- While no connection is lost, whatever is applied since a runner looked was applied by itself. -/
theorem alone_since_inspected (recorded : Recorded system db₀ (fun _ e => e.op ≠ .connectionLost) log c)
    (within : Within (own machine log n)) {names : List String}
    (read : (⟨.inspect, .ok names⟩ : Event ports) ∈ own machine log n) :
    ∀ name ∈ (ending machine db₀ log).applied,
      name ∈ names ∨ ∃ reply, (⟨.apply name, reply⟩ : Event ports) ∈ own machine log n := by
  refine recorded.induct (P := fun log => ∀ n, Within (own machine log n) →
    ∀ names, (⟨.inspect, .ok names⟩ : Event ports) ∈ own machine log n →
      ∀ name ∈ (ending machine db₀ log).applied,
        name ∈ names ∨ ∃ reply, (⟨.apply name, reply⟩ : Event ports) ∈ own machine log n) ?_ ?_ n within names read
  · intro n within
    cases within
  · intro log e c recorded from_ _ sofar n within names read name there
    replace from_ : e.before = ending machine db₀ log := from_
    rw [ending_snoc] at there
    have asked := deed_asked recorded
    obtain ⟨c', earlier⟩ := recorded.of_append
    by_cases mine : e.thread = n
    · subst mine
      rw [own_snoc_self] at within read ⊢
      rcases List.mem_append.mp read with before | now
      · have within' : Within (own machine log e.thread) := by
          rw [Within, inside_snoc] at within
          cases took : acquires (e.event machine) with
          | true =>
            have first : own machine log e.thread = [] := by
              obtain ⟨thread, req, op, fate, db⟩ := e
              cases op with
              | tryLock => exact asked
              | _ => cases took
            rw [first] at before
            exact absurd before List.not_mem_nil
          | false =>
            rw [took] at within
            cases gave : releases (e.event machine) <;> rw [gave] at within
            · exact within
            · cases within
        have old : name ∈ e.before.applied → _ := fun there => sofar e.thread within' names before name (from_ ▸ there)
        rcases applied_after e with same | ⟨file, applies, -, more⟩
        · rw [same] at there
          exact (old there).imp id fun ⟨reply, did⟩ => ⟨reply, List.mem_append_left _ did⟩
        · rw [more] at there
          rcases List.mem_append.mp there with there | new
          · exact (old there).imp id fun ⟨reply, did⟩ => ⟨reply, List.mem_append_left _ did⟩
          · obtain rfl := List.mem_singleton.mp new
            obtain ⟨thread, req, op, fate, db⟩ := e
            obtain rfl : op = .apply name := applies
            exact .inr ⟨_, List.mem_append_right _ (List.mem_singleton_self _)⟩
      · have found := (List.mem_singleton.mp now).symm
        have same : (e.after machine).applied = e.before.applied := by
          rcases applied_after e with same | ⟨file, applies, -, -⟩
          · exact same
          · rw [(Entry.of_event found).1] at applies
            cases applies
        rw [same, ← inspected found] at there
        exact .inl there
    · rw [own_snoc, if_neg mine] at within read ⊢
      rcases applied_after e with same | ⟨file, applies, -, -⟩
      · rw [same] at there
        exact sofar n within names read name (from_ ▸ there)
      · have guarded : Within (own machine log e.thread) := by
          rw [applies] at asked
          cases asks : e.req with
          | connectionLost =>
            rw [asks] at asked
            cases asked
          | runMigrations release =>
            rw [asks] at asked
            exact asked.1
        exact absurd ((earlier.exclusive locks n within).2 _ guarded) mine

/-- No runner comes upon a record that another one has made meanwhile, as long as no connection is lost. -/
theorem lock_excludes (recorded : Recorded system db₀ (fun _ e => e.op ≠ .connectionLost) (before ++ e :: after) c)
    (applies : e.op = .apply file) : file ∉ e.before.applied := by
  intro there
  obtain ⟨release, asks, -⟩ := applies_member recorded applies
  have asked := deed_asked recorded
  rw [asks, applies] at asked
  obtain ⟨within, names, due⟩ := asked
  obtain ⟨from_, -⟩ := recorded.step
  obtain ⟨c', sofar⟩ := recorded.of_append
  rw [from_] at there
  rcases alone_since_inspected sofar within due.read file there with found | ⟨reply, did⟩
  · exact due.new found
  · exact due.first reply did

end Runs

/-! ### Two releases -/

section Example

theorem august_distinct : ["002_auth.sql", "001_init.sql", "README.md"].Nodup := by decide

def august : Release := ⟨_, august_distinct⟩

theorem september_distinct : ["003_rls.sql", "002_auth.sql", "001_init.sql"].Nodup := by decide

def september : Release := ⟨_, september_distinct⟩

def turns (n : Nat) : List Fate → List (Pool.Move Fate Request) := List.map (.run n)

/-- Whether the release of a runner is a version of these migrations. -/
def isVersion (files : List String) (_ : List Deed) (e : Deed) : Bool :=
  match e.req with
  | .runMigrations release => release.files.isPrefixOf files
  | .connectionLost => true

theorem versions_of_isVersion {files : List String} {log : List Deed} {e : Deed}
    (version : isVersion files log e = true) : Versions files log e := by
  intro release asks
  rw [isVersion, asks] at version
  exact List.isPrefixOf_iff_prefix.mp version

/-- The runner of the older release loses its lock after its first migration; that of the newer one takes
it, and both go on. -/
def raced : Pool.Course ports Fate Database Request (Except MigrationError (List String)) :=
  Pool.courseUnder system (isVersion september.files) {}
    (.start (.runMigrations august) :: turns 0 [.done, .done, .done] ++ .start .connectionLost :: turns 1 [.done] ++
      .start (.runMigrations september) :: turns 2 [.done, .done, .done] ++ turns 0 [.done, .done] ++
        turns 2 [.done, .done])

theorem raced_recorded : Pool.Recorded system {} (Versions september.files) raced.1 raced.2 :=
  (Pool.courseUnder_recorded system (isVersion september.files) _ _).mono fun _ _ => versions_of_isVersion

theorem raced_safe : raced.1.length = 11 ∧ raced.2.state.applied.Nodup ∧
    ∀ n release ran, raced.2.Finished n (.runMigrations release) (.ok ran) →
      ∀ file ∈ release.files, file ∈ raced.2.state.applied := by
  obtain ⟨distinct, -, complete⟩ := migrations_safe List.nodup_nil raced_recorded
  exact ⟨by decide +kernel, distinct, complete⟩

theorem raced_version : raced.1.length = 11 ∧ raced.2.state.applied <+: september.files := by
  have sorted : september.files.Pairwise (· < ·) := september.files_sorted
  exact ⟨by decide +kernel, (schema_is_version sorted List.nil_prefix raced_recorded).1⟩

/-- Two runners whose connections hold. -/
def connected : Pool.Course ports Fate Database Request (Except MigrationError (List String)) :=
  Pool.courseUnder system (fun _ e => e.op ≠ .connectionLost) {}
    (.start (.runMigrations august) :: turns 0 [.done, .done, .done] ++ .start (.runMigrations september) ::
      turns 1 [.done] ++ turns 0 [.done, .done])

theorem connected_excluded : ∃ before e after, connected.1 = before ++ e :: after ∧
    e.op = .apply "002_auth.sql" ∧ "002_auth.sql" ∉ e.before.applied := by
  have named : (connected.1[4]?).map (·.op) = some (.apply "002_auth.sql") := by decide +kernel
  obtain ⟨e, found, applies⟩ := Option.map_eq_some_iff.mp named
  obtain ⟨before, after, split⟩ := List.append_of_mem (List.mem_of_getElem? found)
  have recorded : Pool.Recorded system {} (fun _ e => e.op ≠ .connectionLost) connected.1 connected.2 :=
    (Pool.courseUnder_recorded system _ _ _).mono fun _ _ => of_decide_eq_true
  rw [split] at recorded
  exact ⟨before, e, after, split, applies, lock_excludes recorded applies⟩

end Example

end Finverse.Postgres
