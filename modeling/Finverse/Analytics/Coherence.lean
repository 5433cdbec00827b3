import Finverse.Analytics.Effects
import Finverse.Imports.Undo
import Finverse.Statements.SplitMerge

/-! Whether an analytics request sees what other requests have changed before it. -/

namespace Finverse.Analytics

open Interleave Ledger

variable {Report : Type}

abbrev Deed (Report : Type) : Type := Entry (ports Report) Env (World Report) Request

/-! ### What a report may miss -/

section Conditions

variable (K : Context Report)

/-- The operation changed the ledger of the user. -/
def Changes (userId : String) (e : Deed Report) : Prop :=
  (e.after (machine K)).ledgerOf userId ≠ e.before.ledgerOf userId

instance (userId : String) (e : Deed Report) : Decidable (Changes K userId e) :=
  inferInstanceAs (Decidable (_ ≠ _))

/-- The request tells of what it changes, and has not done so since. -/
def Untold (e : Deed Report) (since : List (Deed Report)) : Prop :=
  e.req.tells = true ∧ ∀ e' ∈ since, e'.thread = e.thread → tells (e'.event (machine K)) = false

/-- Since the ledger was listed, it was changed only by requests that are still to tell of it. -/
def UpToDate (userId : String) (since : List (Deed Report)) : Prop :=
  ∀ before e after, since = before ++ e :: after → Changes K userId e → Untold K e after

def Stores (key : CacheKey) (e : Deed Report) : Prop :=
  ∃ report now, e.op = .storeAnalyticsCache key report now

/-- The report that was cached last under the key is of the ledger as a request listed it before. -/
def Older (key : CacheKey) (log before : List (Deed Report)) : Prop :=
  ∃ l ∈ before, l.op = .list key.userId ∧ ∃ earlier s later, log = earlier ++ s :: later ∧
    l.thread = s.thread ∧ Stores key s ∧ ∀ s' ∈ later, ¬Stores key s'

/-- No report outlives a change that nobody tells of. -/
structure Heard (log : List (Deed Report)) (e : Deed Report) : Prop where
  /-- A request that does not tell of its changes makes them while nothing is cached. -/
  silent : ∀ userId, e.req.tells = false → Changes K userId e →
    ∀ key, key.userId = userId → e.before.analyticsCache.get? key = none
  /-- What is cached was computed of a ledger that is up to date. -/
  stores : ∀ key, Stores key e → ∀ before l since, log = before ++ l :: since →
    l.thread = e.thread → l.op = .list key.userId → UpToDate K key.userId since
  /-- When a synchronization fails, what is cached is no older than what it changed. -/
  fails : ∀ userId linkId, e.op = .linkFailed userId linkId → ∀ before w since,
    log = before ++ w :: since → w.thread = e.thread → Changes K userId w →
      ∀ key, key.userId = userId → (e.before.analyticsCache.get? key).isSome → ¬Older key log before

end Conditions

/-! ### What each request is about -/

section Runs

variable {K : Context Report} {w₀ : World Report} {cond : List (Deed Report) → Deed Report → Prop}
  {log before after since : List (Deed Report)} {e : Deed Report} {userId : String} {n : Nat}
  {c : Pool (ports Report) (World Report) Request (Except ServiceError (Option Report))}

theorem changes_writes (changed : Changes K userId e) :
    e.op.user = some userId ∧ writes (e.event (machine K)) = true :=
  perform_ledger e.op e.input e.before changed

theorem tells_cases {ev : Event (ports Report)} (told : tells ev = true) :
    (∃ event, ev.op = .publish event) ∨ ∃ userId linkId, ev.op = .linkFailed userId linkId := by
  obtain ⟨op, reply⟩ := ev
  cases op with
  | publish event => exact .inl ⟨event, rfl⟩
  | linkFailed userId linkId => exact .inr ⟨userId, linkId, rfl⟩
  | _ => cases told

/-- What is told is no change. -/
theorem not_writes_of_tells {ev : Event (ports Report)} (told : tells ev = true) : writes ev = false := by
  obtain ⟨op, reply⟩ := ev
  cases op with
  | publish | linkFailed => rfl
  | _ => cases told

theorem analytics_about (userId : String) (period : Period) (asOf : Option IsoDate)
    (customRange : Option DateRange) (currency : String) :
    Task.All (fun c : Call Report => c.user = none) (analytics K userId period asOf customRange currency) := by
  unfold analytics
  refine Task.all_bind ((Task.all_call (I := ports Report) _).mpr rfl) fun found => ?_
  cases found.cached with
  | some report => exact Task.all_pure _
  | none =>
    refine Task.all_bind ((Task.all_call (I := ports Report) _).mpr rfl) fun transactions => ?_
    refine Task.all_bind (Task.all_ofExcept _) fun report => ?_
    exact Task.all_bind ((Task.all_call (I := ports Report) _).mpr rfl) fun _ => Task.all_pure _

/-- A request is about one user. -/
theorem handle_about (r : Request) :
    Task.All (fun c : Call Report => ∀ userId, c.user = some userId → userId = r.userId)
      (handle K r) := by
  by_cases other : ∀ userId period asOf customRange currency,
      r ≠ .analytics userId period asOf customRange currency
  · refine Task.All.mono (handle_plain other) fun call plain userId named => ?_
    cases call with
    | storeAnalyticsCache => cases named
    | _ => simpa [Call.plain, named] using plain
  · push Not at other
    obtain ⟨userId, period, asOf, customRange, currency, rfl⟩ := other
    refine Task.all_map (Task.All.mono (analytics_about userId period asOf customRange currency) ?_)
    intro call nobody userId named
    rw [nobody] at named
    cases named

theorem deed_about (recorded : Pool.Recorded (system K) w₀ cond log c) (done : e ∈ log)
    (named : e.op.user = some userId) : userId = e.req.userId := by
  obtain ⟨before, after, rfl⟩ := List.append_of_mem done
  have asks : Task.Asks (I := ports Report)
      (fun _ op => ∀ userId, op.user = some userId → userId = e.req.userId)
      (fun h _ => Extends _ [] h) (fun h _ => Extends _ [] h) [] (handle K e.req) :=
    Task.Asks.of_all (handle_about e.req) fun _ _ about => about
  exact recorded.asks asks userId named

/-- Who changed a ledger tells its user of it. -/
theorem teller_about (recorded : Pool.Recorded (system K) w₀ cond log c) {w : Deed Report} (wrote : w ∈ log)
    (changed : Changes K userId w) (done : e ∈ log) (same : e.thread = w.thread)
    (told : tells (e.event (machine K)) = true) :
    (∃ event, e.op = .publish event ∧ event.userId = userId) ∨
      ∃ linkId, e.op = .linkFailed userId linkId := by
  have mine : userId = w.req.userId := deed_about recorded wrote (changes_writes changed).1
  have req : e.req = w.req := recorded.same_req done wrote same
  rcases tells_cases told with ⟨event, published⟩ | ⟨other, linkId, failed⟩
  · have published : e.op = .publish event := published
    have about : event.userId = e.req.userId := deed_about recorded done (by rw [published]; rfl)
    exact .inl ⟨event, published, by rw [about, req, mine]⟩
  · have failed : e.op = .linkFailed other linkId := failed
    have about : other = e.req.userId := deed_about recorded done (by rw [failed]; rfl)
    exact .inr ⟨linkId, by rw [failed, about, req, mine]⟩

/-! ### What is cached -/

/-- What an analytics request has done, by what it is about to do or how it has ended. -/
theorem analytics_handled (userId : String) (period : Period) (asOf : Option IsoDate)
    (customRange : Option DateRange) (currency : String) : Task.Asks (I := ports Report)
    (fun h c => ∀ key report now, c = .storeAnalyticsCache key report now → ∃ found transactions,
      h = Missed userId period asOf customRange currency found transactions ∧ key = found.key ∧
        now = found.now ∧ reportOf K key transactions = .ok report)
    (fun h answer => ∀ report, answer = some report → ∃ found,
      (h = [⟨.lookup userId period asOf customRange currency, found⟩] ∧ found.cached = some report) ∨
      ∃ transactions, h = Missed userId period asOf customRange currency found transactions ++
          [⟨.storeAnalyticsCache found.key report found.now, ()⟩] ∧
        reportOf K found.key transactions = .ok report)
    (fun _ _ => True) [] (handle K (.analytics userId period asOf customRange currency)) := by
  refine Task.asks_map.mpr (analytics_asks.weaken (fun h report ended => ?_) fun _ _ _ => trivial)
  intro report' same
  obtain rfl := Option.some.inj same
  exact ended

/-- Which report is asked for. -/
theorem lookup_event {period : Period} {asOf : Option IsoDate} {customRange : Option DateRange}
    {currency : String} {found : Lookup Report}
    (looked : e.event (machine K) = ⟨.lookup userId period asOf customRange currency, found⟩) :
    found.key = ⟨userId, period, asOf.getD e.input.today, customRange, currency⟩ ∧
      ∀ report, found.cached = some report →
        ∃ cached, e.before.analyticsCache.get? found.key = some cached ∧ cached.report = report := by
  obtain ⟨-, replied⟩ := Entry.of_event looked
  have replied : ((perform K (.lookup userId period asOf customRange currency) e.input e.before).1 :
      Lookup Report) = found := replied
  subst replied
  refine ⟨rfl, fun report hit => ?_⟩
  simp only [perform, AnalyticsCache.find] at hit ⊢
  split at hit
  · rename_i cached live
    rw [Option.filter_eq_some_iff] at live
    exact ⟨cached, live.1, Option.some.inj hit⟩
  · cases hit

/-- A report is cached by a request that has listed the ledger it is of. -/
theorem stored_listed (recorded : Pool.Recorded (system K) w₀ cond (log ++ [e]) c) {key : CacheKey}
    {report : Report} {now : Int} (stored : e.op = .storeAnalyticsCache key report now) :
    ∃ sofar l since, log = sofar ++ l :: since ∧ l.thread = e.thread ∧ l.op = .list key.userId ∧
      reportOf K key (listed K l.before key.userId) = .ok report := by
  by_cases other : ∀ userId period asOf customRange currency,
      e.req ≠ .analytics userId period asOf customRange currency
  · have asks : Task.Asks (I := ports Report) (fun _ op => op.plain e.req.userId = true)
        (fun h _ => Extends _ [] h) (fun h _ => Extends _ [] h) [] (handle K e.req) :=
      Task.Asks.of_all (handle_plain other) fun _ _ plain => plain
    have plain : e.op.plain e.req.userId = true := recorded.asks asks
    rw [stored] at plain
    cases plain
  · push Not at other
    obtain ⟨userId, period, asOf, customRange, currency, req⟩ := other
    have asks := analytics_handled (K := K) userId period asOf customRange currency
    rw [← req] at asks
    obtain ⟨found, transactions, did, rfl, -, computed⟩ := recorded.asks asks key report now stored
    have did : own (machine K) log e.thread =
        Missed userId period asOf customRange currency found transactions := did
    obtain ⟨e₀, _, _, looked⟩ := mem_own.mp (by rw [did]; exact List.mem_cons_self)
    obtain ⟨l, there, same, listing⟩ := mem_own.mp (by rw [did]; exact List.mem_cons_of_mem _ List.mem_cons_self)
    obtain ⟨sofar, since, rfl⟩ := List.append_of_mem there
    obtain ⟨op, replied⟩ := Entry.of_event listing
    have replied : listed K l.before userId = transactions := replied
    have mine : found.key.userId = userId := by rw [(lookup_event looked).1]
    refine ⟨sofar, l, since, rfl, same, by rw [mine]; exact op, ?_⟩
    rw [mine, replied]
    exact computed

/-- What is cached is of the ledger as it was listed, which is up to date since. -/
def Current (K : Context Report) (key : CacheKey) (report : Report) (log : List (Deed Report)) : Prop :=
  ∃ sofar l since, log = sofar ++ l :: since ∧ l.op = .list key.userId ∧
    reportOf K key (listed K l.before key.userId) = .ok report ∧ UpToDate K key.userId since ∧
    ∃ earlier s later, log = earlier ++ s :: later ∧ l.thread = s.thread ∧ Stores key s ∧
      ∀ s' ∈ later, ¬Stores key s'

theorem UpToDate.snoc (upToDate : UpToDate K userId since)
    (telling : Changes K userId e → e.req.tells = true)
    (silent : ∀ before w after, since = before ++ w :: after → Changes K userId w →
      e.thread = w.thread → tells (e.event (machine K)) = false) : UpToDate K userId (since ++ [e]) := by
  intro before w after split changed
  rcases List.eq_nil_or_concat after with rfl | ⟨rest, last, rfl⟩
  · obtain ⟨-, same⟩ := List.append_inj' split rfl
    obtain rfl := (List.cons.inj same).1
    exact ⟨telling changed, fun _ none_ => nomatch none_⟩
  · rw [List.concat_eq_append, ← List.cons_append, ← List.append_assoc] at split
    obtain ⟨front, same⟩ := List.append_inj' split rfl
    obtain rfl := (List.cons.inj same).1
    obtain ⟨tells_, untold⟩ := upToDate before w rest front changed
    refine ⟨tells_, fun e' there thread => ?_⟩
    rw [List.concat_eq_append] at there
    rcases List.mem_append.mp there with earlier | now
    · exact untold e' earlier thread
    · obtain rfl := List.mem_singleton.mp now
      exact silent before w rest front changed thread

theorem not_changes_of_stores {key : CacheKey} (stores : Stores key e) : ¬Changes K userId e := by
  obtain ⟨report, now, stores⟩ := stores
  intro changed
  obtain ⟨named, -⟩ := changes_writes changed
  rw [stores] at named
  cases named

theorem current_stored (recorded : Pool.Recorded (system K) w₀ (Heard K) (log ++ [e]) c) {key : CacheKey}
    {report : Report} {now : Int} (stored : e.op = .storeAnalyticsCache key report now) :
    Current K key report (log ++ [e]) := by
  have stores : Stores key e := ⟨report, now, stored⟩
  obtain ⟨sofar, l, since, rfl, thread, listing, computed⟩ := stored_listed recorded stored
  obtain ⟨-, heard⟩ := recorded.step
  refine ⟨sofar, l, since ++ [e], by simp, listing, computed, ?_, _, e, [], rfl, thread, stores, ?_⟩
  · refine (heard.stores key stores sofar l since rfl thread listing).snoc ?_ ?_
    · exact fun changed => absurd changed (not_changes_of_stores stores)
    · intro _ _ _ _ _ _
      obtain ⟨thread, req, op, input, before⟩ := e
      obtain rfl : op = _ := stored
      rfl
  · exact fun _ none_ => nomatch none_

theorem current_kept (recorded : Pool.Recorded (system K) w₀ (Heard K) (log ++ [e]) c) {key : CacheKey}
    {cached : CacheEntry Report} (there : e.before.analyticsCache.get? key = some cached)
    (unpublished : ∀ event, e.op = .publish event → key.userId ≠ event.userId)
    (other : ¬Stores key e) (sofar : Current K key cached.report log) :
    Current K key cached.report (log ++ [e]) := by
  obtain ⟨before, l, since, rfl, listing, computed, upToDate, earlier, s, later, split, thread, stores,
    last⟩ := sofar
  obtain ⟨-, heard⟩ := recorded.step
  refine ⟨before, l, since ++ [e], by simp, listing, computed, ?_, earlier, s, later ++ [e],
    by rw [split]; simp, thread, stores, ?_⟩
  · refine upToDate.snoc (fun changed => ?_) ?_
    · by_contra quiet
      have nothing := heard.silent _ (Bool.eq_false_of_not_eq_true quiet) changed key rfl
      rw [nothing] at there
      cases there
    · rintro mid w after rfl changed same
      by_contra told
      have told : tells (e.event (machine K)) = true := Bool.eq_true_of_not_eq_false told
      rcases teller_about recorded (w := w) (by simp) changed (by simp) same told with
        ⟨event, published, about⟩ | ⟨linkId, failed⟩
      · exact unpublished event published about.symm
      · -- The report was listed before the change that is not told of.
        refine heard.fails _ linkId failed (before ++ l :: mid) w after (by simp) same.symm changed key rfl
          (by rw [there]; rfl) ?_
        exact ⟨l, by simp, listing, earlier, s, later, split, thread, stores, last⟩
  · intro s' there
    rcases List.mem_append.mp there with earlier | now
    · exact last s' earlier
    · obtain rfl := List.mem_singleton.mp now
      exact other

/-- What is cached after any run is current. -/
theorem cached_current (empty : w₀.analyticsCache = ∅)
    (recorded : Pool.Recorded (system K) w₀ (Heard K) log c) {key : CacheKey} {cached : CacheEntry Report}
    (there : (ending (machine K) w₀ log).analyticsCache.get? key = some cached) :
    Current K key cached.report log := by
  refine recorded.induct (P := fun log => ∀ key cached,
    (ending (machine K) w₀ log).analyticsCache.get? key = some cached → Current K key cached.report log)
    ?_ ?_ key cached there
  · intro key cached there
    rw [ending_nil, empty] at there
    cases there
  · intro log e c recorded here _ sofar key cached there
    rw [ending_snoc] at there
    have here : e.before = ending (machine K) w₀ log := here
    by_cases stores : Stores key e
    · obtain ⟨report, now, stored⟩ := stores
      have latest : (e.after (machine K)).analyticsCache.get? key =
          some ⟨report, now + AnalyticsCache.analyticsCacheTtlMs⟩ := by
        obtain ⟨thread, req, op, input, before⟩ := e
        obtain rfl : op = _ := stored
        exact OrdMap.get?_set_self _ _ _
      rw [latest] at there
      obtain rfl := Option.some.inj there
      exact current_stored recorded stored
    · rcases perform_cache e.op e.input e.before there with ⟨report, now, stored, -⟩ | ⟨before, unpublished⟩
      · exact absurd ⟨report, now, stored⟩ stores
      · exact current_kept recorded before unpublished stores (sofar key cached (here ▸ before))

/-! ### What is answered -/

/-- The report is of the ledger as it was at a point of the run since which those who have completed at
another point have changed nothing. -/
def Reflects (K : Context Report) (w₀ : World Report) (before after : List (Deed Report))
    (c : Pool (ports Report) (World Report) Request (Except ServiceError (Option Report)))
    (key : CacheKey) (report : Report) : Prop :=
  ∃ sofar since, before ++ after = sofar ++ since ∧
    reportOf K key (listed K (ending (machine K) w₀ sofar) key.userId) = .ok report ∧
    ∀ m r a, c.Finished m r a → (∀ e ∈ after, e.thread ≠ m) →
      ∀ e ∈ since, e.thread = m → ¬Changes K key.userId e

/-- What an analytics request answers that has not begun when others have completed. -/
def Coherent (K : Context Report) (w₀ : World Report) (before after : List (Deed Report))
    (c : Pool (ports Report) (World Report) Request (Except ServiceError (Option Report))) : Prop :=
  ∀ n userId period asOf customRange currency report,
    c.Finished n (.analytics userId period asOf customRange currency) (.ok (some report)) →
    (∀ e ∈ before, e.thread ≠ n) →
    ∃ e ∈ after, e.thread = n ∧ e.op = .lookup userId period asOf customRange currency ∧
      Reflects K w₀ before after c ⟨userId, period, asOf.getD e.input.today, customRange, currency⟩ report

/-- Who has completed since has told of what it changed, so that it has changed nothing. -/
theorem UpToDate.completed (recorded : Pool.Recorded (system K) w₀ cond (before ++ since ++ after) c)
    (upToDate : UpToDate K userId since) {m : Nat} {r : Request} {a : Except ServiceError (Option Report)}
    (finished : c.Finished m r a) (idle : ∀ e ∈ after, e.thread ≠ m) {w : Deed Report} (there : w ∈ since)
    (mine : w.thread = m) : ¬Changes K userId w := by
  intro changed
  obtain ⟨mid, rest, rfl⟩ := List.append_of_mem there
  obtain ⟨telling, untold⟩ := upToDate mid w rest rfl changed
  have req : w.req = r := by
    obtain ⟨th, found, same⟩ := recorded.thread (e := w) (by simp)
    rw [mine] at found
    obtain rfl := Option.some.inj (found.symm.trans finished)
    exact same.symm
  have settled : owing (own (machine K) (before ++ (mid ++ w :: rest) ++ after) m) = false := by
    have settles : Settles [] (handle K r) := handle_settles (req ▸ telling)
    have ended := recorded.finished finished settles
    cases a <;> exact ended
  have course : own (machine K) (before ++ (mid ++ w :: rest) ++ after) m =
      own (machine K) (before ++ mid) m ++ w.event (machine K) :: own (machine K) (rest ++ after) m := by
    simp [own, mine]
  rw [course] at settled
  rcases told_after settled (changes_writes changed).2 with told | ⟨ev, later, told⟩
  · have wrote := (changes_writes changed).2
    rw [not_writes_of_tells told] at wrote
    cases wrote
  · obtain ⟨e', there, thread, rfl⟩ := mem_own.mp later
    rcases List.mem_append.mp there with earlier | late
    · rw [untold e' earlier (thread.trans mine.symm)] at told
      cases told
    · exact idle e' late thread

theorem not_changes_of_lists {other : String} (lists : e.op = .list other) : ¬Changes K userId e := by
  intro changed
  obtain ⟨named, -⟩ := changes_writes changed
  rw [lists] at named
  cases named

/-- A report that was found in the cache. -/
theorem reflects_cached (empty : w₀.analyticsCache = ∅)
    (recorded : Pool.Recorded (system K) w₀ (Heard K) (before ++ after) c) (late : e ∈ after)
    {key : CacheKey} {cached : CacheEntry Report}
    (there : e.before.analyticsCache.get? key = some cached) :
    Reflects K w₀ before after c key cached.report := by
  obtain ⟨mid, rest, rfl⟩ := List.append_of_mem late
  rw [← List.append_assoc] at recorded
  obtain ⟨here, -⟩ := recorded.step
  have here : e.before = ending (machine K) w₀ (before ++ mid) := here
  obtain ⟨c', earlier⟩ := recorded.of_append
  rw [here] at there
  obtain ⟨sofar, l, since, split, listing, computed, upToDate, -⟩ := cached_current empty earlier there
  rw [split] at recorded earlier
  obtain ⟨from_, -⟩ := earlier.step
  have from_ : l.before = ending (machine K) w₀ sofar := from_
  refine ⟨sofar, l :: since ++ e :: rest, ?_, from_ ▸ computed, ?_⟩
  · rw [← List.append_assoc, split, List.append_assoc]
  · intro m r a finished idle e' there thread
    rcases List.mem_append.mp there with early | late
    · rcases List.mem_cons.mp early with rfl | early
      · exact not_changes_of_lists listing
      · rw [List.append_cons sofar] at recorded
        exact upToDate.completed recorded finished
          (fun e'' there => idle e'' (List.mem_append_right _ there)) early thread
    · exact absurd thread (idle e' (List.mem_append_right _ late))

/-- A report of the ledger that was listed for it. -/
theorem reflects_listed (recorded : Pool.Recorded (system K) w₀ cond (before ++ after) c) (late : e ∈ after)
    {key : CacheKey} {report : Report} (computed : reportOf K key (listed K e.before key.userId) = .ok report) :
    Reflects K w₀ before after c key report := by
  obtain ⟨mid, rest, rfl⟩ := List.append_of_mem late
  rw [← List.append_assoc] at recorded
  obtain ⟨here, -⟩ := recorded.step
  have here : e.before = ending (machine K) w₀ (before ++ mid) := here
  refine ⟨before ++ mid, e :: rest, by simp, here ▸ computed, ?_⟩
  intro m r a _ idle e' there thread
  exact absurd thread (idle e' (List.mem_append_right _ there))

theorem analytics_coherent (empty : w₀.analyticsCache = ∅)
    (recorded : Pool.Recorded (system K) w₀ (Heard K) (before ++ after) c) :
    Coherent K w₀ before after c := by
  intro n userId period asOf customRange currency report finished unbegun
  obtain ⟨found, ended⟩ := recorded.finished finished
    (analytics_handled (K := K) userId period asOf customRange currency) report rfl
  have late {event : Event (ports Report)} (did : event ∈ own (machine K) (before ++ after) n) :
      ∃ e ∈ after, e.thread = n ∧ e.event (machine K) = event := by
    obtain ⟨e, there, thread, same⟩ := mem_own.mp did
    exact ⟨e, (List.mem_append.mp there).resolve_left fun early => unbegun e early thread, thread, same⟩
  have looked : (⟨.lookup userId period asOf customRange currency, found⟩ : Event (ports Report)) ∈
      own (machine K) (before ++ after) n := by
    rcases ended with ⟨did, -⟩ | ⟨transactions, did, -⟩ <;> exact did ▸ List.mem_cons_self
  obtain ⟨e, there, thread, looked⟩ := late looked
  obtain ⟨key, hit⟩ := lookup_event looked
  refine ⟨e, there, thread, (Entry.of_event looked).1, ?_⟩
  rw [← key]
  rcases ended with ⟨-, answered⟩ | ⟨transactions, did, computed⟩
  · obtain ⟨cached, present, rfl⟩ := hit report answered
    exact reflects_cached empty recorded there present
  · have listed_ : (⟨.list userId, transactions⟩ : Event (ports Report)) ∈
        own (machine K) (before ++ after) n := did ▸ List.mem_cons_of_mem _ List.mem_cons_self
    obtain ⟨l, there, -, listing⟩ := late listed_
    obtain ⟨-, replied⟩ := Entry.of_event listing
    have replied : listed K l.before userId = transactions := replied
    refine reflects_listed recorded there ?_
    rw [key, replied, ← key]
    exact computed

end Runs

/-! ### A report of how many transactions there are -/

def counting : Context Nat where
  imports := Imports.paper
  statements := Statements.plain
  addDays := fun day _ => day
  detectSubscriptions := fun _ => []
  internalTransferIds := fun _ => []
  correctionModel := fun _ _ => none
  computeAnalytics := fun rows _ _ _ => rows.countP fun row => row.excludedFromAnalytics ≠ some true

def thisMonth : Request := .analytics "ada" .month (some "2026-06-01") none "USD"

def turns (n k : Nat) : List (Pool.Move Env Request) :=
  List.replicate k (.run n { now := 0, account := some Imports.checking })

/-- Ada looks at the month, imports a file, and looks again. -/
def lookedAgain :
    Pool.Course (ports Nat) Env (World Nat) Request (Except ServiceError (Option Nat)) :=
  Pool.course (system counting) {}
    (.start thisMonth :: turns 0 3 ++
      .start (.commitImport "ada" Imports.cafeFile ⟨"b1", "2026-06-01"⟩) :: turns 1 4 ++
      .start thisMonth :: turns 2 1)

/-- Nobody tells of the import. -/
theorem import_unseen : ¬∀ before after c,
    Pool.Recorded (system counting) {} (fun _ _ => True) (before ++ after) c →
      Coherent counting {} before after c := by
  intro coherent
  have recorded := Pool.course_recorded (system counting) {}
    (.start thisMonth :: turns 0 3 ++
      .start (.commitImport "ada" Imports.cafeFile ⟨"b1", "2026-06-01"⟩) :: turns 1 4 ++
      .start thisMonth :: turns 2 1)
  have answered : lookedAgain.2.Finished 2 thisMonth (.ok (some 0)) := rfl
  have imported : lookedAgain.2.Finished 1
      (.commitImport "ada" Imports.cafeFile ⟨"b1", "2026-06-01"⟩) (.ok none) := rfl
  have unbegun : ∀ e ∈ lookedAgain.1.take 7, e.thread ≠ 2 := by decide +kernel
  have done : ∀ e ∈ lookedAgain.1.drop 7, e.thread ≠ 1 := by decide +kernel
  have stale : ∀ k < 9, reportOf counting ⟨"ada", .month, "2026-06-01", none, "USD"⟩
      (listed counting (ending (machine counting) {} (lookedAgain.1.take k)) "ada") = .ok 0 →
        ∃ e ∈ lookedAgain.1.drop k, e.thread = 1 ∧ Changes counting "ada" e := by decide +kernel
  obtain ⟨e, -, -, -, sofar, since, split, computed, untouched⟩ :=
    coherent (lookedAgain.1.take 7) (lookedAgain.1.drop 7) lookedAgain.2
      (by rw [List.take_append_drop]; exact recorded) 2 _ _ _ _ _ 0 answered unbegun
  rw [List.take_append_drop] at split
  have short : sofar.length < 9 := by
    have length : lookedAgain.1.length = 8 := by decide +kernel
    rw [split, List.length_append] at length
    omega
  obtain ⟨w, there, mine, changed⟩ := stale sofar.length short (by
    rw [split, List.take_left]
    exact computed)
  rw [split, List.drop_left] at there
  exact untouched 1 _ _ imported done w there mine changed

/-! ### A transaction left out -/

/-- Whether an operation keeps the reports up to date, in a run where nobody is overtaken. -/
def Heard.check {Report : Type} (K : Context Report) (log : List (Deed Report)) (e : Deed Report) : Bool :=
  match e.op with
  | .storeAnalyticsCache key _ _ =>
    quietSince (fun l => l.thread == e.thread) (fun w => decide (Changes K key.userId w)) log
  | .linkFailed .. => false
  | _ => e.req.tells || e.op.user.isNone

theorem Heard.of_check {Report : Type} {K : Context Report} {log : List (Deed Report)} {e : Deed Report}
    (checked : Heard.check K log e = true) : Heard K log e where
  silent userId quiet changed := by
    obtain ⟨named, -⟩ := changes_writes changed
    simp only [Heard.check] at checked
    split at checked
    · rename_i stored
      rw [stored] at named
      cases named
    · cases checked
    · rw [quiet, named] at checked
      cases checked
  stores := by
    rintro key ⟨report, now, stored⟩ before l since rfl thread - mid w rest rfl changed
    rw [Heard.check, stored] at checked
    have quiet := quietSince_split checked (beq_iff_eq.mpr thread) w (by simp)
    exact absurd changed (of_decide_eq_false quiet)
  fails := by
    intro userId linkId failed
    rw [Heard.check, failed] at checked
    cases checked

def bought : Transaction where
  id := "t1"
  accountId := "a1"
  providerTxnId := "p1"
  postedAt := "2026-05-30"
  amount := -7
  currency := "USD"
  rawDescriptor := "TEA"
  normalizedDescriptor := "tea"
  categorySlug := "unknown"
  categorySource := .unknown
  categoryConfidence := 0
  isRecurring := false
  pending := false

def boughtOnce : World Nat := ({} : World Nat).putLedger "ada" [bought]

/-- Ada looks at the month, leaves the transaction out, and looks again. -/
def leftOut :
    Pool.Course (ports Nat) Env (World Nat) Request (Except ServiceError (Option Nat)) :=
  Pool.courseUnder (system counting) (Heard.check counting) boughtOnce
    (.start thisMonth :: turns 0 3 ++
      .start (.updatePreferences "ada" "t1" [("excludedFromAnalytics", .boolean true)]) :: turns 1 3 ++
      .start thisMonth :: turns 2 3)

theorem analytics_coherent_leftOut :
    leftOut.2.Finished 0 thisMonth (.ok (some 1)) ∧ leftOut.2.Finished 2 thisMonth (.ok (some 0)) ∧
      Coherent counting boughtOnce (leftOut.1.take 6) (leftOut.1.drop 6) leftOut.2 := by
  refine ⟨rfl, rfl, analytics_coherent rfl ?_⟩
  rw [List.take_append_drop]
  exact (Pool.courseUnder_recorded _ _ _ _).mono fun _ _ => Heard.of_check

end Finverse.Analytics
