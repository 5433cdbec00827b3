import Finverse.Banking.Convergence

/-! The syncs of one link, one after the other: from the deltas of each attempt to the ledger after
any number of them. -/

namespace Finverse.Banking

open Finverse.Ledger Delta

/-- What one call tells the ledger. -/
def Exchange.delta (e : Exchange) : Delta String RawTransaction :=
  match e.reply with
  | .page page none => ⟨page.added ++ page.modified, page.removedProviderTxnIds⟩
  | .page page (some .beforeRemoval) => ⟨page.added ++ page.modified, []⟩
  | _ => ⟨[], []⟩

/-- What the calls make of a collection. -/
def told (calls : List Exchange) (s : Collection String RawTransaction) :
    Collection String RawTransaction :=
  applyAll RawTransaction.providerTxnId (calls.map Exchange.delta) s

/-- Some call says something about the transaction. -/
def Mentions (calls : List Exchange) (id : String) : Prop :=
  Listed RawTransaction.providerTxnId (calls.map Exchange.delta) id

theorem told_append (calls later : List Exchange) (s : Collection String RawTransaction) :
    told (calls ++ later) s = told later (told calls s) := by
  rw [told, List.map_append, applyAll_append]
  rfl

theorem told_snoc (calls : List Exchange) (e : Exchange) (s : Collection String RawTransaction) :
    told (calls ++ [e]) s = apply RawTransaction.providerTxnId (told calls s) e.delta :=
  told_append calls [e] s

/-- Pages in a row, each from the cursor the one before gave, with more to come. -/
inductive Chain (startingCursor : Option String) : List Exchange → Option String → Prop
  | nil : Chain startingCursor [] startingCursor
  | snoc {calls : List Exchange} {cursor : Option String} {page : BankSyncPage} :
      Chain startingCursor calls cursor → page.hasMore = true →
      Chain startingCursor (calls ++ [⟨cursor, .page page none⟩]) (some page.nextCursor)

/-- A pagination from the cursor to its last page. -/
def Completed (startingCursor : Option String) (calls : List Exchange) : Prop :=
  ∃ init cursor page, calls = init ++ [⟨cursor, .page page none⟩] ∧
    Chain startingCursor init cursor ∧ page.hasMore = false

/-! ### One attempt -/

/-- The loop between two calls: the ledger is what the calls made of it, and the current pagination
is unbroken. -/
structure Paginating (bank : Bank) (startingCursor : Option String)
    (s : Collection String RawTransaction) (p : Progress) : Prop where
  tidy : bank.Tidy p.ledger
  view : bank.view p.ledger = told (p.abandoned ++ p.calls) s
  chain : Chain startingCursor p.calls p.cursor

section Attempt

variable {bank : Bank} {C : Categorizer} {startingCursor : Option String}
variable {s : Collection String RawTransaction} {p : Progress}

/-- A call whose answer leaves the ledger alone. -/
theorem told_silent (calls : List Exchange) {e : Exchange} (silent : e.delta = ⟨[], []⟩) :
    told (calls ++ [e]) s = told calls s := by
  rw [told_snoc, silent]
  funext id
  exact apply_unlisted (by simp [Delta.Lists])

theorem view_upserted (tidy : bank.Tidy p.ledger) {page : BankSyncPage} {fault : Option Fault}
    (honest : bank.HonestReply (.page page fault)) :
    bank.Tidy (p.upserted C page).ledger ∧
      bank.view (p.upserted C page).ledger =
        (page.added ++ page.modified).foldl (put RawTransaction.providerTxnId)
          (bank.view p.ledger) :=
  tidy.upsertMany honest

theorem view_advanced (tidy : bank.Tidy p.ledger) {page : BankSyncPage} {fault : Option Fault}
    (honest : bank.HonestReply (.page page fault)) :
    bank.Tidy ((p.upserted C page).advanced page).ledger ∧
      bank.view ((p.upserted C page).advanced page).ledger =
        apply RawTransaction.providerTxnId (bank.view p.ledger)
          ⟨page.added ++ page.modified, page.removedProviderTxnIds⟩ := by
  obtain ⟨htidy, hview⟩ := view_upserted (C := C) tidy honest
  refine ⟨htidy.removeByProviderIds _, ?_⟩
  funext id
  rw [apply, ← hview]
  exact view_removeByProviderIds _ _

/-- What the loop leaves behind, however it ends. -/
structure Paginated (bank : Bank) (startingCursor : Option String)
    (s : Collection String RawTransaction) (r : Except SyncError Unit × Progress) : Prop where
  tidy : bank.Tidy r.2.ledger
  view : bank.view r.2.ledger = told (r.2.abandoned ++ r.2.calls) s
  completed : ∀ u, r.1 = .ok u → Completed startingCursor r.2.calls

theorem Paginating.called (h : Paginating bank startingCursor s p) (reply : Reply)
    (silent : Exchange.delta ⟨p.cursor, reply⟩ = ⟨[], []⟩) :
    bank.Tidy (p.called reply).ledger ∧ bank.view (p.called reply).ledger =
      told ((p.called reply).abandoned ++ (p.called reply).calls) s := by
  refine ⟨h.tidy, ?_⟩
  rw [Progress.called, ← List.append_assoc, told_silent _ silent]
  exact h.view

/-- A page that was worked off. -/
theorem Paginating.page (h : Paginating bank startingCursor s p) {page : BankSyncPage}
    (honest : bank.HonestReply (.page page none)) :
    let p' := ((p.called (.page page none)).upserted C page).advanced page
    bank.Tidy p'.ledger ∧ bank.view p'.ledger = told (p'.abandoned ++ p'.calls) s := by
  obtain ⟨htidy, hview⟩ :=
    view_advanced (C := C) (p := p.called (.page page none)) h.tidy honest
  refine ⟨htidy, ?_⟩
  have before : bank.view p.ledger = told (p.abandoned ++ p.calls) s := h.view
  rw [hview]
  change apply _ (bank.view p.ledger) _ = told (p.abandoned ++ (p.calls ++ _)) s
  rw [before, ← List.append_assoc, told_snoc]
  rfl

/-- A page whose removals were not reached. -/
theorem Paginating.cutPage (h : Paginating bank startingCursor s p) {page : BankSyncPage}
    (honest : bank.HonestReply (.page page (some .beforeRemoval))) :
    let p' := (p.called (.page page (some .beforeRemoval))).upserted C page
    bank.Tidy p'.ledger ∧ bank.view p'.ledger = told (p'.abandoned ++ p'.calls) s := by
  obtain ⟨htidy, hview⟩ :=
    view_upserted (C := C) (p := p.called (.page page (some .beforeRemoval))) h.tidy honest
  refine ⟨htidy, ?_⟩
  have before : bank.view p.ledger = told (p.abandoned ++ p.calls) s := h.view
  rw [hview]
  change List.foldl _ (bank.view p.ledger) _ = told (p.abandoned ++ (p.calls ++ _)) s
  rw [before, ← List.append_assoc, told_snoc]
  funext id
  simp [apply, Exchange.delta]

theorem pages_paginated {replies : List Reply} (h : Paginating bank startingCursor s p)
    (honest : ∀ reply ∈ replies, bank.HonestReply reply) :
    Paginated bank startingCursor s (pages C startingCursor replies p) := by
  induction replies generalizing p with
  | nil => exact ⟨h.tidy, h.view, fun _ h => nomatch h⟩
  | cons reply replies ih =>
    have hreply : bank.HonestReply reply := honest reply (by simp)
    have hreplies : ∀ r ∈ replies, bank.HonestReply r := fun r hr => honest r (by simp [hr])
    cases reply with
    | mutationDuringPagination =>
      obtain ⟨tidy, view⟩ := h.called .mutationDuringPagination rfl
      rw [pages]
      split
      · refine ih ⟨tidy, ?_, .nil⟩ hreplies
        rw [Progress.restarted, List.append_nil]
        exact view
      · exact ⟨tidy, view, fun _ h => nomatch h⟩
    | failure =>
      obtain ⟨tidy, view⟩ := h.called .failure rfl
      exact ⟨tidy, view, fun _ h => nomatch h⟩
    | page page fault =>
      rcases fault with _ | _ | _
      · obtain ⟨tidy, view⟩ := h.page (C := C) hreply
        rw [pages]
        split
        · rename_i last
          exact ⟨tidy, view, fun _ _ => ⟨_, _, page, rfl, h.chain, last⟩⟩
        · rename_i more
          split
          · exact ⟨tidy, view, fun _ h => nomatch h⟩
          · exact ih ⟨tidy, view, h.chain.snoc (by simpa using more)⟩ hreplies
      · obtain ⟨tidy, view⟩ := h.called (.page page (some .beforeUpsert)) rfl
        exact ⟨tidy, view, fun _ h => nomatch h⟩
      · obtain ⟨tidy, view⟩ := h.cutPage (C := C) hreply
        exact ⟨tidy, view, fun _ h => nomatch h⟩

/-- The reconciliation passes leave the provider's facts alone. -/
theorem facts_update (rows : List Transaction) (id : String) (derived : Derived) :
    (update rows id derived).map facts = rows.map facts := by
  induction rows with
  | nil => rfl
  | cons t rows ih =>
    rw [update]
    split
    · cases derived <;> rfl
    · rw [List.map_cons, List.map_cons, ih]

theorem facts_reconciled (derived : List (String × Derived)) (rows : List Transaction) :
    (derived.foldl (fun rows d => update rows d.1 d.2) rows).map facts = rows.map facts := by
  induction derived generalizing rows with
  | nil => rfl
  | cons d derived ih =>
    rw [List.foldl_cons, ih]
    exact facts_update rows d.1 d.2

variable {ledger : List Transaction} {a : Attempt}

/-- The ledger after an attempt is what its calls made of the one before. -/
theorem sync_told (cursor : Option String) (tidy : bank.Tidy ledger) (view : bank.view ledger = s)
    (honest : ∀ reply ∈ a.replies, bank.HonestReply reply) :
    let r := sync C cursor ledger a
    bank.Tidy r.ledger ∧ bank.view r.ledger = told (r.abandoned ++ r.calls) s ∧
      (r.cursorSaved = true → Completed cursor r.calls) := by
  have start : Paginating bank cursor s (.start cursor ledger) := ⟨tidy, view, .nil⟩
  have paginated := pages_paginated (C := C) start honest
  rw [sync]
  generalize pages C cursor a.replies (.start cursor ledger) = outcome at paginated
  obtain ⟨result, p⟩ := outcome
  cases result with
  | error e => exact ⟨paginated.tidy, paginated.view, fun h => nomatch h⟩
  | ok u =>
    have completed := paginated.completed u rfl
    dsimp only
    split
    · have same := facts_reconciled a.derived p.ledger
      exact ⟨paginated.tidy.of_facts same.symm, (view_of_facts same).trans paginated.view,
        fun _ => completed⟩
    · exact ⟨paginated.tidy, paginated.view, fun h => nomatch h⟩

theorem sync_saved {cursor : Option String} {counts : SyncCounts} (ok : (sync C cursor ledger a).result = .ok counts) :
    (sync C cursor ledger a).cursorSaved = true := by
  rw [sync] at ok ⊢
  generalize pages C cursor a.replies (.start cursor ledger) = outcome at ok
  obtain ⟨result, p⟩ := outcome
  cases result with
  | error e => cases ok
  | ok u =>
    dsimp only at ok ⊢
    split
    · rfl
    · rename_i unsaved
      rw [if_neg unsaved] at ok
      cases ok

end Attempt

/-! ### Any number of attempts -/

/-- A link between two attempts: what is saved, what the provider held at the saved cursor, and
what attempts told the ledger without saving theirs. -/
structure Link where
  cursor : Option String
  ledger : List Transaction
  base : Collection String RawTransaction
  unsaved : List Exchange

def Link.start (ledger : List Transaction) : Link := ⟨none, ledger, fun _ => none, []⟩

def Link.attempt (C : Categorizer) (link : Link) (a : Attempt) : Synced :=
  sync C link.cursor link.ledger a

/-- A completed pagination from a cursor delivers the net delta from what the provider held at the
cursor to what it holds at the end. -/
def Link.Delivers (link : Link) (calls : List Exchange)
    (current : Collection String RawTransaction) : Prop :=
  Completed link.cursor calls → told calls link.base = current

/-- A transaction that the final pagination does not mention was left by the abandoned calls as it
was at the cursor. -/
def Link.Settles (link : Link) (abandoned calls : List Exchange) : Prop :=
  ∀ id, ¬Mentions calls id → told (link.unsaved ++ abandoned) link.base id = link.base id

/-- What happens to a link. Whenever a cursor is saved, the abandoned calls were settled. -/
inductive SettledRun (bank : Bank) : Link → Prop
  | start {ledger : List Transaction} :
      bank.Tidy ledger → bank.view ledger = (fun _ => none) → SettledRun bank (.start ledger)
  | cutShort {link : Link} {C : Categorizer} {a : Attempt} :
      SettledRun bank link → (∀ reply ∈ a.replies, bank.HonestReply reply) →
      (link.attempt C a).cursorSaved = false →
      SettledRun bank { link with
        ledger := (link.attempt C a).ledger
        unsaved := link.unsaved ++ ((link.attempt C a).abandoned ++ (link.attempt C a).calls) }
  | saved {link : Link} {C : Categorizer} {a : Attempt}
      {current : Collection String RawTransaction} :
      SettledRun bank link → (∀ reply ∈ a.replies, bank.HonestReply reply) →
      (link.attempt C a).cursorSaved = true →
      link.Delivers (link.attempt C a).calls current →
      link.Settles (link.attempt C a).abandoned (link.attempt C a).calls →
      SettledRun bank ⟨(link.attempt C a).cursor, (link.attempt C a).ledger, current, []⟩
  | elsewhere {link : Link} {ledger : List Transaction} :
      SettledRun bank link → bank.Tidy ledger → bank.view ledger = bank.view link.ledger →
      SettledRun bank { link with ledger }

/-- The ledger is what the unsaved calls made of what the provider held at the cursor. -/
structure Link.Consistent (bank : Bank) (link : Link) : Prop where
  tidy : bank.Tidy link.ledger
  view : bank.view link.ledger = told link.unsaved link.base
  keyed : KeyedBy RawTransaction.providerTxnId link.base

section Runs

variable {bank : Bank} {C : Categorizer} {link : Link} {a : Attempt}
variable {current : Collection String RawTransaction}

theorem Link.Settles.told_eq {abandoned calls : List Exchange}
    (settles : link.Settles abandoned calls) :
    told (link.unsaved ++ abandoned ++ calls) link.base = told calls link.base := by
  rw [told_append]
  exact applyAll_eq_iff.mpr settles

theorem Link.Consistent.attempt (consistent : link.Consistent bank)
    (honest : ∀ reply ∈ a.replies, bank.HonestReply reply) :
    let r := link.attempt C a
    bank.Tidy r.ledger ∧
      bank.view r.ledger = told (link.unsaved ++ r.abandoned ++ r.calls) link.base ∧
      (r.cursorSaved = true → Completed link.cursor r.calls) := by
  obtain ⟨tidy, view, completed⟩ :=
    sync_told (C := C) link.cursor consistent.tidy consistent.view honest
  refine ⟨tidy, ?_, completed⟩
  rw [List.append_assoc, told_append]
  exact view

theorem SettledRun.consistent (run : SettledRun bank link) : link.Consistent bank := by
  induction run with
  | start tidy view => exact ⟨tidy, view, fun _ _ h => nomatch h⟩
  | cutShort run honest unsaved ih =>
    obtain ⟨tidy, view, -⟩ := ih.attempt honest
    rw [List.append_assoc] at view
    exact ⟨tidy, view, ih.keyed⟩
  | @saved link C a current run honest saved delivers settles ih =>
    obtain ⟨tidy, view, completed⟩ := ih.attempt honest
    have net := delivers (completed saved)
    have keyed : KeyedBy RawTransaction.providerTxnId current := net ▸ ih.keyed.applyAll
    refine ⟨tidy, ?_, keyed⟩
    rw [view, settles.told_eq, net]
    rfl
  | elsewhere run tidy view ih => exact ⟨tidy, view.trans ih.view, ih.keyed⟩

/-- After a sync that succeeds, the link's rows are the provider's exactly when the calls abandoned
since the saved cursor were settled. -/
theorem sync_converges_iff (run : SettledRun bank link)
    (honest : ∀ reply ∈ a.replies, bank.HonestReply reply) {counts : SyncCounts}
    (ok : (link.attempt C a).result = .ok counts)
    (delivers : link.Delivers (link.attempt C a).calls current) :
    bank.Mirrors (link.attempt C a).ledger current ↔
      link.Settles (link.attempt C a).abandoned (link.attempt C a).calls := by
  have consistent := run.consistent
  obtain ⟨tidy, view, completed⟩ := consistent.attempt (C := C) honest
  have net := delivers (completed (sync_saved ok))
  have keyed : KeyedBy RawTransaction.providerTxnId current := net ▸ consistent.keyed.applyAll
  rw [tidy.mirrors_iff keyed, view, told_append, ← net]
  exact applyAll_eq_iff

end Runs

/-! ### Two histories -/

def everyTransaction : Bank := ⟨fun _ => true, fun _ => "checking"⟩

def plain : Categorizer := ⟨id, fun _ => ⟨"unknown", .unknown, 0, none⟩⟩

def groceries : RawTransaction :=
  ⟨"p1", "checking", "2026-05-30", -450, "EUR", "corner shop", true⟩

/-- The first page of two. -/
def firstPage : BankSyncPage := ⟨[groceries], [], [], "c1", true⟩

def lastPage : BankSyncPage := ⟨[], [], [], "c2", false⟩

/-- The bank drops a pending transaction while its page is being followed. -/
def mutated : Attempt :=
  ⟨[.page firstPage none, .mutationDuringPagination, .page lastPage none], true, [], true⟩

/-- The connection fails after the first page. -/
def interrupted : Attempt := ⟨[.page firstPage none, .failure], true, [], true⟩

def resumed : Attempt :=
  ⟨[.page firstPage none, .page lastPage none], true, [], true⟩

theorem started : SettledRun everyTransaction (.start []) :=
  .start ⟨by simp, by simp⟩ (by funext id; rfl)

/-- A transaction taken back during the pagination stays in the ledger. -/
theorem phantom_transaction :
    let link := Link.start []
    let r := link.attempt plain mutated
    SettledRun everyTransaction link ∧
      (∀ reply ∈ mutated.replies, everyTransaction.HonestReply reply) ∧
      r.result = .ok .zero ∧ Completed link.cursor r.calls ∧
      link.Delivers r.calls (fun _ => none) ∧
      ¬everyTransaction.Mirrors r.ledger (fun _ => none) := by
  refine ⟨started, ?_, rfl, ⟨[], none, lastPage, rfl, .nil, rfl⟩, ?_, ?_⟩
  · simp [mutated, firstPage, lastPage, Bank.HonestReply, Bank.Honest, everyTransaction, groceries]
  · intro _
    exact told_silent [] rfl
  · rintro ⟨-, rows⟩
    have phantom : groceries ∈
        everyTransaction.providerRows ((Link.start []).attempt plain mutated).ledger := by
      exact List.mem_singleton.mpr rfl
    exact absurd ((rows groceries).mp phantom) (by simp)

/-- A page that was followed in vain is told again. -/
theorem converges_after_interruption :
    let link := { Link.start [] with
      ledger := ((Link.start []).attempt plain interrupted).ledger
      unsaved := [⟨none, .page firstPage none⟩, ⟨some "c1", .failure⟩] }
    everyTransaction.Mirrors (link.attempt plain resumed).ledger
      (fun id => if id = "p1" then some groceries else none) := by
  have honestFirst : everyTransaction.HonestReply (.page firstPage none) := by
    simp [firstPage, Bank.HonestReply, Bank.Honest, everyTransaction, groceries]
  have honestLast : everyTransaction.HonestReply (.page lastPage none) := by
    simp [lastPage, Bank.HonestReply]
  have run := started.cutShort (C := plain) (a := interrupted)
    (by simpa [interrupted] using ⟨honestFirst, trivial⟩) rfl
  have mentions : ∀ id (e : Exchange), e.delta = ⟨[], []⟩ →
      Mentions [⟨none, .page firstPage none⟩, e] id → id = "p1" := by
    intro id e silent h
    obtain ⟨d, hd, hl⟩ := h
    rw [List.map_cons, List.map_singleton, silent, List.mem_pair] at hd
    rcases hd with rfl | rfl
    · simpa [Delta.Lists, Exchange.delta, firstPage, groceries] using hl
    · simp [Delta.Lists] at hl
  refine (sync_converges_iff run (by simpa [resumed] using ⟨honestFirst, honestLast⟩) rfl ?_).mpr
    ?_
  · intro _
    funext id
    by_cases hid : id = "p1"
    · subst hid
      rfl
    · rw [if_neg hid]
      exact applyAll_unlisted fun h => hid (mentions id _ rfl h)
  · intro id hid
    refine applyAll_unlisted fun h => hid ?_
    rw [mentions id ⟨some "c1", .failure⟩ rfl h]
    exact ⟨_, List.mem_cons_self, .inr (List.mem_singleton.mpr rfl)⟩

end Finverse.Banking
