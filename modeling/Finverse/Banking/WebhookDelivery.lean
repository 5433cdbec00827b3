import Finverse.Banking.Webhooks
import Mathlib.Tactic.Tauto

/-! Whether a sync follows every accepted webhook, over every order of webhooks and workers. -/

namespace Finverse.Banking

/-- The sync of the job has read nothing yet. -/
def MemoryWebhookJob.Unread (job : MemoryWebhookJob) : Prop :=
  job.status = .pending ∨ job.status = .processing ∧ job.read = false

instance (job : MemoryWebhookJob) : Decidable job.Unread := inferInstanceAs (Decidable (_ ∨ _ ∧ _))

/-- A job of the link. -/
def MemoryWebhookJob.Serves (job : MemoryWebhookJob) (link : BankLink) : Prop :=
  job.userId = link.userId ∧ job.linkId = link.id

instance (job : MemoryWebhookJob) (link : BankLink) : Decidable (job.Serves link) :=
  inferInstanceAs (Decidable (_ ∧ _))

/-- A sync of the link whose reads are all still to come. -/
def Awaited (link : BankLink) (jobs : WebhookJobs) : Prop :=
  ∃ job ∈ jobs.values, job.Serves link ∧ job.Unread

instance (link : BankLink) (jobs : WebhookJobs) : Decidable (Awaited link jobs) :=
  inferInstanceAs (Decidable (∃ job ∈ _, _))

variable {Body : Type} {P : WebhookPrimitives Body} {S : BankWebhookStore} {jobs : WebhookJobs}
  {link : BankLink}

theorem awaited_iff :
    Awaited link jobs ↔ ∃ id job, jobs.get? id = some job ∧ job.Serves link ∧ job.Unread := by
  constructor
  · rintro ⟨job, stored, serves, unread⟩
    obtain ⟨id, found⟩ := OrdMap.mem_values.mp stored
    exact ⟨id, job, found, serves, unread⟩
  · rintro ⟨id, job, found, serves, unread⟩
    exact ⟨job, OrdMap.mem_values.mpr ⟨id, found⟩, serves, unread⟩

/-! ### What one step preserves -/

theorem awaited_enqueue {job : BankWebhookJob} {now : Int}
    (serves : job.userId = link.userId ∧ job.linkId = link.id) :
    Awaited link (S.enqueue jobs now job).2 ↔
      S.repeated jobs now job.bodyHash = false ∨ Awaited link jobs := by
  rw [BankWebhookStore.enqueue]
  cases again : S.repeated jobs now job.bodyHash with
  | true => simp
  | false =>
    have stored := OrdMap.get?_set_self jobs job.id
      { job with status := .pending, updatedAt := now, createdAt := now, read := false }
    simp only [Bool.false_eq_true, if_false, true_or, iff_true]
    exact awaited_iff.mpr ⟨job.id, _, stored, serves, .inl rfl⟩

/-- A claimed job has a new worker that has read nothing. -/
theorem awaited_claim (limit now : Int) (awaited : Awaited link jobs) :
    Awaited link (S.claim jobs now limit) := by
  obtain ⟨id, job, found, serves, unread⟩ := awaited_iff.mp awaited
  have claimed : (S.claim jobs now limit).get? id = _ := OrdMap.get?_map _ _ _
  rw [found, Option.map_some] at claimed
  refine awaited_iff.mpr ⟨id, _, claimed, ?_⟩
  split
  · exact ⟨serves, .inr ⟨rfl, rfl⟩⟩
  · exact ⟨serves, unread⟩

/-- A failed sync is tried again, unless this was the last attempt. -/
theorem awaited_retry {job : BankWebhookJob} {now : Int} {stored : MemoryWebhookJob}
    (found : jobs.get? job.id = some stored) (mine : stored.userId = job.userId)
    (serves : stored.Serves link) (early : job.attempts < 5) :
    Awaited link (settle S job false now jobs) := by
  rw [settle, if_neg (by simp), BankWebhookStore.retry, BankWebhookStore.modify, found]
  dsimp only
  rw [if_pos mine]
  refine awaited_iff.mpr ⟨job.id, _, OrdMap.get?_set_self _ _ _, serves, .inl ?_⟩
  have more : ¬job.attempts ≥ 5 := by omega
  simp [more]

/-! ### Runs -/

/-- No job of the body is stored as the same delivery, or a sync of the link is still to start its
reads. -/
def WebhookStep.Timely (P : WebhookPrimitives Body) (S : BankWebhookStore) (jobs : WebhookJobs) :
    WebhookStep Body → Prop
  | .accept webhook => ∀ link, routed P webhook = .ok (some link) →
      S.repeated jobs webhook.now (P.sha256 webhook.rawBody) = false ∨ Awaited link jobs
  | _ => True

/-- When a webhook of a known link is accepted, a sync of the link is still to start its reads. -/
def WebhookStep.Followed (P : WebhookPrimitives Body) (S : BankWebhookStore) (jobs : WebhookJobs) :
    WebhookStep Body → Prop
  | .accept webhook => ∀ link, routed P webhook = .ok (some link) →
      Awaited link (acceptWebhook P S webhook jobs).2
  | _ => True

/-- The property of every step of a run, in the store it meets. -/
def Throughout (P : WebhookPrimitives Body) (S : BankWebhookStore)
    (property : WebhookJobs → WebhookStep Body → Prop) : WebhookJobs → List (WebhookStep Body) → Prop
  | _, [] => True
  | jobs, step :: steps =>
    property jobs step ∧ Throughout P S property (step.apply P S jobs) steps

theorem followed_iff {step : WebhookStep Body} :
    step.Followed P S jobs ↔ step.Timely P S jobs := by
  cases step with
  | accept webhook =>
    apply forall_congr'
    intro link
    apply imp_congr_right
    intro known
    rw [acceptWebhook, known]
    exact awaited_enqueue ⟨rfl, rfl⟩
  | claim | pageRead | settle | purgeLink | purgeUser => exact Iff.rfl

/-- Every accepted webhook is followed by a sync, exactly when none is taken for a delivery whose
sync has read already. -/
theorem webhooks_followed_iff (P : WebhookPrimitives Body) (S : BankWebhookStore)
    (jobs : WebhookJobs) (steps : List (WebhookStep Body)) :
    Throughout P S (WebhookStep.Followed P S) jobs steps ↔
      Throughout P S (WebhookStep.Timely P S) jobs steps := by
  induction steps generalizing jobs with
  | nil => exact Iff.rfl
  | cons step steps ih => exact and_congr followed_iff (ih _)

/-! ### A lost webhook -/

def textual : WebhookPrimitives String where
  configured := true
  parse := fun _ => .message ⟨some "item_1", some "TRANSACTIONS", some "SYNC_UPDATES_AVAILABLE"⟩
  sha256 := id

/-- What the aggregator sends whenever item_1 has new transactions. -/
def newTransactions (jobId : String) (now : Int) : Webhook String :=
  ⟨"item_1 has new transactions", true, [⟨"sam", "bank_1", "item_1"⟩], jobId, now⟩

/-- The second notification comes a minute after the sync of the first has finished. -/
def twoNotifications : List (WebhookStep String) :=
  [.accept (newTransactions "job_1" 0), .claim 10 1, .pageRead "job_1" 1,
    .settle ⟨"job_1", "sam", "bank_1", "item_1 has new transactions", 1, 0⟩ true 2,
    .accept (newTransactions "job_2" 60000)]

theorem second_notification_lost :
    ¬Throughout textual InMemoryBankWebhookStore
        (WebhookStep.Followed textual InMemoryBankWebhookStore) ∅ twoNotifications ∧
      ¬Throughout textual PostgresBankWebhookStore
        (WebhookStep.Followed textual PostgresBankWebhookStore) ∅ twoNotifications := by
  constructor
  · rintro ⟨-, -, -, -, followed, -⟩
    exact absurd (followed ⟨"sam", "bank_1", "item_1"⟩ (by rfl)) (by decide +kernel)
  · rintro ⟨-, -, -, -, followed, -⟩
    exact absurd (followed ⟨"sam", "bank_1", "item_1"⟩ (by rfl)) (by decide +kernel)

end Finverse.Banking
