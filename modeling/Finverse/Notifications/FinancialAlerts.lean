import Finverse.Insights.Categories
import Finverse.Insights.DateSteps
import Finverse.Money.Units
import Finverse.Scheduled.IsoDates
import Finverse.Transactions.Refunds

/-! Alerts that are derived from a ledger: subscriptions, possible duplicates and outliers. Ratios are
exact. -/

namespace Finverse.Notifications

open Auth (trim)
open Categorization (Collation)
open Insights (detectSubscriptions displayName isSpendingCategory median)
open Ranking
open Transactions

inductive NotificationKind
  | budget
  | bill
  | creditUtilization
  | subscription
  | lowBalance
  | unusualTransaction
  | bankSync
  | security
  deriving DecidableEq, Repr

inductive Severity
  | info
  | warning
  | critical
  deriving DecidableEq, Repr

structure DerivedFinancialAlert where
  kind : NotificationKind
  title : String
  message : String
  severity : Severity
  dedupeKey : String
  deriving DecidableEq, Repr

/-- What the runtime makes of texts and of money. -/
structure Formats where
  collation : Collation
  toLowerCase : String → String
  toUpperCase : String → String
  formatMoney : Int → String → String

def BILL_LOOKAHEAD_DAYS : Nat := 7

def RECENT_UNUSUAL_DAYS : Nat := 14

def BASELINE_DAYS : Nat := 180

def MIN_BASELINE_TRANSACTIONS : Nat := 6

def OUTLIER_MULTIPLIER : Int := 3

def MIN_OUTLIER_MAJOR_UNITS : Rat := 100

def DUPLICATE_WINDOW_DAYS : Int := 2

variable (F : Formats)

/-! ### Subscriptions -/

def priceAlert (subscription : Insights.DetectedSubscription) : Option DerivedFinancialAlert :=
  subscription.priceIncrease.map fun increase =>
    { kind := .subscription
      title := "Subscription price increase"
      message := subscription.merchant ++ " increased from " ++
        F.formatMoney increase.before subscription.currency ++ " to " ++
        F.formatMoney increase.after subscription.currency ++
        " (" ++ toString (Insights.round increase.percent) ++ "% higher)."
      severity := .warning
      dedupeKey := "subscription-price:" ++ subscription.normalizedDescriptor ++ ":" ++
        toString increase.before ++ ":" ++ toString increase.after }

def whenText (daysUntil : Int) : String :=
  if daysUntil = 0 then "today"
  else if daysUntil = 1 then "tomorrow"
  else "in " ++ toString daysUntil ++ " days"

def billAlert (today : Insights.Date) (subscription : Insights.DetectedSubscription) : Option DerivedFinancialAlert :=
  if ¬today ≤ subscription.nextExpected ∨ ¬subscription.nextExpected ≤ today.addDays BILL_LOOKAHEAD_DAYS then none
  else some
    { kind := .bill
      title := "Upcoming recurring charge"
      message := subscription.merchant ++ " is expected " ++
        whenText (today.daysBetweenInclusive subscription.nextExpected - 1) ++ " for about " ++
        F.formatMoney subscription.typicalAmount subscription.currency ++
        ". Check the date and amount before it posts."
      severity := .info
      dedupeKey := "bill:" ++ subscription.transactionIds.getLast?.getD "" ++ ":" ++
        Scheduled.text subscription.nextExpected }

def deriveSubscriptionAlerts (transactions : List Transaction) (today : Insights.Date) : List DerivedFinancialAlert :=
  (detectSubscriptions (transactions.map (·.toTransaction))).flatMap fun subscription =>
    (priceAlert F subscription).toList ++ (billAlert F today subscription).toList

/-! ### Unusual transactions -/

/-- The row is not more than that many days before the day. -/
def since (days : Nat) (day : Insights.Date) (row : Transaction) : Bool := day.number ≤ row.postedAt.number + days

/-- What is looked at, from the first to the last. -/
def eligible (transactions : List Transaction) (today : Insights.Date) : List Transaction :=
  (transactions.filter fun t => !t.pending && !t.excludedFromAnalytics && decide (t.amount < 0) &&
    since (RECENT_UNUSUAL_DAYS + BASELINE_DAYS) today t && decide (t.postedAt ≤ today) &&
      isSpendingCategory t.categorySlug).insertionSort (byDateThenId F.collation)

/-- The parts of a key are joined. -/
def exactKey (t : Transaction) : Option String :=
  if trim t.normalizedDescriptor = "" then none
  else some (t.normalizedDescriptor ++ "|" ++ t.currency ++ "|" ++ toString |t.amount|)

def categoryKey (t : Transaction) : String := t.categorySlug ++ "|" ++ t.currency

def separation (earlier later : Transaction) : Int :=
  earlier.postedAt.daysBetweenInclusive later.postedAt - 1

def similarDescriptor (left right : String) : Bool :=
  let leftTokens := tokenSet left
  let rightTokens := tokenSet right
  if leftTokens.length < 2 || rightTokens.length < 2 then false
  else
    let intersection := (leftTokens.filter (· ∈ rightTokens)).length
    let union := (leftTokens ++ rightTokens).dedup.length
    decide ((3 / 4 : Rat) ≤ (intersection : Rat) / union)

def amountTolerance (t : Transaction) : Int := max 100 (Insights.round ((|t.amount| : Int) / 100 : Rat))

/-- Nearly the same charge, shortly before. -/
def isSimilar (t prior : Transaction) : Bool :=
  prior.currency == t.currency && prior.categorySlug == t.categorySlug &&
    separation prior t ≤ DUPLICATE_WINDOW_DAYS &&
      decide (|(|prior.amount| - |t.amount|)| ≤ amountTolerance t) &&
        similarDescriptor prior.normalizedDescriptor t.normalizedDescriptor

def isOutlier (baseline : List Transaction) (t : Transaction) : Bool :=
  let medianAmount := median (baseline.map fun row => |row.amount|)
  0 < medianAmount && medianAmount * OUTLIER_MULTIPLIER ≤ |t.amount| &&
    Money.majorToMinor F.toUpperCase MIN_OUTLIER_MAJOR_UNITS t.currency ≤ |t.amount| - medianAmount

def daysText (days : Int) : String :=
  if days = 0 then "the same day" else toString days ++ " day" ++ (if days = 1 then "" else "s")

def exactAlert (prior t : Transaction) : DerivedFinancialAlert where
  kind := .unusualTransaction
  title := "Possible duplicate charge"
  message := "Two " ++ t.merchant.getD t.normalizedDescriptor ++ " charges for " ++
    F.formatMoney |t.amount| t.currency ++ " posted within " ++ daysText (separation prior t) ++ ". " ++
    "Review both transactions before disputing either charge."
  severity := .warning
  dedupeKey := "possible-duplicate:" ++ prior.id ++ ":" ++ t.id

def similarAlert (prior t : Transaction) : DerivedFinancialAlert where
  kind := .unusualTransaction
  title := "Possible duplicate charge"
  message := "Two " ++ t.merchant.getD t.normalizedDescriptor ++
    " charges have similar merchant details and amounts within " ++ daysText (separation prior t) ++ ". " ++
    "Review both transactions before disputing either charge."
  severity := .warning
  dedupeKey := "possible-duplicate:" ++ prior.id ++ ":" ++ t.id

def outlierAlert (baseline : List Transaction) (t : Transaction) : DerivedFinancialAlert where
  kind := .unusualTransaction
  title := "Unusually large transaction"
  message := t.merchant.getD (displayName t.categorySlug) ++ " posted for " ++
    F.formatMoney |t.amount| t.currency ++ ", compared with a recent " ++
    F.toLowerCase (displayName t.categorySlug) ++ " median of " ++
    F.formatMoney (median (baseline.map fun row => |row.amount|)) t.currency ++
    ". Review the transaction if you do not recognize it."
  severity := .warning
  dedupeKey := "category-outlier:" ++ t.id

/-- The alert for one row, from the latest charge of its key, the rows before it and those that it is
compared with. -/
def alertFor (today : Insights.Date) (t : Transaction) (priorExact : Option Transaction) (prior baseline : List Transaction) :
    Option DerivedFinancialAlert :=
  if since RECENT_UNUSUAL_DAYS today t then
    match priorExact.filter fun p => decide (separation p t ≤ DUPLICATE_WINDOW_DAYS) with
    | some p => some (exactAlert F p t)
    | none =>
      match prior.reverse.find? (isSimilar t) with
      | some p => some (similarAlert p t)
      | none =>
        if MIN_BASELINE_TRANSACTIONS ≤ baseline.length && isOutlier F baseline t then
          some (outlierAlert F baseline t)
        else none
  else none

/-- What the pass keeps of the rows so far. -/
structure Pass where
  latestExact : OrdMap String Transaction := ∅
  priorTransactions : List Transaction := []
  categoryHistory : OrdMap String (List Transaction) := ∅
  alerts : List (Transaction × DerivedFinancialAlert) := []

/-- The rows of the category that are recent enough still. -/
def Pass.baseline (pass : Pass) (t : Transaction) : List Transaction :=
  ((pass.categoryHistory.get? (categoryKey t)).getD []).filter (since BASELINE_DAYS t.postedAt)

def Pass.row (today : Insights.Date) (pass : Pass) (t : Transaction) : Pass where
  latestExact := match exactKey t with
    | some key => pass.latestExact.set key t
    | none => pass.latestExact
  priorTransactions := pass.priorTransactions ++ [t]
  categoryHistory := pass.categoryHistory.set (categoryKey t) (pass.baseline t ++ [t])
  alerts := pass.alerts ++ ((alertFor F today t ((exactKey t).bind pass.latestExact.get?)
    pass.priorTransactions (pass.baseline t)).map fun alert => (t, alert)).toList

/-- Each alert with the row that it is about. -/
def unusualAlerts (transactions : List Transaction) (today : Insights.Date) : List (Transaction × DerivedFinancialAlert) :=
  ((eligible F transactions today).foldl (Pass.row F today) {}).alerts

def deriveUnusualTransactionAlerts (transactions : List Transaction) (today : Insights.Date) : List DerivedFinancialAlert :=
  (unusualAlerts F transactions today).map Prod.snd

/-! ### One row by itself -/

/-- An equal charge of the same merchant, shortly before. -/
def repeats (t prior : Transaction) : Bool :=
  (exactKey t).any (exactKey prior = some ·) && separation prior t ≤ DUPLICATE_WINDOW_DAYS

/-- The rows that a row is compared with. -/
def baselineOf (prior : List Transaction) (t : Transaction) : List Transaction :=
  prior.filter fun p => decide (categoryKey p = categoryKey t) && since BASELINE_DAYS t.postedAt p

/-- The last of the rows of which it holds. -/
def Latest (p : Transaction → Bool) (rows : List Transaction) (row : Transaction) : Prop :=
  ∃ before after, rows = before ++ row :: after ∧ p row = true ∧ ∀ other ∈ after, p other = false

/-- What is said of a row, after the rows before it. -/
inductive Alerted (prior : List Transaction) (t : Transaction) : DerivedFinancialAlert → Prop
  | exact {p} (latest : Latest (repeats t) prior p) : Alerted prior t (exactAlert F p t)
  | similar {p} (new : ∀ q ∈ prior, repeats t q = false) (latest : Latest (isSimilar t) prior p) :
      Alerted prior t (similarAlert p t)
  | outlier (new : ∀ q ∈ prior, repeats t q = false) (other : ∀ q ∈ prior, isSimilar t q = false)
      (many : MIN_BASELINE_TRANSACTIONS ≤ (baselineOf prior t).length)
      (far : isOutlier F (baselineOf prior t) t = true) :
      Alerted prior t (outlierAlert F (baselineOf prior t) t)

section Rows

variable {F : Formats} {prior rows transactions : List Transaction} {t : Transaction} {today : Insights.Date}
  {alert : DerivedFinancialAlert}

theorem latest_iff {p : Transaction → Bool} {row : Transaction} :
    prior.reverse.find? p = some row ↔ Latest p prior row := by
  rw [List.find?_eq_some_iff_append, Latest]
  constructor
  · rintro ⟨hit, after, before, split, missed⟩
    refine ⟨before.reverse, after.reverse, ?_, hit, fun other there => ?_⟩
    · rw [← List.reverse_reverse prior, split]
      simp
    · simpa using missed other (List.mem_reverse.mp there)
  · rintro ⟨before, after, rfl, hit, missed⟩
    refine ⟨hit, after.reverse, before.reverse, by simp, fun other there => ?_⟩
    simpa using missed other (List.mem_reverse.mp there)

/-- The first one, when it is near, is the first of those that are near: nearness only gets lost. -/
theorem find?_filter_near {α : Type} {p near : α → Bool} {l : List α}
    (lost : l.Pairwise fun a b => near b = true → near a = true) :
    (l.find? p).filter near = l.find? fun a => p a && near a := by
  induction l with
  | nil => rfl
  | cons a l ih =>
    obtain ⟨first, lost⟩ := List.pairwise_cons.mp lost
    cases hit : p a with
    | false =>
      rw [List.find?_cons_of_neg (by simp [hit]), List.find?_cons_of_neg (by simp [hit]), ih lost]
    | true =>
      rw [List.find?_cons_of_pos hit]
      cases close : near a with
      | true =>
        rw [List.find?_cons_of_pos (by simp [hit, close]), Option.filter_some_pos close]
      | false =>
        rw [List.find?_cons_of_neg (by simp [close]), Option.filter_some_neg (by simp [close]), eq_comm, List.find?_eq_none]
        intro b there both
        rw [Bool.and_eq_true] at both
        rw [first b there both.2] at close
        cases close

theorem repeats_separation (sorted : prior.Pairwise fun a b => a.postedAt ≤ b.postedAt) :
    ((exactKey t).bind fun key => prior.reverse.find? fun p => exactKey p = some key).filter
      (fun p => decide (separation p t ≤ DUPLICATE_WINDOW_DAYS)) = prior.reverse.find? (repeats t) := by
  cases keyed : exactKey t with
  | none =>
    rw [Option.bind_none, Option.filter_none, eq_comm, List.find?_eq_none]
    intro p _
    simp [repeats, keyed]
  | some key =>
    rw [Option.bind_some, find?_filter_near]
    · congr 1
      funext p
      simp [repeats, keyed]
    · rw [List.pairwise_reverse]
      refine sorted.imp fun {a b} order near => ?_
      have days := Insights.Date.number_le order
      rw [decide_eq_true_eq] at near ⊢
      unfold separation Insights.Date.daysBetweenInclusive at near ⊢
      omega

/-- What the pass says of a row, when it is compared with all the rows before it. -/
theorem alertFor_iff (sorted : prior.Pairwise fun a b => a.postedAt ≤ b.postedAt) :
    alertFor F today t ((exactKey t).bind fun key => prior.reverse.find? fun p => exactKey p = some key) prior
      (baselineOf prior t) = some alert ↔ since RECENT_UNUSUAL_DAYS today t = true ∧ Alerted F prior t alert := by
  rw [alertFor, repeats_separation sorted]
  by_cases recent : since RECENT_UNUSUAL_DAYS today t = true
  · rw [if_pos recent, and_iff_right recent]
    cases exact_ : prior.reverse.find? (repeats t) with
    | some p =>
      have latest := latest_iff.mp exact_
      have there : p ∈ prior := List.mem_reverse.mp (List.mem_of_find?_eq_some exact_)
      have hit : repeats t p = true := List.find?_some exact_
      constructor
      · intro same
        obtain rfl := Option.some.inj same
        exact .exact latest
      · intro alerted
        cases alerted with
        | exact latest' => rw [latest_iff.mpr latest'] at exact_; rw [Option.some.inj exact_]
        | similar new _ =>
          rw [new p there] at hit
          cases hit
        | outlier new =>
          rw [new p there] at hit
          cases hit
    | none =>
      have new : ∀ q ∈ prior, repeats t q = false := by
        intro q there
        simpa using List.find?_eq_none.mp exact_ q (List.mem_reverse.mpr there)
      dsimp only
      cases near : prior.reverse.find? (isSimilar t) with
      | some p =>
        have latest := latest_iff.mp near
        have there : p ∈ prior := List.mem_reverse.mp (List.mem_of_find?_eq_some near)
        have hit : isSimilar t p = true := List.find?_some near
        constructor
        · intro same
          obtain rfl := Option.some.inj same
          exact .similar new latest
        · intro alerted
          cases alerted with
          | exact latest' =>
            rw [latest_iff.mpr latest'] at exact_
            cases exact_
          | similar _ latest' => rw [latest_iff.mpr latest'] at near; rw [Option.some.inj near]
          | outlier _ other =>
            rw [other p there] at hit
            cases hit
      | none =>
        have other : ∀ q ∈ prior, isSimilar t q = false := by
          intro q there
          simpa using List.find?_eq_none.mp near q (List.mem_reverse.mpr there)
        dsimp only
        constructor
        · intro same
          split at same
          · rename_i outlies
            obtain rfl := Option.some.inj same
            rw [Bool.and_eq_true, decide_eq_true_eq] at outlies
            exact .outlier new other outlies.1 outlies.2
          · cases same
        · intro alerted
          cases alerted with
          | exact latest' =>
            rw [latest_iff.mpr latest'] at exact_
            cases exact_
          | similar _ latest' =>
            rw [latest_iff.mpr latest'] at near
            cases near
          | outlier _ _ many far => rw [if_pos (by rw [far, decide_eq_true many]; rfl)]
  · rw [if_neg recent]
    simp [recent]

/-! ### The pass -/

theorem date_le_self (date : Insights.Date) : date ≤ date := Nat.le_refl _

instance (C : Collation) : Std.Total (byDateThenId C) where
  total a b := by
    by_cases same : a.postedAt = b.postedAt
    · simpa [byDateThenId, same] using C.total a.id b.id
    · simpa [byDateThenId, same, Ne.symm same] using Insights.Date.le_total a.postedAt b.postedAt

instance (C : Collation) : IsTrans Transaction (byDateThenId C) where
  trans a b c hab hbc := by
    unfold byDateThenId at hab hbc ⊢
    by_cases first : a.postedAt = b.postedAt
    · rw [if_pos first] at hab
      rw [first]
      by_cases second : b.postedAt = c.postedAt
      · rw [if_pos second] at hbc ⊢
        exact C.trans _ _ _ hab hbc
      · rw [if_neg second] at hbc ⊢
        exact hbc
    · rw [if_neg first] at hab
      have dates : b.postedAt ≤ c.postedAt := by
        by_cases second : b.postedAt = c.postedAt
        · rw [second]
          exact date_le_self _
        · rwa [if_neg second] at hbc
      rw [if_neg]
      · exact Insights.Date.le_trans hab dates
      · intro same
        exact first (Insights.Date.le_antisymm hab (same ▸ dates))

theorem dates_of_byDateThenId {C : Collation} {a b : Transaction} (order : byDateThenId C a b) : a.postedAt ≤ b.postedAt := by
  unfold byDateThenId at order
  by_cases same : a.postedAt = b.postedAt
  · rw [same]
    exact date_le_self _
  · rwa [if_neg same] at order

theorem eligible_sorted : (eligible F transactions today).Pairwise fun a b => a.postedAt ≤ b.postedAt :=
  (List.pairwise_insertionSort _ _).imp dates_of_byDateThenId

/-- The maps hold what a search through all the rows so far would find, for a row that is not before them. -/
structure Pass.Has (pass : Pass) (seen : List Transaction) : Prop where
  latest : ∀ key, pass.latestExact.get? key = seen.reverse.find? fun p => exactKey p = some key
  prior : pass.priorTransactions = seen
  history : ∀ t : Transaction, (∀ p ∈ seen, p.postedAt ≤ t.postedAt) → pass.baseline t = baselineOf seen t

theorem Pass.has_nothing : Pass.Has {} [] where
  latest _ := rfl
  prior := rfl
  history _ _ := rfl

/-- What a row no longer sees, a later one does not see either. -/
theorem since_earlier {days : Nat} {a b : Insights.Date} {p : Transaction} (order : a ≤ b) (recent : since days b p = true) :
    since days a p = true := by
  have number := Insights.Date.number_le order
  simp only [since, decide_eq_true_eq] at recent ⊢
  omega

theorem since_self (days : Nat) (t : Transaction) : since days t.postedAt t = true := by simp [since]

theorem Pass.Has.row {pass : Pass} (has : pass.Has rows) (order : ∀ p ∈ rows, p.postedAt ≤ t.postedAt) :
    (pass.row F today t).Has (rows ++ [t]) where
  latest key := by
    rw [List.reverse_append, List.reverse_singleton, List.singleton_append, List.find?_cons]
    unfold Pass.row
    cases keyed : exactKey t with
    | none => simpa using has.latest key
    | some own =>
      dsimp only
      rw [OrdMap.get?_set, has.latest]
      by_cases same : own = key <;> simp [same]
  prior := by rw [Pass.row, has.prior]
  history next order' := by
    have kept := has.history next fun p there => order' p (List.mem_append_left _ there)
    rw [Pass.baseline] at kept ⊢
    unfold Pass.row
    dsimp only
    rw [OrdMap.get?_set]
    by_cases same : categoryKey t = categoryKey next
    · have later : t.postedAt ≤ next.postedAt := order' t (by simp)
      rw [if_pos same, Option.getD_some, has.history t order, List.filter_append, baselineOf, baselineOf,
        List.filter_filter, List.filter_append]
      congr 1
      · refine List.filter_congr fun p _ => ?_
        rw [same, Bool.and_left_comm]
        cases recent : since BASELINE_DAYS next.postedAt p with
        | false => simp
        | true => simp [since_earlier later recent]
      · simp [List.filter_cons, same]
    · rw [if_neg same, kept, baselineOf, baselineOf, List.filter_append]
      simp [same]

/-- The alerts of the pass so far and those of the rows left, each compared with all the rows before it. -/
theorem mem_pass {pass : Pass} {entry : Transaction × DerivedFinancialAlert} (has : pass.Has prior)
    (sorted : (prior ++ rows).Pairwise fun a b => a.postedAt ≤ b.postedAt) :
    entry ∈ (rows.foldl (Pass.row F today) pass).alerts ↔ entry ∈ pass.alerts ∨
      ∃ front back, rows = front ++ entry.1 :: back ∧ since RECENT_UNUSUAL_DAYS today entry.1 = true ∧
        Alerted F (prior ++ front) entry.1 entry.2 := by
  induction rows generalizing pass prior with
  | nil => simp
  | cons t rows ih =>
    have order : ∀ p ∈ prior, p.postedAt ≤ t.postedAt := fun p there =>
      (List.pairwise_append.mp sorted).2.2 p there t List.mem_cons_self
    have own : entry ∈ (pass.row F today t).alerts ↔ entry ∈ pass.alerts ∨
        t = entry.1 ∧ since RECENT_UNUSUAL_DAYS today t = true ∧ Alerted F prior t entry.2 := by
      have found : (exactKey t).bind pass.latestExact.get? =
          (exactKey t).bind fun key => prior.reverse.find? fun p => exactKey p = some key := by
        congr 1
        funext key
        exact has.latest key
      rw [← alertFor_iff (List.pairwise_append.mp sorted).1, ← found, ← has.history t order, Pass.row, has.prior,
        List.mem_append]
      refine or_congr_right ?_
      rw [Option.mem_toList, Option.map_eq_some_iff]
      constructor
      · rintro ⟨alert, said, rfl⟩
        exact ⟨rfl, said⟩
      · rintro ⟨rfl, said⟩
        exact ⟨_, said, rfl⟩
    rw [List.foldl_cons, ih (has.row order) (by simpa using sorted), own, or_assoc]
    refine or_congr_right ?_
    constructor
    · rintro (⟨rfl, recent, alerted⟩ | ⟨front, back, rfl, recent, alerted⟩)
      · exact ⟨[], rows, rfl, recent, by simpa using alerted⟩
      · exact ⟨t :: front, back, rfl, recent, by simpa using alerted⟩
    · rintro ⟨front, back, split, recent, alerted⟩
      cases front with
      | nil =>
        obtain ⟨rfl, rfl⟩ := List.cons.inj split
        exact .inl ⟨rfl, recent, by simpa using alerted⟩
      | cons first front =>
        obtain ⟨rfl, rfl⟩ := List.cons.inj split
        exact .inr ⟨front, back, rfl, recent, by simpa using alerted⟩

theorem mem_unusualAlerts : (t, alert) ∈ unusualAlerts F transactions today ↔
    ∃ prior rest, eligible F transactions today = prior ++ t :: rest ∧
      since RECENT_UNUSUAL_DAYS today t = true ∧ Alerted F prior t alert := by
  have sorted : ([] ++ eligible F transactions today).Pairwise fun a b : Transaction => a.postedAt ≤ b.postedAt :=
    eligible_sorted
  rw [unusualAlerts, mem_pass Pass.has_nothing sorted]
  simp

/-- The one pass says what a comparison of each recent row with all the rows before it says, and nothing else. -/
theorem deriveUnusualTransactionAlerts_iff : alert ∈ deriveUnusualTransactionAlerts F transactions today ↔
    ∃ prior t rest, eligible F transactions today = prior ++ t :: rest ∧
      since RECENT_UNUSUAL_DAYS today t = true ∧ Alerted F prior t alert := by
  rw [deriveUnusualTransactionAlerts, List.mem_map]
  constructor
  · rintro ⟨⟨t, said⟩, listed, rfl⟩
    obtain ⟨prior, rest, split, alerted⟩ := mem_unusualAlerts.mp listed
    exact ⟨prior, t, rest, split, alerted⟩
  · rintro ⟨prior, t, rest, split, alerted⟩
    exact ⟨(t, alert), mem_unusualAlerts.mpr ⟨prior, rest, split, alerted⟩, rfl⟩

/-! ### Another day -/

theorem find?_near {p near : Transaction → Bool} (reaches : ∀ row, p row = true → near row = true) :
    (prior.filter near).reverse.find? p = prior.reverse.find? p := by
  rw [← List.filter_reverse, List.find?_filter]
  congr 1
  funext row
  cases hit : p row with
  | false => simp
  | true => simp [reaches row hit]

theorem since_of_separation {p : Transaction} (near : separation p t ≤ DUPLICATE_WINDOW_DAYS) :
    since BASELINE_DAYS t.postedAt p = true := by
  rw [since, decide_eq_true_eq]
  unfold separation Insights.Date.daysBetweenInclusive DUPLICATE_WINDOW_DAYS at near
  unfold BASELINE_DAYS
  omega

theorem since_of_repeats (p : Transaction) (hit : repeats t p = true) : since BASELINE_DAYS t.postedAt p = true := by
  rw [repeats, Bool.and_eq_true, decide_eq_true_eq] at hit
  exact since_of_separation hit.2

theorem since_of_isSimilar (p : Transaction) (hit : isSimilar t p = true) : since BASELINE_DAYS t.postedAt p = true := by
  simp only [isSimilar, Bool.and_eq_true, decide_eq_true_eq] at hit
  exact since_of_separation hit.1.1.2

/-- Only the rows of the last days before it say something of a row. -/
theorem alerted_near (sorted : prior.Pairwise fun a b => a.postedAt ≤ b.postedAt) :
    Alerted F (prior.filter (since BASELINE_DAYS t.postedAt)) t alert ↔ Alerted F prior t alert := by
  have recent : since RECENT_UNUSUAL_DAYS t.postedAt t = true := since_self _ t
  have whole := (alertFor_iff sorted).trans (and_iff_right recent) (b := _) (c := Alerted F prior t alert)
  have near := (alertFor_iff (sorted.filter _)).trans (and_iff_right recent)
    (c := Alerted F (prior.filter (since BASELINE_DAYS t.postedAt)) t alert)
  have baseline : baselineOf (prior.filter (since BASELINE_DAYS t.postedAt)) t = baselineOf prior t := by
    rw [baselineOf, baselineOf, List.filter_filter]
    refine List.filter_congr fun p _ => ?_
    rw [Bool.and_assoc, Bool.and_self]
  rw [← whole, ← near, alertFor, alertFor, repeats_separation sorted, repeats_separation (sorted.filter _),
    find?_near since_of_repeats, find?_near since_of_isSimilar, baseline]

/-- A row of a list is one of the rows that are kept, with those before it that are kept. -/
theorem exists_filter {p : Transaction → Bool} {said : List Transaction → Prop} (own : p t = true) :
    (∃ front back, rows = front ++ t :: back ∧ said (front.filter p)) ↔
      ∃ front back, rows.filter p = front ++ t :: back ∧ said front := by
  constructor
  · rintro ⟨front, back, rfl, holds⟩
    exact ⟨front.filter p, back.filter p, by rw [List.filter_append, List.filter_cons_of_pos own], holds⟩
  · rintro ⟨front, back, split, holds⟩
    obtain ⟨front', rest, rfl, rfl, behind⟩ := List.filter_eq_append_iff.mp split
    obtain ⟨skipped, back', rfl, missed, -, -⟩ := List.filter_eq_cons_iff.mp behind
    refine ⟨front' ++ skipped, back', by simp, ?_⟩
    have none_ : skipped.filter p = [] := List.filter_eq_nil_iff.mpr missed
    rwa [List.filter_append, none_, List.append_nil]

/-- The spending of the last days before a row, and of its own day. -/
def around (t p : Transaction) : Bool :=
  !p.pending && !p.excludedFromAnalytics && decide (p.amount < 0) && since BASELINE_DAYS t.postedAt p &&
    decide (p.postedAt ≤ t.postedAt) && isSpendingCategory p.categorySlug

theorem eligible_around (recent : since RECENT_UNUSUAL_DAYS today t = true) (posted : t.postedAt ≤ today) :
    (eligible F transactions today).filter
      (fun p => since BASELINE_DAYS t.postedAt p && decide (p.postedAt ≤ t.postedAt)) =
        (transactions.filter (around t)).insertionSort (byDateThenId F.collation) := by
  rw [eligible, filter_insertionSort, List.filter_filter]
  congr 1
  refine List.filter_congr fun p _ => ?_
  rw [around]
  cases near : since BASELINE_DAYS t.postedAt p with
  | false => simp
  | true =>
    by_cases before : p.postedAt ≤ t.postedAt
    · have wide : since (RECENT_UNUSUAL_DAYS + BASELINE_DAYS) today p = true := by
        simp only [since, decide_eq_true_eq] at near recent ⊢
        omega
      simp [before, wide, Insights.Date.le_trans before posted]
    · simp [before]

/-- What is said of a row does not depend on the day. -/
theorem mem_unusualAlerts_around (recent : since RECENT_UNUSUAL_DAYS today t = true) (posted : t.postedAt ≤ today) :
    (t, alert) ∈ unusualAlerts F transactions today ↔
      ∃ front back, (transactions.filter (around t)).insertionSort (byDateThenId F.collation) = front ++ t :: back ∧
        Alerted F front t alert := by
  rw [← eligible_around recent posted, ← exists_filter (by simp [since_self, date_le_self]), mem_unusualAlerts]
  refine exists_congr fun front => exists_congr fun back => and_congr_right fun split => ?_
  rw [and_iff_right recent]
  have sorted : (front ++ t :: back).Pairwise fun a b : Transaction => a.postedAt ≤ b.postedAt :=
    split ▸ eligible_sorted
  obtain ⟨sorted, -, order⟩ := List.pairwise_append.mp sorted
  have same : front.filter (fun p => since BASELINE_DAYS t.postedAt p && decide (p.postedAt ≤ t.postedAt)) =
      front.filter (since BASELINE_DAYS t.postedAt) :=
    List.filter_congr fun p there => by simp [order p there t List.mem_cons_self]
  rw [same, alerted_near sorted]

/-- What is said of a row is said on every later day as long as the row is recent, whatever is posted
after the first one: nothing is taken back, and nothing else is said of it. -/
theorem unusual_stays {later : Insights.Date} {transactions' : List Transaction} (posted : t.postedAt ≤ today)
    (order : today ≤ later) (recent : since RECENT_UNUSUAL_DAYS later t = true)
    (known : (transactions'.filter fun p => decide (p.postedAt ≤ today)) =
      transactions.filter fun p => decide (p.postedAt ≤ today)) :
    (t, alert) ∈ unusualAlerts F transactions' later ↔ (t, alert) ∈ unusualAlerts F transactions today := by
  have reduced (rows : List Transaction) :
      rows.filter (around t) = (rows.filter fun p => decide (p.postedAt ≤ today)).filter (around t) := by
    rw [List.filter_filter]
    refine List.filter_congr fun p _ => ?_
    by_cases before : p.postedAt ≤ t.postedAt
    · simp [Insights.Date.le_trans before posted]
    · simp [around, before]
  rw [mem_unusualAlerts_around recent (Insights.Date.le_trans posted order),
    mem_unusualAlerts_around (since_earlier order recent) posted, reduced transactions', known, ← reduced]

end Rows

def thirdOfMarch : Insights.Date := ⟨2026, 3, 3, march_month, march_third⟩

def shoesAgain : Transaction :=
  ⟨⟨"txn_3", thirdOfMarch, -12000, "CAD", "north shoes", none, "clothing", false, false⟩, "checking"⟩

def plain : Formats where
  collation := byCharacters
  toLowerCase := String.toLower
  toUpperCase := String.toUpper
  formatMoney amount currency := currency ++ " " ++ toString amount

theorem unusual_stays_shoes :
    (shoesAgain, exactAlert plain shoes shoesAgain) ∈ unusualAlerts plain [shoesAgain, shoes] thirdOfMarch ∧
    ((shoesAgain, exactAlert plain shoes shoesAgain) ∈ unusualAlerts plain [shoesAgain, shoes, shoesBack]
        (thirdOfMarch.addDays 9) ↔
      (shoesAgain, exactAlert plain shoes shoesAgain) ∈ unusualAlerts plain [shoesAgain, shoes] thirdOfMarch) :=
  ⟨mem_unusualAlerts.mpr ⟨[shoes], [], by decide +kernel, by decide +kernel,
    .exact ⟨[], [], rfl, by decide +kernel, by simp⟩⟩,
  unusual_stays (by decide +kernel) (by decide +kernel) (by decide +kernel) (by decide +kernel)⟩

end Finverse.Notifications
