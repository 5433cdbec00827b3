import Finverse.Transactions.Transfers
import Mathlib.Data.List.Dedup

/-! Refunds, each with the earlier purchase that it most plausibly gives back. Scores are exact. -/

namespace Finverse.Transactions

open Auth (jsLength)
open Categorization (Collation)
open Insights (isSpendingCategory)
open Matching Ranking

structure RefundMatch where
  refundId : String
  purchaseId : String
  amount : Int
  purchaseAmount : Int
  currency : String
  merchant : String
  purchaseDate : Insights.Date
  refundDate : Insights.Date
  daysAfterPurchase : Int
  confidence : Rat
  deriving DecidableEq

def MAX_REFUND_DAYS : Int := 120

/-! ### Merchant evidence -/

/-- Single characters and pure digits are dropped. -/
def descriptorTokens (normalized : String) : List String :=
  ((normalized.toList.splitOn ' ').map String.ofList).filter fun t =>
    1 < jsLength t ∧ ¬t.toList.all Char.isDigit

def jaccard (left right : List String) : Rat :=
  if left = [] ∨ right = [] then 0
  else
    let intersection := (left.filter (· ∈ right)).length
    let union := (left ++ right).dedup.length
    if union = 0 then 0 else intersection / union

/-- `new Set(descriptorTokens(text))` -/
def tokenSet (text : String) : List String := (descriptorTokens text).dedup

def descriptorSimilarity (leftDescriptor rightDescriptor : String)
    (leftMerchant rightMerchant : Option String) : Rat :=
  max (jaccard (tokenSet leftDescriptor) (tokenSet rightDescriptor))
    (jaccard (tokenSet (leftMerchant.getD "")) (tokenSet (rightMerchant.getD "")))

/-- The texts have a token in common. -/
def Share (left right : String) : Prop := ∃ token ∈ descriptorTokens left, token ∈ descriptorTokens right

theorem jaccard_nonneg (left right : List String) : 0 ≤ jaccard left right := by
  unfold jaccard
  split
  · exact le_refl 0
  · dsimp only
    split
    · exact le_refl 0
    · positivity

theorem jaccard_pos {left right : List String} : 0 < jaccard left right ↔ ∃ token ∈ left, token ∈ right := by
  unfold jaccard
  split
  · rename_i empty
    rcases empty with rfl | rfl <;> simp
  · rename_i some_
    rw [not_or] at some_
    have union : (left ++ right).dedup.length ≠ 0 := by
      obtain ⟨token, stored⟩ := List.exists_mem_of_ne_nil left some_.1
      have kept : token ∈ (left ++ right).dedup := List.mem_dedup.mpr (List.mem_append_left _ stored)
      exact (List.length_pos_of_mem kept).ne'
    have pos : (0 : Rat) < (left ++ right).dedup.length := by exact_mod_cast Nat.pos_of_ne_zero union
    dsimp only
    rw [if_neg union, div_pos_iff_of_pos_right pos, Nat.cast_pos, List.length_pos_iff_exists_mem]
    simp

theorem jaccard_tokenSet {left right : String} :
    0 < jaccard (tokenSet left) (tokenSet right) ↔ Share left right := by
  rw [jaccard_pos]
  simp [tokenSet, Share]

theorem descriptorSimilarity_pos {leftDescriptor rightDescriptor : String}
    {leftMerchant rightMerchant : Option String} :
    0 < descriptorSimilarity leftDescriptor rightDescriptor leftMerchant rightMerchant ↔
      Share leftDescriptor rightDescriptor ∨ Share (leftMerchant.getD "") (rightMerchant.getD "") := by
  rw [descriptorSimilarity, lt_max_iff, jaccard_tokenSet, jaccard_tokenSet]

/-! ### Matching -/

structure Candidate where
  purchase : Transaction
  daysAfter : Int
  score : Rat
  deriving DecidableEq

def daysAfter (purchase refund : Transaction) : Int :=
  Insights.Date.daysBetweenInclusive purchase.postedAt refund.postedAt - 1

def similarity (purchase refund : Transaction) : Rat :=
  descriptorSimilarity purchase.normalizedDescriptor refund.normalizedDescriptor purchase.merchant
    refund.merchant

/-- Descriptor evidence dominates; amount and timing break ties. -/
def scoreCandidate (refund purchase : Transaction) : Candidate where
  purchase
  daysAfter := daysAfter purchase refund
  score := similarity purchase refund * 6 + (refund.amount : Rat) / |purchase.amount| * 3 +
    (1 - daysAfter purchase refund / MAX_REFUND_DAYS)

def isPurchase (t : Transaction) : Bool :=
  !t.pending && t.amount < 0 && isSpendingCategory t.categorySlug

def isRefund (t : Transaction) : Bool := !t.pending && t.categorySlug == "refunds" && 0 < t.amount

/-- A purchase that is not used, and that the refund may be of. -/
def couldBe (usedPurchases : List String) (refund purchase : Transaction) : Bool :=
  decide (purchase.id ∉ usedPurchases) &&
    purchase.accountId == refund.accountId && purchase.currency == refund.currency &&
    decide (purchase.postedAt ≤ refund.postedAt) && daysAfter purchase refund ≤ MAX_REFUND_DAYS &&
    decide (refund.amount ≤ |purchase.amount|) && decide (0 < similarity purchase refund)

/-- The higher score first, then the fewer days, then the id. -/
def byScore (C : Collation) (a b : Candidate) : Prop :=
  if a.score = b.score then
    if a.daysAfter = b.daysAfter then C.le a.purchase.id b.purchase.id = true
    else a.daysAfter < b.daysAfter
  else b.score < a.score

instance (C : Collation) : DecidableRel (byScore C) := fun _ _ => inferInstanceAs (Decidable (ite ..))

def candidates (usedPurchases : List String) (transactions : List Transaction) (refund : Transaction) :
    List Candidate :=
  ((transactions.filter isPurchase).filter (couldBe usedPurchases refund)).map (scoreCandidate refund)

def bestCandidate (C : Collation) (transactions : List Transaction) (usedPurchases : List String)
    (refund : Transaction) : Option Candidate :=
  ((candidates usedPurchases transactions refund).insertionSort (byScore C)).head?

def toMatch (refund : Transaction) (best : Candidate) : RefundMatch where
  refundId := refund.id
  purchaseId := best.purchase.id
  amount := refund.amount
  purchaseAmount := |best.purchase.amount|
  currency := refund.currency
  merchant := refund.merchant.getD refund.normalizedDescriptor
  purchaseDate := best.purchase.postedAt
  refundDate := refund.postedAt
  daysAfterPurchase := best.daysAfter
  confidence := Insights.round (min (99 / 100) (best.score / 10) * 100) / 100

/-- Each refund with the purchase that it uses. -/
def refunded (C : Collation) (transactions : List Transaction) : List (Transaction × Candidate) :=
  assign (bestCandidate C transactions) (fun _ best => [best.purchase.id]) []
    ((transactions.filter isRefund).insertionSort (byDateThenId C))

def matchRefunds (C : Collation) (transactions : List Transaction) : List RefundMatch :=
  (refunded C transactions).map fun pair => toMatch pair.1 pair.2

/-! ### What a refund uses -/

variable {C : Collation} {transactions : List Transaction} {usedPurchases : List String}
  {purchase refund : Transaction} {best : Candidate}

/-- A refund of an earlier purchase. -/
structure Refunds (refund purchase : Transaction) : Prop where
  settled : refund.pending = false ∧ purchase.pending = false
  category : refund.categorySlug = "refunds"
  back : 0 < refund.amount
  spent : purchase.amount < 0 ∧ isSpendingCategory purchase.categorySlug = true
  account : purchase.accountId = refund.accountId
  currency : purchase.currency = refund.currency
  earlier : purchase.postedAt ≤ refund.postedAt
  days : 0 ≤ daysAfter purchase refund ∧ daysAfter purchase refund ≤ 120
  amount : refund.amount ≤ |purchase.amount|
  evidence : Share purchase.normalizedDescriptor refund.normalizedDescriptor ∨
    Share (purchase.merchant.getD "") (refund.merchant.getD "")

theorem daysAfter_nonneg (h : purchase.postedAt ≤ refund.postedAt) : 0 ≤ daysAfter purchase refund := by
  have later := Insights.Date.number_le h
  simp only [daysAfter, Insights.Date.daysBetweenInclusive]
  omega

theorem bestCandidate_some (h : bestCandidate C transactions usedPurchases refund = some best) :
    ∃ purchase ∈ transactions, isPurchase purchase = true ∧ couldBe usedPurchases refund purchase = true ∧
      best = scoreCandidate refund purchase := by
  have stored := (List.mem_insertionSort _).mp (List.mem_of_head? h)
  obtain ⟨purchase, chosen, rfl⟩ := List.mem_map.mp stored
  obtain ⟨bought, fits⟩ := List.mem_filter.mp chosen
  obtain ⟨listed, spends⟩ := List.mem_filter.mp bought
  exact ⟨purchase, listed, spends, fits, rfl⟩

theorem couldBe_free (h : couldBe usedPurchases refund purchase = true) : purchase.id ∉ usedPurchases := by
  simp only [couldBe, Bool.and_eq_true, decide_eq_true_eq] at h
  exact h.1.1.1.1.1.1

theorem Refunds.of_couldBe (refunds : isRefund refund = true) (spends : isPurchase purchase = true)
    (fits : couldBe usedPurchases refund purchase = true) : Refunds refund purchase := by
  simp only [isRefund, Bool.and_eq_true, Bool.not_eq_true', beq_iff_eq, decide_eq_true_eq] at refunds
  simp only [isPurchase, Bool.and_eq_true, Bool.not_eq_true', decide_eq_true_eq] at spends
  simp only [couldBe, Bool.and_eq_true, beq_iff_eq, decide_eq_true_eq] at fits
  obtain ⟨⟨settled, category⟩, back⟩ := refunds
  obtain ⟨⟨settled', spent⟩, spending⟩ := spends
  obtain ⟨⟨⟨⟨⟨⟨-, account⟩, currency⟩, earlier⟩, days⟩, amount⟩, similar⟩ := fits
  exact ⟨⟨settled, settled'⟩, category, back, ⟨spent, spending⟩, account, currency, earlier,
    ⟨daysAfter_nonneg earlier, days⟩, amount, descriptorSimilarity_pos.mp similar⟩

theorem mem_refunded (h : (refund, best) ∈ refunded C transactions) :
    refund ∈ transactions ∧ ∃ purchase ∈ transactions, best = scoreCandidate refund purchase ∧
      Refunds refund purchase := by
  have served : refund ∈ (refunded C transactions).map Prod.fst := List.mem_map_of_mem h
  obtain ⟨listed, isRefund_⟩ := List.mem_filter.mp
    ((List.mem_insertionSort _).mp (assign_sublist.subset served))
  obtain ⟨used, -, chosen⟩ := chosen_of_mem h
  obtain ⟨purchase, bought, spends, fits, made⟩ := bestCandidate_some chosen
  exact ⟨listed, purchase, bought, made, .of_couldBe isRefund_ spends fits⟩

theorem nodup_refundIds (ids : (transactions.map (·.id)).Nodup) :
    ((matchRefunds C transactions).map (·.refundId)).Nodup := by
  have sub : ((refunded C transactions).map Prod.fst).Sublist _ := assign_sublist
  have sorted := (List.perm_insertionSort (byDateThenId C) (transactions.filter isRefund)).map (·.id)
  have listed : ((transactions.filter isRefund).map (·.id)).Nodup := ids.sublist (List.filter_sublist.map _)
  have served := (sorted.nodup_iff.mpr listed).sublist (sub.map (·.id))
  rw [matchRefunds, List.map_map]
  rwa [List.map_map] at served

theorem nodup_purchaseIds : ((matchRefunds C transactions).map (·.purchaseId)).Nodup := by
  rw [matchRefunds, List.map_map]
  apply assign_nodup fun best : Candidate => best.purchase.id
  · intro used refund best chosen
    obtain ⟨purchase, -, -, fits, rfl⟩ := bestCandidate_some chosen
    exact couldBe_free fits
  · simp

/-! ### The order of the list -/

theorem orders_byScore (ids : (transactions.map (·.id)).Nodup)
    (strict : TellsApart C (transactions.map (·.id))) :
    Orders (byScore C) (candidates usedPurchases transactions refund) where
  total a _ b _ := by
    unfold byScore
    by_cases scores : a.score = b.score
    · by_cases days : a.daysAfter = b.daysAfter
      · simpa [scores, days] using C.total a.purchase.id b.purchase.id
      · have apart := lt_or_gt_of_ne days
        simp [scores, days, Ne.symm days, apart]
    · have apart := lt_or_gt_of_ne (Ne.symm scores)
      simp [scores, Ne.symm scores, apart]
  trans a _ b _ c _ hab hbc := by
    unfold byScore at hab hbc ⊢
    split at hab <;> split at hbc <;> rename_i first second
    · rw [if_pos (first.trans second)]
      split at hab <;> split at hbc <;> rename_i days days'
      · rw [if_pos (days.trans days')]
        exact C.trans _ _ _ hab hbc
      · rw [if_neg (days ▸ days'), days]
        exact hbc
      · rw [if_neg (days' ▸ days), ← days']
        exact hab
      · rw [if_neg (hab.trans hbc).ne]
        exact hab.trans hbc
    · rw [if_neg (first ▸ second), first]
      exact hbc
    · rw [if_neg (second ▸ first), ← second]
      exact hab
    · rw [if_neg (hbc.trans hab).ne']
      exact hbc.trans hab
  antisymm a ha b hb hab hba := by
    obtain ⟨purchase, chosen, rfl⟩ := List.mem_map.mp ha
    obtain ⟨purchase', chosen', rfl⟩ := List.mem_map.mp hb
    have listed := (List.mem_filter.mp (List.mem_filter.mp chosen).1).1
    have listed' := (List.mem_filter.mp (List.mem_filter.mp chosen').1).1
    unfold byScore at hab hba
    have scores : (scoreCandidate refund purchase).score = (scoreCandidate refund purchase').score := by
      by_contra other
      rw [if_neg other] at hab
      rw [if_neg (Ne.symm other)] at hba
      exact lt_asymm hab hba
    rw [if_pos scores] at hab
    rw [if_pos scores.symm] at hba
    have days : (scoreCandidate refund purchase).daysAfter = (scoreCandidate refund purchase').daysAfter := by
      by_contra other
      rw [if_neg other] at hab
      rw [if_neg (Ne.symm other)] at hba
      exact lt_asymm hab hba
    rw [if_pos days] at hab
    rw [if_pos days.symm] at hba
    have same := strict _ (List.mem_map_of_mem listed) _ (List.mem_map_of_mem listed') hab hba
    rw [eq_of_id ids listed listed' same]

theorem refunded_perm {transactions' : List Transaction} (ids : (transactions.map (·.id)).Nodup)
    (strict : TellsApart C (transactions.map (·.id))) (perm : transactions.Perm transactions') :
    refunded C transactions = refunded C transactions' := by
  have refunds : Orders (byDateThenId C) (transactions.filter isRefund) :=
    (orders_byDateThenId ids strict).subset (List.filter_subset_self _)
  have choices : bestCandidate C transactions = bestCandidate C transactions' := by
    funext used refund
    have same : (candidates used transactions refund).Perm (candidates used transactions' refund) :=
      ((perm.filter _).filter _).map _
    rw [bestCandidate, (orders_byScore ids strict).insertionSort_eq same, bestCandidate]
  rw [refunded, refunds.insertionSort_eq (perm.filter _), choices, refunded]

/-- The matches do not depend on the order of the list, use no refund and no purchase twice, and each
joins a refund to an earlier purchase. -/
theorem matchRefunds_spec (C : Collation) (transactions : List Transaction)
    (ids : (transactions.map (·.id)).Nodup) (strict : TellsApart C (transactions.map (·.id))) :
    (∀ transactions', transactions.Perm transactions' →
      matchRefunds C transactions' = matchRefunds C transactions) ∧
    ((matchRefunds C transactions).map (·.refundId)).Nodup ∧
    ((matchRefunds C transactions).map (·.purchaseId)).Nodup ∧
    ∀ match_ ∈ matchRefunds C transactions, ∃ refund ∈ transactions, ∃ purchase ∈ transactions,
      Refunds refund purchase ∧ match_ = toMatch refund (scoreCandidate refund purchase) := by
  refine ⟨?_, nodup_refundIds ids, nodup_purchaseIds, ?_⟩
  · intro transactions' perm
    rw [matchRefunds, matchRefunds, refunded_perm ids strict perm]
  · intro match_ stored
    obtain ⟨⟨refund, best⟩, paired, rfl⟩ := List.mem_map.mp stored
    obtain ⟨listed, purchase, bought, rfl, refunds⟩ := mem_refunded paired
    exact ⟨refund, listed, purchase, bought, refunds, rfl⟩

theorem march_twentieth : 1 ≤ 20 ∧ 20 ≤ Imports.daysInMonth 2026 3 := by decide

def shoes : Transaction :=
  ⟨⟨"txn_1", ⟨2026, 3, 2, march_month, march_second⟩, -12000, "CAD", "north shoes", none, "clothing",
    false, false⟩, "checking"⟩

def shoesBack : Transaction :=
  ⟨⟨"txn_2", ⟨2026, 3, 20, march_month, march_twentieth⟩, 12000, "CAD", "north shoes refund", none,
    "refunds", false, false⟩, "checking"⟩

theorem matchRefunds_shoes :
    matchRefunds byCharacters [shoesBack, shoes] = matchRefunds byCharacters [shoes, shoesBack] :=
  (matchRefunds_spec byCharacters [shoes, shoesBack] (by decide) (byCharacters_tellsApart _)).1
    [shoesBack, shoes] (List.Perm.swap _ _ _)

example : (matchRefunds byCharacters [shoesBack, shoes]).map (·.purchaseId) = ["txn_1"] := by decide +kernel

end Finverse.Transactions
