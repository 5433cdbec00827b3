import Finverse.Billing.Service

/-! The plan catalogue, and the plan a user is entitled to. -/

namespace Finverse.Billing

inductive Entitlement
  | unlimitedBankLinks
  | monthlyPdfReport
  | cashFlowPlanning
  | dataExport
  deriving DecidableEq, Repr

structure Plan where
  id : PlanId
  name : String
  bankLinkLimit : Nat
  entitlements : List Entitlement
  deriving DecidableEq, Repr

def PLANS : PlanId → Plan
  | .free => ⟨.free, "Free", 1, [.dataExport]⟩
  | .pro =>
    ⟨.pro, "Pro", 25, [.unlimitedBankLinks, .monthlyPdfReport, .cashFlowPlanning, .dataExport]⟩

def bankLinkLimitFor (planId : PlanId) : Nat := (PLANS planId).bankLinkLimit

def DEFAULT_PLAN : PlanId := .free

/-- The states that entitle the customer to the plan bought. A failed renewal does not end it yet. -/
def ENTITLING_STATUSES : List SubscriptionStatus := [.trialing, .active, .pastDue]

def GRACE_MS : Int := 24 * 60 * 60 * 1000

structure PlanStateInput where
  plan : PlanId
  status : SubscriptionStatus
  currentPeriodEnd : Option Int
  deriving DecidableEq, Repr

namespace PlanStateInput

/-- The paid period ended more than the grace window ago. -/
def lapsed (state : PlanStateInput) (now : Int) : Bool :=
  state.currentPeriodEnd.any fun periodEnd => periodEnd + GRACE_MS < now

/-- The state gives its plan now. -/
def entitles (state : PlanStateInput) (now : Int) : Bool :=
  state.status ∈ ENTITLING_STATUSES && !state.lapsed now

end PlanStateInput

def effectivePlan (state : Option PlanStateInput) (now : Int) : PlanId :=
  match state with
  | none => DEFAULT_PLAN
  | some state =>
    if state.status ∉ ENTITLING_STATUSES then DEFAULT_PLAN
    else if state.lapsed now then DEFAULT_PLAN
    else state.plan

def Subscription.state (subscription : Subscription) : PlanStateInput :=
  ⟨subscription.plan, subscription.status, subscription.currentPeriodEnd⟩

def ProviderSubscription.state (subscription : ProviderSubscription) : PlanStateInput :=
  ⟨subscription.plan, subscription.status, subscription.currentPeriodEnd⟩

theorem effectivePlan_some (state : PlanStateInput) (now : Int) :
    effectivePlan (some state) now = if state.entitles now then state.plan else DEFAULT_PLAN := by
  unfold effectivePlan PlanStateInput.entitles
  by_cases entitling : state.status ∈ ENTITLING_STATUSES
  · cases lapsed : state.lapsed now <;> simp [entitling, lapsed]
  · simp [entitling]

end Finverse.Billing
