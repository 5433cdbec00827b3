import Finverse.Insights.Subscriptions

/-! The category tree, with the names and the parents. -/

namespace Finverse.Insights

def UNKNOWN_CATEGORY : String := "unknown"

structure CategoryDef where
  slug : String
  name : String
  parent : Option String

/-- The categories, in the order of their kinds. -/
def CATEGORY_TREE : List CategoryDef :=
  [⟨"housing", "Housing", none⟩, ⟨"rent", "Rent", some "housing"⟩,
    ⟨"mortgage", "Mortgage", some "housing"⟩, ⟨"utilities", "Utilities", some "housing"⟩,
    ⟨"internet", "Internet", some "housing"⟩, ⟨"phone", "Phone", some "housing"⟩,
    ⟨"food", "Food", none⟩, ⟨"groceries", "Groceries", some "food"⟩,
    ⟨"restaurants", "Restaurants", some "food"⟩, ⟨"coffee", "Coffee", some "food"⟩,
    ⟨"fast_food", "Fast Food", some "food"⟩, ⟨"food_delivery", "Food Delivery", some "food"⟩,
    ⟨"transportation", "Transportation", none⟩, ⟨"fuel", "Fuel", some "transportation"⟩,
    ⟨"public_transit", "Public Transit", some "transportation"⟩,
    ⟨"rideshare", "Ride Sharing", some "transportation"⟩,
    ⟨"parking", "Parking", some "transportation"⟩, ⟨"healthcare", "Healthcare", none⟩,
    ⟨"pharmacy", "Pharmacy", some "healthcare"⟩, ⟨"insurance", "Insurance", some "healthcare"⟩,
    ⟨"shopping", "Shopping", none⟩, ⟨"clothing", "Clothing", some "shopping"⟩,
    ⟨"electronics", "Electronics", some "shopping"⟩, ⟨"entertainment", "Entertainment", none⟩,
    ⟨"streaming", "Streaming", some "entertainment"⟩, ⟨"gaming", "Gaming", some "entertainment"⟩,
    ⟨"fitness", "Fitness", some "entertainment"⟩, ⟨"travel", "Travel", none⟩,
    ⟨"subscriptions", "Subscriptions", none⟩, ⟨"software", "Software", some "subscriptions"⟩,
    ⟨"debt", "Debt", none⟩, ⟨"loan_payment", "Loan Payment", some "debt"⟩,
    ⟨"credit_card_payment", "Credit Card Payment", some "debt"⟩, ⟨"taxes", "Taxes", none⟩,
    ⟨"fees", "Fees & Interest", none⟩, ⟨"income", "Income", none⟩,
    ⟨"salary", "Salary", some "income"⟩, ⟨"freelance", "Freelance", some "income"⟩,
    ⟨"refunds", "Refunds", some "income"⟩, ⟨"interest_income", "Interest", some "income"⟩,
    ⟨"savings", "Savings", none⟩, ⟨"investments", "Investments", none⟩,
    ⟨"transfer", "Transfer", none⟩, ⟨UNKNOWN_CATEGORY, "Unknown", none⟩]

theorem CATEGORY_TREE_slugs : CATEGORY_TREE.map (·.slug) = CATEGORIES.map Prod.fst := rfl

def getCategory (slug : String) : Option CategoryDef := CATEGORY_TREE.find? fun category => category.slug = slug

def ESSENTIAL_ROOTS : List String :=
  ["housing", "food", "transportation", "healthcare", "debt", "taxes", "fees"]

def DISCRETIONARY_CATEGORIES : List String :=
  ["restaurants", "coffee", "fast_food", "food_delivery", "parking", "rideshare", "shopping",
    "clothing", "electronics", "entertainment", "streaming", "gaming", "fitness", "travel",
    "subscriptions", "software"]

/-- The walk to the top, in at most so many steps. -/
def rootFrom : Nat → CategoryDef → CategoryDef
  | 0, current => current
  | steps + 1, current =>
    match current.parent.bind getCategory with
    | none => current
    | some parent => rootFrom steps parent

def rootCategoryOf (slug : String) : String :=
  match getCategory slug with
  | none => UNKNOWN_CATEGORY
  | some current => (rootFrom CATEGORY_TREE.length current).slug

def isEssentialCategory (slug : String) : Bool :=
  slug ∉ DISCRETIONARY_CATEGORIES && rootCategoryOf slug ∈ ESSENTIAL_ROOTS

def displayName (slug : String) : String := ((getCategory slug).map (·.name)).getD "Unknown"

/-- The walk ends at the top. -/
theorem rootFrom_top : ∀ category ∈ CATEGORY_TREE,
    (rootFrom CATEGORY_TREE.length category).parent = none := by
  decide +kernel

/-- What is earned is not spent. -/
theorem isIncomeCategory_spending {slug : String} (income : isIncomeCategory slug = true) :
    isSpendingCategory slug = false := by
  rw [isIncomeCategory, beq_iff_eq] at income
  rw [isSpendingCategory, income]
  rfl

end Finverse.Insights
