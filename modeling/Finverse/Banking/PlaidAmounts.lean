import Finverse.Insights.Forecast
import Finverse.Money.Units

/-! Accounts and transactions as the aggregator reports them, in minor units. -/

namespace Finverse.Banking

open Insights (AccountType)
open Ledger (IsoDate RawTransaction)
open Money (exponentOf majorToMinor)

structure PlaidBalances where
  current : Option Rat
  available : Option Rat
  limit : Option Rat
  isoCurrencyCode : Option String
  deriving DecidableEq

structure AccountBase where
  accountId : String
  name : String
  type : String
  subtype : Option String
  mask : Option String
  balances : PlaidBalances
  deriving DecidableEq

structure PlaidTransaction where
  transactionId : String
  accountId : String
  date : IsoDate
  amount : Rat
  isoCurrencyCode : Option String
  originalDescription : Option String
  merchantName : Option String
  name : String
  pending : Bool
  deriving DecidableEq

structure Account where
  id : String
  name : String
  type : AccountType
  mask : String
  currency : String
  balanceCurrent : Int
  creditLimit : Option Int
  deriving DecidableEq

def toAccountType (account : AccountBase) : AccountType :=
  match account.type with
  | "credit" => .creditCard
  | "investment" | "brokerage" => .investment
  | "loan" => .loan
  | "depository" => if account.subtype = some "savings" then .savings else .checking
  | _ => .cash

def minorUnits (value : Option Rat) : Int := round (value.getD 0 * 100)

/-- `slice(-4)` -/
def lastFour (mask : String) : String := String.ofList (mask.toList.drop (mask.length - 4))

def toAccount (account : AccountBase) : Account :=
  let type := toAccountType account
  let current := minorUnits (account.balances.current <|> account.balances.available)
  { id := account.accountId
    name := account.name
    type := type
    mask := (account.mask.map lastFour).getD "----"
    currency := account.balances.isoCurrencyCode.getD "USD"
    balanceCurrent := if type = .creditCard ∨ type = .loan then -|current| else current
    creditLimit := account.balances.limit.map fun limit => minorUnits (some limit) }

/-- An outflow is positive there, and negative here. -/
def toRawTransaction (transaction : PlaidTransaction) : RawTransaction :=
  { providerTxnId := transaction.transactionId
    accountId := transaction.accountId
    postedAt := transaction.date
    amount := -minorUnits (some transaction.amount)
    currency := transaction.isoCurrencyCode.getD "USD"
    descriptor := (transaction.originalDescription <|> transaction.merchantName).getD transaction.name
    pending := transaction.pending }

/-! ### Exact amounts -/

/-- The currency has digits for all of the amount. -/
def Expressible (toUpperCase : String → String) (currency : String) (value : Rat) : Prop :=
  ∃ minor : Int, value * 10 ^ exponentOf toUpperCase currency = minor

section Exact

variable {toUpperCase : String → String} {currency : String} {value factor : Rat}

theorem round_scaled_far (minor : Int) (h : Money.Far factor)
    (same : |round ((minor : Rat) * factor)| = |minor|) : minor = 0 := by
  obtain ⟨lower, upper⟩ := Money.round_bounds ((minor : Rat) * factor)
  by_contra nonzero
  have sign : (minor : Rat) ≤ -1 ∨ (1 : Rat) ≤ minor := by
    rcases lt_or_gt_of_ne nonzero with negative | positive
    · exact .inl (by exact_mod_cast Int.le_sub_one_of_lt negative)
    · exact .inr (by exact_mod_cast positive)
  have pos := h.pos
  rcases abs_eq_abs.mp same with equal | opposite
  · rw [equal] at lower upper
    rcases sign with sign | sign <;> rcases h with h | h <;> nlinarith
  · rw [opposite, Int.cast_neg] at lower upper
    rcases sign with sign | sign <;> nlinarith

/-- The two places after the point, in an amount that has as many as its currency. -/
theorem minorUnits_expressible {minor : Int}
    (h : value * 10 ^ exponentOf toUpperCase currency = minor) :
    minorUnits (some value) =
      round ((minor : Rat) * 10 ^ ((2 : Int) - exponentOf toUpperCase currency)) := by
  have ten : (10 : Rat) ≠ 0 := by norm_num
  rw [minorUnits, Option.getD_some, ← h, zpow_sub₀ ten, zpow_natCast]
  congr 1
  field_simp
  norm_num

theorem abs_minorUnits_iff (h : Expressible toUpperCase currency value) :
    |minorUnits (some value)| = |majorToMinor toUpperCase value currency| ↔
      exponentOf toUpperCase currency = 2 ∨ value = 0 := by
  obtain ⟨minor, hminor⟩ := h
  rw [minorUnits_expressible hminor, Money.majorToMinor_exact toUpperCase hminor]
  constructor
  · intro same
    rw [or_iff_not_imp_left]
    intro other
    have zero : minor = 0 := round_scaled_far minor (Money.far_zpow (by omega)) same
    rw [zero, Int.cast_zero] at hminor
    exact (mul_eq_zero.mp hminor).resolve_right (pow_ne_zero _ (by norm_num))
  · rintro (two | rfl)
    · simp [two]
    · have zero : minor = 0 := by simpa using hminor.symm
      simp [zero]

theorem minorUnits_eq_iff (h : Expressible toUpperCase currency value) :
    minorUnits (some value) = majorToMinor toUpperCase value currency ↔
      exponentOf toUpperCase currency = 2 ∨ value = 0 := by
  refine ⟨fun same => (abs_minorUnits_iff h).mp (by rw [same]), ?_⟩
  obtain ⟨minor, hminor⟩ := h
  rw [minorUnits_expressible hminor, Money.majorToMinor_exact toUpperCase hminor]
  rintro (two | rfl)
  · simp [two]
  · have zero : minor = 0 := by simpa using hminor.symm
    simp [zero]

end Exact

/-- Amounts, balances and limits are stored exactly where the currency has two decimals, or where
they are zero. -/
theorem plaid_amounts_exact_iff (toUpperCase : String → String) :
    (∀ (value : Rat) (currency : String), Expressible toUpperCase currency value →
      (majorToMinor toUpperCase value currency : Rat) = value * 10 ^ exponentOf toUpperCase currency) ∧
    (∀ transaction : PlaidTransaction,
      let stored := toRawTransaction transaction
      Expressible toUpperCase stored.currency transaction.amount →
      (stored.amount = -majorToMinor toUpperCase transaction.amount stored.currency ↔
        exponentOf toUpperCase stored.currency = 2 ∨ transaction.amount = 0)) ∧
    ∀ (account : AccountBase) (value : Rat),
      let stored := toAccount account
      Expressible toUpperCase stored.currency value →
      ((account.balances.current <|> account.balances.available) = some value →
        (stored.balanceCurrent =
            (if stored.type = .creditCard ∨ stored.type = .loan then
              -|majorToMinor toUpperCase value stored.currency|
            else majorToMinor toUpperCase value stored.currency) ↔
          exponentOf toUpperCase stored.currency = 2 ∨ value = 0)) ∧
      (account.balances.limit = some value →
        (stored.creditLimit = some (majorToMinor toUpperCase value stored.currency) ↔
          exponentOf toUpperCase stored.currency = 2 ∨ value = 0)) := by
  refine ⟨?_, ?_, ?_⟩
  · rintro value currency ⟨minor, hminor⟩
    rw [Money.majorToMinor_exact toUpperCase hminor, hminor]
  · intro transaction stored expressible
    rw [← minorUnits_eq_iff expressible]
    exact neg_inj
  · intro account value stored expressible
    constructor
    · intro reported
      have hbalance : stored.balanceCurrent =
          if stored.type = .creditCard ∨ stored.type = .loan then -|minorUnits (some value)|
          else minorUnits (some value) := by
        rw [← reported]
        rfl
      rw [hbalance]
      split
      · rw [neg_inj]
        exact abs_minorUnits_iff expressible
      · exact minorUnits_eq_iff expressible
    · intro limit
      have hlimit : stored.creditLimit = some (minorUnits (some value)) := by
        simp only [stored, toAccount, limit, Option.map_some]
      rw [hlimit, Option.some_inj]
      exact minorUnits_eq_iff expressible

/-- A purchase of an amount, in a currency. -/
def samplePurchase (amount : Rat) (currency : String) : PlaidTransaction :=
  ⟨"t1", "a1", "2026-03-05", amount, some currency, none, none, "Coffee", false⟩

def sampleAccount (type : String) (value : Rat) (currency : String) : AccountBase :=
  ⟨"a1", "Card", type, none, some "123456", ⟨some value, none, some value, some currency⟩⟩

theorem plaid_amounts_exact_dollars :
    (toRawTransaction (samplePurchase (9 / 2) "USD")).amount =
        -majorToMinor String.toUpper (9 / 2) "USD" ∧
      (toAccount (sampleAccount "credit" (9 / 2) "USD")).balanceCurrent =
        -|majorToMinor String.toUpper (9 / 2) "USD"| ∧
      (toAccount (sampleAccount "credit" (9 / 2) "USD")).creditLimit =
        some (majorToMinor String.toUpper (9 / 2) "USD") := by
  have two : exponentOf String.toUpper "USD" = 2 := by decide +kernel
  have expressible : Expressible String.toUpper "USD" (9 / 2) := ⟨450, by rw [two]; norm_num⟩
  obtain ⟨_, transactions, accounts⟩ := plaid_amounts_exact_iff String.toUpper
  have account := accounts (sampleAccount "credit" (9 / 2) "USD") (9 / 2) expressible
  exact ⟨(transactions (samplePurchase (9 / 2) "USD") expressible).mpr (.inl two),
    (account.1 rfl).mpr (.inl two), (account.2 rfl).mpr (.inl two)⟩

/-- A purchase of 1500 yen is stored as one of 150000. -/
theorem plaid_amounts_hundredfold :
    Expressible String.toUpper "JPY" 1500 ∧ majorToMinor String.toUpper 1500 "JPY" = 1500 ∧
      (toRawTransaction (samplePurchase 1500 "JPY")).amount = -150000 := by
  have zero : exponentOf String.toUpper "JPY" = 0 := by decide +kernel
  have exact_ : (1500 : Rat) * 10 ^ exponentOf String.toUpper "JPY" = (1500 : Int) := by
    rw [zero]
    norm_num
  refine ⟨⟨1500, exact_⟩, Money.majorToMinor_exact String.toUpper exact_, ?_⟩
  decide +kernel

end Finverse.Banking
