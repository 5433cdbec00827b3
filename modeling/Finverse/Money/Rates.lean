import Finverse.Imports.Review
import Finverse.Money.Units

/-! Dated exchange rates, and conversions with them. -/

namespace Finverse.Money

open Imports (parseDay)
open Ledger (IsoDate)

inductive RateSource
  | manual
  | provider
  | statement
  deriving DecidableEq, Repr

/-- One unit of `base` costs `rate` of `quote`. -/
structure FxRate where
  id : String
  base : String
  quote : String
  rate : Rat
  rate_pos : 0 < rate
  asOf : IsoDate
  source : RateSource
  note : Option String
  createdAt : String
  deriving DecidableEq

structure NoRateAvailableError where
  base : String
  quote : String
  asOf : IsoDate
  deriving DecidableEq, Repr

structure FoundRate where
  rate : Rat
  used : FxRate
  inverted : Bool
  deriving DecidableEq

structure Conversion where
  amount : Int
  rate : Rat
  rateAsOf : IsoDate
  source : RateSource
  inverted : Bool
  stale : Bool
  /-- `none` where a date is no date. -/
  staleDays : Option Nat
  deriving DecidableEq

def STALE_AFTER_DAYS : Nat := 7

section Rates

variable (toUpperCase : String → String)

/-- The candidate, unless what is kept is as recent. -/
def newer (kept : Option FxRate) (candidate : FxRate) : Option FxRate :=
  if kept.all fun rate => rate.asOf < candidate.asOf then some candidate else kept

/-- The most recent direct rate and the most recent inverse one, after one more candidate. -/
def considerRate (source target asOf : String) (found : Option FxRate × Option FxRate)
    (candidate : FxRate) : Option FxRate × Option FxRate :=
  if asOf < candidate.asOf then found
  else if toUpperCase candidate.base = source ∧ toUpperCase candidate.quote = target then
    (newer found.1 candidate, found.2)
  else if toUpperCase candidate.base = target ∧ toUpperCase candidate.quote = source then
    (found.1, newer found.2 candidate)
  else found

/-- A direct rate wins even when an inverse one is newer. -/
def findRate (rates : List FxRate) (base quote : String) (asOf : IsoDate) : Option FoundRate :=
  let source := toUpperCase base
  let target := toUpperCase quote
  if source = target then none
  else
    match rates.foldl (considerRate toUpperCase source target asOf) (none, none) with
    | (some direct, _) => some ⟨direct.rate, direct, false⟩
    | (none, some inverse) => some ⟨1 / inverse.rate, inverse, true⟩
    | (none, none) => none

def convert (amountMinor : Int) (base quote : String) (asOf : IsoDate) (rates : List FxRate) :
    Except NoRateAvailableError Conversion :=
  let source := toUpperCase base
  let target := toUpperCase quote
  if source = target then .ok ⟨amountMinor, 1, asOf, .manual, false, false, some 0⟩
  else
    match findRate toUpperCase rates source target asOf with
    | none => .error ⟨source, target, asOf⟩
    | some found =>
      let staleDays := (parseDay asOf).bind fun day =>
        (parseDay found.used.asOf).map fun usedDay => day - usedDay
      .ok ⟨round (amountMinor * found.rate), found.rate, found.used.asOf, found.used.source,
        found.inverted, staleDays.any (STALE_AFTER_DAYS < ·), staleDays⟩

end Rates

/-! ### The rate that is found -/

section Found

variable {toUpperCase : String → String} {rates : List FxRate} {source target : String}
  {asOf : IsoDate}

/-- The rate is one for the pair that holds on the day. -/
structure Quotes (toUpperCase : String → String) (rates : List FxRate) (source target : String)
    (asOf : IsoDate) (rate : FxRate) : Prop where
  recorded : rate ∈ rates
  base : toUpperCase rate.base = source
  quote : toUpperCase rate.quote = target
  since : ¬asOf < rate.asOf

theorem newer_cases {kept : Option FxRate} {candidate rate : FxRate}
    (h : newer kept candidate = some rate) : rate = candidate ∨ kept = some rate := by
  unfold newer at h
  split at h
  · exact .inl (Option.some.inj h).symm
  · exact .inr h

theorem considerRate_quotes {found : Option FxRate × Option FxRate} {candidate : FxRate}
    (recorded : candidate ∈ rates)
    (direct : ∀ rate ∈ found.1, Quotes toUpperCase rates source target asOf rate)
    (inverse : ∀ rate ∈ found.2, Quotes toUpperCase rates target source asOf rate) :
    (∀ rate ∈ (considerRate toUpperCase source target asOf found candidate).1,
      Quotes toUpperCase rates source target asOf rate) ∧
    ∀ rate ∈ (considerRate toUpperCase source target asOf found candidate).2,
      Quotes toUpperCase rates target source asOf rate := by
  unfold considerRate
  split
  · exact ⟨direct, inverse⟩
  rename_i since
  split
  · rename_i pair
    refine ⟨fun rate h => ?_, inverse⟩
    rcases newer_cases h with rfl | kept
    · exact ⟨recorded, pair.1, pair.2, since⟩
    · exact direct rate kept
  split
  · rename_i pair
    refine ⟨direct, fun rate h => ?_⟩
    rcases newer_cases h with rfl | kept
    · exact ⟨recorded, pair.1, pair.2, since⟩
    · exact inverse rate kept
  · exact ⟨direct, inverse⟩

theorem foldl_considerRate_quotes (candidates : List FxRate) (recorded : ∀ rate ∈ candidates, rate ∈ rates)
    (found : Option FxRate × Option FxRate)
    (direct : ∀ rate ∈ found.1, Quotes toUpperCase rates source target asOf rate)
    (inverse : ∀ rate ∈ found.2, Quotes toUpperCase rates target source asOf rate) :
    (∀ rate ∈ (candidates.foldl (considerRate toUpperCase source target asOf) found).1,
      Quotes toUpperCase rates source target asOf rate) ∧
    ∀ rate ∈ (candidates.foldl (considerRate toUpperCase source target asOf) found).2,
      Quotes toUpperCase rates target source asOf rate := by
  induction candidates generalizing found with
  | nil => exact ⟨direct, inverse⟩
  | cons candidate candidates ih =>
    have step := considerRate_quotes (recorded candidate List.mem_cons_self) direct inverse
    exact ih (fun rate h => recorded rate (List.mem_cons_of_mem _ h)) _ step.1 step.2

/-- The rate that is used is a recorded one for the pair, or one over a recorded one for the pair the
other way round. -/
theorem findRate_cases {base quote : String} {found : FoundRate}
    (h : findRate toUpperCase rates base quote asOf = some found) :
    Quotes toUpperCase rates (toUpperCase base) (toUpperCase quote) asOf found.used ∧
        found.rate = found.used.rate ∨
      Quotes toUpperCase rates (toUpperCase quote) (toUpperCase base) asOf found.used ∧
        found.rate = 1 / found.used.rate := by
  unfold findRate at h
  dsimp only at h
  split at h
  · cases h
  have quotes : (∀ rate ∈ (rates.foldl (considerRate toUpperCase (toUpperCase base)
        (toUpperCase quote) asOf) (none, none)).1,
      Quotes toUpperCase rates (toUpperCase base) (toUpperCase quote) asOf rate) ∧ _ :=
    foldl_considerRate_quotes rates (fun _ stored => stored) (none, none) (by simp) (by simp)
  split at h
  · rename_i direct _ hfold
    obtain rfl := Option.some.inj h
    exact .inl ⟨quotes.1 direct (by rw [hfold]; rfl), rfl⟩
  · rename_i inverse hfold
    obtain rfl := Option.some.inj h
    exact .inr ⟨quotes.2 inverse (by rw [hfold]; rfl), rfl⟩
  · cases h

theorem findRate_pos {base quote : String} {found : FoundRate}
    (h : findRate toUpperCase rates base quote asOf = some found) : 0 < found.rate := by
  rcases findRate_cases h with ⟨_, hrate⟩ | ⟨_, hrate⟩
  · rw [hrate]
    exact found.used.rate_pos
  · rw [hrate]
    exact one_div_pos.mpr found.used.rate_pos

end Found

/-! ### The amount -/

section Nearest

variable (toUpperCase : String → String)

/-- How many minor units of `quote` are as much as one of `base` at a rate of one. -/
def unitFactor (base quote : String) : Rat :=
  10 ^ ((exponentOf toUpperCase quote : Int) - exponentOf toUpperCase base)

theorem unitFactor_far {base quote : String}
    (h : exponentOf toUpperCase quote ≠ exponentOf toUpperCase base) :
    Far (unitFactor toUpperCase base quote) :=
  far_zpow (by omega)

/-- A conversion is the nearest amount exactly between currencies of one exponent, and around
zero. -/
theorem convert_nearest_iff (amount : Int) (base quote : String) (asOf : IsoDate)
    (rates : List FxRate) (found : FoundRate)
    (h : findRate toUpperCase rates (toUpperCase base) (toUpperCase quote) asOf = some found) :
    ∃ conversion, convert toUpperCase amount base quote asOf rates = .ok conversion ∧
      (|(conversion.amount : Rat) - amount * found.rate * unitFactor toUpperCase base quote| ≤ 1 / 2 ↔
        exponentOf toUpperCase quote = exponentOf toUpperCase base ∨
          (-1 / 2 ≤ amount * found.rate ∧ amount * found.rate < 1 / 2) ∧
            |amount * found.rate * unitFactor toUpperCase base quote| ≤ 1 / 2) := by
  have distinct : toUpperCase base ≠ toUpperCase quote := by
    intro same
    rw [findRate, same] at h
    simp at h
  refine ⟨_, by rw [convert]; simp only [if_neg distinct, h]; rfl, ?_⟩
  by_cases same : exponentOf toUpperCase quote = exponentOf toUpperCase base
  · have one : unitFactor toUpperCase base quote = 1 := by simp [unitFactor, same]
    rw [one, mul_one]
    refine iff_of_true ?_ (.inl same)
    rw [abs_sub_comm]
    exact abs_sub_round _
  · rw [round_near_scaled_iff (unitFactor_far toUpperCase same)]
    simp only [same, false_or]

/-- What `base` costs in `quote` on a day. -/
def sampleRate (base quote : String) (rate : Rat) (rate_pos : 0 < rate) : FxRate :=
  ⟨"r1", base, quote, rate, rate_pos, "2026-03-01", .manual, none, "2026-03-01T00:00:00.000Z"⟩

def eurosToDollars : FxRate := sampleRate "EUR" "USD" (11 / 10) (by norm_num)

def dollarsToYen : FxRate := sampleRate "USD" "JPY" 150 (by norm_num)

/-- From dollars to euros there is the inverse rate. -/
theorem convert_nearest_iff_inverse :
    ∃ found conversion,
      findRate String.toUpper [eurosToDollars] (String.toUpper "USD") (String.toUpper "EUR")
        "2026-03-05" = some found ∧
      convert String.toUpper 10000 "USD" "EUR" "2026-03-05" [eurosToDollars] = .ok conversion ∧
      |(conversion.amount : Rat) - (10000 : Int) * found.rate *
        unitFactor String.toUpper "USD" "EUR"| ≤ 1 / 2 := by
  have found : findRate String.toUpper [eurosToDollars] (String.toUpper "USD") (String.toUpper "EUR")
      "2026-03-05" = some ⟨1 / (11 / 10), eurosToDollars, true⟩ := by decide +kernel
  have exponents : exponentOf String.toUpper "EUR" = exponentOf String.toUpper "USD" := by
    decide +kernel
  obtain ⟨conversion, converted, near⟩ := convert_nearest_iff String.toUpper 10000 "USD" "EUR"
    "2026-03-05" [eurosToDollars] _ found
  exact ⟨_, conversion, found, converted, near.mpr (.inl exponents)⟩

/-- A hundred dollars at 150 yen each are converted to one and a half million yen. -/
theorem convert_hundredfold :
    ∃ conversion, convert String.toUpper 10000 "USD" "JPY" "2026-03-05" [dollarsToYen] = .ok conversion ∧
      conversion.rate = 150 ∧ conversion.amount = 1500000 ∧
      ¬|(conversion.amount : Rat) - 10000 * conversion.rate * unitFactor String.toUpper "USD" "JPY"| ≤
        1 / 2 := by
  have converted : convert String.toUpper 10000 "USD" "JPY" "2026-03-05" [dollarsToYen] =
      .ok ⟨1500000, 150, "2026-03-01", .manual, false, false, some 4⟩ := by decide +kernel
  have exponents : exponentOf String.toUpper "USD" = 2 ∧ exponentOf String.toUpper "JPY" = 0 := by
    decide +kernel
  refine ⟨_, converted, rfl, rfl, ?_⟩
  rw [unitFactor, exponents.1, exponents.2]
  norm_num [abs_le]

end Nearest

end Finverse.Money
