import Finverse.Framework.OrderedMap
import Finverse.Money.Rates
import Mathlib.Data.List.MinMax
import Mathlib.Data.List.Pairwise
import Mathlib.Data.List.Sort
import Mathlib.Data.String.Basic

/-! Totals in several currencies as one figure, and the store of the rates. -/

namespace Finverse.Money

open Ledger (IsoDate)

structure CurrencyTotal where
  currency : String
  amount : Int
  deriving DecidableEq, Repr

structure RateUsed where
  base : String
  quote : String
  rate : Rat
  asOf : IsoDate
  source : RateSource
  stale : Bool
  deriving DecidableEq

structure CombinedTotal where
  currency : String
  amount : Int
  ratesUsed : List RateUsed
  missing : List String
  incomplete : Bool
  deriving DecidableEq

section Combine

variable (toUpperCase : String → String)

/-- The figure after one more total. -/
def combineTotal (target : String) (asOf : IsoDate) (rates : List FxRate) (sofar : CombinedTotal)
    (total : CurrencyTotal) : CombinedTotal :=
  let source := toUpperCase total.currency
  if source = target then { sofar with amount := sofar.amount + total.amount }
  else
    match convert toUpperCase total.amount source target asOf rates with
    | .ok converted =>
      { sofar with
        amount := sofar.amount + converted.amount
        ratesUsed := sofar.ratesUsed ++ [⟨source, target, converted.rate, converted.rateAsOf,
          converted.source, converted.stale⟩] }
    | .error _ => { sofar with missing := sofar.missing ++ [source] }

def combineTotals (totals : List CurrencyTotal) (target : String) (asOf : IsoDate)
    (rates : List FxRate) : CombinedTotal :=
  let target := toUpperCase target
  let combined := totals.foldl (combineTotal toUpperCase target asOf rates) ⟨target, 0, [], [], false⟩
  { combined with incomplete := combined.missing ≠ [] }

end Combine

/-! ### The store -/

structure InMemoryFxRateStore where
  byUser : OrdMap String (List FxRate) := ∅

namespace InMemoryFxRateStore

variable (toUpperCase : String → String) (localeCompare : String → String → Ordering)
  (st : InMemoryFxRateStore)

def bucket (userId : String) : List FxRate := (st.byUser.get? userId).getD []

/-- The latest day first, and by the base currency within a day. -/
def list (userId : String) : List FxRate :=
  (st.bucket userId).insertionSort fun a b =>
    (localeCompare b.asOf a.asOf).then (localeCompare a.base b.base) ≠ .gt

/-- A second rate for the same pair and day replaces the first one, and keeps its id. -/
def upsertRow (stored : FxRate) : List FxRate → List FxRate
  | [] => [stored]
  | row :: rows =>
    if toUpperCase row.base = stored.base ∧ toUpperCase row.quote = stored.quote ∧
        row.asOf = stored.asOf then { stored with id := row.id } :: rows
    else row :: upsertRow stored rows

def upsert (userId : String) (rate : FxRate) : InMemoryFxRateStore :=
  let stored := { rate with base := toUpperCase rate.base, quote := toUpperCase rate.quote }
  ⟨st.byUser.set userId (upsertRow toUpperCase stored (st.bucket userId))⟩

def remove (userId id : String) : InMemoryFxRateStore :=
  ⟨st.byUser.set userId ((st.bucket userId).eraseP fun row => row.id = id)⟩

end InMemoryFxRateStore

/-! ### The latest rate -/

/-- The rates are for different pairs or for different days. -/
def Differ (toUpperCase : String → String) (a b : FxRate) : Prop :=
  ¬(toUpperCase a.base = toUpperCase b.base ∧ toUpperCase a.quote = toUpperCase b.quote ∧
    a.asOf = b.asOf)

instance (toUpperCase : String → String) : Std.Symm (Differ toUpperCase) :=
  ⟨fun _ _ apart same => apart ⟨same.1.symm, same.2.1.symm, same.2.2.symm⟩⟩

/-- There is at most one rate for a pair on a day. -/
def OnePerDay (toUpperCase : String → String) (rates : List FxRate) : Prop :=
  rates.Pairwise (Differ toUpperCase)

/-- The rates that are not dated after the day. -/
def past (asOf : IsoDate) (rates : List FxRate) : List FxRate :=
  rates.filter fun rate => ¬asOf < rate.asOf

def latest (rates : List FxRate) : Option FxRate := rates.foldl newer none

section Latest

variable {toUpperCase : String → String}

def quoting (toUpperCase : String → String) (source target : String) (rates : List FxRate) :
    List FxRate :=
  rates.filter fun rate => toUpperCase rate.base = source ∧ toUpperCase rate.quote = target

theorem newer_eq_argAux (kept : Option FxRate) (candidate : FxRate) :
    newer kept candidate =
      List.argAux (fun later sooner : FxRate => sooner.asOf < later.asOf) kept candidate := by
  cases kept with
  | none => rfl
  | some rate =>
    simp [newer, List.argAux]

theorem latest_eq_argmax (rates : List FxRate) : latest rates = rates.argmax (·.asOf) := by
  rw [latest, List.argmax]
  congr 1
  funext kept candidate
  exact newer_eq_argAux kept candidate

/-- The scan keeps the latest rate for the pair, and the latest one the other way round. -/
theorem foldl_considerRate {source target : String} (apart : source ≠ target) (asOf : IsoDate)
    (rates : List FxRate) (found : Option FxRate × Option FxRate) :
    rates.foldl (considerRate toUpperCase source target asOf) found =
      ((quoting toUpperCase source target (past asOf rates)).foldl newer found.1,
        (quoting toUpperCase target source (past asOf rates)).foldl newer found.2) := by
  induction rates generalizing found with
  | nil => rfl
  | cons rate rates ih =>
    rw [List.foldl_cons, ih, considerRate]
    by_cases future : asOf < rate.asOf
    · have passed : past asOf (rate :: rates) = past asOf rates :=
        List.filter_cons_of_neg fun kept => of_decide_eq_true kept future
      rw [if_pos future, passed]
    have kept : past asOf (rate :: rates) = rate :: past asOf rates :=
      List.filter_cons_of_pos (decide_eq_true future)
    rw [if_neg future, kept]
    by_cases direct : toUpperCase rate.base = source ∧ toUpperCase rate.quote = target
    · have other : ¬(toUpperCase rate.base = target ∧ toUpperCase rate.quote = source) :=
        fun inverse => apart (direct.1.symm.trans inverse.1)
      simp [quoting, direct, apart]
    · rw [if_neg direct]
      by_cases inverse : toUpperCase rate.base = target ∧ toUpperCase rate.quote = source
      · simp [quoting, inverse, apart.symm]
      · simp [quoting, direct, inverse]

/-- The direct rate and the inverse one, as the rates up to the day have them. -/
theorem findRate_eq (rates : List FxRate) (base quote : String) (asOf : IsoDate) :
    findRate toUpperCase rates base quote asOf =
      if toUpperCase base = toUpperCase quote then none
      else
        match (latest (quoting toUpperCase (toUpperCase base) (toUpperCase quote) (past asOf rates)),
          latest (quoting toUpperCase (toUpperCase quote) (toUpperCase base) (past asOf rates))) with
        | (some direct, _) => some ⟨direct.rate, direct, false⟩
        | (none, some inverse) => some ⟨1 / inverse.rate, inverse, true⟩
        | (none, none) => none := by
  rw [findRate]
  split
  · rfl
  · rename_i apart
    rw [foldl_considerRate apart]
    rfl

theorem mem_quoting_past {source target : String} {asOf : IsoDate} {rates : List FxRate}
    {rate : FxRate} : rate ∈ quoting toUpperCase source target (past asOf rates) ↔
      Quotes toUpperCase rates source target asOf rate := by
  rw [quoting, past, List.mem_filter, List.mem_filter, decide_eq_true_iff, decide_eq_true_iff]
  constructor
  · rintro ⟨⟨recorded, since⟩, base, quote⟩
    exact ⟨recorded, base, quote, since⟩
  · rintro ⟨recorded, base, quote, since⟩
    exact ⟨⟨recorded, since⟩, base, quote⟩

/-- No rate for the pair is later, among those up to the day. -/
def Latest (toUpperCase : String → String) (rates : List FxRate) (source target : String)
    (asOf : IsoDate) (rate : FxRate) : Prop :=
  Quotes toUpperCase rates source target asOf rate ∧
    ∀ other, Quotes toUpperCase rates source target asOf other → ¬rate.asOf < other.asOf

theorem OnePerDay.eq {rates : List FxRate} (unique : OnePerDay toUpperCase rates) {a b : FxRate}
    (left : a ∈ rates) (right : b ∈ rates) (base : toUpperCase a.base = toUpperCase b.base)
    (quote : toUpperCase a.quote = toUpperCase b.quote) (day : a.asOf = b.asOf) : a = b := by
  by_contra other
  exact List.Pairwise.forall unique left right other ⟨base, quote, day⟩

theorem Quotes.mem_past {source target : String} {asOf : IsoDate} {rates : List FxRate}
    {rate : FxRate} (quotes : Quotes toUpperCase rates source target asOf rate) :
    rate ∈ past asOf rates :=
  List.mem_filter.mpr ⟨quotes.recorded, decide_eq_true quotes.since⟩

theorem latest_eq_some_iff {source target : String} {asOf : IsoDate} {rates : List FxRate}
    (unique : OnePerDay toUpperCase (past asOf rates)) {rate : FxRate} :
    latest (quoting toUpperCase source target (past asOf rates)) = some rate ↔
      Latest toUpperCase rates source target asOf rate := by
  rw [latest_eq_argmax, List.argmax_eq_some_iff, mem_quoting_past, Latest]
  apply and_congr_right
  intro quotes
  constructor
  · rintro ⟨most, -⟩ other quotes'
    exact not_lt.mpr (most other (mem_quoting_past.mpr quotes'))
  · intro most
    refine ⟨fun other mem => not_lt.mp (most other (mem_quoting_past.mp mem)), ?_⟩
    intro other mem later
    have quotes' := mem_quoting_past.mp mem
    have day : rate.asOf = other.asOf := le_antisymm later (not_lt.mp (most other quotes'))
    have same : rate = other := unique.eq quotes.mem_past quotes'.mem_past
      (quotes.base.trans quotes'.base.symm) (quotes.quote.trans quotes'.quote.symm) day
    rw [same]

/-! ### What does not change -/

/-- The rates up to the day are the same ones, in any order, whatever comes after. -/
def SamePast (asOf : IsoDate) (rates rates' : List FxRate) : Prop :=
  (past asOf rates').Perm (past asOf rates)

variable {asOf : IsoDate} {rates rates' : List FxRate}

theorem latest_samePast (unique : OnePerDay toUpperCase rates) (same : SamePast asOf rates rates')
    (source target : String) :
    latest (quoting toUpperCase source target (past asOf rates')) =
      latest (quoting toUpperCase source target (past asOf rates)) := by
  have unique_past : OnePerDay toUpperCase (past asOf rates) := List.Pairwise.filter _ unique
  have unique_past' : OnePerDay toUpperCase (past asOf rates') :=
    (List.Perm.pairwise_iff (fun h => Std.Symm.symm _ _ h) same).mpr unique_past
  have quotes : ∀ rate, Quotes toUpperCase rates' source target asOf rate ↔
      Quotes toUpperCase rates source target asOf rate := by
    intro rate
    rw [← mem_quoting_past, ← mem_quoting_past]
    exact (same.filter _).mem_iff
  apply Option.ext
  intro rate
  rw [latest_eq_some_iff unique_past', latest_eq_some_iff unique_past, Latest, Latest]
  simp only [quotes]

theorem findRate_samePast (unique : OnePerDay toUpperCase rates)
    (same : SamePast asOf rates rates') (base quote : String) :
    findRate toUpperCase rates' base quote asOf = findRate toUpperCase rates base quote asOf := by
  rw [findRate_eq, findRate_eq, latest_samePast unique same, latest_samePast unique same]

theorem convert_samePast (unique : OnePerDay toUpperCase rates)
    (same : SamePast asOf rates rates') (amount : Int) (base quote : String) :
    convert toUpperCase amount base quote asOf rates' =
      convert toUpperCase amount base quote asOf rates := by
  rw [convert, convert, findRate_samePast unique same]

theorem combineTotals_samePast (unique : OnePerDay toUpperCase rates)
    (same : SamePast asOf rates rates') (totals : List CurrencyTotal) (target : String) :
    combineTotals toUpperCase totals target asOf rates' =
      combineTotals toUpperCase totals target asOf rates := by
  have step : combineTotal toUpperCase (toUpperCase target) asOf rates' =
      combineTotal toUpperCase (toUpperCase target) asOf rates := by
    funext sofar total
    rw [combineTotal, combineTotal, convert_samePast unique same]
  rw [combineTotals, combineTotals, step]

/-! ### Which rate is found -/

theorem latest_eq_none_iff {source target : String} :
    latest (quoting toUpperCase source target (past asOf rates)) = none ↔
      ∀ rate, ¬Quotes toUpperCase rates source target asOf rate := by
  rw [latest_eq_argmax, List.argmax_eq_none, List.eq_nil_iff_forall_not_mem]
  simp only [mem_quoting_past]

/-- The latest direct rate is found, and the latest inverse one where there is no direct one. -/
theorem findRate_eq_some_iff (unique : OnePerDay toUpperCase rates) {base quote : String}
    {found : FoundRate} :
    findRate toUpperCase rates base quote asOf = some found ↔
      toUpperCase base ≠ toUpperCase quote ∧
        ((∃ rate, Latest toUpperCase rates (toUpperCase base) (toUpperCase quote) asOf rate ∧
            found = ⟨rate.rate, rate, false⟩) ∨
          (∀ rate, ¬Quotes toUpperCase rates (toUpperCase base) (toUpperCase quote) asOf rate) ∧
            ∃ rate, Latest toUpperCase rates (toUpperCase quote) (toUpperCase base) asOf rate ∧
              found = ⟨1 / rate.rate, rate, true⟩) := by
  have unique_past : OnePerDay toUpperCase (past asOf rates) := List.Pairwise.filter _ unique
  rw [findRate_eq]
  by_cases same : toUpperCase base = toUpperCase quote
  · simp [same]
  rw [if_neg same]
  simp only [← latest_eq_some_iff unique_past, ← latest_eq_none_iff, ne_eq, same, not_false_eq_true,
    true_and]
  cases latest (quoting toUpperCase (toUpperCase base) (toUpperCase quote) (past asOf rates)) with
  | some direct => simp [eq_comm]
  | none =>
    cases latest (quoting toUpperCase (toUpperCase quote) (toUpperCase base) (past asOf rates)) with
    | some inverse => simp [eq_comm]
    | none => simp

theorem findRate_eq_none_iff {base quote : String} :
    findRate toUpperCase rates base quote asOf = none ↔
      toUpperCase base = toUpperCase quote ∨
        ∀ rate, ¬Quotes toUpperCase rates (toUpperCase base) (toUpperCase quote) asOf rate ∧
          ¬Quotes toUpperCase rates (toUpperCase quote) (toUpperCase base) asOf rate := by
  rw [findRate_eq]
  by_cases same : toUpperCase base = toUpperCase quote
  · simp [same]
  rw [if_neg same, forall_and, ← latest_eq_none_iff, ← latest_eq_none_iff]
  cases latest (quoting toUpperCase (toUpperCase base) (toUpperCase quote) (past asOf rates)) with
  | some direct => simp [same]
  | none =>
    cases latest (quoting toUpperCase (toUpperCase quote) (toUpperCase base) (past asOf rates)) with
    | some inverse => simp [same]
    | none => simp

/-! ### The combined figure -/

/-- What a total adds to the figure, none where it cannot be converted. -/
def counted (toUpperCase : String → String) (target : String) (asOf : IsoDate)
    (rates : List FxRate) (total : CurrencyTotal) : Option Int :=
  if toUpperCase total.currency = target then some total.amount
  else
    match convert toUpperCase total.amount (toUpperCase total.currency) target asOf rates with
    | .ok converted => some converted.amount
    | .error _ => none

variable (toUpperCase asOf rates) in
theorem combineTotal_counted (target : String) (sofar : CombinedTotal) (total : CurrencyTotal) :
    let next := combineTotal toUpperCase target asOf rates sofar total
    let amount := counted toUpperCase target asOf rates total
    next.amount = sofar.amount + amount.getD 0 ∧
      next.missing = sofar.missing ++
        if amount = none then [toUpperCase total.currency] else [] := by
  dsimp only
  rw [combineTotal, counted]
  split
  · simp
  · split
    · simp
    · simp

theorem foldl_combineTotal (target : String) (totals : List CurrencyTotal)
    (sofar : CombinedTotal) :
    let combined := totals.foldl (combineTotal toUpperCase target asOf rates) sofar
    combined.amount = sofar.amount +
        (totals.map fun total => (counted toUpperCase target asOf rates total).getD 0).sum ∧
      combined.missing = sofar.missing ++
        (totals.filter fun total => counted toUpperCase target asOf rates total = none).map
          fun total => toUpperCase total.currency := by
  induction totals generalizing sofar with
  | nil => simp
  | cons total totals ih =>
    obtain ⟨amount, missing⟩ := combineTotal_counted toUpperCase asOf rates target sofar total
    obtain ⟨amounts, missings⟩ := ih (combineTotal toUpperCase target asOf rates sofar total)
    rw [List.foldl_cons]
    refine ⟨?_, ?_⟩
    · rw [amounts, amount, List.map_cons, List.sum_cons, add_assoc]
    · rw [missings, missing]
      by_cases lacking : counted toUpperCase target asOf rates total = none
      · simp [lacking]
      · simp [lacking]

theorem combineTotals_amount (totals : List CurrencyTotal) (target : String) :
    (combineTotals toUpperCase totals target asOf rates).amount =
      (totals.map fun total =>
        (counted toUpperCase (toUpperCase target) asOf rates total).getD 0).sum := by
  rw [combineTotals]
  exact (foldl_combineTotal _ totals _).1.trans (zero_add _)

theorem combineTotals_missing (totals : List CurrencyTotal) (target : String) :
    (combineTotals toUpperCase totals target asOf rates).missing =
      (totals.filter fun total =>
        counted toUpperCase (toUpperCase target) asOf rates total = none).map
          fun total => toUpperCase total.currency := by
  rw [combineTotals]
  exact (foldl_combineTotal _ totals _).2.trans (List.nil_append _)

theorem counted_eq_none_iff (again : ∀ s, toUpperCase (toUpperCase s) = toUpperCase s)
    {target : String} {total : CurrencyTotal} :
    counted toUpperCase (toUpperCase target) asOf rates total = none ↔
      toUpperCase total.currency ≠ toUpperCase target ∧
        ∀ rate, ¬Quotes toUpperCase rates (toUpperCase total.currency) (toUpperCase target) asOf rate ∧
          ¬Quotes toUpperCase rates (toUpperCase target) (toUpperCase total.currency) asOf rate := by
  rw [counted]
  by_cases same : toUpperCase total.currency = toUpperCase target
  · simp [same]
  have lookup : findRate toUpperCase rates (toUpperCase total.currency) (toUpperCase target) asOf =
      none ↔ _ := findRate_eq_none_iff
  rw [again, again] at lookup
  rw [if_neg same, convert, again, again, if_neg same]
  cases found : findRate toUpperCase rates (toUpperCase total.currency) (toUpperCase target) asOf with
  | none =>
    have none_recorded := (lookup.mp found).resolve_left same
    exact iff_of_true rfl ⟨same, none_recorded⟩
  | some rate =>
    refine iff_of_false (by simp) fun h => ?_
    have missed := lookup.mpr (Or.inr h.2)
    rw [found] at missed
    cases missed

end Latest

/-! ### Runs of the store -/

namespace InMemoryFxRateStore

inductive Call
  | upsert (userId : String) (rate : FxRate)
  | remove (userId id : String)

def after (toUpperCase : String → String) (st : InMemoryFxRateStore) : Call → InMemoryFxRateStore
  | .upsert userId rate => st.upsert toUpperCase userId rate
  | .remove userId id => st.remove userId id

variable {toUpperCase : String → String}

theorem mem_upsertRow {stored row : FxRate} {rows : List FxRate}
    (mem : row ∈ upsertRow toUpperCase stored rows) :
    row ∈ rows ∨ row.base = stored.base ∧ row.quote = stored.quote ∧ row.asOf = stored.asOf := by
  induction rows with
  | nil =>
    obtain rfl := List.mem_singleton.mp mem
    exact Or.inr ⟨rfl, rfl, rfl⟩
  | cons first rows ih =>
    rw [upsertRow] at mem
    split at mem
    · rcases List.mem_cons.mp mem with rfl | mem
      · exact Or.inr ⟨rfl, rfl, rfl⟩
      · exact Or.inl (List.mem_cons_of_mem _ mem)
    · rcases List.mem_cons.mp mem with rfl | mem
      · exact Or.inl List.mem_cons_self
      · exact (ih mem).imp_left (List.mem_cons_of_mem _)

/-- A row keeps its place among the others, or replaces the one row for its pair and day. -/
theorem onePerDay_upsertRow {stored : FxRate} {rows : List FxRate}
    (base : toUpperCase stored.base = stored.base) (quote : toUpperCase stored.quote = stored.quote)
    (unique : OnePerDay toUpperCase rows) :
    OnePerDay toUpperCase (upsertRow toUpperCase stored rows) := by
  induction rows with
  | nil => exact List.pairwise_singleton _ _
  | cons first rows ih =>
    obtain ⟨apart, unique⟩ := List.pairwise_cons.mp unique
    rw [upsertRow]
    split
    · rename_i same
      refine List.pairwise_cons.mpr ⟨fun row mem clash => ?_, unique⟩
      refine apart row mem ⟨?_, ?_, ?_⟩
      · rw [same.1, ← base]
        exact clash.1
      · rw [same.2.1, ← quote]
        exact clash.2.1
      · rw [same.2.2]
        exact clash.2.2
    · rename_i other
      refine List.pairwise_cons.mpr ⟨fun row mem clash => ?_, ih unique⟩
      rcases mem_upsertRow mem with mem | ⟨rowBase, rowQuote, rowDay⟩
      · exact apart row mem clash
      · refine other ⟨?_, ?_, ?_⟩
        · rw [clash.1, rowBase, base]
        · rw [clash.2.1, rowQuote, quote]
        · rw [clash.2.2, rowDay]

def Sound (toUpperCase : String → String) (st : InMemoryFxRateStore) : Prop :=
  ∀ userId, OnePerDay toUpperCase (st.bucket userId)

theorem bucket_set (st : InMemoryFxRateStore) (userId other : String) (rows : List FxRate) :
    bucket ⟨st.byUser.set userId rows⟩ other = if userId = other then rows else st.bucket other := by
  rw [bucket, OrdMap.get?_set]
  split
  · rfl
  · rfl

theorem sound_after (again : ∀ s, toUpperCase (toUpperCase s) = toUpperCase s)
    {st : InMemoryFxRateStore} (sound : Sound toUpperCase st) (call : Call) :
    Sound toUpperCase (st.after toUpperCase call) := by
  intro other
  cases call with
  | upsert userId rate =>
    rw [after, upsert, bucket_set]
    split
    · exact onePerDay_upsertRow (again _) (again _) (sound userId)
    · exact sound other
  | remove userId id =>
    rw [after, remove, bucket_set]
    split
    · exact List.Pairwise.sublist List.eraseP_sublist (sound userId)
    · exact sound other

/-- Whatever is recorded and removed, what is listed has one rate for a pair and a day. -/
theorem onePerDay_list (again : ∀ s, toUpperCase (toUpperCase s) = toUpperCase s)
    (localeCompare : String → String → Ordering) (calls : List Call) (userId : String) :
    OnePerDay toUpperCase
      ((calls.foldl (after toUpperCase) {}).list localeCompare userId) := by
  have sound : ∀ st, Sound toUpperCase st → Sound toUpperCase (calls.foldl (after toUpperCase) st) := by
    induction calls with
    | nil => exact fun _ sound => sound
    | cons call calls ih => exact fun st sound => ih _ (sound_after again sound call)
  have bucket := sound {} (fun _ => List.Pairwise.nil) userId
  exact (List.Perm.pairwise_iff (fun h => Std.Symm.symm _ _ h) (List.perm_insertionSort _ _)).mpr bucket

end InMemoryFxRateStore

/-! ### History stays as it was -/

theorem mem_missing_iff {toUpperCase : String → String}
    (again : ∀ s, toUpperCase (toUpperCase s) = toUpperCase s) (rates : List FxRate)
    (asOf : IsoDate) (totals : List CurrencyTotal) (target currency : String) :
    currency ∈ (combineTotals toUpperCase totals target asOf rates).missing ↔
      (∃ total ∈ totals, toUpperCase total.currency = currency) ∧
        currency ≠ toUpperCase target ∧
        ∀ rate, ¬Quotes toUpperCase rates currency (toUpperCase target) asOf rate ∧
          ¬Quotes toUpperCase rates (toUpperCase target) currency asOf rate := by
  rw [combineTotals_missing]
  simp only [List.mem_map, List.mem_filter, decide_eq_true_eq, counted_eq_none_iff again]
  constructor
  · rintro ⟨total, ⟨mem, other, lacking⟩, rfl⟩
    exact ⟨⟨total, mem, rfl⟩, other, lacking⟩
  · rintro ⟨⟨total, mem, rfl⟩, other, lacking⟩
    exact ⟨total, ⟨mem, other, lacking⟩, rfl⟩

/-- With one rate for a pair and a day, as the store keeps them: what is dated after a day, and the
order of the rates, changes nothing for the day, the latest rate is the one that counts, and a
combined figure names what it leaves out and adds up in any order. -/
theorem history_not_restated {toUpperCase : String → String}
    (again : ∀ s, toUpperCase (toUpperCase s) = toUpperCase s) :
    (∀ (localeCompare : String → String → Ordering) (calls : List InMemoryFxRateStore.Call)
      (userId : String), OnePerDay toUpperCase
        ((calls.foldl (InMemoryFxRateStore.after toUpperCase) {}).list localeCompare userId)) ∧
    ∀ (rates : List FxRate) (asOf : IsoDate), OnePerDay toUpperCase rates →
      (∀ rates', SamePast asOf rates rates' → ∀ base quote,
        findRate toUpperCase rates' base quote asOf = findRate toUpperCase rates base quote asOf ∧
        (∀ amount, convert toUpperCase amount base quote asOf rates' =
          convert toUpperCase amount base quote asOf rates) ∧
        ∀ totals, combineTotals toUpperCase totals quote asOf rates' =
          combineTotals toUpperCase totals quote asOf rates) ∧
      (∀ base quote found, findRate toUpperCase rates base quote asOf = some found ↔
        toUpperCase base ≠ toUpperCase quote ∧
          ((∃ rate, Latest toUpperCase rates (toUpperCase base) (toUpperCase quote) asOf rate ∧
              found = ⟨rate.rate, rate, false⟩) ∨
            (∀ rate, ¬Quotes toUpperCase rates (toUpperCase base) (toUpperCase quote) asOf rate) ∧
              ∃ rate, Latest toUpperCase rates (toUpperCase quote) (toUpperCase base) asOf rate ∧
                found = ⟨1 / rate.rate, rate, true⟩)) ∧
      ∀ totals target,
        (∀ currency, currency ∈ (combineTotals toUpperCase totals target asOf rates).missing ↔
          (∃ total ∈ totals, toUpperCase total.currency = currency) ∧
            currency ≠ toUpperCase target ∧
            ∀ rate, ¬Quotes toUpperCase rates currency (toUpperCase target) asOf rate ∧
              ¬Quotes toUpperCase rates (toUpperCase target) currency asOf rate) ∧
        ∀ totals', totals'.Perm totals →
          (combineTotals toUpperCase totals' target asOf rates).amount =
            (combineTotals toUpperCase totals target asOf rates).amount := by
  refine ⟨InMemoryFxRateStore.onePerDay_list again, fun rates asOf unique => ⟨?_, ?_, ?_⟩⟩
  · intro rates' same base quote
    exact ⟨findRate_samePast unique same base quote,
      fun amount => convert_samePast unique same amount base quote,
      fun totals => combineTotals_samePast unique same totals quote⟩
  · exact fun base quote found => findRate_eq_some_iff unique
  · intro totals target
    refine ⟨mem_missing_iff again rates asOf totals target, fun totals' perm => ?_⟩
    rw [combineTotals_amount, combineTotals_amount]
    exact (perm.map _).sum_eq

/-- A rate of the next week leaves the week's figure as it is. -/
theorem next_week_changes_nothing :
    combineTotals id [⟨"EUR", 10000⟩, ⟨"USD", 500⟩] "USD" "2026-03-05"
        [{ eurosToDollars with asOf := "2026-03-09" }, eurosToDollars] =
      combineTotals id [⟨"EUR", 10000⟩, ⟨"USD", 500⟩] "USD" "2026-03-05" [eurosToDollars] := by
  have alone : OnePerDay id [eurosToDollars] := List.pairwise_singleton _ _
  have same : SamePast "2026-03-05" [eurosToDollars]
      [{ eurosToDollars with asOf := "2026-03-09" }, eurosToDollars] := by
    have later : past "2026-03-05" [{ eurosToDollars with asOf := "2026-03-09" }, eurosToDollars] =
        past "2026-03-05" [eurosToDollars] := by decide +kernel
    rw [SamePast, later]
  exact (((history_not_restated fun _ => rfl).2 _ "2026-03-05" alone).1 _ same "EUR" "USD").2.2 _

end Finverse.Money
