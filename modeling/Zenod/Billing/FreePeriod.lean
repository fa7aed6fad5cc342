/-
Until when a discounted subscription is free (`nextPeriodEnd` and
`subscriptionFreePeriod` of `server/customerBilling.ts`): the end of the next
period is stepped from the end of the current one, whose day of the month may
have been clamped.

`free_until_iff`: when the date follows the billing anchor and when several
coupons are put together as they should be.
-/
import Mathlib.Data.List.Basic
import Mathlib.Data.Rat.Defs
import Mathlib.Tactic.Ring
import Zenod.Lib.Calendar

namespace Zenod.FreePeriod

open Calendar

/-! ## The code -/

/-- The end of the period after the current one, in seconds. -/
def nextPeriodEnd (start : Option Int) (stop : Int) : Int :=
  let begin := start.getD stop * 1000
  let finish := stop * 1000
  let months := max 1
    ((getUTCFullYear finish - getUTCFullYear begin) * 12 + getUTCMonth finish - getUTCMonth begin)
  setUTCMonth finish (getUTCMonth finish + months) / 1000

inductive Duration | once | repeating | forever
deriving DecidableEq

structure Coupon where
  percentOff : Option ℚ
  duration : Duration

/-- `Stripe.Coupon | string`. -/
inductive CouponRef
  | id
  | object (coupon : Coupon)

structure Discount where
  stop : Option Int := none
  coupon : Option CouponRef := none
  /-- `source?.coupon`. -/
  source : Option CouponRef := none

/-- `DiscountLike | string`, or null. -/
inductive Listed
  | null
  | id
  | object (discount : Discount)

structure Subscription where
  discount : Option Discount
  discounts : List Listed
  currentPeriodStart : Option Int
  currentPeriodEnd : Option Int

structure FreeUntil where
  fullyDiscounted : Bool
  /-- In seconds; the code writes it as an ISO date. -/
  freeUntil : Option Int
deriving DecidableEq

def Listed.object? : Listed → Option Discount
  | .object discount => some discount
  | _ => none

def Subscription.all (s : Subscription) : List Discount := s.discount.toList ++ s.discounts.filterMap Listed.object?

/-- The coupon, if it is expanded and takes off everything. -/
def Discount.full? (discount : Discount) : Option Coupon :=
  match discount.coupon <|> discount.source with
  | some (.object coupon) => if coupon.percentOff = some 100 then some coupon else none
  | _ => none

/-- `end`. -/
def Subscription.endOf (s : Subscription) (discount : Discount) : Duration → Option Int
  | .repeating => discount.stop
  | .once => (s.currentPeriodEnd.filter (· ≠ 0)).map (nextPeriodEnd s.currentPeriodStart)
  | .forever => none

def Subscription.walk (s : Subscription) : List Discount → Bool → Option Int → FreeUntil
  | [], free, latest => ⟨free, if free then latest.filter (· ≠ 0) else none⟩
  | discount :: rest, free, latest =>
    match discount.full? with
    | none => s.walk rest free latest
    | some coupon =>
      if coupon.duration = .forever then ⟨true, none⟩
      else
        match s.endOf discount coupon.duration with
        | none => s.walk rest free latest
        | some stop => s.walk rest true (some (max (latest.getD 0) stop))

def subscriptionFreePeriod (s : Subscription) : FreeUntil := s.walk s.all false none

/-! ## Several coupons -/

/-- A coupon that takes off everything for ever. -/
def Subscription.Forever (s : Subscription) : Prop :=
  ∃ discount ∈ s.all, ∃ coupon, discount.full? = some coupon ∧ coupon.duration = .forever

/-- The known ends of the coupons that take off everything. -/
def Subscription.known (s : Subscription) : List Int :=
  s.all.filterMap fun discount => discount.full?.bind fun coupon => s.endOf discount coupon.duration

/-- `free_until` is the latest known end, null for a coupon for ever or if none is known. -/
structure Subscription.Latest (s : Subscription) : Prop where
  none_iff : (subscriptionFreePeriod s).freeUntil = none ↔ s.Forever ∨ s.known = []
  latest : ∀ u, (subscriptionFreePeriod s).freeUntil = some u → u ∈ s.known ∧ ∀ stop ∈ s.known, stop ≤ u

theorem walk_forever (s : Subscription) {l : List Discount} (free : Bool) (latest : Option Int)
    (h : ∃ discount ∈ l, ∃ coupon, discount.full? = some coupon ∧ coupon.duration = .forever) :
    s.walk l free latest = ⟨true, none⟩ := by
  induction l generalizing free latest with
  | nil =>
    obtain ⟨_, hmem, _⟩ := h
    exact absurd hmem List.not_mem_nil
  | cons discount l ih =>
    have htail : (¬ ∃ coupon, discount.full? = some coupon ∧ coupon.duration = .forever) →
        ∃ discount ∈ l, ∃ coupon, discount.full? = some coupon ∧ coupon.duration = .forever := by
      intro hhead
      obtain ⟨other, hother, hforever⟩ := h
      rcases List.mem_cons.mp hother with rfl | hother
      · exact absurd hforever hhead
      · exact ⟨other, hother, hforever⟩
    unfold Subscription.walk
    split
    · rename_i hnone
      exact ih _ _ (htail fun ⟨coupon, hcoupon, _⟩ => by rw [hnone] at hcoupon; cases hcoupon)
    · rename_i coupon hcoupon
      split
      · rfl
      · rename_i hdifferent
        have hrest := htail fun ⟨other, hother, hforever⟩ => by
          rw [hcoupon, Option.some.injEq] at hother
          exact hdifferent (hother ▸ hforever)
        split
        · exact ih _ _ hrest
        · exact ih _ _ hrest

/-- Without one the walk gathers the greatest end. -/
theorem walk_ends (s : Subscription) {l : List Discount} (free : Bool) (latest : Option Int)
    (h : ¬ ∃ discount ∈ l, ∃ coupon, discount.full? = some coupon ∧ coupon.duration = .forever)
    (hfree : free = latest.isSome) :
    s.walk l free latest =
      let ends := l.filterMap fun discount => discount.full?.bind fun coupon => s.endOf discount coupon.duration
      let latest := ends.foldl (fun latest stop => some (max (latest.getD 0) stop)) latest
      ⟨latest.isSome, latest.filter (· ≠ 0)⟩ := by
  induction l generalizing free latest with
  | nil =>
    subst hfree
    cases latest <;> rfl
  | cons discount l ih =>
    have htail : ¬ ∃ discount ∈ l, ∃ coupon, discount.full? = some coupon ∧ coupon.duration = .forever :=
      fun ⟨other, hother, hforever⟩ => h ⟨other, List.mem_cons_of_mem _ hother, hforever⟩
    unfold Subscription.walk
    split
    · rename_i hnone
      rw [ih free latest htail hfree]
      simp only [List.filterMap_cons, hnone, Option.bind_none]
    · rename_i coupon hcoupon
      rw [if_neg fun hforever => h ⟨discount, List.mem_cons_self, coupon, hcoupon, hforever⟩]
      split
      · rename_i hunknown
        rw [ih free latest htail hfree]
        simp only [List.filterMap_cons, hcoupon, Option.bind_some, hunknown]
      · rename_i stop hstop
        rw [ih true (some (max (latest.getD 0) stop)) htail rfl]
        simp only [List.filterMap_cons, hcoupon, Option.bind_some, hstop, List.foldl_cons]

/-- The greatest of some ends, or 0. -/
theorem foldl_max (ends : List Int) (latest : Option Int) :
    ends.foldl (fun latest stop => some (max (latest.getD 0) stop)) latest =
      if ends = [] then latest else some (ends.foldl max (latest.getD 0)) := by
  induction ends generalizing latest with
  | nil => rfl
  | cons stop ends ih =>
    rw [List.foldl_cons, ih]
    split
    · rename_i hnil
      subst hnil
      simp
    · simp

theorem le_foldl_max (ends : List Int) (first : Int) : first ≤ ends.foldl max first ∧
    (∀ stop ∈ ends, stop ≤ ends.foldl max first) ∧ (ends.foldl max first = first ∨ ends.foldl max first ∈ ends) := by
  induction ends generalizing first with
  | nil => simp
  | cons stop ends ih =>
    obtain ⟨hfirst, hall, hmem⟩ := ih (max first stop)
    simp only [List.foldl_cons, List.mem_cons, forall_eq_or_imp]
    refine ⟨by omega, ⟨by omega, hall⟩, ?_⟩
    rcases hmem with hmem | hmem
    · rw [hmem]
      rcases le_total first stop with hle | hle
      · exact .inr (.inl (max_eq_right hle))
      · exact .inl (max_eq_left hle)
    · exact .inr (.inr hmem)

/-- The latest end is told unless all known ends are at or before the epoch. -/
theorem latest_iff (s : Subscription) : s.Latest ↔ s.Forever ∨ s.known = [] ∨ ∃ stop ∈ s.known, 0 < stop := by
  by_cases hforever : s.Forever
  · have hwalk : subscriptionFreePeriod s = ⟨true, none⟩ := walk_forever s false none hforever
    refine iff_of_true ⟨by simp [hwalk, hforever], fun u hu => ?_⟩ (.inl hforever)
    rw [hwalk] at hu
    cases hu
  · have hwalk := walk_ends s false none hforever rfl
    simp only [foldl_max] at hwalk
    by_cases hnil : s.known = []
    · have hnone : (subscriptionFreePeriod s).freeUntil = none := by
        rw [subscriptionFreePeriod, hwalk, ← Subscription.known, if_pos hnil]
        rfl
      refine iff_of_true ⟨by simp [hnone, hnil], fun u hu => ?_⟩ (.inr (.inl hnil))
      rw [hnone] at hu
      cases hu
    · obtain ⟨hzero, hall, hmem⟩ := le_foldl_max s.known 0
      have htold : (subscriptionFreePeriod s).freeUntil = (some (s.known.foldl max 0)).filter (· ≠ 0) := by
        rw [subscriptionFreePeriod, hwalk, ← Subscription.known, if_neg hnil]
        rfl
      have hpos : (∃ stop ∈ s.known, 0 < stop) ↔ s.known.foldl max 0 ≠ 0 := by
        constructor
        · rintro ⟨stop, hstop, hlt⟩
          have := hall stop hstop
          omega
        · intro hne
          rcases hmem with hmem | hmem
          · exact absurd hmem hne
          · exact ⟨_, hmem, by omega⟩
      have hright : (s.Forever ∨ s.known = [] ∨ ∃ stop ∈ s.known, 0 < stop) ↔ s.known.foldl max 0 ≠ 0 := by
        rw [← hpos]
        simp [hforever, hnil]
      rw [hright]
      constructor
      · intro hlatest hz
        have : (subscriptionFreePeriod s).freeUntil = none := by
          rw [htold, hz]
          rfl
        rcases hlatest.none_iff.mp this with h | h
        · exact hforever h
        · exact hnil h
      · intro hne
        have hsome : (subscriptionFreePeriod s).freeUntil = some (s.known.foldl max 0) := by
          rw [htold, Option.filter_some, if_pos (by simpa using hne)]
        refine ⟨by simp [hsome, hforever, hnil], fun u hu => ?_⟩
        rw [hsome, Option.some.injEq] at hu
        subst hu
        exact ⟨hmem.resolve_left hne, hall⟩

/-! ## The billing anchor -/

/-- Periods of `every` whole months from an anchor: its month, its day of the month and its second of the day. -/
structure Anchor where
  month : Int
  day : Int
  second : Int
  every : Int
  day_low : 1 ≤ day
  day_high : day ≤ 31
  second_low : 0 ≤ second
  second_high : second < 86400
  every_pos : 1 ≤ every

/-- The day of the month, clamped to the month's length. -/
def clamp (day month : Int) : Int := min day (monthLength month)

/-- The start of period `k`, in seconds. -/
def Anchor.boundary (anchor : Anchor) (k : Int) : Int :=
  (dayFromMonth (anchor.month + anchor.every * k) + clamp anchor.day (anchor.month + anchor.every * k) - 1) * 86400 +
    anchor.second

variable {anchor : Anchor} {k : Int}

theorem clamp_bounds {day month : Int} (hday : 1 ≤ day) :
    1 ≤ clamp day month ∧ clamp day month ≤ monthLength month := by
  have := (monthLength_bounds month).1
  unfold clamp
  omega

/-- The day of a time in seconds, and the second of its day. -/
theorem day_second {day second : Int} (hlow : 0 ≤ second) (hhigh : second < 86400) :
    (day * 86400 + second) / 86400 = day ∧ (day * 86400 + second) % 86400 = second := by
  omega

/-- A boundary is read back. -/
theorem boundary_day (anchor : Anchor) (k : Int) :
    monthOf (anchor.boundary k / 86400) = anchor.month + anchor.every * k ∧
    dateOf (anchor.boundary k / 86400) = clamp anchor.day (anchor.month + anchor.every * k) ∧
    anchor.boundary k % 86400 = anchor.second := by
  obtain ⟨hdays, hseconds⟩ := @day_second
    (dayFromMonth (anchor.month + anchor.every * k) + clamp anchor.day (anchor.month + anchor.every * k) - 1)
    anchor.second anchor.second_low anchor.second_high
  obtain ⟨hlow, hhigh⟩ := @clamp_bounds anchor.day (anchor.month + anchor.every * k) anchor.day_low
  unfold Anchor.boundary
  rw [hdays, hseconds]
  exact ⟨monthOf_day hlow hhigh, dateOf_day hlow hhigh, rfl⟩

/-- **What the code steps to**: the day of the current end, in the month of the next. -/
theorem nextPeriodEnd_boundary (anchor : Anchor) (k : Int) :
    nextPeriodEnd (some (anchor.boundary k)) (anchor.boundary (k + 1)) =
      (dayFromMonth (anchor.month + anchor.every * (k + 2)) +
        clamp anchor.day (anchor.month + anchor.every * (k + 1)) - 1) * 86400 + anchor.second := by
  have htime : ∀ j, anchor.boundary j * 1000 / msPerDay = anchor.boundary j / 86400 ∧
      anchor.boundary j * 1000 % msPerDay = anchor.boundary j % 86400 * 1000 := by
    intro j
    unfold msPerDay
    omega
  have hmonth : ∀ j, 12 * getUTCFullYear (anchor.boundary j * 1000) + getUTCMonth (anchor.boundary j * 1000) =
      anchor.month + anchor.every * j := by
    intro j
    rw [monthOf_time, (htime j).1, (boundary_day anchor j).1]
  have hstart := hmonth k
  have hstop := hmonth (k + 1)
  have hevery := anchor.every_pos
  have hnext : anchor.month + anchor.every * (k + 1) = anchor.month + anchor.every * k + anchor.every := by ring
  have hlast : anchor.month + anchor.every * (k + 2) = anchor.month + anchor.every * (k + 1) + anchor.every := by ring
  have hmonths : max 1 ((getUTCFullYear (anchor.boundary (k + 1) * 1000) - getUTCFullYear (anchor.boundary k * 1000)) *
      12 + getUTCMonth (anchor.boundary (k + 1) * 1000) - getUTCMonth (anchor.boundary k * 1000)) = anchor.every := by
    omega
  have hinto : 12 * getUTCFullYear (anchor.boundary (k + 1) * 1000) +
      (getUTCMonth (anchor.boundary (k + 1) * 1000) + anchor.every) = anchor.month + anchor.every * (k + 2) := by
    omega
  simp only [nextPeriodEnd, Option.getD_some, hmonths]
  rw [setUTCMonth, hinto, (htime (k + 1)).1, (htime (k + 1)).2, (boundary_day anchor (k + 1)).2.1,
    (boundary_day anchor (k + 1)).2.2]
  unfold msPerDay
  omega

/-- Another anchor with the same current period. -/
structure Consistent (anchor : Anchor) (k : Int) (other : Anchor) (j : Int) : Prop where
  start : other.boundary j = anchor.boundary k
  stop : other.boundary (j + 1) = anchor.boundary (k + 1)

/-- The months and the second of the day are those of the period; the day of the month may be another. -/
theorem Consistent.same {other : Anchor} {j : Int} (h : Consistent anchor k other j) :
    other.boundary (j + 2) = (dayFromMonth (anchor.month + anchor.every * (k + 2)) +
      clamp other.day (anchor.month + anchor.every * (k + 2)) - 1) * 86400 + anchor.second ∧
    clamp other.day (anchor.month + anchor.every * k) = clamp anchor.day (anchor.month + anchor.every * k) ∧
    clamp other.day (anchor.month + anchor.every * (k + 1)) =
      clamp anchor.day (anchor.month + anchor.every * (k + 1)) := by
  obtain ⟨hmonth, hdate, hsecond⟩ := boundary_day other j
  obtain ⟨hmonth', hdate', _⟩ := boundary_day other (j + 1)
  rw [h.start, (boundary_day anchor k).1] at hmonth
  rw [h.start, (boundary_day anchor k).2.1] at hdate
  rw [h.start, (boundary_day anchor k).2.2] at hsecond
  rw [h.stop, (boundary_day anchor (k + 1)).1] at hmonth'
  rw [h.stop, (boundary_day anchor (k + 1)).2.1] at hdate'
  rw [← hmonth] at hdate
  rw [← hmonth'] at hdate'
  have hlast : other.month + other.every * (j + 2) = anchor.month + anchor.every * (k + 2) := by
    have h1 : other.month + other.every * (j + 2) =
        2 * (other.month + other.every * (j + 1)) - (other.month + other.every * j) := by ring
    have h2 : anchor.month + anchor.every * (k + 2) =
        2 * (anchor.month + anchor.every * (k + 1)) - (anchor.month + anchor.every * k) := by ring
    rw [h1, h2, hmonth, hmonth']
  refine ⟨?_, hdate.symm, hdate'.symm⟩
  rw [Anchor.boundary, hlast, ← hsecond]

/-- Any day that is clamped alike is an anchor's. -/
theorem consistent_of_day {day : Int} (hlow : 1 ≤ day) (hhigh : day ≤ 31)
    (hstart : clamp day (anchor.month + anchor.every * k) = clamp anchor.day (anchor.month + anchor.every * k))
    (hstop : clamp day (anchor.month + anchor.every * (k + 1)) =
      clamp anchor.day (anchor.month + anchor.every * (k + 1))) :
    Consistent anchor k { anchor with day := day, day_low := hlow, day_high := hhigh } k where
  start := by rw [Anchor.boundary, Anchor.boundary, hstart]
  stop := by rw [Anchor.boundary, Anchor.boundary, hstop]

/-- The days of the month of the current start and end tell the next end's. -/
def Steps (start stop startLength nextLength : Int) : Prop :=
  stop ≤ nextLength ∧ (start ≤ stop ∨ nextLength = stop ∨ start = startLength ∧ startLength < nextLength)

/-- The calendar's condition on a period: the current end's day exists in the next end's month, and unless the
start's day is after it, the next end's month ends with it or the start's day leaves the anchor open. -/
def Anchor.Steps (anchor : Anchor) (k : Int) : Prop :=
  FreePeriod.Steps (clamp anchor.day (anchor.month + anchor.every * k))
    (clamp anchor.day (anchor.month + anchor.every * (k + 1))) (monthLength (anchor.month + anchor.every * k))
    (monthLength (anchor.month + anchor.every * (k + 2)))

/-- A subscription in period `k` of its anchor, with one coupon that takes off everything once. -/
structure Subscription.Once (s : Subscription) (anchor : Anchor) (k : Int) : Prop where
  start : s.currentPeriodStart = some (anchor.boundary k)
  stop : s.currentPeriodEnd = some (anchor.boundary (k + 1))
  positive : 0 < anchor.boundary (k + 1)
  coupon : ∃ discount coupon, s.all = [discount] ∧ discount.full? = some coupon ∧ coupon.duration = .once

/-- `free_until` is the end of the next period where the dates determine it, and never later than by
any anchor that has the same current period. -/
def Subscription.Follows (s : Subscription) (anchor : Anchor) (k : Int) : Prop :=
  ((∀ other j, Consistent anchor k other j → other.boundary (j + 2) = anchor.boundary (k + 2)) →
    (subscriptionFreePeriod s).freeUntil = some (anchor.boundary (k + 2))) ∧
  ∀ other j, Consistent anchor k other j → ∀ u, (subscriptionFreePeriod s).freeUntil = some u →
    u ≤ other.boundary (j + 2)

theorem once_freeUntil {s : Subscription} (h : s.Once anchor k) : (subscriptionFreePeriod s).freeUntil =
    some ((dayFromMonth (anchor.month + anchor.every * (k + 2)) +
      clamp anchor.day (anchor.month + anchor.every * (k + 1)) - 1) * 86400 + anchor.second) := by
  obtain ⟨discount, coupon, hall, hfull, hduration⟩ := h.coupon
  have hpositive := h.positive
  have hlater : anchor.boundary (k + 1) < (dayFromMonth (anchor.month + anchor.every * (k + 2)) +
      clamp anchor.day (anchor.month + anchor.every * (k + 1)) - 1) * 86400 + anchor.second := by
    have hevery := anchor.every_pos
    have hlast : anchor.month + anchor.every * (k + 2) = anchor.month + anchor.every * (k + 1) + anchor.every := by ring
    have := @dayFromMonth_lt (anchor.month + anchor.every * (k + 1)) (anchor.month + anchor.every * (k + 2)) (by omega)
    unfold Anchor.boundary
    omega
  have hend : s.endOf discount coupon.duration = some ((dayFromMonth (anchor.month + anchor.every * (k + 2)) +
      clamp anchor.day (anchor.month + anchor.every * (k + 1)) - 1) * 86400 + anchor.second) := by
    rw [hduration, Subscription.endOf, h.stop, h.start, Option.filter_some,
      if_pos (by simp only [decide_eq_true_eq]; omega), Option.map_some, nextPeriodEnd_boundary]
  simp only [subscriptionFreePeriod, hall, Subscription.walk, hfull, hduration] at hend ⊢
  rw [if_neg (by simp), hend]
  simp only [Option.getD_none, if_true]
  rw [max_eq_right (by omega), Option.filter_some, if_pos (by simp only [decide_eq_true_eq]; omega)]

/-- The arithmetic of days: what all anchors of the period agree on. -/
theorem steps_iff {day startLength stopLength nextLength : Int} (hlow : 1 ≤ day) (hhigh : day ≤ 31)
    (hstart : 28 ≤ startLength) (hstop : 28 ≤ stopLength) (hnext : 28 ≤ nextLength ∧ nextLength ≤ 31) :
    (((∀ other, 1 ≤ other → other ≤ 31 → min other startLength = min day startLength →
        min other stopLength = min day stopLength → min other nextLength = min day nextLength) →
        min day stopLength = min day nextLength) ∧
      ∀ other, 1 ≤ other → other ≤ 31 → min other startLength = min day startLength →
        min other stopLength = min day stopLength → min day stopLength ≤ min other nextLength) ↔
    Steps (min day startLength) (min day stopLength) startLength nextLength := by
  unfold Steps
  constructor
  · rintro ⟨hdetermined, hnever⟩
    have hself := hnever day hlow hhigh rfl rfl
    refine ⟨by omega, ?_⟩
    by_contra hneither
    -- then the anchor's day is beyond the end's, and all anchors agree on a later day than the end's
    have := hdetermined fun other _ _ _ _ => by omega
    omega
  · rintro ⟨hexists, hcases⟩
    refine ⟨fun hdetermined => ?_, fun other _ _ _ _ => by omega⟩
    rcases hcases with hbefore | hends | ⟨hwhole, hlonger⟩
    · have := hdetermined (min day stopLength) (by omega) (by omega) (by omega) (by omega)
      omega
    · omega
    · by_cases hbefore : min day startLength ≤ min day stopLength
      · have := hdetermined (min day stopLength) (by omega) (by omega) (by omega) (by omega)
        omega
      · have h1 := hdetermined startLength (by omega) (by omega) (by omega) (by omega)
        have h2 := hdetermined (startLength + 1) (by omega) (by omega) (by omega) (by omega)
        omega

theorem follows_iff {s : Subscription} (h : s.Once anchor k) : s.Follows anchor k ↔ anchor.Steps k := by
  have hiff := @steps_iff anchor.day (monthLength (anchor.month + anchor.every * k))
    (monthLength (anchor.month + anchor.every * (k + 1))) (monthLength (anchor.month + anchor.every * (k + 2)))
    anchor.day_low anchor.day_high (monthLength_bounds _).1 (monthLength_bounds _).1 (monthLength_bounds _)
  rw [Anchor.Steps, clamp, clamp, ← hiff, Subscription.Follows, once_freeUntil h]
  have hnext : ∀ day, day * 86400 + anchor.second = anchor.boundary (k + 2) ↔
      day = dayFromMonth (anchor.month + anchor.every * (k + 2)) +
        clamp anchor.day (anchor.month + anchor.every * (k + 2)) - 1 := by
    intro day
    unfold Anchor.boundary
    omega
  refine and_congr ?_ ?_
  · refine imp_congr ?_ ?_
    · constructor
      · intro hall other hlow hhigh hstart hstop
        have hsame := hall _ _ (consistent_of_day hlow hhigh hstart hstop)
        rw [(consistent_of_day hlow hhigh hstart hstop).same.1, hnext] at hsame
        simp only [clamp] at hsame
        omega
      · intro hall other j hother
        obtain ⟨hlast, hstart, hstop⟩ := hother.same
        have := hall other.day other.day_low other.day_high hstart hstop
        rw [hlast, hnext]
        simp only [clamp]
        omega
    · rw [Option.some.injEq, hnext]
      simp only [clamp]
      omega
  · constructor
    · intro hall other hlow hhigh hstart hstop
      have hle := hall _ _ (consistent_of_day hlow hhigh hstart hstop) _ rfl
      rw [(consistent_of_day hlow hhigh hstart hstop).same.1] at hle
      simp only [clamp] at hle
      omega
    · intro hall other j hother u hu
      obtain ⟨hlast, hstart, hstop⟩ := hother.same
      have := hall other.day other.day_low other.day_high hstart hstop
      rw [Option.some.injEq] at hu
      subst hu
      rw [hlast]
      simp only [clamp]
      omega

/-- **Main result.** With one coupon for once, `free_until` follows the billing anchor exactly on the
calendar's condition; and the latest known end is told unless all known ends are at or before the epoch. -/
theorem free_until_iff (s : Subscription) :
    (∀ anchor k, s.Once anchor k → (s.Follows anchor k ↔ anchor.Steps k)) ∧
    (s.Latest ↔ s.Forever ∨ s.known = [] ∨ ∃ stop ∈ s.known, 0 < stop) :=
  ⟨fun _ _ h => follows_iff h, latest_iff s⟩

/-- Monthly periods from the last of December 2025, at noon. -/
def december31 : Anchor where
  month := 12 * 2025 + 11
  day := 31
  second := 43200
  every := 1
  day_low := by decide
  day_high := by decide
  second_low := by decide
  second_high := by decide
  every_pos := by decide

/-- The period that ends on January 31 would be followed by one that ends on February 28, and is told March 3. -/
theorem march_told : ¬ ∀ (s : Subscription) anchor k, s.Once anchor k → s.Follows anchor k := by
  intro h
  let s : Subscription :=
    ⟨none, [.object { coupon := some (.object ⟨some 100, .once⟩) }], some (december31.boundary 0),
      some (december31.boundary 1)⟩
  have honce : s.Once december31 0 := ⟨rfl, rfl, by decide, _, _, rfl, by rfl, rfl⟩
  have hle := (h s december31 0 honce).2 december31 0 ⟨rfl, rfl⟩ _ (once_freeUntil honce)
  exact absurd hle (by decide)

end Zenod.FreePeriod
