/-
A token bucket over exact rationals: it holds at most `burst` tokens, gains
`rps` a second, and a take spends one or is refused. Times are in milliseconds.

`allowed_le`: in a window of `T` seconds at most `burst + rps * T` takes are
allowed. `spend_retry`: a refusal tells how long to wait.
-/
import Mathlib.Algebra.Order.Field.Basic
import Mathlib.Algebra.Order.Field.Rat
import Mathlib.Data.Rat.Floor
import Mathlib.Tactic.FieldSimp
import Mathlib.Tactic.Linarith
import Mathlib.Tactic.Ring

namespace Zenod.TokenBucket

structure Bucket where
  tokens : ℚ
  since : ℚ
deriving DecidableEq

structure Decision where
  allowed : Bool
  /-- Whole seconds; 0 when allowed. -/
  retryAfterSeconds : Int
deriving DecidableEq

variable (rps burst : ℚ)

def Bucket.refill (bucket : Bucket) (now : ℚ) : Bucket where
  tokens := min burst (bucket.tokens + (now - bucket.since) / 1000 * rps)
  since := now

/-- The bucket at a take; none stands for a full one. -/
def refilled (bucket : Option Bucket) (now : ℚ) : Bucket := (bucket.getD ⟨burst, now⟩).refill rps burst now

/-- What a refilled bucket answers. -/
def answer (bucket : Bucket) : Decision :=
  if 1 ≤ bucket.tokens then ⟨true, 0⟩ else ⟨false, max 1 ⌈(1 - bucket.tokens) / rps⌉⟩

def Bucket.charge (bucket : Bucket) : Bucket :=
  if 1 ≤ bucket.tokens then { bucket with tokens := bucket.tokens - 1 } else bucket

/-- The bucket after a take. -/
def spend (bucket : Option Bucket) (now : ℚ) : Bucket := (refilled rps burst bucket now).charge

/-- One bucket of its own, by the times of its takes. -/
def alone : Option Bucket → List ℚ → List Decision
  | _, [] => []
  | bucket, now :: times =>
    answer rps (refilled rps burst bucket now) :: alone (some (spend rps burst bucket now)) times

/-- It will be full at `now`, if it is not taken from. -/
def Bucket.full (bucket : Bucket) (now : ℚ) : Bool :=
  burst ≤ bucket.tokens + (now - bucket.since) / 1000 * rps

variable {rps burst}

/-! ## Full buckets -/

theorem refilled_none {now : ℚ} : refilled rps burst none now = ⟨burst, now⟩ := by
  simp [refilled, Bucket.refill]

/-- A bucket that is full stays full, and is as good as none. -/
theorem refilled_full (hrps : 0 < rps) {bucket : Bucket} {now later : ℚ} (hfull : bucket.full rps burst now = true)
    (hlater : now ≤ later) : refilled rps burst (some bucket) later = refilled rps burst none later := by
  have hfull : burst ≤ bucket.tokens + (now - bucket.since) / 1000 * rps := by simpa [Bucket.full] using hfull
  have hmore : (now - bucket.since) / 1000 * rps ≤ (later - bucket.since) / 1000 * rps := by
    apply mul_le_mul_of_nonneg_right _ hrps.le
    linarith
  rw [refilled_none]
  simp only [refilled, Option.getD_some, Bucket.refill, Bucket.mk.injEq, and_true, min_eq_left_iff]
  linarith

/-! ## How many takes are allowed -/

theorem refilled_tokens_le (bucket : Option Bucket) (now : ℚ) : (refilled rps burst bucket now).tokens ≤ burst :=
  min_le_left _ _

@[simp] theorem refilled_since (bucket : Option Bucket) (now : ℚ) : (refilled rps burst bucket now).since = now := rfl

@[simp] theorem spend_since (bucket : Option Bucket) (now : ℚ) : (spend rps burst bucket now).since = now := by
  unfold spend Bucket.charge
  split <;> rfl

/-- A take costs a token if it is allowed, and never leaves less than none. -/
theorem spend_tokens {bucket : Option Bucket} {now : ℚ} (hnonneg : 0 ≤ (refilled rps burst bucket now).tokens) :
    0 ≤ (spend rps burst bucket now).tokens ∧
    (spend rps burst bucket now).tokens + (if (answer rps (refilled rps burst bucket now)).allowed then 1 else 0) =
      (refilled rps burst bucket now).tokens := by
  unfold spend Bucket.charge answer
  split
  · rename_i hone
    simp only [if_true]
    exact ⟨by linarith, by ring⟩
  · exact ⟨hnonneg, by simp⟩

/-- From a bucket on: its tokens and what it gains until the end. -/
theorem count_le (hrps : 0 < rps) {bucket : Bucket} (htokens : 0 ≤ bucket.tokens) (hburst : 0 ≤ burst)
    {times : List ℚ} {stop : ℚ} (hsorted : (bucket.since :: times).Pairwise (· ≤ ·)) (hstop : ∀ t ∈ times, t ≤ stop)
    (hsince : bucket.since ≤ stop) :
    (((alone rps burst (some bucket) times).countP (·.allowed) : Nat) : ℚ) ≤
      bucket.tokens + rps * (stop - bucket.since) / 1000 := by
  induction times generalizing bucket with
  | nil =>
    have : 0 ≤ rps * (stop - bucket.since) / 1000 := by
      apply div_nonneg (mul_nonneg hrps.le (by linarith)) (by norm_num)
    simp only [alone, List.countP_nil, Nat.cast_zero]
    linarith
  | cons now times ih =>
    obtain ⟨hfirst, hsorted⟩ := List.pairwise_cons.mp hsorted
    have hnow : bucket.since ≤ now := hfirst now List.mem_cons_self
    have hgain : 0 ≤ (now - bucket.since) / 1000 * rps :=
      mul_nonneg (div_nonneg (by linarith) (by norm_num)) hrps.le
    have htop : (refilled rps burst (some bucket) now).tokens ≤ bucket.tokens + (now - bucket.since) / 1000 * rps :=
      min_le_right _ _
    have hnonneg : 0 ≤ (refilled rps burst (some bucket) now).tokens := le_min hburst (add_nonneg htokens hgain)
    obtain ⟨hleft, hcost⟩ := spend_tokens hnonneg
    have hrest := ih hleft (by rwa [spend_since]) (fun t ht => hstop t (List.mem_cons_of_mem _ ht))
      (by rw [spend_since]; exact hstop now List.mem_cons_self)
    rw [spend_since] at hrest
    simp only [alone, List.countP_cons]
    push_cast
    have hwindow : rps * (stop - bucket.since) / 1000 =
        (now - bucket.since) / 1000 * rps + rps * (stop - now) / 1000 := by ring
    rw [hwindow]
    linarith

/-- **Rate of a bucket**: what is allowed in a window, from any bucket on. -/
theorem allowed_le (hrps : 0 < rps) (hburst : 0 ≤ burst) {bucket : Option Bucket}
    (hbucket : ∀ b, bucket = some b → 0 ≤ b.tokens) {times : List ℚ} {start T : ℚ} (hT : 0 ≤ T)
    (hsorted : times.Pairwise (· ≤ ·)) (hwindow : ∀ t ∈ times, start ≤ t ∧ t ≤ start + 1000 * T)
    (hsince : ∀ b, bucket = some b → ∀ t ∈ times, b.since ≤ t) :
    (((alone rps burst bucket times).countP (·.allowed) : Nat) : ℚ) ≤ burst + rps * T := by
  cases times with
  | nil =>
    have := mul_nonneg hrps.le hT
    simp only [alone, List.countP_nil, Nat.cast_zero]
    linarith
  | cons now times =>
    obtain ⟨hfirst, _⟩ := List.pairwise_cons.mp hsorted
    have hnonneg : 0 ≤ (refilled rps burst bucket now).tokens := by
      cases hb : bucket with
      | none => rw [refilled_none]; exact hburst
      | some b =>
        have hgain : 0 ≤ (now - b.since) / 1000 * rps :=
          mul_nonneg (div_nonneg (by linarith [hsince b hb now List.mem_cons_self]) (by norm_num)) hrps.le
        exact le_min hburst (add_nonneg (hbucket b hb) hgain)
    obtain ⟨hleft, hcost⟩ := spend_tokens hnonneg
    have htop : (refilled rps burst bucket now).tokens ≤ burst := refilled_tokens_le bucket now
    obtain ⟨hstart, hstop⟩ := hwindow now List.mem_cons_self
    have hrest := @count_le rps burst hrps (spend rps burst bucket now) hleft hburst times (start + 1000 * T)
      (by rwa [spend_since]) (fun t ht => (hwindow t (List.mem_cons_of_mem _ ht)).2) (by rwa [spend_since])
    rw [spend_since] at hrest
    simp only [alone, List.countP_cons]
    push_cast
    have hbound : rps * (start + 1000 * T - now) / 1000 ≤ rps * T := by
      have : rps * (start + 1000 * T - now) ≤ rps * (1000 * T) := mul_le_mul_of_nonneg_left (by linarith) hrps.le
      linarith
    linarith

/-! ## Waiting -/

/-- **Retry**: after a refusal the next take is allowed once the time told has passed. -/
theorem spend_retry (hrps : 0 < rps) (hburst : 1 ≤ burst) {bucket : Option Bucket} {now later : ℚ} {r : Int}
    (hrefused : answer rps (refilled rps burst bucket now) = ⟨false, r⟩) (hlater : now + 1000 * r ≤ later) :
    (answer rps (refilled rps burst (some (spend rps burst bucket now)) later)).allowed = true := by
  unfold answer at hrefused
  split at hrefused
  · simp at hrefused
  · rename_i hless
    simp only [Decision.mk.injEq, true_and] at hrefused
    have hspend : spend rps burst bucket now = refilled rps burst bucket now := by
      simp [spend, Bucket.charge, hless]
    have hwait : (1 - (refilled rps burst bucket now).tokens) / rps ≤ (r : ℚ) := by
      refine (Int.le_ceil _).trans ?_
      rw [← hrefused]
      exact_mod_cast le_max_right _ _
    have hgain : 1 - (refilled rps burst bucket now).tokens ≤ (later - now) / 1000 * rps := by
      rw [div_le_iff₀ hrps] at hwait
      refine hwait.trans (mul_le_mul_of_nonneg_right ?_ hrps.le)
      linarith
    have hfull : 1 ≤ (refilled rps burst (some (spend rps burst bucket now)) later).tokens := by
      rw [hspend]
      refine le_min hburst ?_
      simp only [Option.getD_some, refilled_since]
      linarith
    simp [answer, hfull]

end Zenod.TokenBucket
