/-
The request limiter (`rateLimit.ts` of mcp-chassis): a token bucket for each
key, in a map whose order is that of the last touch, swept of full buckets
when it grows large.

`limiter_fair`: where no sweep drops the bucket that is about to be charged,
and the hard cap drops full buckets only, every key is answered as by a bucket
of its own that is never swept.
-/
import Mathlib.Data.List.Nodup
import Mathlib.Data.List.TakeWhile
import Zenod.Lib.TokenBucket

namespace Zenod.RateLimit

open TokenBucket

structure RateLimitOptions where
  rps : ℚ
  burst : ℚ

def SWEEP_THRESHOLD : Nat := 10000

variable {κ : Type} [DecidableEq κ]

/-- `Map` of the buckets: the last touched is the last. -/
abbrev Buckets (κ : Type) := List (κ × Bucket)

def get (buckets : Buckets κ) (key : κ) : Option Bucket := (buckets.find? (·.1 = key)).map (·.2)

namespace RateLimitOptions

variable (options : RateLimitOptions)

def enabled : Prop := 0 < options.rps ∧ 1 ≤ options.burst

instance : Decidable options.enabled := inferInstanceAs (Decidable (_ ∧ _))

/-- Re-insert, so that the map's order is least-recently-touched first. -/
def touch (buckets : Buckets κ) (key : κ) (now : ℚ) : Buckets κ :=
  buckets.filter (·.1 ≠ key) ++ [(key, refilled options.rps options.burst (get buckets key) now)]

/-- The first pass of `sweep`: full buckets, up to the first that is not. -/
def dropFull (buckets : Buckets κ) (now : ℚ) : Buckets κ :=
  buckets.dropWhile fun entry => entry.2.full options.rps options.burst now

/-- The second pass: the hard cap. -/
def sweep (buckets : Buckets κ) (now : ℚ) : Buckets κ :=
  let left := options.dropFull buckets now
  left.drop (left.length - SWEEP_THRESHOLD * 2)

/-- `bucket.tokens -= 1`, if the bucket is still in the map. -/
def charge (buckets : Buckets κ) (key : κ) : Buckets κ :=
  buckets.map fun entry => if entry.1 = key then (key, entry.2.charge) else entry

def take (buckets : Buckets κ) (key : κ) (now : ℚ) : Buckets κ × Decision :=
  if options.enabled then
    let bucket := refilled options.rps options.burst (get buckets key) now
    let touched := options.touch buckets key now
    let swept := if touched.length > SWEEP_THRESHOLD then options.sweep touched now else touched
    (charge swept key, answer options.rps bucket)
  else (buckets, ⟨true, 0⟩)

def after : Buckets κ → List (κ × ℚ) → Buckets κ
  | buckets, [] => buckets
  | buckets, (key, now) :: takes => after (options.take buckets key now).1 takes

/-- The answers of the takes, with their keys. -/
def answers : Buckets κ → List (κ × ℚ) → List (κ × Decision)
  | _, [] => []
  | buckets, (key, now) :: takes =>
    (key, (options.take buckets key now).2) :: answers (options.take buckets key now).1 takes

/-! ## What a sweep may drop -/

/-- The hard cap drops full buckets only. -/
def Capped (buckets : Buckets κ) (key : κ) (now : ℚ) : Prop :=
  let left := options.dropFull (options.touch buckets key now) now
  ∀ entry ∈ left.take (left.length - SWEEP_THRESHOLD * 2), entry.2.full options.rps options.burst now = true

/-- The sweep does not drop the bucket of the take itself: it stops before it, at a bucket that is
not full, or the bucket is not full itself. -/
def Spared (buckets : Buckets κ) (key : κ) (now : ℚ) : Prop :=
  SWEEP_THRESHOLD < (options.touch buckets key now).length →
    ∃ entry ∈ options.touch buckets key now, entry.2.full options.rps options.burst now = false

end RateLimitOptions

/-- Every take of a run, with the buckets it comes to. -/
def EachTake (options : RateLimitOptions) (P : Buckets κ → κ → ℚ → Prop) (buckets : Buckets κ)
    (takes : List (κ × ℚ)) : Prop :=
  ∀ pre key now, pre ++ [(key, now)] <+: takes → P (options.after buckets pre) key now

/-! ## The map -/

variable {options : RateLimitOptions} {buckets : Buckets κ} {key : κ} {now : ℚ}

def Keyed (buckets : Buckets κ) : Prop := (buckets.map Prod.fst).Nodup

theorem get_eq_some (h : Keyed buckets) {bucket : Bucket} :
    get buckets key = some bucket ↔ (key, bucket) ∈ buckets := by
  unfold get
  constructor
  · intro hget
    obtain ⟨⟨other, _⟩, hfind, rfl⟩ := Option.map_eq_some_iff.mp hget
    obtain rfl : other = key := by simpa using List.find?_some hfind
    exact List.mem_of_find?_eq_some hfind
  · intro hmem
    obtain ⟨entry, hfind⟩ := Option.isSome_iff_exists.mp
      (List.find?_isSome.mpr ⟨(key, bucket), hmem, by simp⟩ : (buckets.find? (·.1 = key)).isSome)
    have hkey : entry.1 = key := by simpa using List.find?_some hfind
    have := List.inj_on_of_nodup_map h (List.mem_of_find?_eq_some hfind) hmem hkey
    rw [hfind, this]
    rfl

theorem get_eq_none (h : Keyed buckets) : get buckets key = none ↔ ∀ bucket, (key, bucket) ∉ buckets := by
  simp only [Option.eq_none_iff_forall_not_mem, Option.mem_def, get_eq_some h]

theorem touch_keyed (h : Keyed buckets) : Keyed (options.touch buckets key now) := by
  unfold RateLimitOptions.touch Keyed
  rw [List.map_append, List.nodup_append]
  refine ⟨h.sublist (List.filter_sublist.map _), by simp, ?_⟩
  intro a ha b hb
  obtain ⟨entry, hentry, rfl⟩ := List.mem_map.mp ha
  have hne : entry.1 ≠ key := by simpa using (List.mem_filter.mp hentry).2
  simpa using List.mem_singleton.mp hb ▸ hne

theorem mem_touch_other {other : κ} (hother : other ≠ key) {bucket : Bucket} :
    (other, bucket) ∈ options.touch buckets key now ↔ (other, bucket) ∈ buckets := by
  simp [RateLimitOptions.touch, hother]

omit [DecidableEq κ] in
theorem sweep_sublist : (options.sweep buckets now).Sublist buckets :=
  (List.drop_sublist _ _).trans (List.dropWhile_sublist _)

/-- What a sweep drops is full, if the hard cap does. -/
theorem full_of_swept {entry : κ × Bucket} (hcap : options.Capped buckets key now)
    (hmem : entry ∈ options.touch buckets key now)
    (hgone : entry ∉ options.sweep (options.touch buckets key now) now) :
    entry.2.full options.rps options.burst now = true := by
  have hsplit := @List.takeWhile_append_dropWhile _
    (fun entry : κ × Bucket => entry.2.full options.rps options.burst now) (options.touch buckets key now)
  rw [← hsplit, List.mem_append] at hmem
  rcases hmem with hfirst | hleft
  · have hfull := List.mem_takeWhile_imp hfirst
    exact hfull
  · have hcut := List.take_append_drop
      ((options.dropFull (options.touch buckets key now) now).length - SWEEP_THRESHOLD * 2)
      (options.dropFull (options.touch buckets key now) now)
    have hleft : entry ∈ options.dropFull (options.touch buckets key now) now := hleft
    rw [← hcut, List.mem_append] at hleft
    rcases hleft with hcapped | hkept
    · exact hcap entry hcapped
    · exact absurd hkept hgone

/-- A sweep that is stopped leaves the bucket touched last. -/
theorem own_kept (hspared : options.Spared buckets key now)
    (hlarge : SWEEP_THRESHOLD < (options.touch buckets key now).length) :
    (key, refilled options.rps options.burst (get buckets key) now) ∈
      options.sweep (options.touch buckets key now) now := by
  obtain ⟨entry, hentry, hnotfull⟩ := hspared hlarge
  have hleft : options.dropFull (options.touch buckets key now) now ≠ [] := by
    intro hnil
    have := List.dropWhile_eq_nil_iff.mp hnil entry hentry
    rw [hnotfull] at this
    cases this
  have hne : options.sweep (options.touch buckets key now) now ≠ [] := by
    have := List.length_pos_iff.mpr hleft
    refine List.ne_nil_of_length_pos ?_
    simp only [RateLimitOptions.sweep, List.length_drop, SWEEP_THRESHOLD]
    omega
  have hsuffix : options.sweep (options.touch buckets key now) now <:+ options.touch buckets key now :=
    (List.drop_suffix _ _).trans (List.dropWhile_suffix _)
  have hlast := hsuffix.getLast hne
  have hown : (options.touch buckets key now).getLast (hsuffix.ne_nil hne) =
      (key, refilled options.rps options.burst (get buckets key) now) := by
    simp [RateLimitOptions.touch]
  rw [← hown, ← hlast]
  exact List.getLast_mem hne

/-- The buckets of a take before it is charged. -/
def RateLimitOptions.swept (options : RateLimitOptions) (buckets : Buckets κ) (key : κ) (now : ℚ) : Buckets κ :=
  if (options.touch buckets key now).length > SWEEP_THRESHOLD then options.sweep (options.touch buckets key now) now
  else options.touch buckets key now

theorem take_buckets (henabled : options.enabled) :
    (options.take buckets key now).1 = RateLimitOptions.charge (options.swept buckets key now) key := by
  simp only [RateLimitOptions.take, if_pos henabled, RateLimitOptions.swept]

theorem take_answer (henabled : options.enabled) : (options.take buckets key now).2 =
    answer options.rps (refilled options.rps options.burst (get buckets key) now) := by
  simp only [RateLimitOptions.take, if_pos henabled]

theorem swept_sublist : (options.swept buckets key now).Sublist (options.touch buckets key now) := by
  unfold RateLimitOptions.swept
  split
  · exact sweep_sublist
  · exact List.Sublist.refl _

theorem charge_keys (key : κ) : (RateLimitOptions.charge buckets key).map Prod.fst = buckets.map Prod.fst := by
  simp only [RateLimitOptions.charge, List.map_map]
  refine List.map_congr_left fun entry _ => ?_
  simp only [Function.comp]
  split
  · rename_i hkey
    exact hkey.symm
  · rfl

theorem take_keyed (henabled : options.enabled) (h : Keyed buckets) : Keyed (options.take buckets key now).1 := by
  rw [take_buckets henabled, Keyed, charge_keys]
  exact (touch_keyed h).sublist (swept_sublist.map _)

theorem mem_charge_other {other : κ} (hother : other ≠ key) {bucket : Bucket} :
    (other, bucket) ∈ RateLimitOptions.charge buckets key ↔ (other, bucket) ∈ buckets := by
  simp only [RateLimitOptions.charge, List.mem_map]
  constructor
  · rintro ⟨entry, hentry, heq⟩
    split at heq
    · simp only [Prod.mk.injEq] at heq
      exact absurd heq.1.symm hother
    · rwa [← heq]
  · intro hmem
    exact ⟨_, hmem, if_neg hother⟩

/-! ## As good as a bucket of its own -/

/-- From now on every key is answered as by its own bucket. -/
def Sees (options : RateLimitOptions) (buckets : Buckets κ) (spec : κ → Option Bucket) (now : ℚ) : Prop :=
  ∀ key later, now ≤ later → refilled options.rps options.burst (get buckets key) later =
    refilled options.rps options.burst (spec key) later

/-- One bucket for each key, never swept. -/
def specTake (options : RateLimitOptions) (spec : κ → Option Bucket) (key : κ) (now : ℚ) : κ → Option Bucket :=
  Function.update spec key (some (spend options.rps options.burst (spec key) now))

theorem take_sees (henabled : options.enabled) {spec : κ → Option Bucket} {before : ℚ} (hkeyed : Keyed buckets)
    (hsees : Sees options buckets spec before) (hnow : before ≤ now) (hcap : options.Capped buckets key now)
    (hspared : options.Spared buckets key now) :
    Sees options (options.take buckets key now).1 (specTake options spec key now) now := by
  have hafter : Keyed (options.take buckets key now).1 := take_keyed henabled hkeyed
  intro other later hlater
  by_cases hother : other = key
  · subst hother
    have hown : (other, refilled options.rps options.burst (get buckets other) now) ∈
        options.swept buckets other now := by
      unfold RateLimitOptions.swept
      split
      · rename_i hlarge
        exact own_kept hspared hlarge
      · exact List.mem_append_right _ (List.mem_singleton_self _)
    have hcharged : get (options.take buckets other now).1 other =
        some (refilled options.rps options.burst (get buckets other) now).charge := by
      rw [get_eq_some hafter, take_buckets henabled]
      exact List.mem_map.mpr ⟨_, hown, if_pos rfl⟩
    rw [hcharged, hsees other now hnow]
    simp [specTake, spend]
  · rw [specTake, Function.update_of_ne hother, ← hsees other later (hnow.trans hlater)]
    cases hget : get buckets other with
    | none =>
      have hnone : get (options.take buckets key now).1 other = none := by
        rw [get_eq_none hafter]
        intro bucket hmem
        rw [take_buckets henabled, mem_charge_other hother] at hmem
        exact (get_eq_none hkeyed).mp hget bucket ((mem_touch_other hother).mp (swept_sublist.mem hmem))
      rw [hnone]
    | some bucket =>
      have htouched : (other, bucket) ∈ options.touch buckets key now :=
        (mem_touch_other hother).mpr ((get_eq_some hkeyed).mp hget)
      by_cases hkept : (other, bucket) ∈ options.swept buckets key now
      · have hsome : get (options.take buckets key now).1 other = some bucket := by
          rw [get_eq_some hafter, take_buckets henabled, mem_charge_other hother]
          exact hkept
        rw [hsome]
      · have hfull : bucket.full options.rps options.burst now = true := by
          unfold RateLimitOptions.swept at hkept
          split at hkept
          · exact full_of_swept hcap htouched hkept
          · exact absurd htouched hkept
        have hnone : get (options.take buckets key now).1 other = none := by
          rw [get_eq_none hafter]
          intro bucket' hmem
          rw [take_buckets henabled, mem_charge_other hother] at hmem
          have hmem' := (mem_touch_other hother).mp (swept_sublist.mem hmem)
          have := ((get_eq_some hkeyed).mpr hmem').symm.trans hget
          rw [Option.some.injEq] at this
          rw [this] at hmem
          exact hkept hmem
        rw [hnone, refilled_full henabled.1 hfull hlater]

/-! ## Whole runs -/

/-- The buckets of the keys' own, after a run. -/
def specAfter (options : RateLimitOptions) (spec : κ → Option Bucket) (takes : List (κ × ℚ)) : κ → Option Bucket :=
  takes.foldl (fun spec take => specTake options spec take.1 take.2) spec

def timesOf (key : κ) (takes : List (κ × ℚ)) : List ℚ := (takes.filter (·.1 = key)).map (·.2)

def decisionsOf (key : κ) (answers : List (κ × Decision)) : List Decision := (answers.filter (·.1 = key)).map (·.2)

theorem EachTake.head {P : Buckets κ → κ → ℚ → Prop} {takes : List (κ × ℚ)}
    (h : EachTake options P buckets ((key, now) :: takes)) : P buckets key now :=
  h [] key now (by simp)

theorem EachTake.tail {P : Buckets κ → κ → ℚ → Prop} {takes : List (κ × ℚ)}
    (h : EachTake options P buckets ((key, now) :: takes)) :
    EachTake options P (options.take buckets key now).1 takes := fun pre other later hpre =>
  h ((key, now) :: pre) other later (by simpa using hpre)

/-- A run up to some moment: the keys are told apart, and each is answered as by its own bucket. -/
structure Fair (options : RateLimitOptions) (buckets : Buckets κ) (spec : κ → Option Bucket) (now : ℚ) : Prop where
  keyed : Keyed buckets
  sees : Sees options buckets spec now
  sound : ∀ key bucket, spec key = some bucket → 0 ≤ bucket.tokens ∧ bucket.since ≤ now

theorem Fair.take (henabled : options.enabled) {spec : κ → Option Bucket} {before : ℚ}
    (h : Fair options buckets spec before) (hnow : before ≤ now) (hcap : options.Capped buckets key now)
    (hspared : options.Spared buckets key now) :
    Fair options (options.take buckets key now).1 (specTake options spec key now) now where
  keyed := take_keyed henabled h.keyed
  sees := take_sees henabled h.keyed h.sees hnow hcap hspared
  sound other bucket hbucket := by
    by_cases hother : other = key
    · subst hother
      rw [specTake, Function.update_self, Option.some.injEq] at hbucket
      subst hbucket
      refine ⟨(spend_tokens ?_).1, (spend_since _ _).le⟩
      cases hspec : spec other with
      | none => rw [refilled_none]; exact le_trans zero_le_one henabled.2
      | some bucket =>
        obtain ⟨htokens, hsince⟩ := h.sound other bucket hspec
        have hgain : 0 ≤ (now - bucket.since) / 1000 * options.rps :=
          mul_nonneg (div_nonneg (by linarith) (by norm_num)) henabled.1.le
        exact le_min (le_trans zero_le_one henabled.2) (add_nonneg htokens hgain)
    · rw [specTake, Function.update_of_ne hother] at hbucket
      obtain ⟨htokens, hsince⟩ := h.sound other bucket hbucket
      exact ⟨htokens, hsince.trans hnow⟩

/-- The takes of a run in the order of the clock, whose sweeps are as they should be. -/
structure Orderly (options : RateLimitOptions) (buckets : Buckets κ) (start : ℚ) (takes : List (κ × ℚ)) : Prop where
  sorted : (start :: takes.map (·.2)).Pairwise (· ≤ ·)
  capped : EachTake options options.Capped buckets takes
  spared : EachTake options options.Spared buckets takes

theorem Orderly.tail {start : ℚ} {takes : List (κ × ℚ)} (h : Orderly options buckets start ((key, now) :: takes)) :
    start ≤ now ∧ Orderly options (options.take buckets key now).1 now takes := by
  obtain ⟨hfirst, hsorted⟩ := List.pairwise_cons.mp h.sorted
  exact ⟨hfirst now List.mem_cons_self, hsorted, h.capped.tail, h.spared.tail⟩

/-- Each key is answered as by its own bucket. -/
theorem answers_alone (henabled : options.enabled) {spec : κ → Option Bucket} {start : ℚ} {takes : List (κ × ℚ)}
    (h : Fair options buckets spec start) (horderly : Orderly options buckets start takes) (key : κ) :
    decisionsOf key (options.answers buckets takes) =
      alone options.rps options.burst (spec key) (timesOf key takes) := by
  induction takes generalizing buckets spec start with
  | nil => rfl
  | cons take takes ih =>
    obtain ⟨other, now⟩ := take
    obtain ⟨hnow, htail⟩ := horderly.tail
    have hrest := ih (h.take henabled hnow horderly.capped.head horderly.spared.head) htail
    by_cases hother : other = key
    · subst hother
      simp only [decisionsOf, timesOf, RateLimitOptions.answers, List.filter_cons, decide_true, if_true,
        List.map_cons, alone, take_answer henabled] at hrest ⊢
      rw [hrest, h.sees other now hnow]
      simp [specTake]
    · simp only [decisionsOf, timesOf, RateLimitOptions.answers, List.filter_cons, decide_eq_true_eq, hother,
        if_false] at hrest ⊢
      rw [hrest, specTake, Function.update_of_ne (Ne.symm hother)]

theorem after_append (pre post : List (κ × ℚ)) :
    options.after buckets (pre ++ post) = options.after (options.after buckets pre) post := by
  induction pre generalizing buckets with
  | nil => rfl
  | cons take pre ih =>
    obtain ⟨key, now⟩ := take
    exact ih

/-- The end of a first part of a run. -/
theorem Orderly.split (henabled : options.enabled) {spec : κ → Option Bucket} {start : ℚ} {pre post : List (κ × ℚ)}
    (h : Fair options buckets spec start) (horderly : Orderly options buckets start (pre ++ post)) :
    ∃ later, start ≤ later ∧ (∀ take ∈ pre, take.2 ≤ later) ∧
      Fair options (options.after buckets pre) (specAfter options spec pre) later ∧
      Orderly options (options.after buckets pre) later post := by
  induction pre generalizing buckets spec start with
  | nil => exact ⟨start, le_refl _, by simp, h, horderly⟩
  | cons take pre ih =>
    obtain ⟨key, now⟩ := take
    obtain ⟨hnow, htail⟩ := Orderly.tail horderly
    obtain ⟨later, hlater, hpre, hfair, hpost⟩ :=
      ih (h.take henabled hnow (EachTake.head horderly.capped) (EachTake.head horderly.spared)) htail
    refine ⟨later, hnow.trans hlater, fun take htake => ?_, hfair, hpost⟩
    rcases List.mem_cons.mp htake with rfl | htake
    · exact hlater
    · exact hpre take htake

theorem specAfter_other {spec : κ → Option Bucket} {takes : List (κ × ℚ)} (h : ∀ take ∈ takes, take.1 ≠ key) :
    specAfter options spec takes key = spec key := by
  induction takes generalizing spec with
  | nil => rfl
  | cons take takes ih =>
    have hrest := @ih (specTake options spec take.1 take.2) fun take htake => h take (List.mem_cons_of_mem _ htake)
    rw [specAfter, List.foldl_cons, ← specAfter, hrest, specTake,
      Function.update_of_ne (h take List.mem_cons_self).symm]

theorem fair_empty (start : ℚ) : Fair options ([] : Buckets κ) (fun _ => none) start where
  keyed := List.nodup_nil
  sees _ _ _ := rfl
  sound _ _ h := by cases h

/-- A window of a fair run. -/
theorem window_le (henabled : options.enabled) {spec : κ → Option Bucket} {before : ℚ} {takes : List (κ × ℚ)}
    (h : Fair options buckets spec before) (horderly : Orderly options buckets before takes) (key : κ) {start T : ℚ}
    (hT : 0 ≤ T) (hwindow : ∀ take ∈ takes, start ≤ take.2 ∧ take.2 ≤ start + 1000 * T) :
    (((decisionsOf key (options.answers buckets takes)).countP (·.allowed) : Nat) : ℚ) ≤
      options.burst + options.rps * T := by
  obtain ⟨hfirst, hsorted⟩ := List.pairwise_cons.mp horderly.sorted
  have hmem : ∀ t ∈ timesOf key takes, ∃ take ∈ takes, take.2 = t := fun t ht => by
    obtain ⟨take, htake, rfl⟩ := List.mem_map.mp ht
    exact ⟨take, (List.mem_filter.mp htake).1, rfl⟩
  have hbetween : ∀ t ∈ timesOf key takes, start ≤ t ∧ t ≤ start + 1000 * T := fun t ht => by
    obtain ⟨take, htake, rfl⟩ := hmem t ht
    exact hwindow take htake
  have hsince : ∀ b, spec key = some b → ∀ t ∈ timesOf key takes, b.since ≤ t := fun b hb t ht => by
    obtain ⟨take, htake, rfl⟩ := hmem t ht
    exact (h.sound key b hb).2.trans (hfirst take.2 (List.mem_map_of_mem htake))
  rw [answers_alone henabled h horderly key]
  exact allowed_le henabled.1 (le_trans zero_le_one henabled.2) (fun b hb => (h.sound key b hb).1) hT
    (hsorted.sublist (List.filter_sublist.map _)) hbetween hsince

/-- A refusal tells how long to wait. -/
theorem wait_enough (henabled : options.enabled) {spec : κ → Option Bucket} {before : ℚ} {mid : List (κ × ℚ)}
    {later : ℚ} {r : Int} (h : Fair options buckets spec before)
    (horderly : Orderly options buckets before ((key, now) :: mid ++ [(key, later)]))
    (hmid : ∀ take ∈ mid, take.1 ≠ key) (hrefused : (options.take buckets key now).2 = ⟨false, r⟩)
    (hlater : now + 1000 * r ≤ later) :
    (options.take (options.after buckets ((key, now) :: mid)) key later).2.allowed = true := by
  obtain ⟨last, _, _, hfair, hlast⟩ := Orderly.split henabled h horderly
  have hle := (List.pairwise_cons.mp hlast.sorted).1 later (by simp)
  rw [take_answer henabled, hfair.sees key later hle]
  have hnow : before ≤ now := (List.pairwise_cons.mp horderly.sorted).1 now (by simp)
  rw [take_answer henabled, h.sees key now hnow] at hrefused
  have hspec : specAfter options spec ((key, now) :: mid) key =
      some (spend options.rps options.burst (spec key) now) := by
    have := @specAfter_other _ _ options key (specTake options spec key now) mid hmid
    rw [specAfter, List.foldl_cons, ← specAfter, this, specTake, Function.update_self]
  rw [hspec]
  exact spend_retry henabled.1 henabled.2 hrefused hlater

/-- **Main result.** Where sweeps spare the bucket of the take and the hard cap drops full buckets
only: each key is answered as by a bucket of its own that is never swept, a window of `T` seconds
allows at most `burst + rps * T` takes, and a refused take is allowed after the time told. -/
theorem limiter_fair (options : RateLimitOptions) (henabled : options.enabled) (takes : List (κ × ℚ))
    (hsorted : (takes.map (·.2)).Pairwise (· ≤ ·)) (hcapped : EachTake options options.Capped [] takes)
    (hspared : EachTake options options.Spared [] takes) :
    (∀ key, decisionsOf key (options.answers [] takes) =
      alone options.rps options.burst none (timesOf key takes)) ∧
    (∀ pre mid post, takes = pre ++ mid ++ post → ∀ key start T, 0 ≤ T →
      (∀ take ∈ mid, start ≤ take.2 ∧ take.2 ≤ start + 1000 * T) →
      (((decisionsOf key (options.answers (options.after [] pre) mid)).countP (·.allowed) : Nat) : ℚ) ≤
        options.burst + options.rps * T) ∧
    ∀ pre mid post key now later r, takes = pre ++ ((key, now) :: mid ++ [(key, later)]) ++ post →
      (∀ take ∈ mid, take.1 ≠ key) → (options.take (options.after [] pre) key now).2 = ⟨false, r⟩ →
      now + 1000 * r ≤ later →
      (options.take (options.after [] (pre ++ (key, now) :: mid)) key later).2.allowed = true := by
  obtain ⟨start, hstart⟩ : ∃ start : ℚ, ∀ t ∈ takes.map (·.2), start ≤ t := by
    cases htimes : takes.map (·.2) with
    | nil => exact ⟨0, by simp⟩
    | cons first times =>
      rw [htimes] at hsorted
      refine ⟨first, fun t ht => ?_⟩
      rcases List.mem_cons.mp ht with rfl | ht
      · exact le_refl _
      · exact (List.pairwise_cons.mp hsorted).1 t ht
  have hbefore : ∀ {front back : List (κ × ℚ)}, takes = front ++ back → Orderly options [] start front := by
    intro front back htakes
    have hfront : front <+: takes := ⟨back, htakes.symm⟩
    exact {
      sorted := List.pairwise_cons.mpr
        ⟨fun t ht => hstart t ((hfront.sublist.map _).mem ht), hsorted.sublist (hfront.sublist.map _)⟩
      capped := fun pre key now hpre => hcapped pre key now (hpre.trans hfront)
      spared := fun pre key now hpre => hspared pre key now (hpre.trans hfront) }
  refine ⟨fun key => ?_, ?_, ?_⟩
  · exact answers_alone henabled (fair_empty start) (hbefore (List.append_nil takes).symm) key
  · intro pre mid post htakes key from' T hT hwindow
    obtain ⟨_, _, _, hfair, hmid⟩ := Orderly.split henabled (fair_empty start) (hbefore htakes)
    exact window_le henabled hfair hmid key hT hwindow
  · intro pre mid post key now later r htakes hmid hrefused hlater
    obtain ⟨_, _, _, hfair, horderly⟩ := Orderly.split henabled (fair_empty start) (hbefore htakes)
    rw [after_append]
    exact wait_enough henabled hfair horderly hmid hrefused hlater

/-! ## Few takes are never swept -/

theorem after_length (henabled : options.enabled) (takes : List (κ × ℚ)) :
    (options.after buckets takes).length ≤ buckets.length + takes.length := by
  induction takes generalizing buckets with
  | nil => exact le_refl _
  | cons take takes ih =>
    obtain ⟨key, now⟩ := take
    have hrest := @ih (options.take buckets key now).1
    have hlength : (options.take buckets key now).1.length ≤ buckets.length + 1 := by
      rw [take_buckets henabled, RateLimitOptions.charge, List.length_map]
      refine (swept_sublist.length_le).trans ?_
      simp only [RateLimitOptions.touch, List.length_append, List.length_singleton]
      have := List.length_filter_le (fun entry : κ × Bucket => decide (entry.1 ≠ key)) buckets
      omega
    simp only [RateLimitOptions.after, List.length_cons]
    omega

theorem touch_length (henabled : options.enabled) {pre takes : List (κ × ℚ)} (hpre : pre ++ [(key, now)] <+: takes) :
    (options.touch (options.after [] pre) key now).length ≤ takes.length := by
  have hlength : (options.after [] pre).length ≤ ([] : Buckets κ).length + pre.length := after_length henabled pre
  have hfilter := List.length_filter_le (fun entry : κ × Bucket => decide (entry.1 ≠ key)) (options.after [] pre)
  have hle := hpre.length_le
  simp only [List.length_append, List.length_singleton, List.length_nil] at hle hlength
  simp only [RateLimitOptions.touch, List.length_append, List.length_singleton]
  omega

theorem capped_of_few (henabled : options.enabled) {takes : List (κ × ℚ)}
    (hfew : takes.length ≤ SWEEP_THRESHOLD * 2) : EachTake options options.Capped [] takes := by
  intro pre key now hpre entry hentry
  have htouch := touch_length henabled hpre
  have hdrop : (options.dropFull (options.touch (options.after [] pre) key now) now).length ≤
      (options.touch (options.after [] pre) key now).length := (List.dropWhile_sublist _).length_le
  rw [Nat.sub_eq_zero_of_le (by omega), List.take_zero] at hentry
  exact absurd hentry List.not_mem_nil

theorem spared_of_few (henabled : options.enabled) {takes : List (κ × ℚ)} (hfew : takes.length ≤ SWEEP_THRESHOLD) :
    EachTake options options.Spared [] takes := by
  intro pre key now hpre hlarge
  have htouch := touch_length henabled hpre
  omega

/-- Two takes at once, with one token: the second waits a second. -/
theorem one_token : decisionsOf 0 (RateLimitOptions.answers ⟨1, 1⟩ [] [((0 : Nat), (0 : ℚ)), (0, 0), (0, 1000)]) =
    [⟨true, 0⟩, ⟨false, 1⟩, ⟨true, 0⟩] := by
  have henabled : RateLimitOptions.enabled ⟨1, 1⟩ := ⟨by norm_num, by norm_num⟩
  rw [(limiter_fair ⟨1, 1⟩ henabled [((0 : Nat), (0 : ℚ)), (0, 0), (0, 1000)] (by norm_num)
    (capped_of_few henabled (by simp [SWEEP_THRESHOLD])) (spared_of_few henabled (by simp [SWEEP_THRESHOLD]))).1 0]
  norm_num [timesOf, alone, refilled, Bucket.refill, spend, Bucket.charge, answer]

/-! ## A sweep that drops the bucket of its take -/

/-- The buckets of `n` keys that took their one token. -/
def spentKeys (n : Nat) : Buckets Nat := (List.range n).map fun i => (i, ⟨0, 0⟩)

theorem spentKeys_ne {n : Nat} {entry : Nat × Bucket} (h : entry ∈ spentKeys n) : entry.1 ≠ n := by
  obtain ⟨i, hi, rfl⟩ := List.mem_map.mp h
  exact (List.mem_range.mp hi).ne

/-- A new key has a full bucket. -/
theorem get_spentKeys (n : Nat) : get (spentKeys n) n = none := by
  unfold get
  rw [Option.map_eq_none_iff, List.find?_eq_none]
  intro entry hentry
  simpa using spentKeys_ne hentry

theorem touch_spentKeys (n : Nat) (now : ℚ) :
    RateLimitOptions.touch ⟨1, 1⟩ (spentKeys n) n now = spentKeys n ++ [(n, ⟨1, now⟩)] := by
  have hothers : (spentKeys n).filter (·.1 ≠ n) = spentKeys n := by
    rw [List.filter_eq_self]
    intro entry hentry
    simpa using spentKeys_ne hentry
  rw [RateLimitOptions.touch, get_spentKeys, hothers, refilled_none]

theorem after_first (n : Nat) (hn : n ≤ SWEEP_THRESHOLD) :
    RateLimitOptions.after ⟨1, 1⟩ [] ((List.range n).map fun i => (i, (0 : ℚ))) = spentKeys n := by
  induction n with
  | zero => rfl
  | succ n ih =>
    have hswept : RateLimitOptions.swept ⟨1, 1⟩ (spentKeys n) n 0 = spentKeys n ++ [(n, ⟨1, 0⟩)] := by
      rw [RateLimitOptions.swept, touch_spentKeys, if_neg]
      simp only [List.length_append, spentKeys, List.length_map, List.length_range, List.length_singleton]
      omega
    have hothers : RateLimitOptions.charge (spentKeys n) n = spentKeys n := by
      unfold RateLimitOptions.charge
      conv_rhs => rw [← List.map_id (spentKeys n)]
      exact List.map_congr_left fun entry hentry => if_neg (spentKeys_ne hentry)
    have hown : RateLimitOptions.charge [(n, (⟨1, 0⟩ : Bucket))] n = [(n, ⟨0, 0⟩)] := by
      simp [RateLimitOptions.charge, Bucket.charge]
    rw [List.range_succ, List.map_append, after_append, ih (by omega), List.map_singleton, RateLimitOptions.after,
      RateLimitOptions.after, take_buckets ⟨by norm_num, by norm_num⟩, hswept, RateLimitOptions.charge,
      List.map_append, ← RateLimitOptions.charge, ← RateLimitOptions.charge, hothers, hown, spentKeys, spentKeys,
      List.range_succ, List.map_append, List.map_singleton]

/-- A second later they are all full, and the sweep takes the new one with them. -/
theorem take_uncharged : RateLimitOptions.take ⟨1, 1⟩ (spentKeys SWEEP_THRESHOLD) SWEEP_THRESHOLD 1000 =
    ([], ⟨true, 0⟩) := by
  have henabled : RateLimitOptions.enabled ⟨1, 1⟩ := ⟨by norm_num, by norm_num⟩
  have hlarge : (RateLimitOptions.touch ⟨1, 1⟩ (spentKeys SWEEP_THRESHOLD) SWEEP_THRESHOLD 1000).length >
      SWEEP_THRESHOLD := by
    rw [touch_spentKeys]
    simp [spentKeys]
  have hfull : RateLimitOptions.dropFull ⟨1, 1⟩
      (RateLimitOptions.touch ⟨1, 1⟩ (spentKeys SWEEP_THRESHOLD) SWEEP_THRESHOLD 1000) 1000 = [] := by
    rw [RateLimitOptions.dropFull, List.dropWhile_eq_nil_iff]
    intro entry hentry
    rw [touch_spentKeys, List.mem_append] at hentry
    rcases hentry with hentry | hentry
    · obtain ⟨i, _, rfl⟩ := List.mem_map.mp hentry
      norm_num [Bucket.full]
    · rw [List.mem_singleton.mp hentry]
      norm_num [Bucket.full]
  have hbuckets : (RateLimitOptions.take ⟨1, 1⟩ (spentKeys SWEEP_THRESHOLD) SWEEP_THRESHOLD 1000).1 = [] := by
    rw [take_buckets henabled, RateLimitOptions.swept, if_pos hlarge, RateLimitOptions.sweep, hfull]
    rfl
  have hanswer : (RateLimitOptions.take ⟨1, 1⟩ (spentKeys SWEEP_THRESHOLD) SWEEP_THRESHOLD 1000).2 = ⟨true, 0⟩ := by
    rw [take_answer henabled, get_spentKeys, refilled_none]
    simp [answer]
  exact Prod.ext hbuckets hanswer

/-- The first take of a key when ten thousand other buckets are full again is not charged, so that
two takes at once are allowed where there is one token. -/
theorem burst_exceeded : ¬ ∀ takes : List (Nat × ℚ), (takes.map (·.2)).Pairwise (· ≤ ·) →
    EachTake ⟨1, 1⟩ (RateLimitOptions.Capped ⟨1, 1⟩) [] takes →
    ∀ pre mid post, takes = pre ++ mid ++ post → ∀ key start T, 0 ≤ T →
      (∀ take ∈ mid, start ≤ take.2 ∧ take.2 ≤ start + 1000 * T) →
      (((decisionsOf key (RateLimitOptions.answers ⟨1, 1⟩ (RateLimitOptions.after ⟨1, 1⟩ [] pre) mid)).countP
        (·.allowed) : Nat) : ℚ) ≤ 1 + 1 * T := by
  intro h
  have henabled : RateLimitOptions.enabled ⟨1, 1⟩ := ⟨by norm_num, by norm_num⟩
  have hbound := h (((List.range SWEEP_THRESHOLD).map fun i => (i, (0 : ℚ))) ++
      [(SWEEP_THRESHOLD, 1000), (SWEEP_THRESHOLD, 1000)])
    (by simp [List.pairwise_append, List.pairwise_map, List.pairwise_of_forall])
    (capped_of_few henabled (by simp [SWEEP_THRESHOLD]))
    ((List.range SWEEP_THRESHOLD).map fun i => (i, (0 : ℚ))) [(SWEEP_THRESHOLD, 1000), (SWEEP_THRESHOLD, 1000)] []
    (by simp) SWEEP_THRESHOLD 1000 0 (le_refl _) (by simp)
  have hagain : (RateLimitOptions.take ⟨1, 1⟩ [] SWEEP_THRESHOLD 1000).2 = ⟨true, 0⟩ := by
    rw [take_answer henabled, get, List.find?_nil, Option.map_none, refilled_none]
    simp [answer]
  rw [after_first _ (le_refl _), RateLimitOptions.answers, RateLimitOptions.answers, RateLimitOptions.answers,
    take_uncharged, hagain] at hbound
  norm_num [decisionsOf] at hbound

end Zenod.RateLimit
