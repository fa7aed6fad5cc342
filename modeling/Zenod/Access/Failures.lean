/-
The in-memory limiter of failed attempts (`FailedAttemptLimiter` of
`mcpTokens.ts`): for each key the times of its failures in the last window,
in a map of at most `maxKeys` keys.

`run_represents`: up to that many keys the limiter knows of a key what the
window says of the key's own failures.
-/
import Mathlib.Data.List.Dedup
import Mathlib.Data.List.Induction
import Mathlib.Data.List.Nodup
import Mathlib.Data.List.Perm.Subperm
import Zenod.Lib.Window

namespace Zenod.Failures

open Window

structure Limits where
  maxFailures : Nat
  windowMs : Int
  maxKeys : Nat

variable {κ : Type} [DecidableEq κ]

/-- `Map` of the times, in the order of insertion. -/
abbrev Hits (κ : Type) := List (κ × List Int)

def Hits.get (hits : Hits κ) (key : κ) : List Int := ((hits.find? (·.1 = key)).map (·.2)).getD []

def Hits.has (hits : Hits κ) (key : κ) : Prop := key ∈ hits.map (·.1)

instance (hits : Hits κ) (key : κ) : Decidable (hits.has key) := inferInstanceAs (Decidable (_ ∈ _))

def Hits.delete (hits : Hits κ) (key : κ) : Hits κ := hits.filter (·.1 ≠ key)

def Hits.set (hits : Hits κ) (key : κ) (times : List Int) : Hits κ :=
  if hits.has key then hits.map fun entry => if entry.1 = key then (key, times) else entry
  else hits ++ [(key, times)]

namespace Limits

variable (limits : Limits)

def recent (hits : Hits κ) (key : κ) (now : Int) : List Int := window limits.windowMs now (hits.get key)

/-- What `prune` leaves in the map. -/
def prune (hits : Hits κ) (key : κ) (now : Int) : Hits κ :=
  if limits.recent hits key now = [] then hits.delete key else hits.set key (limits.recent hits key now)

def isBlocked (hits : Hits κ) (key : κ) (now : Int) : Bool := limits.maxFailures ≤ (limits.recent hits key now).length

/-- Seconds until the oldest counted failure leaves the window. -/
def retryAfterSeconds (hits : Hits κ) (key : κ) (now : Int) : Int :=
  waitOf limits.windowMs now (limits.recent hits key now)

def evict (hits : Hits κ) (key : κ) : Hits κ :=
  if ¬ hits.has key ∧ limits.maxKeys ≤ hits.length then hits.drop 1 else hits

def recordFailure (hits : Hits κ) (key : κ) (now : Int) : Hits κ :=
  let hits := limits.evict hits key
  (limits.prune hits key now).set key (limits.recent hits key now ++ [now])

end Limits

/-- A call, at its time. The two questions prune alike. -/
inductive Call (κ : Type)
  | recordFailure (key : κ) (now : Int)
  | ask (key : κ) (now : Int)

def Call.now : Call κ → Int
  | .recordFailure _ now | .ask _ now => now

def Call.failure? : Call κ → Option (κ × Int)
  | .recordFailure key now => some (key, now)
  | .ask _ _ => none

def step (limits : Limits) (hits : Hits κ) : Call κ → Hits κ
  | .recordFailure key now => limits.recordFailure hits key now
  | .ask key now => limits.prune hits key now

def run (limits : Limits) (calls : List (Call κ)) : Hits κ := calls.foldl (step limits) []

/-- The times of a key's own failures. -/
def failuresOf (key : κ) (calls : List (Call κ)) : List Int :=
  ((calls.filterMap Call.failure?).filter (·.1 = key)).map (·.2)

/-- The distinct keys that failed. -/
def failedKeys (calls : List (Call κ)) : List κ := ((calls.filterMap Call.failure?).map (·.1)).dedup

def Clocked (calls : List (Call κ)) : Prop := (calls.map Call.now).Pairwise (· ≤ ·)

instance (calls : List (Call κ)) : Decidable (Clocked calls) := inferInstanceAs (Decidable (List.Pairwise _ _))

/-! ## The map -/

variable {limits : Limits} {hits : Hits κ} {key : κ}

def Hits.Keyed (hits : Hits κ) : Prop := (hits.map (·.1)).Nodup

theorem Hits.get_eq_nil (h : ¬ hits.has key) : hits.get key = [] := by
  unfold Hits.get
  rw [Option.map_eq_none_iff.mpr]
  · rfl
  · rw [List.find?_eq_none]
    intro entry hentry hkey
    exact h (List.mem_map.mpr ⟨entry, hentry, by simpa using hkey⟩)

theorem Hits.get_of_mem (h : hits.Keyed) {times : List Int} (hmem : (key, times) ∈ hits) : hits.get key = times := by
  unfold Hits.get
  cases hfind : hits.find? (·.1 = key) with
  | none =>
    have := List.find?_eq_none.mp hfind (key, times) hmem
    simp at this
  | some entry =>
    have hkey : entry.1 = key := by simpa using List.find?_some hfind
    rw [List.inj_on_of_nodup_map h (List.mem_of_find?_eq_some hfind) hmem hkey]
    rfl

theorem Hits.delete_keyed (h : hits.Keyed) : (hits.delete key).Keyed := h.sublist (List.filter_sublist.map _)

theorem Hits.set_keys (times : List Int) :
    (hits.set key times).map (·.1) = if hits.has key then hits.map (·.1) else hits.map (·.1) ++ [key] := by
  unfold Hits.set
  split
  · rw [List.map_map]
    refine List.map_congr_left fun entry _ => ?_
    simp only [Function.comp]
    split
    · rename_i hkey
      exact hkey.symm
    · rfl
  · simp

theorem Hits.set_keyed (h : hits.Keyed) (times : List Int) : (hits.set key times).Keyed := by
  unfold Hits.Keyed
  rw [Hits.set_keys]
  split
  · exact h
  · rename_i hkey
    exact List.nodup_append.mpr ⟨h, by simp, fun a ha b hb hab => hkey (by
      rw [List.mem_singleton.mp hb] at hab
      exact hab ▸ ha)⟩

theorem Hits.get_set (h : hits.Keyed) (times : List Int) : (hits.set key times).get key = times := by
  refine Hits.get_of_mem (Hits.set_keyed h times) ?_
  unfold Hits.set
  split
  · rename_i hkey
    obtain ⟨entry, hentry, hkey⟩ := List.mem_map.mp hkey
    exact List.mem_map.mpr ⟨entry, hentry, if_pos hkey⟩
  · exact List.mem_append_right _ (List.mem_singleton_self _)

/-- The rest of the map reads as before. -/
theorem Hits.get_eq_of_mem_iff {other : Hits κ} (h : hits.Keyed) (hother : other.Keyed)
    (hmem : ∀ times, (key, times) ∈ other ↔ (key, times) ∈ hits) : other.get key = hits.get key := by
  by_cases hkey : hits.has key
  · obtain ⟨⟨_, times⟩, hentry, rfl⟩ := List.mem_map.mp hkey
    rw [Hits.get_of_mem h hentry, Hits.get_of_mem hother ((hmem times).mpr hentry)]
  · rw [Hits.get_eq_nil hkey, Hits.get_eq_nil]
    intro hkey'
    obtain ⟨⟨_, times⟩, hentry, rfl⟩ := List.mem_map.mp hkey'
    exact hkey (List.mem_map_of_mem ((hmem times).mp hentry))

theorem Hits.get_set_other (h : hits.Keyed) {other : κ} (hother : other ≠ key) (times : List Int) :
    (hits.set key times).get other = hits.get other := by
  refine Hits.get_eq_of_mem_iff h (Hits.set_keyed h times) fun others => ?_
  unfold Hits.set
  split
  · rw [List.mem_map]
    constructor
    · rintro ⟨entry, hentry, heq⟩
      split at heq
      · simp only [Prod.mk.injEq] at heq
        exact absurd heq.1.symm hother
      · rwa [← heq]
    · intro hmem
      exact ⟨_, hmem, if_neg hother⟩
  · simp [hother]

theorem Hits.get_delete (h : hits.Keyed) (other : κ) :
    (hits.delete key).get other = if other = key then [] else hits.get other := by
  split
  · rename_i heq
    subst heq
    refine Hits.get_eq_nil fun hmem => ?_
    obtain ⟨entry, hentry, hkey⟩ := List.mem_map.mp hmem
    have := (List.mem_filter.mp hentry).2
    simp [hkey] at this
  · rename_i hother
    refine Hits.get_eq_of_mem_iff h (Hits.delete_keyed h) fun others => ?_
    simp [Hits.delete, hother]

/-! ## Pruning -/

theorem Limits.prune_keyed (h : hits.Keyed) (now : Int) : (limits.prune hits key now).Keyed := by
  unfold Limits.prune
  split
  · exact Hits.delete_keyed h
  · exact Hits.set_keyed h _

/-- Pruning leaves what counts. -/
theorem Limits.recent_prune (h : hits.Keyed) {now t : Int} (hnow : now ≤ t) (other : κ) :
    limits.recent (limits.prune hits key now) other t = limits.recent hits other t := by
  unfold Limits.prune
  by_cases hother : other = key
  · subst hother
    have hlater := @window_window limits.windowMs t now (hits.get other) hnow
    split
    · rename_i hnil
      rw [Limits.recent] at hnil
      rw [hnil] at hlater
      rw [Limits.recent, Hits.get_delete h, if_pos rfl, Limits.recent, ← hlater]
    · rw [Limits.recent, Hits.get_set h, Limits.recent, Limits.recent, hlater]
  · split
    · rw [Limits.recent, Hits.get_delete h, if_neg hother, Limits.recent]
    · rw [Limits.recent, Hits.get_set_other h hother, Limits.recent]

theorem Limits.prune_keys (now : Int) : ∀ k ∈ (limits.prune hits key now).map (·.1), k ∈ hits.map (·.1) := by
  intro k hk
  unfold Limits.prune at hk
  split at hk
  · exact (List.filter_sublist.map _).mem hk
  · rename_i hne
    rw [Hits.set_keys] at hk
    split at hk
    · exact hk
    · rename_i hkey
      exact absurd (by rw [Limits.recent, Hits.get_eq_nil hkey]; rfl) hne

/-! ## The limiter stands for the failures -/

/-- The map after some calls, as long as no key was evicted. -/
structure Represents (limits : Limits) (hits : Hits κ) (calls : List (Call κ)) : Prop where
  keyed : hits.Keyed
  keys : ∀ key ∈ hits.map (·.1), key ∈ failedKeys calls
  recent : ∀ key t, (∀ call ∈ calls, call.now ≤ t) →
    limits.recent hits key t = window limits.windowMs t (failuresOf key calls)

theorem failuresOf_append (calls later : List (Call κ)) :
    failuresOf key (calls ++ later) = failuresOf key calls ++ failuresOf key later := by
  simp [failuresOf]

theorem failedKeys_append {calls : List (Call κ)} (later : List (Call κ)) (h : key ∈ failedKeys calls) :
    key ∈ failedKeys (calls ++ later) := by
  simp only [failedKeys, List.mem_dedup, List.filterMap_append, List.map_append, List.mem_append] at h ⊢
  exact .inl h

theorem mem_failedKeys {calls : List (Call κ)} {now : Int} (h : Call.recordFailure key now ∈ calls) :
    key ∈ failedKeys calls := by
  simp only [failedKeys, List.mem_dedup, List.mem_map]
  exact ⟨(key, now), List.mem_filterMap.mpr ⟨_, h, rfl⟩, rfl⟩

/-- Up to `maxKeys` distinct keys nothing is evicted. -/
theorem Represents.evict {calls : List (Call κ)} (h : Represents limits hits calls) {now : Int}
    (hcap : (failedKeys (calls ++ [.recordFailure key now])).length ≤ limits.maxKeys) :
    limits.evict hits key = hits := by
  unfold Limits.evict
  rw [if_neg]
  rintro ⟨hnew, hfull⟩
  have hnodup : (key :: hits.map (·.1)).Nodup := List.nodup_cons.mpr ⟨hnew, h.keyed⟩
  have hsub : (key :: hits.map (·.1)) ⊆ failedKeys (calls ++ [.recordFailure key now]) := by
    intro k hk
    rcases List.mem_cons.mp hk with rfl | hk
    · exact mem_failedKeys (List.mem_append_right _ (List.mem_singleton_self _))
    · exact failedKeys_append _ (h.keys k hk)
  have hlength := (List.subperm_of_subset hnodup hsub).length_le
  simp only [List.length_cons, List.length_map] at hlength
  omega

theorem Represents.ask {calls : List (Call κ)} (h : Represents limits hits calls) (key : κ) (now : Int) :
    Represents limits (limits.prune hits key now) (calls ++ [.ask key now]) where
  keyed := Limits.prune_keyed h.keyed now
  keys k hk := failedKeys_append _ (h.keys k (Limits.prune_keys now k hk))
  recent other t ht := by
    have hnow : now ≤ t := ht _ (List.mem_append_right _ (List.mem_singleton_self _))
    rw [Limits.recent_prune h.keyed hnow, h.recent other t fun call hcall => ht call (List.mem_append_left _ hcall),
      failuresOf_append]
    simp [failuresOf, Call.failure?, List.filterMap_cons]

theorem Represents.recordFailure {calls : List (Call κ)} (h : Represents limits hits calls) {now : Int}
    (hclock : ∀ call ∈ calls, call.now ≤ now)
    (hcap : (failedKeys (calls ++ [.recordFailure key now])).length ≤ limits.maxKeys) :
    Represents limits (limits.recordFailure hits key now) (calls ++ [.recordFailure key now]) := by
  unfold Limits.recordFailure
  rw [h.evict hcap]
  have hpruned : (limits.prune hits key now).Keyed := Limits.prune_keyed h.keyed now
  refine ⟨Hits.set_keyed hpruned _, ?_, ?_⟩
  · intro k hk
    rw [Hits.set_keys] at hk
    have hsplit : k ∈ (limits.prune hits key now).map (·.1) ∨ k = key := by
      split at hk
      · exact .inl hk
      · exact (List.mem_append.mp hk).imp id List.mem_singleton.mp
    rcases hsplit with hk | rfl
    · exact failedKeys_append _ (h.keys k (Limits.prune_keys now k hk))
    · exact mem_failedKeys (List.mem_append_right _ (List.mem_singleton_self _))
  · intro other t ht
    have hnow : now ≤ t := ht _ (List.mem_append_right _ (List.mem_singleton_self _))
    have hbefore : ∀ call ∈ calls, call.now ≤ t := fun call hcall => ht call (List.mem_append_left _ hcall)
    rw [failuresOf_append, window_append]
    by_cases hother : other = key
    · subst hother
      rw [Limits.recent, Hits.get_set hpruned, window_append, h.recent other now hclock, window_window hnow]
      simp [failuresOf, Call.failure?]
    · rw [Limits.recent, Hits.get_set_other hpruned hother, ← Limits.recent, Limits.recent_prune h.keyed hnow,
        h.recent other t hbefore]
      simp [failuresOf, Call.failure?, Ne.symm hother, window]

theorem run_append (calls : List (Call κ)) (call : Call κ) :
    run limits (calls ++ [call]) = step limits (run limits calls) call := by
  simp [run]

/-- **What the limiter knows** of a key is what its own failures say. -/
theorem run_represents {calls : List (Call κ)} (hclock : Clocked calls)
    (hcap : (failedKeys calls).length ≤ limits.maxKeys) : Represents limits (run limits calls) calls := by
  induction calls using List.reverseRecOn with
  | nil => exact ⟨List.nodup_nil, fun key hkey => absurd hkey List.not_mem_nil, fun _ _ _ => rfl⟩
  | append_singleton calls call ih =>
    rw [Clocked, List.map_append, List.pairwise_append] at hclock
    obtain ⟨hbefore, _, hlast⟩ := hclock
    have hle : ∀ other ∈ calls, other.now ≤ call.now := fun other hother =>
      hlast _ (List.mem_map_of_mem hother) _ (List.mem_singleton_self _)
    have hkeys : (failedKeys calls).length ≤ (failedKeys (calls ++ [call])).length :=
      (List.subperm_of_subset (List.nodup_dedup _) fun key hkey => failedKeys_append _ hkey).length_le
    have h := ih hbefore (hkeys.trans hcap)
    rw [run_append]
    cases call with
    | recordFailure key now => exact h.recordFailure hle hcap
    | ask key now => exact h.ask key now

/-! ## The answers -/

variable {calls : List (Call κ)}

theorem failuresOf_sorted (hclock : Clocked calls) (key : κ) : (failuresOf key calls).Pairwise (· ≤ ·) := by
  have hfailures : ((calls.filterMap Call.failure?).map (·.2)).Sublist (calls.map Call.now) := by
    clear hclock
    induction calls with
    | nil => exact List.Sublist.refl _
    | cons call calls ih =>
      cases call with
      | recordFailure key now => exact ih.cons_cons now
      | ask key now => exact ih.cons now
  exact hclock.sublist ((List.filter_sublist.map _).trans hfailures)

/-- The oldest failures that still count leave the window in time for the wait told. -/
def InTime (limits : Limits) (times : List Int) (now : Int) : Prop :=
  ∃ x, times[times.length - limits.maxFailures]? = some x ∧
    x + limits.windowMs ≤ now + 1000 * waitOf limits.windowMs now times

/-- A blocked key is let in after the wait exactly if the `maxFailures`-th newest failure has left by then. -/
theorem wait_told (hclock : Clocked calls) (hcap : (failedKeys calls).length ≤ limits.maxKeys) {now : Int}
    (hnow : ∀ call ∈ calls, call.now ≤ now) (hblocked : limits.isBlocked (run limits calls) key now = true) :
    (∀ k, 0 ≤ k → k < limits.retryAfterSeconds (run limits calls) key now →
      limits.isBlocked (run limits calls) key (now + 1000 * k) = true) ∧
    (limits.isBlocked (run limits calls) key
        (now + 1000 * limits.retryAfterSeconds (run limits calls) key now) = false ↔
      InTime limits (limits.recent (run limits calls) key now) now) := by
  have h := run_represents hclock hcap
  have hlater : ∀ t, now ≤ t → limits.recent (run limits calls) key t =
      window limits.windowMs t (limits.recent (run limits calls) key now) := fun t ht => by
    rw [h.recent key t fun call hcall => (hnow call hcall).trans ht, h.recent key now hnow, window_window ht]
  have hsorted : (limits.recent (run limits calls) key now).Pairwise (· ≤ ·) := by
    rw [h.recent key now hnow]
    exact (failuresOf_sorted hclock key).sublist window_sublist
  have hm : limits.maxFailures ≤ (limits.recent (run limits calls) key now).length := by
    simpa [Limits.isBlocked] using hblocked
  refine ⟨fun k hk hlt => ?_, ?_⟩
  · rw [Limits.isBlocked, hlater _ (by omega), window_waiting hsorted (fun x hx => (mem_window.mp hx).2) hlt]
    simpa using hm
  · have hwait : 0 ≤ limits.retryAfterSeconds (run limits calls) key now := waitOf_nonneg
    rw [Limits.isBlocked, hlater _ (by omega), decide_eq_false_iff_not, Nat.not_le]
    exact length_window_lt_iff hsorted hm

end Zenod.Failures
