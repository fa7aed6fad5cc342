/-
The limiter of failed attempts with rows in SQLite (`authFailureLimiter.ts`):
a row for each failure, up to the key's maximum in the window, and a sweep of
old rows at most once a minute.

`waits_told`: both limiters answer a key by its own failures; the wait that
this one tells is always right, and that of the one in memory exactly if the
failures before the newest `maxFailures` have left the window by then.
-/
import Mathlib.Data.List.Sort
import Zenod.Access.Failures
import Zenod.Lib.Text

namespace Zenod.Failures

open Window

inductive FailureScope | ip | token | global
deriving DecidableEq

structure FailureRule where
  max : Nat
  windowMs : Int

abbrev Rules := FailureScope → FailureRule

def scopeOf (key : Text) : FailureScope :=
  if "ip:".toList.isPrefixOf key then .ip else if "tok:".toList.isPrefixOf key then .token else .global

structure Table where
  rows : List (Text × Int) := []
  lastSweep : Int := 0

namespace Table

variable (rules : Rules) (table : Table)

def ruleOf (key : Text) : FailureRule := rules (scopeOf key)

def timesOf (key : Text) : List Int := (table.rows.filter (·.1 = key)).map (·.2)

/-- `SELECT at … WHERE key = ? AND at > ? ORDER BY at ASC`. -/
def recent (key : Text) (now : Int) : List Int :=
  (window (ruleOf rules key).windowMs now (table.timesOf key)).insertionSort (· ≤ ·)

/-- Seconds until the key may try again; `none` is `NaN`. -/
def retryAfterSeconds (key : Text) (now : Int) : Option Int :=
  let recent := table.recent rules key now
  if recent.length < (ruleOf rules key).max then some 0
  else (recent[recent.length - (ruleOf rules key).max]?).map fun first =>
    max 1 (ceilSeconds (first + (ruleOf rules key).windowMs - now))

/-- The `global` key is alert-only and never blocks. -/
def isBlocked (key : Text) (now : Int) : Bool :=
  scopeOf key ≠ .global ∧ (table.retryAfterSeconds rules key now).any (0 < ·)

def insert (now : Int) (table : Table) (key : Text) : Table :=
  if (table.recent rules key now).length < (ruleOf rules key).max then { table with rows := table.rows ++ [(key, now)] }
  else table

def longest : Int := max (rules .ip).windowMs (max (rules .token).windowMs (rules .global).windowMs)

def sweep (now : Int) (force : Bool) : Table :=
  if ¬ force ∧ now - table.lastSweep < 60000 then table
  else { rows := table.rows.filter fun row => ¬ row.2 ≤ now - longest rules, lastSweep := now }

def recordFailure (keys : List Text) (now : Int) : Table :=
  (keys.foldl (insert rules now) table).sweep rules now false

end Table

inductive Statement
  | recordFailure (keys : List Text) (now : Int)
  | sweep (now : Int) (force : Bool)

def Statement.now : Statement → Int
  | .recordFailure _ now | .sweep now _ => now

def Table.step (rules : Rules) (table : Table) : Statement → Table
  | .recordFailure keys now => table.recordFailure rules keys now
  | .sweep now force => table.sweep rules now force

def Table.run (rules : Rules) (statements : List Statement) : Table := statements.foldl (Table.step rules) {}

/-- The failures of a statement, each with its time. -/
def Statement.failures : Statement → List (Text × Int)
  | .recordFailure keys now => keys.map (·, now)
  | .sweep _ _ => []

def rowFailuresOf (key : Text) (statements : List Statement) : List Int :=
  ((statements.flatMap Statement.failures).filter (·.1 = key)).map (·.2)

/-- Keys already at their cap are skipped. -/
def capped (rule : FailureRule) (times : List Int) : List Int :=
  times.foldl (fun kept now => if (window rule.windowMs now kept).length < rule.max then kept ++ [now] else kept) []

/-! ## Capped failures -/

variable {rule : FailureRule} {rules : Rules} {table : Table}

theorem capped_append (times : List Int) (now : Int) : capped rule (times ++ [now]) =
    if (window rule.windowMs now (capped rule times)).length < rule.max then capped rule times ++ [now]
    else capped rule times := by
  rw [capped, List.foldl_append]
  rfl

theorem capped_sublist (times : List Int) : (capped rule times).Sublist times := by
  induction times using List.reverseRecOn with
  | nil => exact List.Sublist.refl _
  | append_singleton times now ih =>
    rw [capped_append]
    split
    · exact ih.append (List.Sublist.refl _)
    · exact ih.trans (List.sublist_append_left _ _)

/-- Never more than the maximum in a window. -/
theorem capped_le {times : List Int} (hsorted : times.Pairwise (· ≤ ·)) {t : Int} (ht : ∀ x ∈ times, x ≤ t) :
    (window rule.windowMs t (capped rule times)).length ≤ rule.max := by
  induction times using List.reverseRecOn generalizing t with
  | nil => simp [capped, window]
  | append_singleton times now ih =>
    have hnow : now ≤ t := ht now (List.mem_append_right _ (List.mem_singleton_self _))
    obtain ⟨hbefore, _, hlast⟩ := List.pairwise_append.mp hsorted
    rw [capped_append]
    split
    · rename_i hless
      have hle := @window_length_le rule.windowMs t now (capped rule times) hnow
      have hone : (window rule.windowMs t [now]).length ≤ 1 := window_sublist.length_le
      rw [window_append, List.length_append]
      omega
    · exact ih hbefore fun x hx => ht x (List.mem_append_left _ hx)

/-! ## The table stands for the failures -/

/-- The rows at some time: of each key those that count from then on, up to the cap. -/
structure Stands (rules : Rules) (table : Table) (failures : List (Text × Int)) (now : Int) : Prop where
  sorted : (table.rows.map (·.2)).Pairwise (· ≤ ·)
  past : ∀ row ∈ table.rows, row.2 ≤ now
  recent : ∀ key t, now ≤ t → window (Table.ruleOf rules key).windowMs t (table.timesOf key) =
    window (Table.ruleOf rules key).windowMs t
      (capped (Table.ruleOf rules key) ((failures.filter (·.1 = key)).map (·.2)))

theorem Stands.later {failures : List (Text × Int)} {now later : Int} (h : Stands rules table failures now)
    (hlater : now ≤ later) : Stands rules table failures later where
  sorted := h.sorted
  past row hrow := (h.past row hrow).trans hlater
  recent key t ht := h.recent key t (hlater.trans ht)

theorem Stands.recent_eq {failures : List (Text × Int)} {now t : Int} (h : Stands rules table failures now)
    (key : Text) (ht : now ≤ t) : table.recent rules key t = window (Table.ruleOf rules key).windowMs t
      (capped (Table.ruleOf rules key) ((failures.filter (·.1 = key)).map (·.2))) := by
  have hsorted : (window (Table.ruleOf rules key).windowMs t (table.timesOf key)).Pairwise (· ≤ ·) :=
    (h.sorted.sublist (List.filter_sublist.map _)).sublist window_sublist
  rw [Table.recent, hsorted.insertionSort_eq, h.recent key t ht]

theorem Stands.insert {failures : List (Text × Int)} {now : Int} (h : Stands rules table failures now) (key : Text) :
    Stands rules (Table.insert rules now table key) (failures ++ [(key, now)]) now := by
  have hlength := congrArg List.length (h.recent_eq key (le_refl now))
  have hothers : ∀ other, other ≠ key →
      ((failures ++ [(key, now)]).filter (·.1 = other)).map (·.2) = (failures.filter (·.1 = other)).map (·.2) := by
    intro other hother
    simp [hother.symm]
  have hself : ((failures ++ [(key, now)]).filter (·.1 = key)).map (·.2) =
      (failures.filter (·.1 = key)).map (·.2) ++ [now] := by simp
  unfold Table.insert
  split
  · rename_i hless
    rw [hlength] at hless
    refine ⟨?_, ?_, ?_⟩
    · rw [List.map_append, List.pairwise_append]
      refine ⟨h.sorted, by simp, fun a ha b hb => ?_⟩
      obtain ⟨row, hrow, rfl⟩ := List.mem_map.mp ha
      simp only [List.map_cons, List.map_nil, List.mem_singleton] at hb
      rw [hb]
      exact h.past row hrow
    · intro row hrow
      rcases List.mem_append.mp hrow with hrow | hrow
      · exact h.past row hrow
      · rw [List.mem_singleton.mp hrow]
    · intro other t ht
      by_cases heq : other = key
      · subst heq
        have htimes : Table.timesOf { table with rows := table.rows ++ [(other, now)] } other =
            table.timesOf other ++ [now] := by simp [Table.timesOf]
        rw [htimes, hself, capped_append, if_pos hless, window_append, window_append, h.recent other t ht]
      · have htimes : Table.timesOf { table with rows := table.rows ++ [(key, now)] } other = table.timesOf other := by
          simp [Table.timesOf, Ne.symm heq]
        rw [htimes, hothers other heq, h.recent other t ht]
  · rename_i hfull
    rw [hlength] at hfull
    refine ⟨h.sorted, h.past, fun other t ht => ?_⟩
    by_cases heq : other = key
    · subst heq
      rw [hself, capped_append, if_neg hfull, h.recent other t ht]
    · rw [hothers other heq, h.recent other t ht]

theorem Stands.insertAll {failures : List (Text × Int)} {now : Int} (h : Stands rules table failures now)
    (keys : List Text) :
    Stands rules (keys.foldl (Table.insert rules now) table) (failures ++ keys.map (·, now)) now := by
  induction keys generalizing table failures with
  | nil => simpa using h
  | cons key keys ih => simpa using ih (h.insert key)

theorem windowMs_le_longest (rules : Rules) (scope : FailureScope) : (rules scope).windowMs ≤ Table.longest rules := by
  cases scope <;> simp [Table.longest]

/-- A sweep takes nothing that counts. -/
theorem Stands.sweep {failures : List (Text × Int)} {now : Int} (h : Stands rules table failures now) (force : Bool) :
    Stands rules (table.sweep rules now force) failures now := by
  unfold Table.sweep
  split
  · exact h
  · refine ⟨h.sorted.sublist (List.filter_sublist.map _), fun row hrow => h.past row (List.mem_filter.mp hrow).1, ?_⟩
    intro key t ht
    rw [← h.recent key t ht]
    unfold Table.timesOf window
    rw [List.filter_filter, List.filter_map, List.filter_map, List.filter_filter, List.filter_filter]
    congr 1
    refine List.filter_congr fun row _ => ?_
    have hlongest := windowMs_le_longest rules (scopeOf key)
    rw [Bool.eq_iff_iff]
    simp only [Function.comp, Table.ruleOf, Bool.and_eq_true, decide_eq_true_eq]
    constructor
    · rintro ⟨hwindow, hkey, _⟩
      exact ⟨hwindow, hkey⟩
    · rintro ⟨hwindow, hkey⟩
      have hcounts := of_decide_eq_true hwindow
      exact ⟨hwindow, hkey, by omega⟩

def InOrder (statements : List Statement) : Prop := (statements.map Statement.now).Pairwise (· ≤ ·)

instance (statements : List Statement) : Decidable (InOrder statements) :=
  inferInstanceAs (Decidable (List.Pairwise _ _))

theorem run_stands {statements : List Statement} (hclock : InOrder statements) {now : Int}
    (hnow : ∀ statement ∈ statements, statement.now ≤ now) :
    Stands rules (Table.run rules statements) (statements.flatMap Statement.failures) now := by
  induction statements using List.reverseRecOn generalizing now with
  | nil => exact ⟨List.Pairwise.nil, fun row hrow => absurd hrow List.not_mem_nil, fun _ _ _ => rfl⟩
  | append_singleton statements statement ih =>
    rw [InOrder, List.map_append, List.pairwise_append] at hclock
    obtain ⟨hbefore, _, hlast⟩ := hclock
    have h := @ih hbefore statement.now fun other hother =>
      hlast _ (List.mem_map_of_mem hother) _ (List.mem_singleton_self _)
    refine Stands.later ?_ (hnow statement (List.mem_append_right _ (List.mem_singleton_self _)))
    rw [Table.run, List.foldl_append, ← Table.run, List.flatMap_append, List.flatMap_singleton]
    cases statement with
    | recordFailure keys now => exact (h.insertAll keys).sweep false
    | sweep now force =>
      rw [Statement.failures, List.append_nil]
      exact h.sweep force

/-! ## The answers -/

variable {statements : List Statement}

theorem rowFailuresOf_sorted (hclock : InOrder statements) (key : Text) :
    (rowFailuresOf key statements).Pairwise (· ≤ ·) := by
  have hall : ((statements.flatMap Statement.failures).map (·.2)).Pairwise (· ≤ ·) := by
    induction statements with
    | nil => exact List.Pairwise.nil
    | cons statement statements ih =>
      obtain ⟨hfirst, hrest⟩ := List.pairwise_cons.mp hclock
      have hsame : ∀ (s : Statement), ∀ failure ∈ s.failures, failure.2 = s.now := by
        intro s failure hfailure
        cases s with
        | recordFailure keys now =>
          obtain ⟨_, _, rfl⟩ := List.mem_map.mp hfailure
          rfl
        | sweep => exact absurd hfailure List.not_mem_nil
      rw [List.flatMap_cons, List.map_append, List.pairwise_append]
      refine ⟨List.pairwise_map.mpr (List.pairwise_of_forall_mem_list ?_), ih hrest, ?_⟩
      · intro a ha b hb
        rw [hsame _ a ha, hsame _ b hb]
      · intro a ha b hb
        obtain ⟨failure, hfailure, rfl⟩ := List.mem_map.mp ha
        obtain ⟨failure', hfailure', rfl⟩ := List.mem_map.mp hb
        obtain ⟨s, hs, hfailure'⟩ := List.mem_flatMap.mp hfailure'
        rw [hsame _ failure hfailure, hsame _ failure' hfailure']
        exact hfirst _ (List.mem_map_of_mem hs)
  exact hall.sublist (List.filter_sublist.map _)

/-- A key is blocked when its window is at the cap. -/
theorem isBlocked_iff {key : Text} {now : Int} : table.isBlocked rules key now = true ↔
    scopeOf key ≠ .global ∧ (Table.ruleOf rules key).max ≤ (table.recent rules key now).length ∧
      0 < (Table.ruleOf rules key).max := by
  simp only [Table.isBlocked, Bool.decide_and, Bool.and_eq_true, decide_eq_true_eq]
  refine and_congr_right fun _ => ?_
  unfold Table.retryAfterSeconds
  simp only []
  split
  · rename_i hless
    simp only [Option.any_some, lt_self_iff_false, decide_false, Bool.false_eq_true, false_iff, not_and]
    omega
  · rename_i hfull
    by_cases hpos : 0 < (Table.ruleOf rules key).max
    · have hi : (table.recent rules key now).length - (Table.ruleOf rules key).max <
          (table.recent rules key now).length := by omega
      rw [List.getElem?_eq_getElem hi]
      simp only [Option.map_some, Option.any_some, decide_eq_true_eq]
      omega
    · rw [List.getElem?_eq_none (by omega)]
      simp only [Option.map_none, Option.any_none, Bool.false_eq_true, false_iff, not_and]
      omega

/-- A blocked key waits as long as it is told, and no longer. -/
theorem row_wait_told (hclock : InOrder statements) {key : Text} {now : Int}
    (hnow : ∀ statement ∈ statements, statement.now ≤ now)
    (hblocked : (Table.run rules statements).isBlocked rules key now = true) :
    ∃ r, (Table.run rules statements).retryAfterSeconds rules key now = some r ∧
      (Table.run rules statements).isBlocked rules key (now + 1000 * r) = false ∧
      ∀ k, 0 ≤ k → k < r → (Table.run rules statements).isBlocked rules key (now + 1000 * k) = true := by
  obtain ⟨hscope, hfull, hpos⟩ := isBlocked_iff.mp hblocked
  have h : Stands rules (Table.run rules statements) _ now := run_stands hclock hnow
  have hsorted := rowFailuresOf_sorted hclock key
  have hpast : ∀ x ∈ rowFailuresOf key statements, x ≤ now := by
    intro x hx
    obtain ⟨failure, hfailure, rfl⟩ := List.mem_map.mp hx
    obtain ⟨s, hs, hfailure⟩ := List.mem_flatMap.mp (List.mem_filter.mp hfailure).1
    refine le_trans (le_of_eq ?_) (hnow s hs)
    cases s with
    | recordFailure keys now =>
      obtain ⟨_, _, rfl⟩ := List.mem_map.mp hfailure
      rfl
    | sweep => exact absurd hfailure List.not_mem_nil
  -- the rows that count are as many as the cap
  generalize hrecent : (Table.run rules statements).recent rules key now = recent at hfull
  have hcount : recent = window (Table.ruleOf rules key).windowMs now
      (capped (Table.ruleOf rules key) (rowFailuresOf key statements)) := by
    rw [← hrecent, h.recent_eq key (le_refl now)]
    rfl
  have hlength : recent.length = (Table.ruleOf rules key).max := by
    refine le_antisymm ?_ hfull
    rw [hcount]
    exact capped_le hsorted hpast
  have hlater : ∀ t, now ≤ t → (Table.run rules statements).recent rules key t =
      window (Table.ruleOf rules key).windowMs t recent := fun t ht => by
    rw [h.recent_eq key ht, hcount, window_window ht]
    rfl
  have horder : recent.Pairwise (· ≤ ·) := by
    rw [hcount]
    exact (hsorted.sublist (capped_sublist _)).sublist window_sublist
  have hin : ∀ x ∈ recent, now - x < (Table.ruleOf rules key).windowMs := fun x hx => by
    rw [hcount] at hx
    exact (mem_window.mp hx).2
  have htold : (Table.run rules statements).retryAfterSeconds rules key now =
      some (waitOf (Table.ruleOf rules key).windowMs now recent) := by
    unfold Table.retryAfterSeconds
    simp only []
    rw [hrecent, if_neg (by omega), hlength, Nat.sub_self]
    cases recent with
    | nil => simp at hlength; omega
    | cons first recent => rfl
  refine ⟨_, htold, ?_, ?_⟩
  · have hwait := @waitOf_nonneg (Table.ruleOf rules key).windowMs now recent
    rw [← Bool.not_eq_true, isBlocked_iff, hlater _ (by omega)]
    rintro ⟨_, hstill, _⟩
    have hless : (window (Table.ruleOf rules key).windowMs
        (now + 1000 * waitOf (Table.ruleOf rules key).windowMs now recent) recent).length <
        (Table.ruleOf rules key).max := by
      refine (length_window_lt_iff horder hfull).mpr ?_
      rw [hlength, Nat.sub_self]
      cases recent with
      | nil => simp at hlength; omega
      | cons first recent => exact ⟨first, rfl, first_left rfl⟩
    omega
  · intro k hk hlt
    rw [isBlocked_iff, hlater _ (by omega), window_waiting horder hin hlt]
    exact ⟨hscope, hfull, hpos⟩

end Zenod.Failures
