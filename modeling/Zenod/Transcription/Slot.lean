/-
The slot of local transcription (`localTranscriptionQueue.ts`): a chain of
promises, one for each call, where a call waits for its predecessor's release.
A call whose signal fired before it got the slot passes its predecessor's
release on.

`slot_serialized`: at most one call has the slot, tasks start in call order, a
call that was aborted in time never starts, and when the pending continuations
have run and no task is running, every call has ended and the slot is free.
-/
import Mathlib.Data.List.Basic
import Mathlib.Data.List.Induction
import Mathlib.Algebra.BigOperators.Group.List.Basic
import Mathlib.Algebra.GroupWithZero.Nat

namespace Zenod.Transcription

/-- Where a call of `runLocalTranscriptionSerialized` is. -/
inductive Phase
  | waiting
  /-- It has the slot, `onAcquired` is to come. -/
  | acquired
  | running
  /-- The task has settled, `finally` is to come. -/
  | settled
  | finished
  /-- `onAcquired` threw. -/
  | failed
  /-- Rejected with the abort error. -/
  | aborted
deriving DecidableEq, Repr

def Phase.holds : Phase → Bool
  | .acquired | .running | .settled => true
  | _ => false

def Phase.hasStarted : Phase → Bool
  | .running | .settled | .finished => true
  | _ => false

structure Call where
  hasSignal : Bool
  /-- `signal.aborted`. -/
  fired : Bool
  phase : Phase
  /-- `release` was called. -/
  released : Bool
deriving DecidableEq, Repr

/-- The calls in their order, each with its link of the chain, and the tasks started so far. -/
structure Slot where
  calls : List Call := []
  started : List Nat := []
deriving DecidableEq, Repr

namespace Slot

/-- `previous` is resolved. -/
def free (s : Slot) : Nat → Bool
  | 0 => true
  | i + 1 =>
    match s.calls[i]? with
    | some call => call.released
    | none => false

def set (s : Slot) (i : Nat) (call : Call) : Slot := { s with calls := s.calls.set i call }

end Slot

inductive Move
  /-- A call without a signal, or with one that may have fired. -/
  | call (signal : Option Bool)
  | fire (i : Nat)
  /-- `await` of the race, or of the predecessor, comes back. -/
  | wake (i : Nat)
  /-- `onAcquired` and the task's start. -/
  | enter (i : Nat) (throws : Bool)
  | settle (i : Nat)
  /-- `finally` after the task. -/
  | finish (i : Nat)
  /-- `previous.finally(release)`. -/
  | pass (i : Nat)
deriving DecidableEq

/-- What the runtime does on its own. -/
def Move.continues : Move → Bool
  | .wake _ | .enter _ _ | .finish _ | .pass _ => true
  | _ => false

/-- `none`: nothing waits for that. -/
def step? (s : Slot) : Move → Option Slot
  | .call none => some { s with calls := s.calls ++ [⟨false, false, .waiting, false⟩] }
  | .call (some false) => some { s with calls := s.calls ++ [⟨true, false, .waiting, false⟩] }
  | .call (some true) => some { s with calls := s.calls ++ [⟨true, true, .aborted, false⟩] }
  | .fire i =>
    match s.calls[i]? with
    | some call => if call.hasSignal then some (s.set i { call with fired := true }) else none
    | none => none
  | .wake i =>
    match s.calls[i]? with
    | some call =>
      if call.phase = .waiting ∧ (s.free i ∨ call.fired) then
        some (s.set i { call with phase := if call.fired then .aborted else .acquired })
      else none
    | none => none
  | .enter i throws =>
    match s.calls[i]? with
    | some call =>
      if call.phase = .acquired then
        if throws then some (s.set i { call with phase := .failed, released := true })
        else some { s.set i { call with phase := .running } with started := s.started ++ [i] }
      else none
    | none => none
  | .settle i =>
    match s.calls[i]? with
    | some call => if call.phase = .running then some (s.set i { call with phase := .settled }) else none
    | none => none
  | .finish i =>
    match s.calls[i]? with
    | some call =>
      if call.phase = .settled then some (s.set i { call with phase := .finished, released := true }) else none
    | none => none
  | .pass i =>
    match s.calls[i]? with
    | some call =>
      if call.phase = .aborted ∧ call.released = false ∧ s.free i then some (s.set i { call with released := true })
      else none
    | none => none

def step (s : Slot) (m : Move) : Slot := (step? s m).getD s

def runMoves (moves : List Move) : Slot := moves.foldl step {}

/-- No continuation is pending. -/
def Quiet (s : Slot) : Prop := ∀ m, m.continues = true → step? s m = none

/-- Every started task has settled. -/
def Idle (s : Slot) : Prop := ∀ (i : Nat) (call : Call), s.calls[i]? = some call → call.phase ≠ .running

/-! ## What a step does -/

/-- How one call goes on. -/
inductive Change (s : Slot) (i : Nat) : Call → Call → Prop
  | fire (call : Call) : Change s i call { call with fired := true }
  | abort (call : Call) (hphase : call.phase = .waiting) (hfired : call.fired = true) :
    Change s i call { call with phase := .aborted }
  | acquire (call : Call) (hphase : call.phase = .waiting) (hfired : call.fired = false) (hfree : s.free i = true) :
    Change s i call { call with phase := .acquired }
  | fail (call : Call) (hphase : call.phase = .acquired) :
    Change s i call { call with phase := .failed, released := true }
  | start (call : Call) (hphase : call.phase = .acquired) : Change s i call { call with phase := .running }
  | settle (call : Call) (hphase : call.phase = .running) : Change s i call { call with phase := .settled }
  | finish (call : Call) (hphase : call.phase = .settled) :
    Change s i call { call with phase := .finished, released := true }
  | pass (call : Call) (hphase : call.phase = .aborted) (hfree : s.free i = true) :
    Change s i call { call with released := true }

/-- A new link of the chain: it waits, or its signal has fired already. -/
def Fresh (call : Call) : Prop :=
  call.released = false ∧
    (call.phase = .waiting ∧ call.fired = false ∨ call.phase = .aborted ∧ call.fired = true)

theorem step?_cases {s s' : Slot} {m : Move} (h : step? s m = some s') :
    (∃ call, Fresh call ∧ s' = { s with calls := s.calls ++ [call] }) ∨
    ∃ i call call', s.calls[i]? = some call ∧ Change s i call call' ∧ s'.calls = s.calls.set i call' ∧
      s'.started = s.started ++ (if call'.phase.hasStarted ∧ call.phase.hasStarted = false then [i] else []) := by
  cases m with
  | call signal =>
    rcases signal with _ | _ | _
    all_goals
      simp only [step?, Option.some.injEq] at h
      exact .inl ⟨_, by simp [Fresh], h.symm⟩
  | fire i =>
    simp only [step?] at h
    split at h
    · rename_i call hcall
      split at h
      · simp only [Option.some.injEq] at h
        subst h
        exact .inr ⟨i, call, _, hcall, .fire call, rfl, by cases call.phase <;> simp [Slot.set, Phase.hasStarted]⟩
      · cases h
    · cases h
  | wake i =>
    simp only [step?] at h
    split at h
    · rename_i call hcall
      split at h
      · rename_i hwake
        obtain ⟨hphase, hwake⟩ := hwake
        simp only [Option.some.injEq] at h
        subst h
        cases hfired : call.fired with
        | true =>
          exact .inr ⟨i, call, _, hcall, .abort call hphase hfired, by simp [Slot.set, hfired],
            by simp [Slot.set, Phase.hasStarted]⟩
        | false =>
          have hfree : s.free i = true := by simpa [hfired] using hwake
          exact .inr ⟨i, call, _, hcall, .acquire call hphase hfired hfree, by simp [Slot.set, hfired],
            by simp [Slot.set, Phase.hasStarted]⟩
      · cases h
    · cases h
  | enter i throws =>
    simp only [step?] at h
    split at h
    · rename_i call hcall
      split at h
      · rename_i hphase
        split at h
        · simp only [Option.some.injEq] at h
          subst h
          exact .inr ⟨i, call, _, hcall, .fail call hphase, rfl, by simp [Slot.set, Phase.hasStarted]⟩
        · simp only [Option.some.injEq] at h
          subst h
          exact .inr ⟨i, call, _, hcall, .start call hphase, rfl, by simp [Phase.hasStarted, hphase]⟩
      · cases h
    · cases h
  | settle i =>
    simp only [step?] at h
    split at h
    · rename_i call hcall
      split at h
      · rename_i hphase
        simp only [Option.some.injEq] at h
        subst h
        exact .inr ⟨i, call, _, hcall, .settle call hphase, rfl, by simp [Slot.set, Phase.hasStarted, hphase]⟩
      · cases h
    · cases h
  | finish i =>
    simp only [step?] at h
    split at h
    · rename_i call hcall
      split at h
      · rename_i hphase
        simp only [Option.some.injEq] at h
        subst h
        exact .inr ⟨i, call, _, hcall, .finish call hphase, rfl, by simp [Slot.set, Phase.hasStarted, hphase]⟩
      · cases h
    · cases h
  | pass i =>
    simp only [step?] at h
    split at h
    · rename_i call hcall
      split at h
      · rename_i hpass
        simp only [Option.some.injEq] at h
        subst h
        exact .inr ⟨i, call, _, hcall, .pass call hpass.1 hpass.2.2, rfl,
          by simp [Slot.set, Phase.hasStarted, hpass.1]⟩
      · cases h
    · cases h

/-! ## The chain -/

/-- One call and its link. -/
structure Linked (s : Slot) (i : Nat) (call : Call) : Prop where
  /-- A link is released after its predecessor. -/
  released : call.released = true → s.free i = true
  holds : call.phase.holds = true → call.released = false ∧ s.free i = true
  waiting : call.phase = .waiting → call.released = false
  ended : call.phase = .finished ∨ call.phase = .failed → call.released = true
  aborted : call.phase = .aborted → call.fired = true

structure Chained (s : Slot) : Prop where
  linked : ∀ i call, s.calls[i]? = some call → Linked s i call
  started : ∀ i, i ∈ s.started ↔ ∃ call, s.calls[i]? = some call ∧ call.phase.hasStarted = true
  sorted : s.started.Pairwise (· < ·)

variable {s s' : Slot}

/-- Before a released link everything is released. -/
theorem Chained.free_of_le (h : Chained s) {i j : Nat} (hij : i ≤ j) (hfree : s.free j = true) : s.free i = true := by
  induction j with
  | zero => rw [Nat.le_zero.mp hij]; rfl
  | succ j ih =>
    rcases Nat.eq_or_lt_of_le hij with rfl | hlt
    · exact hfree
    · refine ih (Nat.le_of_lt_succ hlt) ?_
      simp only [Slot.free] at hfree
      split at hfree
      · rename_i call hcall
        exact (h.linked j call hcall).released hfree
      · cases hfree

/-- A call behind a free link comes after a call that is not released, if at all. -/
theorem Chained.le_of_free (h : Chained s) {i j : Nat} {call : Call} (hcall : s.calls[i]? = some call)
    (hreleased : call.released = false) (hfree : s.free j = true) : j ≤ i := by
  by_contra hlt
  have hnext := h.free_of_le (i := i + 1) (by omega) hfree
  simp only [Slot.free, hcall, hreleased] at hnext
  cases hnext

theorem Chained.holder (h : Chained s) {i j : Nat} {call other : Call} (hcall : s.calls[i]? = some call)
    (hother : s.calls[j]? = some other) (hholds : call.phase.holds = true) (hholds' : other.phase.holds = true) :
    i = j := by
  obtain ⟨hreleased, hfree⟩ := (h.linked i call hcall).holds hholds
  obtain ⟨hreleased', hfree'⟩ := (h.linked j other hother).holds hholds'
  have := h.le_of_free hcall hreleased hfree'
  have := h.le_of_free hother hreleased' hfree
  omega

theorem free_append {call : Call} {i : Nat} (hfree : s.free i = true) :
    Slot.free { s with calls := s.calls ++ [call] } i = true := by
  cases i with
  | zero => rfl
  | succ i =>
    simp only [Slot.free] at hfree ⊢
    split at hfree
    · rename_i other hother
      rw [List.getElem?_append_left (List.getElem?_eq_some_iff.mp hother).1, hother]
      exact hfree
    · cases hfree

/-- No change takes a release back. -/
theorem Change.released {i : Nat} {call call' : Call} (h : Change s i call call') (hreleased : call.released = true) :
    call'.released = true := by
  cases h <;> first | exact hreleased | rfl

theorem free_set {i j : Nat} {call call' : Call} (hcall : s.calls[i]? = some call) (hchange : Change s i call call')
    (hcalls : s'.calls = s.calls.set i call') (hfree : s.free j = true) : s'.free j = true := by
  cases j with
  | zero => rfl
  | succ j =>
    simp only [Slot.free] at hfree ⊢
    rw [hcalls]
    split at hfree
    · rename_i other hother
      by_cases hij : i = j
      · subst hij
        rw [hcall, Option.some.injEq] at hother
        subst hother
        rw [List.getElem?_set_self (List.getElem?_eq_some_iff.mp hcall).1]
        exact hchange.released hfree
      · rw [List.getElem?_set_ne hij, hother]
        exact hfree
    · cases hfree

theorem Linked.mono {i : Nat} {call : Call} (h : Linked s i call) (hfree : s.free i = true → s'.free i = true) :
    Linked s' i call where
  released hreleased := hfree (h.released hreleased)
  holds hholds := ⟨(h.holds hholds).1, hfree (h.holds hholds).2⟩
  waiting := h.waiting
  ended := h.ended
  aborted := h.aborted

/-- A call that goes on keeps its place in the chain. -/
theorem Linked.change {i : Nat} {call call' : Call} (h : Linked s i call) (hchange : Change s i call call') :
    Linked s i call' := by
  cases hchange with
  | fire => exact { h with aborted := fun _ => rfl }
  | abort hphase hfired =>
    exact {
      released := h.released
      holds := nofun
      waiting := nofun
      ended := by rintro (h | h) <;> cases h
      aborted := fun _ => hfired }
  | acquire hphase hfired hfree =>
    exact {
      released := h.released
      holds := fun _ => ⟨h.waiting hphase, hfree⟩
      waiting := nofun
      ended := by rintro (h | h) <;> cases h
      aborted := nofun }
  | fail hphase =>
    exact {
      released := fun _ => (h.holds (by rw [hphase]; rfl)).2
      holds := nofun
      waiting := nofun
      ended := fun _ => rfl
      aborted := nofun }
  | start hphase =>
    exact {
      released := h.released
      holds := fun _ => h.holds (by rw [hphase]; rfl)
      waiting := nofun
      ended := by rintro (h | h) <;> cases h
      aborted := nofun }
  | settle hphase =>
    exact {
      released := h.released
      holds := fun _ => h.holds (by rw [hphase]; rfl)
      waiting := nofun
      ended := by rintro (h | h) <;> cases h
      aborted := nofun }
  | finish hphase =>
    exact {
      released := fun _ => (h.holds (by rw [hphase]; rfl)).2
      holds := nofun
      waiting := nofun
      ended := fun _ => rfl
      aborted := nofun }
  | pass hphase hfree =>
    exact {
      released := fun _ => hfree
      holds := fun hholds => by rw [hphase] at hholds; cases hholds
      waiting := fun hwaiting => by rw [hphase] at hwaiting; cases hwaiting
      ended := fun _ => rfl
      aborted := h.aborted }

/-- Only a start starts a task, from `onAcquired` on. -/
theorem Change.hasStarted {i : Nat} {call call' : Call} (h : Change s i call call') :
    call.phase.hasStarted = true ∧ call'.phase.hasStarted = true ∨
    call.phase.hasStarted = false ∧ call'.phase.hasStarted = false ∨
    call.phase = .acquired ∧ call'.phase.hasStarted = true := by
  cases h with
  | fire => cases h : call.phase.hasStarted <;> simp
  | abort hphase => exact .inr (.inl ⟨by rw [hphase]; rfl, rfl⟩)
  | acquire hphase => exact .inr (.inl ⟨by rw [hphase]; rfl, rfl⟩)
  | fail hphase => exact .inr (.inl ⟨by rw [hphase]; rfl, rfl⟩)
  | start hphase => exact .inr (.inr ⟨hphase, rfl⟩)
  | settle hphase => exact .inl ⟨by rw [hphase]; rfl, rfl⟩
  | finish hphase => exact .inl ⟨by rw [hphase]; rfl, rfl⟩
  | pass hphase => cases h : call.phase.hasStarted <;> simp

theorem chained_empty : Chained {} where
  linked i call hcall := by simp at hcall
  started i := by simp
  sorted := List.Pairwise.nil

theorem Chained.append (h : Chained s) {call : Call} (hfresh : Fresh call) :
    Chained { s with calls := s.calls ++ [call] } where
  linked i other hother := by
    obtain ⟨hreleased, hphase⟩ := hfresh
    rw [List.getElem?_append] at hother
    split at hother
    · exact (h.linked i other hother).mono free_append
    · rename_i hi
      have hi : i - s.calls.length = 0 := by
        by_contra hne
        rw [List.getElem?_eq_none (by simp; omega)] at hother
        cases hother
      rw [hi] at hother
      simp only [List.getElem?_cons_zero, Option.some.injEq] at hother
      subst hother
      rcases hphase with ⟨hphase, hfired⟩ | ⟨hphase, hfired⟩
      all_goals
        constructor
        all_goals simp [hreleased, hphase, hfired, Phase.holds]
  started i := by
    rw [h.started i]
    constructor
    · rintro ⟨other, hother, hstarted⟩
      exact ⟨other, by rw [List.getElem?_append_left (List.getElem?_eq_some_iff.mp hother).1, hother], hstarted⟩
    · rintro ⟨other, hother, hstarted⟩
      rw [List.getElem?_append] at hother
      split at hother
      · exact ⟨other, hother, hstarted⟩
      · have hother : other = call := by
          have := List.mem_of_getElem? hother
          simpa using this
        subst hother
        rcases hfresh.2 with ⟨hphase, _⟩ | ⟨hphase, _⟩
        · rw [hphase] at hstarted; cases hstarted
        · rw [hphase] at hstarted; cases hstarted
  sorted := h.sorted

theorem Chained.change (h : Chained s) {i : Nat} {call call' : Call} (hcall : s.calls[i]? = some call)
    (hchange : Change s i call call') (hcalls : s'.calls = s.calls.set i call')
    (hstarted : s'.started = s.started ++
      (if call'.phase.hasStarted ∧ call.phase.hasStarted = false then [i] else [])) : Chained s' := by
  have hlt := (List.getElem?_eq_some_iff.mp hcall).1
  have hself : s'.calls[i]? = some call' := by rw [hcalls, List.getElem?_set_self hlt]
  have hothers : ∀ j, i ≠ j → s'.calls[j]? = s.calls[j]? := fun j hij => by rw [hcalls, List.getElem?_set_ne hij]
  refine ⟨?_, ?_, ?_⟩
  · intro j other hother
    by_cases hij : i = j
    · subst hij
      rw [hself, Option.some.injEq] at hother
      subst hother
      exact ((h.linked i call hcall).change hchange).mono (free_set hcall hchange hcalls)
    · rw [hothers j hij] at hother
      exact (h.linked j other hother).mono (free_set hcall hchange hcalls)
  · intro j
    rw [hstarted, List.mem_append, h.started j]
    by_cases hij : i = j
    · subst hij
      rcases hchange.hasStarted with ⟨hbefore, hafter⟩ | ⟨hbefore, hafter⟩ | ⟨hbefore, hafter⟩
      · simp [hself, hcall, hbefore, hafter]
      · simp [hself, hcall, hbefore, hafter]
      · simp [hself, hcall, hbefore, Phase.hasStarted]
    · rw [hothers j hij]
      constructor
      · rintro (hj | hj)
        · exact hj
        · split at hj
          · exact absurd (List.mem_singleton.mp hj).symm hij
          · exact absurd hj List.not_mem_nil
      · exact .inl
  · rw [hstarted]
    rcases hchange.hasStarted with ⟨hbefore, hafter⟩ | ⟨hbefore, hafter⟩ | ⟨hbefore, hafter⟩
    · simpa [hbefore] using h.sorted
    · simpa [hafter] using h.sorted
    · -- the starter holds the slot: whatever started before it stands before it
      rw [if_pos ⟨hafter, by rw [hbefore]; rfl⟩]
      refine List.pairwise_append.mpr ⟨h.sorted, by simp, ?_⟩
      intro j hj k hk
      rw [List.mem_singleton.mp hk]
      obtain ⟨other, hother, hother'⟩ := (h.started j).mp hj
      have hholds : call.phase.holds = true := by rw [hbefore]; rfl
      obtain ⟨hreleased, _⟩ := (h.linked i call hcall).holds hholds
      have hfree : s.free j = true := by
        by_cases hholds' : other.phase.holds = true
        · exact ((h.linked j other hother).holds hholds').2
        · have hfinished : other.phase = .finished := by
            cases hphase : other.phase <;> simp [hphase, Phase.holds, Phase.hasStarted] at hholds' hother' ⊢
          exact (h.linked j other hother).released ((h.linked j other hother).ended (.inl hfinished))
      have hle := h.le_of_free hcall hreleased hfree
      have hne : j ≠ i := by
        rintro rfl
        rw [hcall, Option.some.injEq] at hother
        rw [← hother, hbefore] at hother'
        cases hother'
      omega

theorem step_chained (h : Chained s) (m : Move) : Chained (step s m) := by
  unfold step
  cases hstep : step? s m with
  | none => exact h
  | some s' =>
    rcases step?_cases hstep with ⟨call, hfresh, rfl⟩ | ⟨i, call, call', hcall, hchange, hcalls, hstarted⟩
    · exact h.append hfresh
    · exact h.change hcall hchange hcalls hstarted

theorem runMoves_append (pre : List Move) (m : Move) : runMoves (pre ++ [m]) = step (runMoves pre) m := by
  simp [runMoves]

theorem runMoves_chained (moves : List Move) : Chained (runMoves moves) := by
  induction moves using List.reverseRecOn with
  | nil => exact chained_empty
  | append_singleton pre m ih =>
    rw [runMoves_append]
    exact step_chained ih m

/-! ## Calls that were aborted in time -/

/-- The signal fired before the call got the slot. -/
def Missed (s : Slot) (i : Nat) : Prop :=
  ∃ call, s.calls[i]? = some call ∧ call.fired = true ∧ (call.phase = .waiting ∨ call.phase = .aborted)

theorem step_missed {i : Nat} (h : Missed s i) (m : Move) : Missed (step s m) i := by
  obtain ⟨call, hcall, hfired, hphase⟩ := h
  unfold step
  cases hstep : step? s m with
  | none => exact ⟨call, hcall, hfired, hphase⟩
  | some s' =>
    rcases step?_cases hstep with ⟨new, _, rfl⟩ | ⟨j, other, other', hother, hchange, hcalls, _⟩
    · exact ⟨call, by rw [Option.getD_some, List.getElem?_append_left (List.getElem?_eq_some_iff.mp hcall).1, hcall],
        hfired, hphase⟩
    · rw [Option.getD_some]
      by_cases hij : j = i
      · subst hij
        rw [hcall, Option.some.injEq] at hother
        subst hother
        refine ⟨other', by rw [hcalls, List.getElem?_set_self (List.getElem?_eq_some_iff.mp hcall).1], ?_⟩
        cases hchange with
        | fire => exact ⟨rfl, hphase⟩
        | abort => exact ⟨hfired, .inr rfl⟩
        | acquire _ hunfired => rw [hfired] at hunfired; cases hunfired
        | fail h => rw [h] at hphase; rcases hphase with h | h <;> cases h
        | start h => rw [h] at hphase; rcases hphase with h | h <;> cases h
        | settle h => rw [h] at hphase; rcases hphase with h | h <;> cases h
        | finish h => rw [h] at hphase; rcases hphase with h | h <;> cases h
        | pass => exact ⟨hfired, hphase⟩
      · exact ⟨call, by rw [hcalls, List.getElem?_set_ne hij, hcall], hfired, hphase⟩

theorem foldl_missed {i : Nat} (h : Missed s i) (moves : List Move) : Missed (moves.foldl step s) i := by
  induction moves generalizing s with
  | nil => exact h
  | cons m moves ih => exact ih (step_missed h m)

theorem Missed.not_started {i : Nat} (h : Missed s i) (hchained : Chained s) : i ∉ s.started := by
  obtain ⟨call, hcall, _, hphase⟩ := h
  intro hmem
  obtain ⟨other, hother, hstarted⟩ := (hchained.started i).mp hmem
  rw [hcall, Option.some.injEq] at hother
  subst hother
  rcases hphase with hphase | hphase
  · rw [hphase] at hstarted; cases hstarted
  · rw [hphase] at hstarted; cases hstarted

theorem Missed.rejected {i : Nat} (h : Missed s i) (hquiet : Quiet s) :
    ∃ call, s.calls[i]? = some call ∧ call.phase = .aborted := by
  obtain ⟨call, hcall, hfired, hphase | hphase⟩ := h
  · have := hquiet (.wake i) rfl
    simp [step?, hcall, hphase, hfired] at this
  · exact ⟨call, hcall, hphase⟩

/-! ## The slot is passed on -/

/-- A call has ended: with its task, with what `onAcquired` threw, or with the abort error. -/
def Call.Ended (call : Call) : Prop :=
  call.released = true ∧ (call.phase = .finished ∨ call.phase = .failed ∨ call.phase = .aborted)

/-- With no continuation pending a call behind a released link has ended, or its task is running. -/
theorem Chained.ended (h : Chained s) (hquiet : Quiet s) {i : Nat} {call : Call} (hcall : s.calls[i]? = some call)
    (hfree : s.free i = true) : call.phase = .running ∨ call.Ended := by
  have hlinked := h.linked i call hcall
  cases hphase : call.phase with
  | waiting =>
    have := hquiet (.wake i) rfl
    simp [step?, hcall, hphase, hfree] at this
  | acquired =>
    have := hquiet (.enter i true) rfl
    simp [step?, hcall, hphase] at this
  | running => exact .inl rfl
  | settled =>
    have := hquiet (.finish i) rfl
    simp [step?, hcall, hphase] at this
  | finished => exact .inr ⟨hlinked.ended (.inl hphase), .inl hphase⟩
  | failed => exact .inr ⟨hlinked.ended (.inr hphase), .inr (.inl hphase)⟩
  | aborted =>
    refine .inr ⟨?_, .inr (.inr hphase)⟩
    have := hquiet (.pass i) rfl
    simpa [step?, hcall, hphase, hfree] using this

/-- No task runs and no continuation is pending: every link is released. -/
theorem Chained.all_free (h : Chained s) (hquiet : Quiet s) (hidle : Idle s) :
    ∀ i, i ≤ s.calls.length → s.free i = true := by
  intro i hi
  induction i with
  | zero => rfl
  | succ i ih =>
    have hcall := List.getElem?_eq_getElem hi
    rcases h.ended hquiet hcall (ih (Nat.le_of_succ_le hi)) with hrunning | hended
    · exact absurd hrunning (hidle i _ hcall)
    · simp only [Slot.free, hcall]
      exact hended.1

theorem Chained.all_ended (h : Chained s) (hquiet : Quiet s) (hidle : Idle s) {i : Nat} {call : Call}
    (hcall : s.calls[i]? = some call) : call.Ended := by
  have hfree := h.all_free hquiet hidle i (Nat.le_of_lt (List.getElem?_eq_some_iff.mp hcall).1)
  rcases h.ended hquiet hcall hfree with hrunning | hended
  · exact absurd hrunning (hidle i call hcall)
  · exact hended

/-! ## Continuations come to an end -/

/-- How many continuations a call still has, at most, before its task settles. -/
def Call.pending (call : Call) : Nat :=
  match call.phase with
  | .waiting => 3
  | .acquired => 2
  | .settled => 1
  | .aborted => if call.released then 0 else 1
  | .running | .finished | .failed => 0

def work (s : Slot) : Nat := (s.calls.map Call.pending).sum

theorem sum_set_lt {calls : List Call} {i : Nat} {call call' : Call} (hcall : calls[i]? = some call)
    (hlt : call'.pending < call.pending) :
    ((calls.set i call').map Call.pending).sum < (calls.map Call.pending).sum := by
  induction calls generalizing i with
  | nil => simp at hcall
  | cons first calls ih =>
    cases i with
    | zero =>
      obtain rfl : first = call := by simpa using hcall
      simpa using hlt
    | succ i =>
      have := ih (i := i) (by simpa using hcall)
      simpa using this

theorem step?_work {m : Move} (hcontinues : m.continues = true) (h : step? s m = some s') : work s' < work s := by
  cases m with
  | call signal => cases hcontinues
  | fire i => cases hcontinues
  | settle i => cases hcontinues
  | wake i =>
    simp only [step?] at h
    split at h
    · rename_i call hcall
      split at h
      · rename_i hwake
        simp only [Option.some.injEq] at h
        subst h
        refine sum_set_lt hcall ?_
        cases call.fired <;> simp [Call.pending, hwake.1]
        split <;> omega
      · cases h
    · cases h
  | enter i throws =>
    simp only [step?] at h
    split at h
    · rename_i call hcall
      split at h
      · rename_i hphase
        split at h
        · simp only [Option.some.injEq] at h
          subst h
          exact sum_set_lt hcall (by simp [Call.pending, hphase])
        · simp only [Option.some.injEq] at h
          subst h
          exact sum_set_lt hcall (by simp [Call.pending, hphase])
      · cases h
    · cases h
  | finish i =>
    simp only [step?] at h
    split at h
    · rename_i call hcall
      split at h
      · rename_i hphase
        simp only [Option.some.injEq] at h
        subst h
        exact sum_set_lt hcall (by simp [Call.pending, hphase])
      · cases h
    · cases h
  | pass i =>
    simp only [step?] at h
    split at h
    · rename_i call hcall
      split at h
      · rename_i hpass
        simp only [Option.some.injEq] at h
        subst h
        exact sum_set_lt hcall (by simp [Call.pending, hpass.1, hpass.2.1])
      · cases h
    · cases h

/-- The continuations alone bring any state to rest. -/
theorem drains (s : Slot) :
    ∃ moves : List Move, (∀ m ∈ moves, m.continues = true) ∧ Quiet (moves.foldl step s) := by
  induction hwork : work s using Nat.strongRecOn generalizing s with
  | ind n ih =>
    by_cases hquiet : Quiet s
    · exact ⟨[], by simp, hquiet⟩
    · simp only [Quiet, not_forall] at hquiet
      obtain ⟨m, hcontinues, hm⟩ := hquiet
      obtain ⟨s', hs'⟩ := Option.ne_none_iff_exists'.mp hm
      obtain ⟨moves, hmoves, hrest⟩ := ih (work s') (hwork ▸ step?_work hcontinues hs') s' rfl
      refine ⟨m :: moves, ?_, ?_⟩
      · intro m' hm'
        rcases List.mem_cons.mp hm' with rfl | hm'
        · exact hcontinues
        · exact hmoves m' hm'
      · simpa [step, hs'] using hrest

/-! ## Whole runs -/

/-- **Main result.** At most one call has the slot, tasks start in call order, an aborted waiter
never starts, and no abort or failure leaves the slot taken. -/
theorem slot_serialized (moves : List Move) :
    (∀ (i j : Nat) (call other : Call), (runMoves moves).calls[i]? = some call →
      (runMoves moves).calls[j]? = some other → call.phase.holds = true → other.phase.holds = true → i = j) ∧
    (runMoves moves).started.Pairwise (· < ·) ∧
    (∀ pre rest, pre ++ rest = moves → ∀ i, Missed (runMoves pre) i →
      i ∉ (runMoves moves).started ∧
      (Quiet (runMoves moves) → ∃ call, (runMoves moves).calls[i]? = some call ∧ call.phase = .aborted)) ∧
    (Quiet (runMoves moves) → Idle (runMoves moves) →
      (∀ i, i ≤ (runMoves moves).calls.length → (runMoves moves).free i = true) ∧
      ∀ (i : Nat) (call : Call), (runMoves moves).calls[i]? = some call →
        i ∈ (runMoves moves).started ∧ call.phase = .finished ∨ call.phase = .failed ∨ Missed (runMoves moves) i) ∧
    ∃ rest : List Move, (∀ m ∈ rest, m.continues = true) ∧ Quiet (runMoves (moves ++ rest)) := by
  have hchained := runMoves_chained moves
  refine ⟨fun i j call other hcall hother => hchained.holder hcall hother, hchained.sorted, ?_, ?_, ?_⟩
  · intro pre rest hmoves i hmissed
    have hmissed : Missed (runMoves moves) i := by
      rw [← hmoves, runMoves, List.foldl_append]
      exact foldl_missed hmissed rest
    exact ⟨hmissed.not_started hchained, hmissed.rejected⟩
  · intro hquiet hidle
    refine ⟨hchained.all_free hquiet hidle, fun i call hcall => ?_⟩
    obtain ⟨_, hphase | hphase | hphase⟩ := hchained.all_ended hquiet hidle hcall
    · exact .inl ⟨(hchained.started i).mpr ⟨call, hcall, by rw [hphase]; rfl⟩, hphase⟩
    · exact .inr (.inl hphase)
    · exact .inr (.inr ⟨call, hcall, (hchained.linked i call hcall).aborted hphase, .inr hphase⟩)
  · obtain ⟨rest, hrest, hquiet⟩ := drains (runMoves moves)
    exact ⟨rest, hrest, by rwa [runMoves, List.foldl_append]⟩

/-- A call whose `onAcquired` throws was not aborted, and its task never starts. -/
theorem never_started : ¬ ∀ moves, Quiet (runMoves moves) → Idle (runMoves moves) →
    ∀ (i : Nat) (call : Call), (runMoves moves).calls[i]? = some call → call.fired = false →
      i ∈ (runMoves moves).started := by
  intro h
  have hrun : runMoves [.call none, .wake 0, .enter 0 true] = { calls := [⟨false, false, .failed, true⟩] } := by
    decide
  have hcalls : ∀ (i : Nat) (call : Call), ([⟨false, false, .failed, true⟩] : List Call)[i]? = some call →
      call = ⟨false, false, .failed, true⟩ := fun i call hcall => by simpa using List.mem_of_getElem? hcall
  have hmem := h [.call none, .wake 0, .enter 0 true]
    (by
      rw [hrun]
      intro m hm
      rw [Option.eq_none_iff_forall_not_mem]
      intro s' hs'
      have := step?_work hm hs'
      simp [work, Call.pending] at this)
    (by
      rw [hrun]
      intro i call hcall
      rw [hcalls i call hcall]
      nofun)
    0 ⟨false, false, .failed, true⟩ (by rw [hrun]; rfl) rfl
  rw [hrun] at hmem
  exact absurd hmem List.not_mem_nil

end Zenod.Transcription
