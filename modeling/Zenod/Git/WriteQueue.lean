/-
The write queue of a vault (`git/queue.ts`): two lanes, and one turn at a time.
A turn is scheduled when its task is taken off a lane, calls the task (under the
vault's lock, if there is a vault), delivers what comes of it to the caller, and
is concluded by a callback that takes the next task.

`writes_serialized`: turns exclude each other, a lane keeps its order and
interactive work goes first, in any run; and no task waits while no turn is
under way if and only if no callback throws with a task waiting for its turn.
-/
import Mathlib.Data.List.Basic
import Mathlib.Data.List.Nodup
import Mathlib.Data.List.Induction

namespace Zenod.WriteQueue

inductive QueuePriority | interactive | background
deriving DecidableEq, Repr

/-- A call of `run`, by its place among all calls. -/
structure Task where
  id : Nat
  priority : QueuePriority
deriving DecidableEq

inductive Phase
  | scheduled
  /-- The vault's lock is not there yet. -/
  | locking
  | executing
  /-- The caller has its result, and the callback is to come. -/
  | settled
deriving DecidableEq, Repr

/-- A task that was taken off its lane. -/
structure Turn where
  task : Task
  phase : Phase
deriving DecidableEq

inductive Event (ρ : Type)
  | accepted (task : Task)
  | started (task : Task)
  | called (task : Task)
  | delivered (task : Task) (result : ρ)
deriving DecidableEq

structure Queue (ρ : Type) where
  running : Bool := false
  interactive : List Task := []
  background : List Task := []
  /-- How many calls of `run` there were. -/
  submitted : Nat := 0
  turns : List Turn := []
  log : List (Event ρ) := []

namespace Queue

variable {ρ : Type} (q : Queue ρ)

def lane : QueuePriority → List Task
  | .interactive => q.interactive
  | .background => q.background

def record (e : Event ρ) : Queue ρ := { q with log := q.log ++ [e] }

def push (task : Task) : Queue ρ :=
  match task.priority with
  | .interactive => { q with interactive := q.interactive ++ [task] }
  | .background => { q with background := q.background ++ [task] }

/-- `task()`. -/
def start (task : Task) : Queue ρ :=
  { q with running := true, turns := q.turns ++ [(⟨task, .scheduled⟩ : Turn)] }.record (.started task)

/-- Run the next task, interactive lane first. -/
def dequeue : Queue ρ :=
  if q.running then q
  else
    match q.interactive, q.background with
    | task :: rest, _ => { q with interactive := rest }.start task
    | [], task :: rest => { q with background := rest }.start task
    | [], [] => q

def run (priority : QueuePriority) : Queue ρ :=
  let task : Task := ⟨q.submitted, priority⟩
  (({ q with submitted := q.submitted + 1 }.record (.accepted task)).push task).dequeue

def turn? (id : Nat) : Option Turn := q.turns.find? (·.task.id = id)

def advance (id : Nat) (phase : Phase) : Queue ρ :=
  { q with turns := q.turns.map fun turn => if turn.task.id = id then { turn with phase := phase } else turn }

/-- `finally`: `onSettled` may call `run` and may throw then. -/
def conclude (id : Nat) (calls : List QueuePriority) (throws : Bool) : Queue ρ :=
  let q := { q with running := false, turns := q.turns.filter (·.task.id ≠ id) }
  let q := calls.foldl run q
  if throws then q else q.dequeue

end Queue

/-- What may happen next: a call, or what a turn has waited for. -/
inductive Move (ρ : Type)
  | run (priority : QueuePriority)
  | begin (id : Nat)
  | acquire (id : Nat)
  | settle (id : Nat) (result : ρ)
  | conclude (id : Nat) (calls : List QueuePriority) (throws : Bool)
deriving DecidableEq

variable {ρ : Type}

/-- A move that no turn waits for does nothing. -/
def step (locked : Bool) (q : Queue ρ) : Move ρ → Queue ρ
  | .run priority => q.run priority
  | .begin id =>
    match q.turn? id with
    | some ⟨task, .scheduled⟩ =>
      if locked then q.advance id .locking else (q.advance id .executing).record (.called task)
    | _ => q
  | .acquire id =>
    match q.turn? id with
    | some ⟨task, .locking⟩ => (q.advance id .executing).record (.called task)
    | _ => q
  | .settle id result =>
    match q.turn? id with
    | some ⟨task, .locking⟩ => (q.advance id .settled).record (.delivered task result)
    | some ⟨task, .executing⟩ => (q.advance id .settled).record (.delivered task result)
    | _ => q
  | .conclude id calls throws =>
    match q.turn? id with
    | some ⟨_, .settled⟩ => q.conclude id calls throws
    | _ => q

def runMoves (locked : Bool) (moves : List (Move ρ)) : Queue ρ := moves.foldl (step locked) {}

/-! ## What the log says -/

def Event.accepted? (priority : QueuePriority) : Event ρ → Option Task
  | .accepted task => if task.priority = priority then some task else none
  | _ => none

def Event.startedIn? (priority : QueuePriority) : Event ρ → Option Task
  | .started task => if task.priority = priority then some task else none
  | _ => none

def Event.started? : Event ρ → Option Task
  | .started task => some task
  | _ => none

def Event.called? : Event ρ → Option Task
  | .called task => some task
  | _ => none

def Event.delivered? : Event ρ → Option Task
  | .delivered task _ => some task
  | _ => none

/-- The turns, their order and what becomes of them. -/
structure Serial (locked : Bool) (q : Queue ρ) : Prop where
  /-- At most one turn is under way. -/
  turns : q.turns.length = if q.running then 1 else 0
  priority : ∀ p, ∀ task ∈ q.lane p, task.priority = p
  /-- A lane starts its tasks as they came, each once. -/
  order : ∀ p, q.log.filterMap (Event.startedIn? p) ++ q.lane p = q.log.filterMap (Event.accepted? p)
  numbered : ∀ p, ((q.log.filterMap (Event.accepted? p)).map (·.id)).Pairwise (· < ·) ∧
    ∀ task ∈ q.log.filterMap (Event.accepted? p), task.id < q.submitted
  /-- No interactive task waits when a background task starts. -/
  urgent : ∀ pre task post, q.log = pre ++ .started task :: post → task.priority = .background →
    pre.filterMap (Event.startedIn? .interactive) = pre.filterMap (Event.accepted? .interactive)
  /-- A turn delivers once. -/
  delivered : q.log.filterMap Event.delivered? ++ (q.turns.filter (·.phase ≠ .settled)).map (·.task) =
    q.log.filterMap Event.started?
  /-- A task is called at most once, and once if there is no lock. -/
  called : (q.log.filterMap Event.called? ++
    (q.turns.filter fun t => t.phase = .scheduled ∨ t.phase = .locking).map (·.task)).Sublist
      (q.log.filterMap Event.started?)
  unlocked : locked = false → q.log.filterMap Event.called? ++ (q.turns.filter (·.phase = .scheduled)).map (·.task) =
    q.log.filterMap Event.started? ∧ ∀ turn ∈ q.turns, turn.phase ≠ .locking

/-- No task waits while no turn is under way. -/
def GoesOn (q : Queue ρ) : Prop := q.turns = [] → q.interactive = [] ∧ q.background = []

/-- No callback throws with a task waiting for its turn. -/
def HandsOver (q : Queue ρ) (m : Move ρ) : Prop :=
  ∀ id task, m = .conclude id [] true → q.turn? id = some ⟨task, .settled⟩ → q.interactive = [] ∧ q.background = []

/-! ## What an operation leaves -/

namespace Queue

variable (q : Queue ρ)

@[simp] theorem record_running (e : Event ρ) : (q.record e).running = q.running := rfl
@[simp] theorem record_lane (e : Event ρ) (p : QueuePriority) : (q.record e).lane p = q.lane p := by cases p <;> rfl
@[simp] theorem record_turns (e : Event ρ) : (q.record e).turns = q.turns := rfl
@[simp] theorem record_submitted (e : Event ρ) : (q.record e).submitted = q.submitted := rfl
@[simp] theorem record_log (e : Event ρ) : (q.record e).log = q.log ++ [e] := rfl

@[simp] theorem push_running (task : Task) : (q.push task).running = q.running := by
  unfold push; split <;> rfl

@[simp] theorem push_turns (task : Task) : (q.push task).turns = q.turns := by
  unfold push; split <;> rfl

@[simp] theorem push_submitted (task : Task) : (q.push task).submitted = q.submitted := by
  unfold push; split <;> rfl

@[simp] theorem push_log (task : Task) : (q.push task).log = q.log := by
  unfold push; split <;> rfl

theorem push_lane (task : Task) (p : QueuePriority) :
    (q.push task).lane p = q.lane p ++ if task.priority = p then [task] else [] := by
  obtain ⟨id, priority⟩ := task
  cases priority <;> cases p <;> simp [push, lane]

@[simp] theorem start_running (task : Task) : (q.start task).running = true := rfl
@[simp] theorem start_turns (task : Task) : (q.start task).turns = q.turns ++ [⟨task, .scheduled⟩] := rfl
@[simp] theorem start_log (task : Task) : (q.start task).log = q.log ++ [.started task] := rfl
@[simp] theorem start_submitted (task : Task) : (q.start task).submitted = q.submitted := rfl
@[simp] theorem start_lane (task : Task) (p : QueuePriority) : (q.start task).lane p = q.lane p := by cases p <;> rfl

end Queue

/-! ## One turn at a time -/

variable {locked : Bool} {q : Queue ρ}

theorem Serial.turn? (h : Serial locked q) {id : Nat} {turn : Turn} (hturn : q.turn? id = some turn) :
    q.turns = [turn] ∧ turn.task.id = id ∧ q.running = true := by
  have hmem := List.mem_of_find?_eq_some hturn
  have hid : turn.task.id = id := by simpa using List.find?_some hturn
  have hlength := h.turns
  have hpos := List.length_pos_of_mem hmem
  cases hrunning : q.running with
  | false => simp [hrunning] at hlength; simp [hlength] at hpos
  | true =>
    simp only [hrunning, if_true] at hlength
    obtain ⟨other, hother⟩ := List.length_eq_one_iff.mp hlength
    rw [hother, List.mem_singleton] at hmem
    exact ⟨by rw [hother, hmem], hid, rfl⟩

theorem Serial.turns_eq_nil (h : Serial locked q) : q.turns = [] ↔ q.running = false := by
  have hlength := h.turns
  rw [← List.length_eq_zero_iff]
  cases hrunning : q.running <;> simp [hrunning] at hlength <;> simp [hlength]

theorem serial_empty : Serial locked ({} : Queue ρ) where
  turns := rfl
  priority p := by cases p <;> simp [Queue.lane]
  order p := by cases p <;> rfl
  numbered p := by simp
  urgent pre task post h := by simp at h
  delivered := rfl
  called := by simp
  unlocked := by simp

/-- What is recorded later is not a start: the starts are those of before. -/
theorem urgent_record {log : List (Event ρ)} {e : Event ρ} (he : e.started? = none)
    (h : ∀ pre task post, log = pre ++ .started task :: post → task.priority = .background →
      pre.filterMap (Event.startedIn? .interactive) = pre.filterMap (Event.accepted? .interactive)) :
    ∀ pre task post, log ++ [e] = pre ++ .started task :: post → task.priority = .background →
      pre.filterMap (Event.startedIn? .interactive) = pre.filterMap (Event.accepted? .interactive) := by
  intro pre task post hlog hbackground
  obtain ⟨rest, rfl⟩ | hlast : (∃ rest, post = rest ++ [e]) ∨ post = [] := by
    rcases List.eq_nil_or_concat post with rfl | ⟨rest, last, rfl⟩
    · exact .inr rfl
    · rw [List.concat_eq_append, ← List.cons_append, ← List.append_assoc] at hlog
      have := (List.append_inj' hlog rfl).2
      simp only [List.cons.injEq, and_true] at this
      exact .inl ⟨rest, by rw [List.concat_eq_append, this]⟩
  · rw [← List.cons_append, ← List.append_assoc] at hlog
    exact h pre task rest (List.append_inj' hlog rfl).1 hbackground
  · subst hlast
    have := (List.append_inj' hlog rfl).2
    simp only [List.cons.injEq, and_true] at this
    rw [this] at he
    simp [Event.started?] at he

/-- A new task waits behind its lane. -/
theorem Serial.accept (h : Serial locked q) (p : QueuePriority) :
    Serial locked (({ q with submitted := q.submitted + 1 }.record (.accepted ⟨q.submitted, p⟩)).push
      ⟨q.submitted, p⟩) where
  turns := by simpa using h.turns
  priority p' task htask := by
    rw [Queue.push_lane, List.mem_append] at htask
    rcases htask with htask | htask
    · exact h.priority p' task (by cases p' <;> exact htask)
    · split at htask
      · rename_i hp
        rw [List.mem_singleton.mp htask]
        exact hp
      · exact absurd htask List.not_mem_nil
  order p' := by
    have horder := h.order p'
    have hlane : ({ q with submitted := q.submitted + 1 } : Queue ρ).lane p' = q.lane p' := by cases p' <;> rfl
    simp only [Queue.push_log, Queue.record_log, Queue.push_lane, Queue.record_lane, hlane, List.filterMap_append,
      ← horder]
    by_cases hp : p = p' <;> simp [Event.startedIn?, Event.accepted?, hp]
  numbered p' := by
    obtain ⟨hsorted, hbelow⟩ := h.numbered p'
    simp only [Queue.push_log, Queue.record_log, Queue.push_submitted, Queue.record_submitted, List.filterMap_append]
    by_cases hp : p = p'
    · simp only [List.filterMap_cons, Event.accepted?, hp, if_true, List.filterMap_nil, List.map_append,
        List.pairwise_append, List.mem_append]
      refine ⟨⟨hsorted, by simp, ?_⟩, ?_⟩
      · intro a ha b hb
        obtain ⟨task, htask, rfl⟩ := List.mem_map.mp ha
        have hb : b = q.submitted := by simpa using hb
        have := hbelow task htask
        omega
      · rintro task (htask | htask)
        · have := hbelow task htask
          omega
        · rw [List.mem_singleton.mp htask]
          exact Nat.lt_succ_self _
    · simp only [List.filterMap_cons, Event.accepted?, hp, if_false, List.filterMap_nil, List.append_nil]
      exact ⟨hsorted, fun task htask => Nat.lt_succ_of_lt (hbelow task htask)⟩
  urgent := by
    simp only [Queue.push_log, Queue.record_log]
    exact urgent_record rfl h.urgent
  delivered := by simpa [List.filterMap_cons, Event.delivered?, Event.started?] using h.delivered
  called := by simpa [List.filterMap_cons, Event.called?, Event.started?] using h.called
  unlocked := by simpa [List.filterMap_cons, Event.called?, Event.started?] using h.unlocked

/-- The head of the first lane with a task gets its turn. -/
theorem Serial.start (h : Serial locked q) (hidle : q.running = false) {task : Task} {q' : Queue ρ}
    (hlane : ∀ p, q.lane p = (if task.priority = p then [task] else []) ++ q'.lane p)
    (hturns : q'.turns = q.turns) (hlog : q'.log = q.log) (hsubmitted : q'.submitted = q.submitted)
    (hurgent : task.priority = .background → q.interactive = []) : Serial locked (q'.start task) := by
  have hnil : q.turns = [] := h.turns_eq_nil.mpr hidle
  refine { turns := ?_, priority := ?_, order := ?_, numbered := ?_, urgent := ?_, delivered := ?_, called := ?_,
           unlocked := ?_ }
  · simp [hturns, hnil]
  · intro p other hother
    exact h.priority p other (by rw [hlane]; exact List.mem_append_right _ (by rwa [Queue.start_lane] at hother))
  · intro p
    have horder := h.order p
    rw [hlane] at horder
    simp only [Queue.start_log, Queue.start_lane, hlog, List.filterMap_append]
    by_cases hp : task.priority = p <;>
      simpa [List.filterMap_cons, Event.startedIn?, Event.accepted?, hp] using horder
  · intro p
    simpa [List.filterMap_cons, hlog, Event.accepted?, hsubmitted] using h.numbered p
  · intro pre other post hpost hbackground
    simp only [Queue.start_log, hlog] at hpost
    rcases List.eq_nil_or_concat post with rfl | ⟨rest, last, rfl⟩
    · obtain ⟨rfl, hlast⟩ := List.append_inj' hpost rfl
      have hother : task = other := by simpa using hlast
      subst hother
      have horder := h.order .interactive
      rw [show q.lane .interactive = [] from hurgent hbackground, List.append_nil] at horder
      exact horder
    · rw [List.concat_eq_append, ← List.cons_append, ← List.append_assoc] at hpost
      exact h.urgent pre other rest (List.append_inj' hpost rfl).1 hbackground
  · have := h.delivered
    simp [hnil] at this
    simp [List.filterMap_cons, hturns, hnil, hlog, Event.delivered?, Event.started?, this]
  · have := h.called
    simp [hnil] at this
    simpa [List.filterMap_cons, hturns, hnil, hlog, Event.called?, Event.started?] using
      this.append (List.Sublist.refl [task])
  · intro hlocked
    have := (h.unlocked hlocked).1
    simp [hnil] at this
    simp [List.filterMap_cons, hturns, hnil, hlog, Event.called?, Event.started?, this]

theorem Serial.dequeue (h : Serial locked q) : Serial locked q.dequeue := by
  unfold Queue.dequeue
  split
  · exact h
  · rename_i hidle
    have hidle : q.running = false := by simpa using hidle
    split
    · rename_i _ task rest hlane
      have hp : task.priority = .interactive := h.priority .interactive task (by simp [Queue.lane, hlane])
      exact h.start hidle (fun p => by cases p <;> simp [Queue.lane, hlane, hp]) rfl rfl rfl
        (fun hp' => by simp [hp] at hp')
    · rename_i task rest hnone hlane
      have hp : task.priority = .background := h.priority .background task (by simp [Queue.lane, hlane])
      exact h.start hidle (fun p => by cases p <;> simp [Queue.lane, hlane, hp, hnone]) rfl rfl rfl
        (fun _ => hnone)
    · exact h

theorem Serial.run (h : Serial locked q) (p : QueuePriority) : Serial locked (q.run p) :=
  (h.accept p).dequeue

/-- The one turn goes on: its task is called, or its result delivered. -/
theorem Serial.advance (h : Serial locked q) {id : Nat} {task : Task} {before : Phase}
    (hturn : q.turn? id = some ⟨task, before⟩) (phase : Phase) : (q.advance id phase).turns = [⟨task, phase⟩] ∧
      (q.advance id phase).running = true ∧ ∀ p, (q.advance id phase).lane p = q.lane p := by
  obtain ⟨hturns, hid, hrunning⟩ := h.turn? hturn
  refine ⟨?_, hrunning, fun p => by cases p <;> rfl⟩
  simp only [Queue.advance, hturns, List.map_cons, List.map_nil]
  rw [if_pos hid]

theorem Serial.lock (h : Serial locked q) (hlocked : locked = true) {id : Nat} {task : Task}
    (hturn : q.turn? id = some ⟨task, .scheduled⟩) : Serial locked (q.advance id .locking) := by
  obtain ⟨hturns, _, hrunning⟩ := h.turn? hturn
  obtain ⟨hturns', hrunning', hlane⟩ := h.advance hturn .locking
  refine { turns := ?_, priority := ?_, order := ?_, numbered := h.numbered, urgent := h.urgent,
           delivered := ?_, called := ?_, unlocked := ?_ }
  · simp [hturns', hrunning']
  · intro p other hother
    exact h.priority p other (by rwa [hlane] at hother)
  · intro p
    rw [hlane]
    exact h.order p
  · have := h.delivered
    rw [hturns] at this
    rw [hturns']
    exact this
  · have := h.called
    rw [hturns] at this
    rw [hturns']
    exact this
  · intro hunlocked
    rw [hlocked] at hunlocked
    cases hunlocked

/-- `task` is called in its turn. -/
theorem Serial.call (h : Serial locked q) {id : Nat} {task : Task} {before : Phase}
    (hturn : q.turn? id = some ⟨task, before⟩) (hbefore : before = .scheduled ∨ before = .locking) :
    Serial locked ((q.advance id .executing).record (.called task)) := by
  obtain ⟨hturns, _, hrunning⟩ := h.turn? hturn
  obtain ⟨hturns', hrunning', hlane⟩ := h.advance hturn .executing
  have hlog : (q.advance id .executing).log = q.log := rfl
  refine { turns := ?_, priority := ?_, order := ?_, numbered := ?_, urgent := ?_, delivered := ?_, called := ?_,
           unlocked := ?_ }
  · simp [hturns', hrunning']
  · intro p other hother
    exact h.priority p other (by rwa [Queue.record_lane, hlane] at hother)
  · intro p
    rw [Queue.record_lane, hlane]
    simpa [hlog, List.filterMap_cons, Event.startedIn?, Event.accepted?] using h.order p
  · intro p
    have haccepted : ((q.advance id .executing).record (.called task)).log.filterMap (Event.accepted? p) =
        q.log.filterMap (Event.accepted? p) := by
      simp [hlog, List.filterMap_cons, Event.accepted?]
    rw [haccepted]
    exact h.numbered p
  · exact urgent_record rfl h.urgent
  · have := h.delivered
    rw [hturns] at this
    rcases hbefore with rfl | rfl <;>
      simpa [hlog, hturns', List.filterMap_cons, Event.delivered?, Event.started?] using this
  · have := h.called
    rw [hturns] at this
    rcases hbefore with rfl | rfl <;>
      simpa [hlog, hturns', List.filterMap_cons, Event.called?, Event.started?] using this
  · intro hunlocked
    obtain ⟨hcalled, hphase⟩ := h.unlocked hunlocked
    rw [hturns] at hcalled hphase
    rcases hbefore with rfl | rfl
    · simpa [hlog, hturns', List.filterMap_cons, Event.called?, Event.started?] using hcalled
    · exact absurd rfl (hphase _ (List.mem_singleton_self _))

/-- The result of a turn reaches its caller. -/
theorem Serial.settle (h : Serial locked q) {id : Nat} {task : Task} {before : Phase}
    (hturn : q.turn? id = some ⟨task, before⟩) (hbefore : before = .locking ∨ before = .executing) (result : ρ) :
    Serial locked ((q.advance id .settled).record (.delivered task result)) := by
  obtain ⟨hturns, _, hrunning⟩ := h.turn? hturn
  obtain ⟨hturns', hrunning', hlane⟩ := h.advance hturn .settled
  have hlog : (q.advance id .settled).log = q.log := rfl
  refine { turns := ?_, priority := ?_, order := ?_, numbered := ?_, urgent := ?_, delivered := ?_, called := ?_,
           unlocked := ?_ }
  · simp [hturns', hrunning']
  · intro p other hother
    exact h.priority p other (by rwa [Queue.record_lane, hlane] at hother)
  · intro p
    rw [Queue.record_lane, hlane]
    simpa [hlog, List.filterMap_cons, Event.startedIn?, Event.accepted?] using h.order p
  · intro p
    have haccepted : ((q.advance id .settled).record (.delivered task result)).log.filterMap (Event.accepted? p) =
        q.log.filterMap (Event.accepted? p) := by
      simp [hlog, List.filterMap_cons, Event.accepted?]
    rw [haccepted]
    exact h.numbered p
  · exact urgent_record rfl h.urgent
  · have := h.delivered
    rw [hturns] at this
    rcases hbefore with rfl | rfl <;>
      simpa [hlog, hturns', List.filterMap_cons, Event.delivered?, Event.started?] using this
  · have := h.called
    rw [hturns] at this
    rcases hbefore with rfl | rfl
    · simpa [hlog, hturns', List.filterMap_cons, Event.called?, Event.started?] using
        (List.sublist_append_left _ _).trans this
    · simpa [hlog, hturns', List.filterMap_cons, Event.called?, Event.started?] using this
  · intro hunlocked
    obtain ⟨hcalled, hphase⟩ := h.unlocked hunlocked
    rw [hturns] at hcalled hphase
    rcases hbefore with rfl | rfl
    · exact absurd rfl (hphase _ (List.mem_singleton_self _))
    · simpa [hlog, hturns', List.filterMap_cons, Event.called?, Event.started?] using hcalled

theorem Serial.others (h : Serial locked q) {id : Nat} {turn : Turn} (hturn : q.turn? id = some turn) :
    q.turns.filter (·.task.id ≠ id) = [] := by
  obtain ⟨hturns, hid, _⟩ := h.turn? hturn
  rw [hturns, List.filter_cons_of_neg (by simpa using hid), List.filter_nil]

/-- The turn is over. -/
theorem Serial.leave (h : Serial locked q) {id : Nat} {task : Task} (hturn : q.turn? id = some ⟨task, .settled⟩) :
    Serial locked { q with running := false, turns := [] } := by
  obtain ⟨hturns, _, _⟩ := h.turn? hturn
  have hlane : ∀ p, ({ q with running := false, turns := [] } : Queue ρ).lane p = q.lane p :=
    fun p => by cases p <;> rfl
  refine { turns := rfl, priority := ?_, order := ?_, numbered := h.numbered, urgent := h.urgent,
           delivered := ?_, called := ?_, unlocked := ?_ }
  · intro p other hother
    exact h.priority p other (by rwa [hlane] at hother)
  · intro p
    rw [hlane]
    exact h.order p
  · have := h.delivered
    rw [hturns] at this
    exact this
  · have := h.called
    rw [hturns] at this
    exact this
  · intro hunlocked
    have := (h.unlocked hunlocked).1
    rw [hturns] at this
    exact ⟨this, fun _ hmem => absurd hmem List.not_mem_nil⟩

theorem Serial.runAll (h : Serial locked q) (calls : List QueuePriority) : Serial locked (calls.foldl Queue.run q) := by
  induction calls generalizing q with
  | nil => exact h
  | cons p calls ih => exact ih (h.run p)

theorem step_serial (h : Serial locked q) (m : Move ρ) : Serial locked (step locked q m) := by
  cases m with
  | run p => exact h.run p
  | begin id =>
    simp only [step]
    split
    · rename_i task hturn
      split
      · rename_i hlocked
        exact h.lock hlocked hturn
      · exact h.call hturn (.inl rfl)
    · exact h
  | acquire id =>
    simp only [step]
    split
    · rename_i task hturn
      exact h.call hturn (.inr rfl)
    · exact h
  | settle id result =>
    simp only [step]
    split
    · rename_i task hturn
      exact h.settle hturn (.inl rfl) result
    · rename_i task hturn
      exact h.settle hturn (.inr rfl) result
    · exact h
  | conclude id calls throws =>
    simp only [step]
    split
    · rename_i task hturn
      have hall := (h.leave hturn).runAll calls
      simp only [Queue.conclude, h.others hturn]
      split
      · exact hall
      · exact hall.dequeue
    · exact h

theorem runMoves_append (pre : List (Move ρ)) (m : Move ρ) :
    runMoves locked (pre ++ [m]) = step locked (runMoves locked pre) m := by
  simp [runMoves]

theorem runMoves_serial (moves : List (Move ρ)) : Serial locked (runMoves locked moves) := by
  induction moves using List.reverseRecOn with
  | nil => exact serial_empty
  | append_singleton pre m ih =>
    rw [runMoves_append]
    exact step_serial ih m

/-! ## No task is left waiting -/

theorem Serial.dequeue_goesOn (h : Serial locked q) : GoesOn q.dequeue := by
  unfold Queue.dequeue
  split
  · rename_i hrunning
    intro hturns
    rw [h.turns_eq_nil.mp hturns] at hrunning
    cases hrunning
  · split
    · intro hturns
      simp at hturns
    · intro hturns
      simp at hturns
    · rename_i hinteractive hbackground
      exact fun _ => ⟨hinteractive, hbackground⟩

theorem Serial.run_goesOn (h : Serial locked q) (p : QueuePriority) : GoesOn (q.run p) :=
  (h.accept p).dequeue_goesOn

theorem Serial.runAll_goesOn (h : Serial locked q) {calls : List QueuePriority} (hcalls : calls ≠ []) :
    GoesOn (calls.foldl Queue.run q) := by
  induction calls using List.reverseRecOn with
  | nil => exact absurd rfl hcalls
  | append_singleton pre p _ =>
    rw [List.foldl_append]
    exact (h.runAll pre).run_goesOn p

theorem goesOn_of_turns {turn : Turn} (h : q.turns = [turn]) : GoesOn q := by
  intro hturns
  rw [h] at hturns
  cases hturns

/-- A step leaves a task waiting exactly if a callback throws with one in a lane. -/
theorem step_goesOn (h : Serial locked q) (hgoes : GoesOn q) (m : Move ρ) :
    GoesOn (step locked q m) ↔ HandsOver q m := by
  have hothers : (∀ id calls throws, m ≠ .conclude id calls throws) → HandsOver q m :=
    fun hm id task hconclude _ => absurd hconclude (hm id [] true)
  cases m with
  | run p => exact iff_of_true (h.run_goesOn p) (hothers (by simp))
  | begin id =>
    refine iff_of_true ?_ (hothers (by simp))
    simp only [step]
    split
    · rename_i task hturn
      split
      · exact goesOn_of_turns (h.advance hturn _).1
      · exact goesOn_of_turns (h.advance hturn _).1
    · exact hgoes
  | acquire id =>
    refine iff_of_true ?_ (hothers (by simp))
    simp only [step]
    split
    · rename_i task hturn
      exact goesOn_of_turns (h.advance hturn _).1
    · exact hgoes
  | settle id result =>
    refine iff_of_true ?_ (hothers (by simp))
    simp only [step]
    split
    · rename_i task hturn
      exact goesOn_of_turns (h.advance hturn _).1
    · rename_i task hturn
      exact goesOn_of_turns (h.advance hturn _).1
    · exact hgoes
  | conclude id calls throws =>
    simp only [step]
    split
    · rename_i task hturn
      have hleft := h.leave hturn
      by_cases hthrows : throws = true ∧ calls = []
      · obtain ⟨rfl, rfl⟩ := hthrows
        simp only [Queue.conclude, h.others hturn, if_true, List.foldl_nil]
        constructor
        · intro hgoes' id' task' hm hturn'
          exact hgoes' rfl
        · intro hhands _
          exact hhands id task rfl hturn
      · refine iff_of_true ?_ (fun id' task' hm _ => absurd ⟨?_, ?_⟩ hthrows)
        · simp only [Queue.conclude, h.others hturn]
          split
          · rename_i hthrow
            exact hleft.runAll_goesOn (fun hcalls => hthrows ⟨hthrow, hcalls⟩)
          · exact (hleft.runAll calls).dequeue_goesOn
        · simp only [Move.conclude.injEq] at hm
          exact hm.2.2
        · simp only [Move.conclude.injEq] at hm
          exact hm.2.1
    · rename_i hturn
      refine iff_of_true hgoes (fun id' task' hm hturn' => ?_)
      simp only [Move.conclude.injEq] at hm
      rw [← hm.1] at hturn'
      exact absurd hturn' (hturn task')

/-! ## Whole runs -/

theorem goesOn_empty : GoesOn ({} : Queue ρ) := fun _ => ⟨rfl, rfl⟩

/-- What a callback hands over in a run: every state goes on exactly if every step hands over. -/
theorem runMoves_goesOn (moves : List (Move ρ)) :
    (∀ pre, pre <+: moves → GoesOn (runMoves locked pre)) ↔
      ∀ pre m, pre ++ [m] <+: moves → HandsOver (runMoves locked pre) m := by
  constructor
  · intro hgoes pre m hpre
    have hbefore := hgoes pre ((List.prefix_append pre [m]).trans hpre)
    have hafter := hgoes (pre ++ [m]) hpre
    rw [runMoves_append] at hafter
    exact (step_goesOn (runMoves_serial pre) hbefore m).mp hafter
  · intro hhands pre
    induction pre using List.reverseRecOn with
    | nil => exact fun _ => goesOn_empty
    | append_singleton pre m ih =>
      intro hpre
      rw [runMoves_append]
      exact (step_goesOn (runMoves_serial pre) (ih ((List.prefix_append pre [m]).trans hpre)) m).mpr
        (hhands pre m hpre)

theorem Serial.nodup (h : Serial locked q) (p : QueuePriority) : (q.log.filterMap (Event.startedIn? p)).Nodup := by
  have hpre : q.log.filterMap (Event.startedIn? p) <+: q.log.filterMap (Event.accepted? p) := ⟨_, h.order p⟩
  have hids := (h.numbered p).1
  exact ((List.pairwise_map.mp hids).imp (fun hlt heq => by rw [heq] at hlt; omega)).sublist hpre.sublist

@[simp] theorem dequeue_delivered (task : Task) (result : ρ) :
    Event.delivered task result ∈ q.dequeue.log ↔ Event.delivered task result ∈ q.log := by
  unfold Queue.dequeue
  split
  · exact Iff.rfl
  · split <;> simp

@[simp] theorem runAll_delivered (calls : List QueuePriority) (task : Task) (result : ρ) :
    Event.delivered task result ∈ (calls.foldl Queue.run q).log ↔ Event.delivered task result ∈ q.log := by
  induction calls generalizing q with
  | nil => exact Iff.rfl
  | cons p calls ih => rw [List.foldl_cons, ih]; simp [Queue.run]

/-- A result is that of the caller's own turn. -/
theorem step_delivered (h : Serial locked q) {m : Move ρ} {task : Task} {result : ρ}
    (hmem : Event.delivered task result ∈ (step locked q m).log) :
    Event.delivered task result ∈ q.log ∨ m = .settle task.id result := by
  cases m with
  | run p =>
    simp only [step, Queue.run, dequeue_delivered] at hmem
    exact .inl (by simpa using hmem)
  | begin id =>
    simp only [step] at hmem
    split at hmem
    · split at hmem
      · exact .inl hmem
      · exact .inl (by simpa [Queue.advance] using hmem)
    · exact .inl hmem
  | acquire id =>
    simp only [step] at hmem
    split at hmem
    · exact .inl (by simpa [Queue.advance] using hmem)
    · exact .inl hmem
  | settle id result' =>
    have hrecorded : ∀ {turn : Turn}, q.turn? id = some turn →
        Event.delivered task result ∈ ((q.advance id .settled).record (.delivered turn.task result')).log →
        Event.delivered task result ∈ q.log ∨ Move.settle id result' = .settle task.id result := by
      intro turn hturn hmem
      rcases List.mem_append.mp hmem with hmem | hmem
      · exact .inl hmem
      · obtain ⟨rfl, rfl⟩ : task = turn.task ∧ result = result' := by simpa using hmem
        exact .inr (by rw [(h.turn? hturn).2.1])
    simp only [step] at hmem
    split at hmem
    · rename_i hturn
      exact hrecorded hturn hmem
    · rename_i hturn
      exact hrecorded hturn hmem
    · exact .inl hmem
  | conclude id calls throws =>
    simp only [step] at hmem
    split at hmem
    · simp only [Queue.conclude] at hmem
      split at hmem
      · exact .inl (by simpa using hmem)
      · exact .inl (by simpa using hmem)
    · exact .inl hmem

theorem runMoves_delivered (moves : List (Move ρ)) {task : Task} {result : ρ}
    (hmem : Event.delivered task result ∈ (runMoves locked moves).log) : .settle task.id result ∈ moves := by
  induction moves using List.reverseRecOn with
  | nil => simp [runMoves] at hmem
  | append_singleton pre m ih =>
    rw [runMoves_append] at hmem
    rcases step_delivered (runMoves_serial pre) hmem with hmem | rfl
    · exact List.mem_append_left _ (ih hmem)
    · exact List.mem_append_right _ (List.mem_singleton_self _)

/-- What the queue is for, at every moment of a run. -/
structure Served (locked : Bool) (moves : List (Move ρ)) : Prop where
  serial : ∀ pre, pre <+: moves → Serial locked (runMoves locked pre)
  own : ∀ pre, pre <+: moves → ∀ task result, .delivered task result ∈ (runMoves locked pre).log →
    .settle task.id result ∈ pre
  goesOn : ∀ pre, pre <+: moves → GoesOn (runMoves locked pre)
  /-- With no turn under way every accepted task had its turn, once, and its caller its result. -/
  once : ∀ pre, pre <+: moves → (runMoves locked pre).turns = [] →
    (∀ p, (runMoves locked pre).log.filterMap (Event.startedIn? p) =
        (runMoves locked pre).log.filterMap (Event.accepted? p) ∧
      ((runMoves locked pre).log.filterMap (Event.startedIn? p)).Nodup) ∧
    (runMoves locked pre).log.filterMap Event.delivered? = (runMoves locked pre).log.filterMap Event.started? ∧
    (locked = false →
      (runMoves locked pre).log.filterMap Event.called? = (runMoves locked pre).log.filterMap Event.started?)

theorem Serial.once (h : Serial locked q) (hgoes : GoesOn q) (hturns : q.turns = []) :
    (∀ p, q.log.filterMap (Event.startedIn? p) = q.log.filterMap (Event.accepted? p) ∧
      (q.log.filterMap (Event.startedIn? p)).Nodup) ∧
    q.log.filterMap Event.delivered? = q.log.filterMap Event.started? ∧
    (locked = false → q.log.filterMap Event.called? = q.log.filterMap Event.started?) := by
  obtain ⟨hinteractive, hbackground⟩ := hgoes hturns
  refine ⟨fun p => ⟨?_, h.nodup p⟩, ?_, fun hunlocked => ?_⟩
  · have hlane : q.lane p = [] := by
      cases p
      · exact hinteractive
      · exact hbackground
    rw [← h.order p, hlane, List.append_nil]
  · have := h.delivered
    rw [hturns] at this
    simpa using this
  · have := (h.unlocked hunlocked).1
    rw [hturns] at this
    simpa using this

/-- **Main result.** Turns exclude each other and keep their order in every run, and no task
waits for nothing exactly if no callback throws with a task waiting for its turn. -/
theorem writes_serialized (locked : Bool) (moves : List (Move ρ)) :
    (∀ pre, pre <+: moves → Serial locked (runMoves locked pre)) ∧
    (Served locked moves ↔ ∀ pre m, pre ++ [m] <+: moves → HandsOver (runMoves locked pre) m) := by
  refine ⟨fun pre _ => runMoves_serial pre, ?_⟩
  rw [← runMoves_goesOn]
  constructor
  · intro hserved
    exact hserved.goesOn
  · intro hgoes
    exact {
      serial := fun pre _ => runMoves_serial pre
      own := fun pre _ task result hmem => runMoves_delivered pre hmem
      goesOn := hgoes
      once := fun pre hpre hturns => (runMoves_serial pre).once (hgoes pre hpre) hturns }

/-- The callback after the first task throws: the second task waits while nothing runs. -/
theorem left_waiting : ¬ Served false [Move.run .interactive, .run .background, .begin 0, .settle 0 true,
    .conclude 0 [] true] := by
  intro hserved
  have hgoes := hserved.goesOn _ (List.prefix_refl _)
  exact absurd (hgoes rfl).2 (by decide)

end Zenod.WriteQueue
