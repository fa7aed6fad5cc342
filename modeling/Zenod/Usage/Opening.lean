/-
Any number of processes that open one ledger, record events and prune it. A
process opens it in one transaction after the other, with reads of its own in
between; where it stands is a frame.

`totals_exact`: in a run whose resets find nothing counted by another process
that is at work, the totals count every row once when the stores are open.
`reset_late`: a reset that comes late loses rows.
-/
import Zenod.Lib.Interleave
import Zenod.Usage.Pruning

namespace Zenod.Usage

open Keyed Text Rollup UsageDb Interleaving

/-- The ledger, and the rows that were ever inserted in it. -/
structure World where
  db : UsageDb
  inserted : List UsageRow

/-- What a process has to do next. -/
inductive Frame
  /-- No watermark was found: the totals start over. -/
  | reset
  /-- The end of the next chunk is read. -/
  | bound (watermark : Nat)
  /-- The chunk is added. -/
  | chunk (watermark hi : Nat)
  | opened
deriving DecidableEq

inductive Call | openStore

/-- What a process is let do. -/
inductive Act
  | proceed
  | record (input : UsageRecordInput) (now : Rat)
  | prune (cutoff : Int) (limit : Nat)
  /-- It is killed, or closes its store. -/
  | stop

def start (_ : Call) (s : World) : World × Option Frame :=
  (s, some (s.db.watermark.elim .reset .bound))

def resume : Frame → Act → World → World × Option Frame
  | _, .stop, s => (s, none)
  | .reset, .proceed, s => ({ s with db := s.db.reset }, some (.bound 0))
  | .bound watermark, .proceed, s => (s, some ((s.db.bound watermark).elim .opened (.chunk watermark)))
  | .chunk watermark hi, .proceed, s => ({ s with db := s.db.backfill watermark hi }, some (.bound hi))
  | .opened, .record input now, s =>
    (match s.db.record input now with
      | .ok (row, db) => ⟨db, s.inserted ++ [row]⟩
      | .error _ => s, some .opened)
  | .opened, .prune cutoff limit, s => ({ s with db := (s.db.pruneBatch cutoff limit).2 }, some .opened)
  | f, _, s => (s, some f)

def processes : Interleaving World Call Frame Act := ⟨start, resume⟩

/-! ## What is counted -/

/-- The rows lie raw or rolled up, and the totals are those of the rows up to the watermark, if there is one. -/
structure Booked (s : World) : Prop where
  ids : ∀ r ∈ s.inserted, 0 < r.id ∧ r.id ≤ s.db.sequence
  rows : ∃ pruned, s.inserted.Perm (s.db.usage.rows ++ pruned) ∧ Same s.db.daily.rows (pruned.map (·.daily)) ∧
    ∀ r ∈ pruned, r.id ≤ s.db.watermark.getD 0
  totals : ∀ w, s.db.watermark = some w → Same s.db.totals.rows ((s.inserted.filter fun r => r.id ≤ w).map (·.total)) ∧
    (w = 0 ∨ ∃ r ∈ s.inserted, r.id = w)

/-- Every row ever inserted is in the totals once, and raw or rolled up once. -/
structure Accounted (s : World) : Prop where
  totals : Same s.db.totals.rows (s.inserted.map (·.total))
  /-- The watermark is the largest id. -/
  watermark : ∃ w, s.db.watermark = some w ∧ (∀ r ∈ s.inserted, r.id ≤ w) ∧ (w = 0 ∨ ∃ r ∈ s.inserted, r.id = w)
  rows : ∃ pruned, s.inserted.Perm (s.db.usage.rows ++ pruned) ∧ Same s.db.daily.rows (pruned.map (·.daily))

/-- When the stores that are still there have opened, every row is accounted for. -/
def CountedOnce (w : Config World Frame) : Prop :=
  .opened ∈ w.pending → (∀ f ∈ w.pending, f = .opened) → Accounted w.state

/-- A reset takes nothing from the process: it has counted no row, or has opened a ledger with none. -/
def Frame.spared (db : UsageDb) : Frame → Prop
  | .reset => True
  | .bound watermark => watermark = 0
  | .chunk watermark _ => watermark = 0
  | .opened => db.usage.rows = []

/-- A reset finds no row rolled up, and no process from which it takes something. -/
def Careful (w : Config World Frame) (m : Move Call Frame Act) : Prop :=
  m = .resume .reset .proceed → w.state.db.daily.rows = [] ∧ ∀ f ∈ w.pending, f.spared w.state.db

/-! ## Transactions -/

variable {s : World}

theorem Booked.reset (h : Booked s) (hdaily : s.db.daily.rows = []) : Booked { s with db := s.db.reset } := by
  obtain ⟨pruned, hperm, hsame, -⟩ := h.rows
  have hpruned : pruned = [] := by
    rw [hdaily] at hsame
    cases pruned with
    | nil => rfl
    | cons r pruned =>
      obtain ⟨a, ha, -⟩ := (hsame.keys r.daily.key).2 ⟨r.daily, List.mem_cons_self, rfl⟩
      cases ha
  subst hpruned
  refine ⟨h.ids, ⟨[], hperm, hsame, nofun⟩, fun w hw => ?_⟩
  obtain rfl := Option.some.inj hw
  have hnone : (s.inserted.filter fun r => r.id ≤ 0) = [] := by
    rw [List.filter_eq_nil_iff]
    intro r hr
    have := (h.ids r hr).1
    rw [decide_eq_true_eq]
    omega
  refine ⟨?_, Or.inl rfl⟩
  show Same [] ((s.inserted.filter fun r => r.id ≤ 0).map (·.total))
  rw [hnone]
  exact .refl _

/-- **A chunk counts the rows from the watermark to its end.** -/
theorem Booked.backfill (h : Booked s) {m watermark hi : Nat} (hm : s.db.watermark = some m) (hle : watermark ≤ m)
    (hhi : ∃ r ∈ s.inserted, r.id = hi) : Booked { s with db := s.db.backfill watermark hi } := by
  unfold UsageDb.backfill
  rw [hm, Option.getD_some]
  simp only []
  split
  · next hlt =>
    obtain ⟨pruned, hperm, hsame, hpruned⟩ := h.rows
    rw [hm, Option.getD_some] at hpruned
    refine ⟨h.ids, ⟨pruned, hperm, hsame, fun r hr => ?_⟩, fun w hw => ?_⟩
    · have := hpruned r hr
      show r.id ≤ hi
      omega
    · obtain rfl := Option.some.inj hw
      refine ⟨?_, Or.inr hhi⟩
      have hraw : (s.inserted.filter fun r => m < r.id && r.id ≤ hi).Perm
          (s.db.usage.rows.filter fun r => max m watermark < r.id && r.id ≤ hi) := by
        rw [max_eq_left hle]
        refine (hperm.filter _).trans (.of_eq ?_)
        have hnone : (pruned.filter fun r => m < r.id && r.id ≤ hi) = [] := by
          rw [List.filter_eq_nil_iff]
          intro r hr
          have := hpruned r hr
          rw [Bool.and_eq_true, decide_eq_true_eq]
          omega
        rw [List.filter_append, hnone, List.append_nil]
      have hparts : (s.inserted.filter fun r => r.id ≤ hi).Perm
          ((s.inserted.filter fun r => r.id ≤ m) ++ s.inserted.filter fun r => m < r.id && r.id ≤ hi) := by
        refine (List.filter_append_perm (fun r => decide (r.id ≤ m)) (s.inserted.filter fun r => r.id ≤ hi)).symm.trans (.of_eq ?_)
        rw [List.filter_filter, List.filter_filter]
        congr 1
        · refine List.filter_congr fun r _ => ?_
          rw [Bool.eq_iff_iff, Bool.and_eq_true]
          simp only [decide_eq_true_eq]
          omega
        · refine List.filter_congr fun r _ => ?_
          rw [Bool.eq_iff_iff, Bool.and_eq_true, Bool.and_eq_true]
          simp only [decide_eq_true_eq, Bool.not_eq_true', decide_eq_false_iff_not]
          omega
      refine ((addAll_same _ _).trans ((h.totals m hm).1.append (group_same _))).trans ?_
      rw [← List.map_append]
      exact .of_perm ((hparts.trans (hraw.append_left _)).symm.map _)
  · exact h

/-- **A record transaction counts its row**, where every other row is counted. -/
theorem Booked.record (h : Booked s) {m : Nat} (hm : s.db.watermark = some m) (hle : ∀ r ∈ s.inserted, r.id ≤ m)
    {input : UsageRecordInput} {now : Rat} {row : UsageRow} {db : UsageDb} (hrecord : s.db.record input now = .ok (row, db)) :
    Booked ⟨db, s.inserted ++ [row]⟩ ∧ db.watermark = some row.id ∧ m ≤ row.id := by
  obtain ⟨pruned, hperm, hsame, hpruned⟩ := h.rows
  rw [hm, Option.getD_some] at hpruned
  have hraw : ∀ r ∈ s.db.usage.rows, r.id ≤ s.db.sequence := fun r hr =>
    (h.ids r (hperm.mem_iff.2 (List.mem_append_left _ hr))).2
  have hsequence : m ≤ s.db.sequence := by
    rcases (h.totals m hm).2 with rfl | ⟨r, hr, rfl⟩
    · omega
    · exact (h.ids r hr).2
  have hnext := nextId_eq hraw
  rcases record_cases input now with ⟨e, he⟩ | ⟨r, -, -, -, hr⟩
  · rw [he] at hrecord
    cases hrecord
  · rw [hr] at hrecord
    cases hrecord
    have hrows := @rows_insert s.db { r with id := s.db.nextId } fun a ha => by
      show a.id < s.db.nextId
      have := hraw a ha
      omega
    have hbefore : ∀ a ∈ s.inserted, a.id ≤ s.db.nextId := fun a ha => by
      have := (h.ids a ha).2
      omega
    refine ⟨⟨fun a ha => ?_, ⟨pruned, ?_, hsame, fun a ha => ?_⟩, fun w hw => ?_⟩, rfl, ?_⟩
    · show 0 < a.id ∧ a.id ≤ s.db.nextId
      rcases List.mem_append.1 ha with ha | ha
      · exact ⟨(h.ids a ha).1, hbefore a ha⟩
      · rw [List.mem_singleton.1 ha]
        exact ⟨by show 0 < s.db.nextId; omega, le_refl _⟩
    · show (s.inserted ++ [_]).Perm ((s.db.insert _).usage.rows ++ pruned)
      rw [hrows, List.append_assoc]
      exact (hperm.append_right _).trans (by rw [List.append_assoc]; exact List.perm_append_comm.append_left _)
    · show a.id ≤ s.db.nextId
      have := hpruned a ha
      omega
    · obtain rfl := Option.some.inj hw
      refine ⟨?_, Or.inr ⟨_, List.mem_append_right _ List.mem_cons_self, rfl⟩⟩
      have hall : ((s.inserted ++ [{ r with id := s.db.nextId }]).filter fun a => a.id ≤ s.db.nextId) =
          s.inserted ++ [{ r with id := s.db.nextId }] := by
        rw [List.filter_eq_self]
        intro a ha
        rw [decide_eq_true_eq]
        rcases List.mem_append.1 ha with ha | ha
        · exact hbefore a ha
        · rw [List.mem_singleton.1 ha]
      have hcounted : (s.inserted.filter fun a => a.id ≤ m) = s.inserted :=
        List.filter_eq_self.2 fun a ha => decide_eq_true (hle a ha)
      have htotals := (h.totals m hm).1
      rw [hcounted] at htotals
      refine Same.trans ?_ (.of_perm (.of_eq (congrArg (List.map (·.total)) hall.symm)))
      rw [List.map_append]
      exact (add_same _ _).trans (htotals.append (.refl _))
    · show m ≤ s.db.nextId
      omega

/-- **A prune batch moves rows that are counted.** -/
theorem Booked.prune (h : Booked s) (cutoff : Int) (limit : Nat) :
    Booked { s with db := (s.db.pruneBatch cutoff limit).2 } := by
  obtain ⟨pruned, hperm, hsame, hpruned⟩ := h.rows
  obtain ⟨moved, hmoved, hrolled, hcounted, htotals, hsequence, hwatermark⟩ := pruneBatch_spec s.db cutoff limit
  refine ⟨fun r hr => ?_, ⟨pruned ++ moved, ?_, ?_, fun r hr => ?_⟩, fun w hw => ?_⟩
  · show 0 < r.id ∧ r.id ≤ (s.db.pruneBatch cutoff limit).2.sequence
    rw [hsequence]
    exact h.ids r hr
  · refine hperm.trans ((hmoved.append_right pruned).trans ?_)
    rw [List.append_assoc]
    exact List.perm_append_comm.append_left _
  · rw [List.map_append]
    exact hrolled.trans (hsame.append (.refl _))
  · show r.id ≤ (s.db.pruneBatch cutoff limit).2.watermark.getD 0
    rw [hwatermark]
    rcases List.mem_append.1 hr with hr | hr
    · exact hpruned r hr
    · exact hcounted r hr
  · have hw' : (s.db.pruneBatch cutoff limit).2.watermark = some w := hw
    show Same (s.db.pruneBatch cutoff limit).2.totals.rows _ ∧ _
    rw [htotals]
    exact h.totals w (hwatermark.symm.trans hw')

/-! ## Processes -/

/-- What a process knows of the ledger between two transactions. -/
def Frame.Sound (s : World) : Frame → Prop
  | .reset => True
  | .bound watermark => ∃ m, s.db.watermark = some m ∧ watermark ≤ m
  | .chunk watermark hi => (∃ m, s.db.watermark = some m ∧ watermark ≤ m) ∧ ∃ r ∈ s.inserted, r.id = hi
  | .opened => ∃ m, s.db.watermark = some m ∧ ∀ r ∈ s.inserted, r.id ≤ m

/-- The watermark has gone up, and over every row that has come. -/
structure Grows (s s' : World) : Prop where
  watermark : ∀ m, s.db.watermark = some m →
    ∃ m', s'.db.watermark = some m' ∧ m ≤ m' ∧ ∀ r ∈ s'.inserted, r ∈ s.inserted ∨ r.id ≤ m'
  inserted : ∀ r ∈ s.inserted, r ∈ s'.inserted

variable {s' : World} {f : Frame}

theorem Grows.sound (h : Grows s s') (hf : f.Sound s) : f.Sound s' := by
  have hup : ∀ {watermark}, (∃ m, s.db.watermark = some m ∧ watermark ≤ m) →
      ∃ m, s'.db.watermark = some m ∧ watermark ≤ m := by
    rintro watermark ⟨m, hm, hle⟩
    obtain ⟨m', hm', hmono, -⟩ := h.watermark m hm
    exact ⟨m', hm', by omega⟩
  cases f with
  | reset => trivial
  | bound watermark => exact hup hf
  | chunk watermark hi =>
    obtain ⟨hwatermark, r, hr, hid⟩ := hf
    exact ⟨hup hwatermark, r, h.inserted r hr, hid⟩
  | opened =>
    obtain ⟨m, hm, hle⟩ := hf
    obtain ⟨m', hm', hmono, hnew⟩ := h.watermark m hm
    refine ⟨m', hm', fun r hr => ?_⟩
    rcases hnew r hr with hr | hr
    · have := hle r hr
      omega
    · exact hr

theorem grows_backfill (s : World) (watermark hi : Nat) : Grows s { s with db := s.db.backfill watermark hi } := by
  refine ⟨fun m hm => ?_, fun _ hr => hr⟩
  unfold UsageDb.backfill
  rw [hm, Option.getD_some]
  simp only []
  split
  · next hlt => exact ⟨hi, rfl, by omega, fun _ hr => Or.inl hr⟩
  · exact ⟨m, hm, le_refl _, fun _ hr => Or.inl hr⟩

/-- Where a reset spares a process, the process knows as much afterwards. -/
theorem sound_reset (hdaily : s.db.daily.rows = []) (h : Booked s) (hspared : f.spared s.db) (hf : f.Sound s) :
    f.Sound { s with db := s.db.reset } := by
  have hzero : ∃ m, s.db.reset.watermark = some m ∧ 0 ≤ m := ⟨0, rfl, le_refl _⟩
  cases f with
  | reset => trivial
  | bound watermark =>
    obtain rfl : watermark = 0 := hspared
    exact hzero
  | chunk watermark hi =>
    obtain rfl : watermark = 0 := hspared
    exact ⟨hzero, hf.2⟩
  | opened =>
    obtain ⟨pruned, hperm, -, hpruned⟩ := (h.reset hdaily).rows
    refine ⟨0, rfl, fun r hr => ?_⟩
    rcases List.mem_append.1 (hperm.mem_iff.1 hr) with hmem | hmem
    · rw [show s.db.reset.usage.rows = [] from hspared] at hmem
      cases hmem
    · exact hpruned r hmem

/-- No row is above the watermark where there is no next chunk. -/
theorem bound_none {db : UsageDb} {watermark : Nat} (h : db.bound watermark = none) : ∀ r ∈ db.usage.rows, r.id ≤ watermark := by
  unfold UsageDb.bound at h
  rw [List.getLast?_eq_none_iff, List.take_eq_nil_iff] at h
  rcases h with h | h
  · cases h
  · intro r hr
    by_contra hlt
    have hmem : r.id ∈ ((db.usage.rows.map (·.id)).filter (watermark < ·)).insertionSort (· ≤ ·) := by
      rw [List.mem_insertionSort, List.mem_filter]
      exact ⟨List.mem_map_of_mem hr, decide_eq_true (by omega)⟩
    rw [h] at hmem
    cases hmem

theorem bound_some {db : UsageDb} {watermark hi : Nat} (h : db.bound watermark = some hi) : ∃ r ∈ db.usage.rows, r.id = hi := by
  have hmem := List.mem_of_mem_take (List.mem_of_getLast? h)
  rw [List.mem_insertionSort] at hmem
  exact List.mem_map.1 (List.mem_of_mem_filter hmem)

/-- The rows are booked and every process knows what it needs. -/
structure Exact (w : Config World Frame) : Prop where
  booked : Booked w.state
  sound : ∀ f ∈ w.pending, f.Sound w.state

theorem exact_start (h : Booked s) (c : Call) {fs : Multiset Frame} (hfs : ∀ f ∈ fs, f.Sound s) :
    Exact (after fs (start c s)) := by
  refine ⟨h, fun f hf => ?_⟩
  rcases Multiset.mem_add.1 hf with hf | hf
  · rw [show f = s.db.watermark.elim .reset .bound from Multiset.mem_singleton.1 hf]
    cases hm : s.db.watermark with
    | none => trivial
    | some m => exact ⟨m, hm, le_refl _⟩
  · exact hfs f hf

/-- A segment leaves rows that are booked, and processes that know what they need. -/
theorem exact_after {r : World × Option Frame} {fs : Multiset Frame} (hbooked : Booked r.1) (hnext : ∀ f, r.2 = some f → f.Sound r.1)
    (hfs : ∀ f ∈ fs, f.Sound r.1) : Exact (after fs r) := by
  refine ⟨hbooked, fun f hf => ?_⟩
  rcases Multiset.mem_add.1 hf with hf | hf
  · obtain ⟨s, next⟩ := r
    cases next with
    | none => cases hf
    | some g => exact hnext f (congrArg some (Multiset.mem_singleton.1 hf).symm)
  · exact hfs f hf

/-- **A transaction of one process** leaves the others what they know. -/
theorem exact_resume (h : Booked s) {fs : Multiset Frame} (hf : f.Sound s) (hfs : ∀ g ∈ fs, g.Sound s) (act : Act)
    (hcareful : f = .reset → act = .proceed → s.db.daily.rows = [] ∧ ∀ g ∈ fs, g.spared s.db) :
    Exact (after fs (resume f act s)) := by
  have hstay : Exact (after fs (s, some f)) := exact_after h (fun g hg => by obtain rfl := Option.some.inj hg; exact hf) hfs
  cases act with
  | stop => cases f <;> exact exact_after h nofun hfs
  | proceed =>
    cases f with
    | reset =>
      obtain ⟨hdaily, hspared⟩ := hcareful rfl rfl
      refine exact_after (h.reset hdaily) (fun g hg => ?_) fun g hg => sound_reset hdaily h (hspared g hg) (hfs g hg)
      obtain rfl := Option.some.inj hg
      exact ⟨0, rfl, le_refl _⟩
    | bound watermark =>
      refine exact_after h (fun g hg => ?_) hfs
      obtain ⟨m, hm, hle⟩ := hf
      obtain ⟨pruned, hperm, -, hpruned⟩ := h.rows
      rw [hm, Option.getD_some] at hpruned
      have hnext : some ((s.db.bound watermark).elim .opened (.chunk watermark)) = some g := hg
      cases hbound : s.db.bound watermark with
      | none =>
        rw [hbound] at hnext
        obtain rfl := Option.some.inj hnext
        refine ⟨m, hm, fun r hr => ?_⟩
        rcases List.mem_append.1 (hperm.mem_iff.1 hr) with hr | hr
        · have := bound_none hbound r hr
          omega
        · exact hpruned r hr
      | some hi =>
        rw [hbound] at hnext
        obtain rfl := Option.some.inj hnext
        obtain ⟨r, hr, hid⟩ := bound_some hbound
        exact ⟨⟨m, hm, hle⟩, r, hperm.mem_iff.2 (List.mem_append_left _ hr), hid⟩
    | chunk watermark hi =>
      obtain ⟨⟨m, hm, hle⟩, hhi⟩ := hf
      refine exact_after (h.backfill hm hle hhi) (fun g hg => ?_) fun g hg => (grows_backfill s watermark hi).sound (hfs g hg)
      obtain rfl := Option.some.inj hg
      show ∃ m, (s.db.backfill watermark hi).watermark = some m ∧ hi ≤ m
      unfold UsageDb.backfill
      rw [hm, Option.getD_some]
      simp only []
      split
      · exact ⟨hi, rfl, le_refl _⟩
      · exact ⟨m, hm, by omega⟩
    | opened => exact hstay
  | record input now =>
    cases f with
    | opened =>
      obtain ⟨m, hm, hle⟩ := hf
      cases hrecord : s.db.record input now with
      | error e =>
        simp only [resume, hrecord]
        exact hstay
      | ok result =>
        obtain ⟨row, db⟩ := result
        obtain ⟨hbooked, hwatermark, hmono⟩ := h.record hm hle hrecord
        have hgrows : Grows s ⟨db, s.inserted ++ [row]⟩ := by
          refine ⟨fun m' hm' => ⟨row.id, hwatermark, ?_, fun r hr => ?_⟩, fun r hr => List.mem_append_left _ hr⟩
          · rw [hm] at hm'
            obtain rfl := Option.some.inj hm'
            exact hmono
          · rcases List.mem_append.1 hr with hr | hr
            · exact Or.inl hr
            · exact Or.inr (by rw [List.mem_singleton.1 hr])
        simp only [resume, hrecord]
        refine exact_after hbooked (fun g hg => ?_) fun g hg => hgrows.sound (hfs g hg)
        obtain rfl := Option.some.inj hg
        exact hgrows.sound ⟨m, hm, hle⟩
    | reset => exact hstay
    | bound watermark => exact hstay
    | chunk watermark hi => exact hstay
  | prune cutoff limit =>
    cases f with
    | opened =>
      have hgrows : Grows s { s with db := (s.db.pruneBatch cutoff limit).2 } := by
        obtain ⟨-, -, -, -, -, -, hwatermark⟩ := pruneBatch_spec s.db cutoff limit
        refine ⟨fun m hm => ⟨m, hwatermark.trans hm, le_refl _, fun _ hr => Or.inl hr⟩, fun _ hr => hr⟩
      refine exact_after (h.prune cutoff limit) (fun g hg => ?_) fun g hg => hgrows.sound (hfs g hg)
      obtain rfl := Option.some.inj hg
      exact hgrows.sound hf
    | reset => exact hstay
    | bound watermark => exact hstay
    | chunk watermark hi => exact hstay

theorem exact_step (w : Config World Frame) (m : Move Call Frame Act) (hcareful : Careful w m) (h : Exact w) :
    Exact (processes.step m w) := by
  obtain ⟨s, pending⟩ := w
  rcases step_cases (o := processes) m ⟨s, pending⟩ with ⟨c, -, hstep⟩ | ⟨f, act, fs, rfl, hpending, hstep⟩ | hstep
  · rw [hstep]
    exact exact_start h.booked c h.sound
  · rw [hstep]
    obtain rfl : pending = f ::ₘ fs := hpending
    refine exact_resume h.booked (h.sound f (Multiset.mem_cons_self f fs)) (fun g hg => h.sound g (Multiset.mem_cons_of_mem hg))
      act fun hreset hproceed => ?_
    subst hreset hproceed
    obtain ⟨hdaily, hspared⟩ := hcareful rfl
    exact ⟨hdaily, fun g hg => hspared g (Multiset.mem_cons_of_mem hg)⟩
  · rw [hstep]
    exact h

/-- Once a store has opened, every row is accounted for. -/
theorem Exact.accounted {w : Config World Frame} (h : Exact w) (hopened : .opened ∈ w.pending) : Accounted w.state := by
  obtain ⟨m, hm, hle⟩ := h.sound _ hopened
  obtain ⟨pruned, hperm, hsame, -⟩ := h.booked.rows
  obtain ⟨htotals, hlast⟩ := h.booked.totals m hm
  have hall : (w.state.inserted.filter fun r => r.id ≤ m) = w.state.inserted :=
    List.filter_eq_self.2 fun r hr => decide_eq_true (hle r hr)
  rw [hall] at htotals
  exact ⟨htotals, ⟨m, hm, hle, hlast⟩, pruned, hperm, hsame⟩

/-- **The totals count every row once**: whatever the processes do, where no reset finds a row rolled up or takes
something from another process, every row ever inserted is accounted for when the stores have opened. -/
theorem totals_exact (s : World) (moves : List (Move Call Frame Act)) (h : Booked s)
    (hcareful : processes.Along Careful moves ⟨s, 0⟩) : CountedOnce (processes.run moves ⟨s, 0⟩) := by
  have hstart : Exact ⟨s, 0⟩ := ⟨h, fun f hf => absurd hf (Multiset.notMem_zero f)⟩
  exact fun hopened _ => (run_invariant exact_step hcareful hstart).accounted hopened

/-! ## A late reset -/

def event (id : Nat) : UsageRow := ⟨id, "acme".toList, 0, defaultRequestKind, 1, none⟩

def input : UsageRecordInput := { tenantId := "acme".toList, time := some 0 }

/-- A ledger of one row and no totals. -/
def untotalled : World where
  db := { usage := ((Table.empty : Table UsageRow).insert? (event 1)).getD .empty, sequence := 1 }
  inserted := [event 1]

theorem booked_untotalled : Booked untotalled where
  ids := by decide
  rows := ⟨[], .refl _, .refl _, nofun⟩
  totals := nofun

theorem totals_exact_upgrade :
    CountedOnce (processes.run [.call .openStore, .resume .reset .proceed, .resume (.bound 0) .proceed,
      .resume (.chunk 0 1) .proceed, .resume (.bound 1) .proceed, .resume .opened (.record input 0)] ⟨untotalled, 0⟩) :=
  totals_exact untotalled _ booked_untotalled
    ⟨nofun, fun _ => ⟨rfl, fun f hf => by
      obtain rfl : f = .reset := Multiset.mem_singleton.1 hf
      trivial⟩, nofun, nofun, nofun, nofun, trivial⟩

/-- **Two processes open a ledger with no totals.** The second starts them over when the first has counted the row and
opened; the row that the first then records moves the watermark past the rows that the second has to count. -/
theorem reset_late :
    ∃ moves, Booked untotalled ∧ ¬CountedOnce (processes.run moves ⟨untotalled, 0⟩) := by
  refine ⟨[.call .openStore, .call .openStore,
    .resume .reset .proceed, .resume (.bound 0) .proceed, .resume (.chunk 0 1) .proceed, .resume (.bound 1) .proceed,
    .resume .reset .proceed, .resume (.bound 0) .proceed, .resume .opened (.record input 0), .resume (.chunk 0 1) .proceed,
    .resume (.bound 1) .proceed, .resume (.chunk 1 2) .proceed, .resume (.bound 2) .proceed], booked_untotalled, fun h => ?_⟩
  have htotals := (h (by decide +kernel) (by decide +kernel)).totals
  have hsum := htotals.sum fun _ => true
  revert hsum
  decide +kernel

end Zenod.Usage
