/-
Retention does not change what a tenant is told. A history of events is played
twice, with the prune batches that come between them and without.

`pruning_invisible`: summaries from a UTC day on and quotas are the same,
others differ by events of one day, and the running totals are what the raw and
the rolled-up rows add up to.
-/
import Zenod.Usage.Store

namespace Zenod.Usage

open Keyed Text Rollup UsageDb

/-- One step of a history; a run of `pruneOnce` is a batch after the other, and events may come between them. -/
inductive Step
  | record (input : UsageRecordInput) (now : Rat)
  | prune (now : Rat) (limit : Nat)

def Step.isRecord : Step → Bool
  | .record _ _ => true
  | .prune _ _ => false

/-- The ledger as the constructor leaves it. -/
def created : UsageDb := ({} : UsageDb).reset

def Step.after (retentionMs : Rat) (db : UsageDb) : Step → UsageDb
  | .record input now => ((db.record input now).toOption.map (·.2)).getD db
  | .prune now limit => (db.pruneBatch (cutoffTs now retentionMs) limit).2

def runSteps (retentionMs : Rat) (steps : List Step) : UsageDb := steps.foldl (Step.after retentionMs) created

/-- The bucket of a kind; none is empty. -/
def bucketAt (buckets : List UsageBucket) (kind : Text) : Tally :=
  ((buckets.find? (·.kind = kind)).map fun b => ⟨b.events, b.units⟩).getD 0

instance : LE Tally := ⟨fun a b => a.events ≤ b.events ∧ a.units ≤ b.units⟩

/-- What a row adds to its bucket. -/
def UsageRow.bucket (r : UsageRow) : Amount Text Tally := ⟨r.kind, r.tally⟩

/-- What the tenant's events of one UTC day amount to. -/
def dayTally (db : UsageDb) (tenantId : Text) (day : Int) (p : Text → Bool) : Tally :=
  sumOn p ((db.usage.rows.filter fun r => r.tenantId = tenantId && r.day = day).map (·.bucket))

/-- `pruned` is `whole`, or exceeds it by no more than the tenant's events of the UTC day of `since`. -/
def Within (db : UsageDb) : Except UsageError TenantUsageSummary → Except UsageError TenantUsageSummary → Prop
  | .ok whole, .ok pruned =>
    let day := dayTally db whole.tenantId (whole.since / dayMs)
    pruned.tenantId = whole.tenantId ∧ pruned.since = whole.since ∧
      (⟨whole.events, whole.units⟩ : Tally) ≤ ⟨pruned.events, pruned.units⟩ ∧
      (⟨pruned.events, pruned.units⟩ : Tally) ≤ ⟨whole.events, whole.units⟩ + day (fun _ => true) ∧
      ∀ kind, bucketAt whole.byKind kind ≤ bucketAt pruned.byKind kind ∧
        bucketAt pruned.byKind kind ≤ bucketAt whole.byKind kind + day fun k => decide (k = kind)
  | .error whole, .error pruned => whole = pruned
  | _, _ => False

/-! ## Sorted buckets -/

/-- Lists that are the same, sorted by distinct keys, are equal. -/
theorem eq_of_same {as bs : List (Amount Text Tally)} (h : Same as bs) (has : (as.map (·.key)).Nodup)
    (hbs : (bs.map (·.key)).Nodup) (hsorted : as.Pairwise fun a b => le a.key b.key = true)
    (hsorted' : bs.Pairwise fun a b => le a.key b.key = true) : as = bs := by
  have hperm := perm_of_same h has hbs
  refine hperm.eq_of_pairwise (fun a b ha hb hab hba => ?_) hsorted hsorted'
  exact List.inj_on_of_nodup_map has ha (hperm.mem_iff.2 hb) (le_antisymm hab hba)

theorem sorted_insertionSort (as : List (Amount Text Tally)) :
    (as.insertionSort fun a b => le a.key b.key).Pairwise fun a b => le a.key b.key = true := by
  have htotal : Std.Total fun a b : Amount Text Tally => le a.key b.key = true := ⟨fun a b => le_total a.key b.key⟩
  have htrans : IsTrans (Amount Text Tally) fun a b => le a.key b.key = true := ⟨fun _ _ _ => le_trans⟩
  exact List.pairwise_insertionSort _ as

/-- On characters before the surrogates both orders are one. -/
theorem codeLe_eq {s t : Text} (hs : ∀ c ∈ s, c.toNat < 0xd800) (ht : ∀ c ∈ t, c.toNat < 0xd800) : codeLe s t = le s t := by
  induction s generalizing t with
  | nil => rfl
  | cons c s ih =>
    cases t with
    | nil => rfl
    | cons d t =>
      obtain ⟨hc, hs⟩ := List.forall_mem_cons.1 hs
      obtain ⟨hd, ht⟩ := List.forall_mem_cons.1 ht
      have hunit : ∀ e : Char, e.toNat < 0xd800 → unitOrder e = e.toNat := by
        intro e he
        unfold unitOrder
        rw [if_neg (by omega)]
      rw [codeLe, le, ih hs ht, hunit c hc, hunit d hd]

/-- A sort asks only how the members of the list compare. -/
theorem insertionSort_congr {α : Type} {r s : α → α → Bool} {as : List α} (h : ∀ a ∈ as, ∀ b ∈ as, r a b = s a b) :
    (as.insertionSort fun a b => r a b) = as.insertionSort fun a b => s a b := by
  induction as with
  | nil => rfl
  | cons a as ih =>
    have hinsert : ∀ {bs : List α}, (∀ b ∈ bs, r a b = s a b) →
        bs.orderedInsert (fun a b => r a b) a = bs.orderedInsert (fun a b => s a b) a := by
      intro bs hbs
      induction bs with
      | nil => rfl
      | cons b bs ihb =>
        obtain ⟨hb, hbs⟩ := List.forall_mem_cons.1 hbs
        rw [List.orderedInsert_cons, List.orderedInsert_cons, hb, ihb hbs]
    rw [List.insertionSort_cons, List.insertionSort_cons,
      ih fun b hb c hc => h b (List.mem_cons_of_mem _ hb) c (List.mem_cons_of_mem _ hc)]
    refine hinsert fun b hb => ?_
    rw [List.mem_insertionSort] at hb
    exact h a List.mem_cons_self b (List.mem_cons_of_mem _ hb)

theorem isEventKind_ascii {kind : Text} (h : isEventKind kind = true) : ∀ c ∈ kind, c.toNat < 0xd800 := by
  have hchar : ∀ c : Char, isKindChar c = true → c.toNat < 0xd800 := by
    intro c hc
    unfold isKindChar at hc
    rw [Bool.or_eq_true] at hc
    rcases hc with hc | hc
    · rcases Bool.or_eq_true_iff.1 hc with hletter | hdigit
      · rcases toNat_of_isAlpha hletter with h | h <;> omega
      · have hle : c.toNat ≤ 57 := (Char.isDigit_iff_toNat.1 hdigit).2
        omega
    · rw [decide_eq_true_eq] at hc
      simp only [List.mem_cons, List.not_mem_nil, or_false] at hc
      rcases hc with rfl | rfl | rfl | rfl <;> decide
  cases kind with
  | nil => cases h
  | cons c rest =>
    unfold isEventKind at h
    rw [Bool.and_eq_true, Bool.and_eq_true] at h
    intro d hd
    rcases List.mem_cons.1 hd with rfl | hd
    · exact hchar d (by unfold isKindChar; rw [h.1.1, Bool.true_or])
    · exact hchar d (List.all_eq_true.1 h.2 d hd)

/-! ## Histories -/

/-- `db` is `whole` with some of its rows rolled up. -/
structure Hides (whole db : UsageDb) : Prop where
  totals : db.totals = whole.totals
  sequence : db.sequence = whole.sequence
  watermark : db.watermark = whole.watermark
  rows : ∃ pruned, whole.usage.rows.Perm (db.usage.rows ++ pruned) ∧ Same db.daily.rows (pruned.map (·.daily))

/-- A ledger that was never pruned. -/
structure Whole (db : UsageDb) : Prop where
  daily : db.daily = .empty
  id_le : ∀ r ∈ db.usage.rows, r.id ≤ db.sequence
  valid : ∀ r ∈ db.usage.rows, isEventKind r.kind = true ∧ 0 ≤ r.ts ∧ 0 ≤ r.units
  totals : Same db.totals.rows (db.usage.rows.map (·.total))

/-- A call is refused by every ledger or puts the same row in every ledger, but for its id. -/
theorem record_cases (input : UsageRecordInput) (now : Rat) :
    (∃ e, ∀ db : UsageDb, db.record input now = .error e) ∨
    ∃ row : UsageRow, isEventKind row.kind = true ∧ 0 ≤ row.ts ∧ 0 ≤ row.units ∧
      ∀ db : UsageDb, db.record input now = .ok ({ row with id := db.nextId }, db.insert { row with id := db.nextId }) := by
  unfold UsageDb.record
  cases htenant : normalizeTenantId input.tenantId with
  | error e => exact .inl ⟨e, fun _ => rfl⟩
  | ok tenantId =>
    cases hkind : normalizeKind (input.kind.getD defaultRequestKind) with
    | error e => exact .inl ⟨e, fun _ => rfl⟩
    | ok kind =>
      cases hunits : normalizeUnits (input.units.getD 1) with
      | error e => exact .inl ⟨e, fun _ => rfl⟩
      | ok units =>
        cases hts : normalizeTimestamp (input.time.getD now) with
        | error e => exact .inl ⟨e, fun _ => rfl⟩
        | ok ts =>
          refine .inr ⟨⟨0, tenantId, ts, kind, units, input.metadata⟩, ?_, ?_, ?_, fun _ => rfl⟩
          · unfold normalizeKind at hkind
            split at hkind
            · next hevent =>
              cases hkind
              exact hevent
            · cases hkind
          · unfold normalizeTimestamp at hts
            split at hts
            · cases hts
            · next hneg =>
              cases hts
              exact Int.floor_nonneg.2 (not_lt.1 hneg)
          · unfold normalizeUnits at hunits
            split at hunits
            · next hpos =>
              cases hunits
              exact Rat.num_nonneg.2 (le_of_lt hpos.2)
            · cases hunits

/-- Where no id is above the sequence, the next one is a new one. -/
theorem nextId_eq {db : UsageDb} (h : ∀ r ∈ db.usage.rows, r.id ≤ db.sequence) : db.nextId = db.sequence + 1 := by
  unfold nextId
  have hmax : ∀ ids : List Nat, (∀ i ∈ ids, i ≤ db.sequence) → ids.foldl max db.sequence = db.sequence := by
    intro ids
    induction ids with
    | nil => exact fun _ => rfl
    | cons i ids ih =>
      intro hle
      obtain ⟨hi, hle⟩ := List.forall_mem_cons.1 hle
      rw [List.foldl_cons, max_eq_left hi, ih hle]
  rw [hmax _ fun i hi => ?_]
  obtain ⟨r, hr, rfl⟩ := List.mem_map.1 hi
  exact h r hr

theorem rows_insert {db : UsageDb} {r : UsageRow} (h : ∀ s ∈ db.usage.rows, s.id < r.id) :
    (db.insert r).usage.rows = db.usage.rows ++ [r] := by
  obtain ⟨t, ht, hrows⟩ := @Table.insert?_isSome _ _ db.usage r fun s hs =>
    beq_false_of_ne (Nat.ne_of_lt (h s hs))
  unfold UsageDb.insert
  rw [ht]
  exact hrows

theorem whole_created : Whole created where
  daily := rfl
  id_le _ hr := by cases hr
  valid _ hr := by cases hr
  totals := .refl _

theorem Whole.record {db db' : UsageDb} {input : UsageRecordInput} {now : Rat} {row : UsageRow} (h : Whole db)
    (hrecord : db.record input now = .ok (row, db')) : Whole db' := by
  rcases record_cases input now with ⟨e, he⟩ | ⟨r, hevent, hts, hunits, hr⟩
  · rw [he] at hrecord
    cases hrecord
  · rw [hr] at hrecord
    cases hrecord
    have hnext := nextId_eq h.id_le
    have hrows := @rows_insert db { r with id := db.nextId } fun s hs => by
      show s.id < db.nextId
      have := h.id_le s hs
      omega
    constructor
    · exact h.daily
    · intro s hs
      rw [hrows] at hs
      show s.id ≤ db.nextId
      rcases List.mem_append.1 hs with hs | hs
      · have := h.id_le s hs
        omega
      · rw [List.mem_singleton.1 hs]
    · intro s hs
      rw [hrows] at hs
      rcases List.mem_append.1 hs with hs | hs
      · exact h.valid s hs
      · rw [List.mem_singleton.1 hs]
        exact ⟨hevent, hts, hunits⟩
    · rw [hrows, List.map_append]
      exact (add_same _ _).trans (h.totals.append (.refl _))

/-- **A call keeps the ledgers together**: it is refused by both, or its row is put in both. -/
theorem Hides.record {whole db : UsageDb} (hwhole : Whole whole) (h : Hides whole db) (retentionMs : Rat)
    (input : UsageRecordInput) (now : Rat) :
    Hides (Step.after retentionMs whole (.record input now)) (Step.after retentionMs db (.record input now)) := by
  rcases record_cases input now with ⟨e, he⟩ | ⟨r, -, -, -, hr⟩
  · simp only [Step.after, he]
    exact h
  · obtain ⟨pruned, hperm, hdaily⟩ := h.rows
    have hle : ∀ s ∈ db.usage.rows, s.id ≤ db.sequence := fun s hs => by
      rw [h.sequence]
      exact hwhole.id_le s (hperm.mem_iff.2 (List.mem_append_left _ hs))
    have hnext : db.nextId = whole.nextId := by rw [nextId_eq hle, nextId_eq hwhole.id_le, h.sequence]
    have hlt : ∀ s ∈ db.usage.rows, s.id < whole.nextId := fun s hs => by
      rw [← hnext, nextId_eq hle]
      exact Nat.lt_succ_of_le (hle s hs)
    have hlt' : ∀ s ∈ whole.usage.rows, s.id < whole.nextId := fun s hs => by
      rw [nextId_eq hwhole.id_le]
      exact Nat.lt_succ_of_le (hwhole.id_le s hs)
    simp only [Step.after, hr, hnext]
    constructor
    · show db.totals.add _ = whole.totals.add _
      rw [h.totals]
    · rfl
    · rfl
    · refine ⟨pruned, ?_, hdaily⟩
      show (whole.insert _).usage.rows.Perm ((db.insert _).usage.rows ++ pruned)
      rw [rows_insert hlt', rows_insert hlt, List.append_assoc]
      exact (hperm.append_right _).trans (by rw [List.append_assoc]; exact List.perm_append_comm.append_left _)

/-- **A prune batch moves counted rows** from the raw ones to the rolled-up ones. -/
theorem pruneBatch_spec (db : UsageDb) (cutoff : Int) (limit : Nat) :
    ∃ moved, db.usage.rows.Perm ((db.pruneBatch cutoff limit).2.usage.rows ++ moved) ∧
      Same (db.pruneBatch cutoff limit).2.daily.rows (db.daily.rows ++ moved.map (·.daily)) ∧
      (∀ r ∈ moved, r.id ≤ db.watermark.getD 0) ∧ (db.pruneBatch cutoff limit).2.totals = db.totals ∧
      (db.pruneBatch cutoff limit).2.sequence = db.sequence ∧ (db.pruneBatch cutoff limit).2.watermark = db.watermark := by
  unfold pruneBatch
  simp only []
  split
  · refine ⟨[], ?_, ?_, nofun, rfl, rfl, rfl⟩
    · rw [List.append_nil]
    · rw [List.map_nil, List.append_nil]
      exact .refl _
  · refine ⟨db.usage.rows.filter fun r => ((db.batch cutoff limit).map (·.id)).contains r.id, ?_, ?_, ?_, rfl, rfl, rfl⟩
    · exact (List.filter_append_perm _ _).symm.trans List.perm_append_comm
    · exact (addAll_same _ _).trans ((Same.refl _).append (group_same _))
    · intro r hr
      obtain ⟨b, hb, hid⟩ := List.mem_map.1 (List.contains_iff_mem.1 (List.mem_filter.1 hr).2)
      have hmem := List.mem_of_mem_take hb
      rw [List.mem_insertionSort, List.mem_filter, Bool.and_eq_true, decide_eq_true_eq, decide_eq_true_eq] at hmem
      rw [← hid]
      exact hmem.2.2

/-- **A prune batch is not seen**: the rows it deletes are rolled up. -/
theorem Hides.prune {whole db : UsageDb} (h : Hides whole db) (cutoff : Int) (limit : Nat) :
    Hides whole (db.pruneBatch cutoff limit).2 := by
  obtain ⟨pruned, hperm, hdaily⟩ := h.rows
  obtain ⟨moved, hmoved, hrolled, -, htotals, hsequence, hwatermark⟩ := pruneBatch_spec db cutoff limit
  refine ⟨htotals.trans h.totals, hsequence.trans h.sequence, hwatermark.trans h.watermark, pruned ++ moved, ?_, ?_⟩
  · refine hperm.trans ((hmoved.append_right pruned).trans ?_)
    rw [List.append_assoc]
    exact List.perm_append_comm.append_left _
  · rw [List.map_append]
    exact hrolled.trans (hdaily.append (.refl _))

/-- **A history and the same history without its pruning.** -/
theorem hides_run (retentionMs : Rat) (steps : List Step) :
    Whole (runSteps retentionMs (steps.filter Step.isRecord)) ∧
      Hides (runSteps retentionMs (steps.filter Step.isRecord)) (runSteps retentionMs steps) := by
  have hrun : ∀ (steps : List Step) (whole db : UsageDb), Whole whole → Hides whole db →
      Whole ((steps.filter Step.isRecord).foldl (Step.after retentionMs) whole) ∧
        Hides ((steps.filter Step.isRecord).foldl (Step.after retentionMs) whole) (steps.foldl (Step.after retentionMs) db) := by
    intro steps
    induction steps with
    | nil => exact fun _ _ hwhole h => ⟨hwhole, h⟩
    | cons step steps ih =>
      intro whole db hwhole h
      cases step with
      | record input now =>
        refine ih _ _ ?_ (h.record hwhole retentionMs input now)
        cases hrecord : whole.record input now with
        | error e =>
          simp only [Step.after, hrecord]
          exact hwhole
        | ok result =>
          simp only [Step.after, hrecord]
          exact hwhole.record hrecord
      | prune now limit => exact ih _ _ hwhole (h.prune _ _)
  exact hrun steps _ _ whole_created ⟨rfl, rfl, rfl, [], .refl _, .refl _⟩

/-! ## What a summary adds up -/

/-- The rows of a tenant and of a kind. -/
def asked (tenantId : Text) (kind : Option Text) (r : UsageRow) : Bool := r.tenantId = tenantId && kind.all (r.kind = ·)

/-- What the buckets of a summary are grouped from. -/
def shown (db : UsageDb) (tenantId : Text) (since : Int) (kind : Option Text) : List (Amount Text Tally) :=
  (db.rawRows tenantId since kind).map (·.bucket) ++ Rollup.rekey (·.2.2) (db.daily.rows.filter fun a =>
    a.key.1 = tenantId && since / dayMs ≤ a.key.2.1 && kind.all (a.key.2.2 = ·))

theorem sumOf_eq {K : Type} (as : List (Amount K Tally)) : sumOf as = sumOn (fun _ => true) as := by
  simp only [sumOf, sumOn, if_true]

/-- Where no kind stands twice, a bucket holds what its kind adds up to. -/
theorem bucketAt_eq {as : List (Amount Text Tally)} (hnodup : (as.map (·.key)).Nodup) (kind : Text) :
    bucketAt (as.map .of) kind = sumOn (fun k => decide (k = kind)) as := by
  unfold bucketAt
  rw [List.find?_map]
  cases hfind : as.find? ((fun b : UsageBucket => decide (b.kind = kind)) ∘ UsageBucket.of) with
  | none =>
    rw [sumOn_eq_zero fun a ha => ?_]
    · rfl
    · exact eq_false_of_ne_true (List.find?_eq_none.1 hfind a ha)
  | some a =>
    have hfound : ((fun b : UsageBucket => decide (b.kind = kind)) ∘ UsageBucket.of) a = true := List.find?_some hfind
    have hkey : a.key = kind := of_decide_eq_true hfound
    rw [← hkey, sumOn_key hnodup (List.mem_of_find?_eq_some hfind)]
    rfl

variable {tenantId : Text} {since : Int} {kind : Option Text}

theorem merged_same (db : UsageDb) : Same (db.mergedBuckets tenantId since kind) (shown db tenantId since kind) := by
  have hraw : Same (db.rawBuckets tenantId since kind) ((db.rawRows tenantId since kind).map (·.bucket)) :=
    (Same.of_perm (List.perm_insertionSort _ _)).trans (group_same _)
  exact (Same.of_perm (List.perm_insertionSort _ _)).trans ((group_same _).trans (hraw.append (group_same _)))

theorem nodup_merged (db : UsageDb) : ((db.mergedBuckets tenantId since kind).map (·.key)).Nodup :=
  (((List.perm_insertionSort _ _).map _).nodup_iff).2 (nodup_keys _)

theorem summaryOf_sum (db : UsageDb) :
    (⟨(db.summaryOf tenantId since kind).events, (db.summaryOf tenantId since kind).units⟩ : Tally) =
      sumOn (fun _ => true) (shown db tenantId since kind) := by
  have hraw : ((db.rawRows tenantId since kind).map (·.tally)).sum =
      sumOn (fun _ => true) ((db.rawRows tenantId since kind).map (·.bucket)) := by
    rw [← sumOf_eq, sumOf, List.map_map]
    rfl
  unfold shown
  rw [sumOn_append, ← hraw, ← (group_same (Rollup.rekey _ _)).sum, ← sumOf_eq]
  rfl

/-- **A summary says what it adds up.** -/
theorem summaryOf_congr {db db' : UsageDb} (h : Same (shown db tenantId since kind) (shown db' tenantId since kind)) :
    db.summaryOf tenantId since kind = db'.summaryOf tenantId since kind := by
  have hsum := (@summaryOf_sum tenantId since kind db).trans ((h.sum _).trans (summaryOf_sum db').symm)
  have hmerged : db.mergedBuckets tenantId since kind = db'.mergedBuckets tenantId since kind :=
    eq_of_same ((merged_same db).trans (h.trans (merged_same db').symm)) (nodup_merged db) (nodup_merged db')
      (sorted_insertionSort _) (sorted_insertionSort _)
  rw [Tally.mk.injEq] at hsum
  unfold UsageDb.summaryOf at hsum ⊢
  simp only [TenantUsageSummary.mk.injEq, true_and]
  exact ⟨hsum.1, hsum.2, by rw [hmerged]⟩

/-! ## Rows that were rolled up -/

/-- The buckets of the rows that are left and of those rolled up, by the day they were rolled up to. -/
theorem shown_parts {whole db : UsageDb} (hwhole : Whole whole) (h : Hides whole db) :
    ∃ kept pruned, whole.usage.rows.Perm (kept ++ pruned) ∧
      Same (shown whole tenantId since kind) (((kept.filter fun r => asked tenantId kind r && since ≤ r.ts) ++
        pruned.filter fun r => asked tenantId kind r && since ≤ r.ts).map (·.bucket)) ∧
      Same (shown db tenantId since kind) (((kept.filter fun r => asked tenantId kind r && since ≤ r.ts) ++
        pruned.filter fun r => asked tenantId kind r && since / dayMs ≤ r.day).map (·.bucket)) := by
  obtain ⟨pruned, hperm, hdaily⟩ := h.rows
  have hraw : ∀ rows : List UsageRow, (rows.filter fun r => r.tenantId = tenantId && since ≤ r.ts && kind.all (r.kind = ·)) =
      rows.filter fun r => asked tenantId kind r && since ≤ r.ts := by
    intro rows
    refine List.filter_congr fun r _ => ?_
    unfold asked
    rw [Bool.and_assoc, Bool.and_assoc, Bool.and_comm (kind.all _)]
  refine ⟨db.usage.rows, pruned, hperm, ?_, ?_⟩
  · unfold shown UsageDb.rawRows
    rw [hwhole.daily, hraw, ← List.filter_append, Table.rows_empty]
    exact .of_perm (by simpa [Rollup.rekey] using (hperm.filter _).map _)
  · unfold shown UsageDb.rawRows
    rw [hraw, List.map_append]
    refine (Same.refl _).append ?_
    have hrolled := (hdaily.filter fun key => key.1 = tenantId && since / dayMs ≤ key.2.1 && kind.all (key.2.2 = ·)).rekey (·.2.2)
    refine hrolled.trans (.of_perm (.of_eq ?_))
    unfold Rollup.rekey
    rw [List.filter_map, List.map_map]
    have hfilter : (pruned.filter ((fun a : Amount (Text × Int × Text) Tally =>
        a.key.1 = tenantId && since / dayMs ≤ a.key.2.1 && kind.all (a.key.2.2 = ·)) ∘ UsageRow.daily)) =
        pruned.filter fun r => asked tenantId kind r && since / dayMs ≤ r.day := by
      refine List.filter_congr fun r _ => ?_
      show (decide (r.tenantId = tenantId) && decide (since / dayMs ≤ r.day) && kind.all (r.kind = ·)) = _
      unfold asked
      rw [Bool.and_assoc, Bool.and_assoc, Bool.and_comm (kind.all _)]
    rw [hfilter]
    rfl

theorem day_eq {r : UsageRow} (h : 0 ≤ r.ts) : r.day = r.ts / dayMs := Int.tdiv_eq_ediv_of_nonneg h

/-- A day is asked for when an event of it is. -/
theorem day_of_since {r : UsageRow} (h : 0 ≤ r.ts) (hsince : since ≤ r.ts) : since / dayMs ≤ r.day := by
  rw [day_eq h]
  exact Int.ediv_le_ediv (by decide) hsince

theorem since_of_day {r : UsageRow} {days : Int} (h : 0 ≤ r.ts) (hday : days * dayMs / dayMs ≤ r.day) : days * dayMs ≤ r.ts := by
  rw [day_eq h, Int.mul_ediv_cancel _ (by decide)] at hday
  exact (Int.le_ediv_iff_mul_le (by decide)).1 hday

/-- **From a UTC day on, nothing is seen of the pruning.** -/
theorem shown_day {whole db : UsageDb} (hwhole : Whole whole) (h : Hides whole db) (days : Int) :
    Same (shown db tenantId (days * dayMs) kind) (shown whole tenantId (days * dayMs) kind) := by
  obtain ⟨kept, pruned, hperm, hshown, hrolled⟩ := @shown_parts tenantId (days * dayMs) kind _ _ hwhole h
  refine hrolled.trans (.trans (.of_perm (.of_eq ?_)) hshown.symm)
  have hfilter : (pruned.filter fun r => asked tenantId kind r && days * dayMs / dayMs ≤ r.day) =
      pruned.filter fun r => asked tenantId kind r && days * dayMs ≤ r.ts := by
    refine List.filter_congr fun r hr => ?_
    have hts := (hwhole.valid r (hperm.mem_iff.2 (List.mem_append_right _ hr))).2.1
    rw [decide_eq_decide.2 ⟨since_of_day hts, day_of_since hts⟩]
  rw [hfilter]

/-! ## A part of a day -/

@[simp] theorem events_add (a b : Tally) : (a + b).events = a.events + b.events := rfl

@[simp] theorem units_add (a b : Tally) : (a + b).units = a.units + b.units := rfl

@[simp] theorem events_zero : (0 : Tally).events = 0 := rfl

@[simp] theorem units_zero : (0 : Tally).units = 0 := rfl

theorem tally_le {a b : Tally} : a ≤ b ↔ a.events ≤ b.events ∧ a.units ≤ b.units := Iff.rfl

/-- Rows of one kind or another add up to no more than both kinds. -/
theorem sumOn_filter_le {rows : List UsageRow} {f g d : UsageRow → Bool} (p : Text → Bool) (hunits : ∀ r ∈ rows, 0 ≤ r.units)
    (h : ∀ r ∈ rows, g r = true → f r = true ∨ d r = true) :
    sumOn p ((rows.filter g).map (·.bucket)) ≤
      sumOn p ((rows.filter f).map (·.bucket)) + sumOn p ((rows.filter d).map (·.bucket)) := by
  induction rows with
  | nil => exact ⟨le_refl _, le_refl _⟩
  | cons r rows ih =>
    obtain ⟨hr, hrest⟩ := List.forall_mem_cons.1 h
    obtain ⟨hunit, hunits⟩ := List.forall_mem_cons.1 hunits
    have ih := tally_le.1 (ih hunits hrest)
    have hcons : ∀ q : UsageRow → Bool, sumOn p (((r :: rows).filter q).map (·.bucket)) =
        (if q r = true then if p r.kind then r.tally else 0 else 0) + sumOn p ((rows.filter q).map (·.bucket)) := by
      intro q
      rw [List.filter_cons]
      split
      · rw [List.map_cons, sumOn_cons]
        rfl
      · rw [zero_add]
    rw [tally_le, hcons, hcons, hcons]
    simp only [events_add, units_add] at ih ⊢
    have hadd : ∀ q : UsageRow → Bool, 0 ≤ (if q r = true then if p r.kind then r.tally else 0 else (0 : Tally)).events ∧
        0 ≤ (if q r = true then if p r.kind then r.tally else 0 else (0 : Tally)).units := by
      intro q
      split <;> [split; skip]
      · exact ⟨show (0 : Int) ≤ 1 by omega, hunit⟩
      · exact ⟨le_refl _, le_refl _⟩
      · exact ⟨le_refl _, le_refl _⟩
    have hf := hadd f
    have hd := hadd d
    by_cases hg : g r = true
    · rcases hr hg with hf' | hd'
      · rw [if_pos hg, if_pos hf']
        omega
      · rw [if_pos hg, if_pos hd']
        omega
    · rw [if_neg hg]
      simp only [events_zero, units_zero]
      omega

theorem add_le_add_tally {a b c d : Tally} (h : a ≤ b) (h' : c ≤ d) : a + c ≤ b + d :=
  ⟨add_le_add h.1 h'.1, add_le_add h.2 h'.2⟩

/-- **Within a day, pruning adds no more than the events of that day.** -/
theorem shown_within {whole db : UsageDb} (hwhole : Whole whole) (h : Hides whole db) (p : Text → Bool) :
    sumOn p (shown whole tenantId since kind) ≤ sumOn p (shown db tenantId since kind) ∧
      sumOn p (shown db tenantId since kind) ≤
        sumOn p (shown whole tenantId since kind) + dayTally whole tenantId (since / dayMs) p := by
  obtain ⟨kept, pruned, hperm, hshown, hrolled⟩ := @shown_parts tenantId since kind _ _ hwhole h
  have hvalid : ∀ r, r ∈ kept ∨ r ∈ pruned → 0 ≤ r.ts ∧ 0 ≤ r.units := fun r hr =>
    (hwhole.valid r (hperm.mem_iff.2 (List.mem_append.2 hr))).2
  rw [hshown.sum, hrolled.sum, List.map_append, List.map_append, sumOn_append, sumOn_append]
  constructor
  · refine add_le_add_tally ⟨le_refl _, le_refl _⟩ ?_
    -- what lies after `since` lies on its day or after it
    have hle := @sumOn_filter_le pruned (fun r => asked tenantId kind r && since / dayMs ≤ r.day)
      (fun r => asked tenantId kind r && since ≤ r.ts) (fun _ => false) p (fun r hr => (hvalid r (.inr hr)).2) fun r hr hg => by
        rw [Bool.and_eq_true, decide_eq_true_eq] at hg ⊢
        exact .inl ⟨hg.1, day_of_since (hvalid r (.inr hr)).1 hg.2⟩
    rwa [List.filter_false, List.map_nil, sumOn_nil, add_zero] at hle
  · have hday : dayTally whole tenantId (since / dayMs) p =
        sumOn p ((kept.filter fun r => r.tenantId = tenantId && r.day = since / dayMs).map (·.bucket)) +
        sumOn p ((pruned.filter fun r => r.tenantId = tenantId && r.day = since / dayMs).map (·.bucket)) := by
      rw [← sumOn_append, ← List.map_append, ← List.filter_append]
      exact sumOn_perm ((hperm.filter _).map _) p
    rw [hday, add_add_add_comm]
    refine add_le_add_tally ?_ ?_
    · exact sumOn_filter_le p (fun r hr => (hvalid r (.inl hr)).2) fun r _ hg => .inl hg
    · refine sumOn_filter_le p (fun r hr => (hvalid r (.inr hr)).2) fun r hr hg => ?_
      -- a row that is on the day of `since` or later, and before `since`, is of that day
      have hts := (hvalid r (.inr hr)).1
      rw [Bool.and_eq_true, decide_eq_true_eq] at hg
      by_cases hsince : since ≤ r.ts
      · exact .inl (by rw [hg.1, decide_eq_true hsince]; rfl)
      · have hsame : r.day = since / dayMs := by
          rw [day_eq hts] at hg ⊢
          exact le_antisymm (Int.ediv_le_ediv (by decide) (by omega)) hg.2
        have htenant : (r.tenantId = tenantId && kind.all (r.kind = ·)) = true := hg.1
        rw [Bool.and_eq_true] at htenant
        exact .inr (by rw [htenant.1, decide_eq_true hsame]; rfl)

/-! ## The running totals -/

/-- **The running totals are what the rows add up to**, bucket by bucket. -/
theorem totalSummary_eq {whole db : UsageDb} (hwhole : Whole whole) (h : Hides whole db) (tenantId : Text) :
    db.totalSummary tenantId = db.summaryOf tenantId 0 none := by
  have hshown : Same (Rollup.rekey (·.2) (db.totals.rows.filter fun a => a.key.1 = tenantId)) (shown whole tenantId 0 none) := by
    rw [h.totals]
    refine ((hwhole.totals.filter fun key => key.1 = tenantId).rekey (·.2)).trans (.of_perm (.of_eq ?_))
    unfold shown UsageDb.rawRows Rollup.rekey
    rw [hwhole.daily, Table.rows_empty, List.filter_nil, List.map_nil, List.append_nil, List.filter_map, List.map_map]
    have hfilter : (whole.usage.rows.filter ((fun a : Amount (Text × Text) Tally => a.key.1 = tenantId) ∘ UsageRow.total)) =
        whole.usage.rows.filter fun r => r.tenantId = tenantId && 0 ≤ r.ts && Option.all (r.kind = ·) none := by
      refine List.filter_congr fun r hr => ?_
      rw [decide_eq_true (hwhole.valid r hr).2.1, Bool.and_true, Option.all_none, Bool.and_true]
      rfl
    rw [hfilter]
    rfl
  have hday := @shown_day tenantId none _ _ hwhole h 0
  rw [zero_mul] at hday
  have hsame : Same (db.totalBuckets tenantId) (db.mergedBuckets tenantId 0 none) :=
    (Same.of_perm (List.perm_insertionSort _ _)).trans (hshown.trans (hday.symm.trans (merged_same db).symm))
  -- the kinds are event kinds, which both orders sort alike
  have hascii : ∀ a ∈ Rollup.rekey (·.2) (db.totals.rows.filter fun a => a.key.1 = tenantId), ∀ c ∈ a.key, c.toNat < 0xd800 := by
    intro a ha
    obtain ⟨b, hb, hkey⟩ := (hshown.keys a.key).1 ⟨a, ha, rfl⟩
    unfold shown at hb
    rw [hwhole.daily] at hb
    simp only [Table.rows_empty, List.filter_nil, Rollup.rekey, List.map_nil, List.append_nil] at hb
    obtain ⟨r, hr, rfl⟩ := List.mem_map.1 hb
    rw [← hkey]
    exact isEventKind_ascii (hwhole.valid r (List.mem_of_mem_filter hr)).1
  have hnodup : ((db.totalBuckets tenantId).map (·.key)).Nodup := by
    refine (((List.perm_insertionSort _ _).map _).nodup_iff).2 ?_
    unfold Rollup.rekey
    rw [List.map_map]
    refine List.Nodup.map_on (fun a ha b hb hkey => ?_) ((List.Nodup.of_map _ (nodup_keys db.totals)).filter _)
    refine List.inj_on_of_nodup_map (nodup_keys db.totals) (List.mem_of_mem_filter ha) (List.mem_of_mem_filter hb) ?_
    have htenant := fun c (hc : c ∈ db.totals.rows.filter fun a => a.key.1 = tenantId) => of_decide_eq_true (List.mem_filter.1 hc).2
    exact Prod.ext ((htenant a ha).trans (htenant b hb).symm) hkey
  have hbuckets : db.totalBuckets tenantId = db.mergedBuckets tenantId 0 none := by
    refine eq_of_same hsame hnodup (nodup_merged db) ?_ (sorted_insertionSort _)
    have hsort : db.totalBuckets tenantId =
        (Rollup.rekey (·.2) (db.totals.rows.filter fun a => a.key.1 = tenantId)).insertionSort fun a b => le a.key b.key :=
      insertionSort_congr fun a ha b hb => codeLe_eq (hascii a ha) (hascii b hb)
    rw [hsort]
    exact sorted_insertionSort _
  have hsum := (@summaryOf_sum tenantId 0 none db).trans ((hsame.trans (merged_same db)).sum _).symm
  rw [← sumOf_eq] at hsum
  unfold UsageDb.totalSummary
  simp only []
  rw [← hsum, hbuckets]
  rfl

/-! ## Answers -/

/-- A query is refused by every ledger, or asks every ledger the same. -/
theorem summary_cases (tenantId : Text) (since : Option Rat) (kind : Option Text) :
    (∃ e, ∀ db : UsageDb, db.summary tenantId since kind = .error e) ∨
    ∃ tenant start kind', normalizeTimestamp (since.getD 0) = .ok start ∧ ∀ db : UsageDb, db.summary tenantId since kind =
      .ok (if kind' = none ∧ start = 0 then db.totalSummary tenant else db.summaryOf tenant start kind') := by
  unfold UsageDb.summary
  cases normalizeTenantId tenantId with
  | error e => exact .inl ⟨e, fun _ => rfl⟩
  | ok tenant =>
    cases normalizeTimestamp (since.getD 0) with
    | error e => exact .inl ⟨e, fun _ => rfl⟩
    | ok start =>
      cases kind.filter (· ≠ []) with
      | none =>
        refine .inr ⟨tenant, start, none, rfl, fun db => ?_⟩
        by_cases hstart : (none : Option Text) = none ∧ start = 0
        · rw [if_pos hstart]
          exact if_pos hstart
        · rw [if_neg hstart]
          exact if_neg hstart
      | some kind =>
        cases hkind : normalizeKind kind with
        | error e =>
          refine .inl ⟨e, fun _ => ?_⟩
          simp only [hkind]
          rfl
        | ok kind =>
          refine .inr ⟨tenant, start, some kind, rfl, fun db => ?_⟩
          have hfast : ¬(some kind = none ∧ start = 0) := fun h => Option.some_ne_none _ h.1
          simp only [hkind]
          rw [if_neg hfast]
          exact @if_neg _ _ hfast _ (.ok (db.totalSummary tenant)) _

theorem hides_refl {whole : UsageDb} (hwhole : Whole whole) : Hides whole whole := by
  refine ⟨rfl, rfl, rfl, [], ?_, ?_⟩
  · rw [List.append_nil]
  · rw [hwhole.daily]
    exact .refl _

/-- The fast path answers as the slow one would. -/
theorem summary_slow {whole db : UsageDb} (hwhole : Whole whole) (h : Hides whole db) :
    (if kind = none ∧ since = 0 then db.totalSummary tenantId else db.summaryOf tenantId since kind) =
      db.summaryOf tenantId since kind := by
  split
  · next hfast => rw [hfast.1, hfast.2, totalSummary_eq hwhole h]
  · rfl

theorem summary_day {whole db : UsageDb} (hwhole : Whole whole) (h : Hides whole db) (tenantId : Text) (days : Int)
    (kind : Option Text) : db.summary tenantId (some (days * dayMs)) kind = whole.summary tenantId (some (days * dayMs)) kind := by
  rcases summary_cases tenantId (some ((days : Rat) * dayMs)) kind with ⟨e, he⟩ | ⟨tenant, start, kind', hstart, hok⟩
  · rw [he, he]
  · have hday : start = days * dayMs := by
      rw [Option.getD_some] at hstart
      unfold normalizeTimestamp at hstart
      split at hstart
      · cases hstart
      · rw [← Int.cast_mul, Int.floor_intCast] at hstart
        exact (Except.ok.inj hstart).symm
    rw [hok, hok, summary_slow hwhole h, summary_slow hwhole (hides_refl hwhole), hday,
      summaryOf_congr (shown_day hwhole h days)]

theorem checkQuota_eq {whole db : UsageDb} (h : Hides whole db) (tenantId : Text) (quota : Option Rat) (units : Rat) :
    db.checkQuota tenantId quota units = whole.checkQuota tenantId quota units := by
  unfold UsageDb.checkQuota UsageDb.totalUnits
  rw [h.totals]

theorem summary_within {whole db : UsageDb} (hwhole : Whole whole) (h : Hides whole db) (tenantId : Text)
    (since : Option Rat) (kind : Option Text) :
    Within whole (whole.summary tenantId since kind) (db.summary tenantId since kind) := by
  rcases summary_cases tenantId since kind with ⟨e, he⟩ | ⟨tenant, start, kind', -, hok⟩
  · rw [he, he]
    exact rfl
  · rw [hok, hok, summary_slow hwhole h, summary_slow hwhole (hides_refl hwhole)]
    have hwithin := fun p => @shown_within tenant start kind' _ _ hwhole h p
    refine ⟨rfl, rfl, ?_, ?_, fun kind => ?_⟩
    · rw [summaryOf_sum, summaryOf_sum]
      exact (hwithin _).1
    · rw [summaryOf_sum, summaryOf_sum]
      exact (hwithin _).2
    · have hbucket : ∀ db : UsageDb, bucketAt (db.summaryOf tenant start kind').byKind kind =
          sumOn (fun k => decide (k = kind)) (shown db tenant start kind') := fun db =>
        (bucketAt_eq (nodup_merged db) kind).trans ((merged_same db).sum _)
      rw [hbucket, hbucket]
      exact hwithin _

/-- **Retention does not change what a tenant is told**: from a UTC day on, and of its quota, a tenant is told what it
is told without any pruning; from within a day on, at most the events of that day more. The all-time summary is what
the raw and the rolled-up rows add up to. -/
theorem pruning_invisible (retentionMs : Rat) (steps : List Step) :
    let db := runSteps retentionMs steps
    let whole := runSteps retentionMs (steps.filter Step.isRecord)
    (∀ (tenantId : Text) (days : Int) (kind : Option Text),
      db.summary tenantId (some (days * dayMs)) kind = whole.summary tenantId (some (days * dayMs)) kind) ∧
    (∀ (tenantId : Text) (kind : Option Text), db.summary tenantId none kind = whole.summary tenantId none kind) ∧
    (∀ (tenantId : Text) (quota : Option Rat) (units : Rat),
      db.checkQuota tenantId quota units = whole.checkQuota tenantId quota units) ∧
    (∀ (tenantId : Text) (since : Option Rat) (kind : Option Text),
      Within whole (whole.summary tenantId since kind) (db.summary tenantId since kind)) ∧
    ∀ tenantId : Text, db.totalSummary tenantId = db.summaryOf tenantId 0 none := by
  intro db whole
  obtain ⟨hwhole, h⟩ := hides_run retentionMs steps
  refine ⟨summary_day hwhole h, fun tenantId kind => ?_, checkQuota_eq h, summary_within hwhole h, totalSummary_eq hwhole h⟩
  have hzero := summary_day hwhole h tenantId 0 kind
  rw [Int.cast_zero, zero_mul] at hzero
  exact hzero

end Zenod.Usage
