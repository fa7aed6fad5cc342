/-
Acknowledgements of custody are true.

`in_custody`: whenever a capture or a store has returned, its one entry is on
the published branch, no call has two there, and captures of one source id
leave one entry, provided that what a capture finds under its source id is
committed, that source ids and filed lines are one line, that no page of a
classification is a day of the log, and that the publication of an uncertain
filing does not fail behind its commit.
-/
import Zenod.Custody.Ledger
import Zenod.Engine.EntryWalk
import Zenod.Lib.Course

namespace Zenod.Custody

open Text Evidence
open Engine (Host)

/-! ## What is promised -/

structure Key where
  source : Surface
  contentType : MemoryContentType
  sourceId : Text
deriving DecidableEq

def Key.Of (key : Key) (e : MemoryEntry) : Prop :=
  e.source = key.source ∧ e.contentType = some key.contentType ∧ e.sourceId = some key.sourceId

/-- Source, content type and source id of a capture that has all three. -/
def Op.key : Op → Option Key
  | .capture call =>
    match call.input.contentType, truthy call.input.sourceId with
    | some contentType, some sourceId => some ⟨call.input.source, contentType, sourceId⟩
    | _, _ => none
  | .store _ => none

/-- How many of some entries stand under one of the references. -/
def countUnder (refs : List Text) (entries : Multiset MemoryEntry) : Nat := entries.countP (·.evidenceRef ∈ refs)

/-- The references of the captures with this key. -/
def World.refsUnder (w : World) (key : Key) : List Text :=
  (w.calls.filter (·.op.key = some key)).flatMap (refsOf ·.appended)

/-- The entry that was appended for a call is published, or the earlier one that a capture has found. -/
inductive Acknowledged (published : Multiset MemoryEntry) (call : Call) (ref : Text) : Prop
  | appended (e : MemoryEntry) (one : countUnder (refsOf call.appended) published = 1) (mem : e ∈ published)
    (own : ref ∈ refsOf call.appended) (named : e.evidenceRef = ref) (content : e.content = trimEnd call.op.input.content)
  | earlier (capture : CaptureCall) (op : call.op = .capture capture) (e : MemoryEntry) (mem : e ∈ published)
    (named : e.evidenceRef = ref) (found : capture.input.matches e = true)

structure InCustody (w : World) : Prop where
  acknowledged : ∀ call ∈ w.calls, ∀ ref, call.returned = some ref → Acknowledged w.repo.inPublished call ref
  once : ∀ call ∈ w.calls, countUnder (refsOf call.appended) w.repo.inPublished ≤ 1
  single : ∀ key, countUnder (w.refsUnder key) w.repo.inPublished ≤ 1
  /-- A repeated capture that has returned leaves its one entry, unless others have left one under its key. -/
  repeated : ∀ key, ∀ call ∈ w.calls, call.op.key = some key → call.returned ≠ none →
    countUnder (w.refsUnder key) w.repo.inPublished = 1 ∨
      ∃ e ∈ w.repo.inPublished, key.Of e ∧ e.evidenceRef ∉ w.refsUnder key

/-! ## What a call meets -/

/-- The references that the call draws are new. -/
def Fresh (w : World) (op : Op) : Prop :=
  op.refs.Nodup ∧ ∀ ref ∈ op.refs, (∀ call ∈ w.calls, ref ∉ refsOf call.appended) ∧
    ∀ e ∈ w.repo.entries w.repo.work, e.evidenceRef ≠ ref

def Meets (env : Surroundings) (w : World) (op : Op) : Prop :=
  Fresh w op ∧
    match op with
    | .capture call =>
      (∀ id ∈ truthy call.input.sourceId, singleLine id = id) ∧
        (w.repo.interrupted = false → ∀ e ∈ w.repo.entries w.repo.work, call.input.matches e = true →
          e ∈ w.repo.entries w.repo.head)
    | .store call =>
      (∀ t ∈ call.placing.targets ++ call.placingAgain.targets, SingleLine t) ∧
        ∀ c ∈ call.classification, c.Fits env call.publication

instance (w : World) (op : Op) : Decidable (Fresh w op) := by
  unfold Fresh
  infer_instance

instance (env : Surroundings) (w : World) (op : Op) : Decidable (Meets env w op) := by
  cases op <;> simp only [Meets] <;> infer_instance

/-! ## Calls of a run -/

variable {env : Surroundings} {l : Ledger} {w : World} {op : Op}

theorem run_effect (h : w.repo.ledger.Sound) (hmeets : Meets env w op) :
    Effect w.repo.ledger (op.run env w.repo) := by
  cases op with
  | capture call => exact captureEvidence_effect h
  | store call => exact store_effect h hmeets.2.1 hmeets.2.2

/-- What a capture with all three of a key's parts appends has that key, and it takes what has the key for its own. -/
theorem key_of_capture {call : CaptureCall} {key : Key} (hkey : (Op.capture call).key = some key)
    (hline : ∀ id ∈ truthy call.input.sourceId, singleLine id = id) :
    (∀ verbatim, key.Of (call.input.capture verbatim call.draw).memoryEntry) ∧
      ∀ e, key.Of e ↔ call.input.matches e = true := by
  unfold Op.key at hkey
  dsimp only at hkey
  split at hkey
  next contentType sourceId hcontentType hsourceId =>
    obtain rfl := Option.some.inj hkey
    have hne : sourceId ≠ [] := by simpa using (Option.filter_eq_some_iff.mp hsourceId).2
    have htruthy : truthy (some sourceId) = some sourceId := Option.filter_some_pos (by simpa using hne)
    refine ⟨fun verbatim => ⟨rfl, hcontentType, ?_⟩, fun e => ?_⟩
    · simp only [Capture.memoryEntry, StoreInput.capture, hsourceId, htruthy, Option.bind_some, hline sourceId hsourceId]
    · simp only [Key.Of, StoreInput.matches, hcontentType, hsourceId, Option.all_some, Option.any_some, Bool.and_eq_true,
        decide_eq_true_eq, and_assoc]
  next => cases hkey

/-! ## Counting under references -/

theorem countUnder_mono {refs : List Text} {entries entries' : Multiset MemoryEntry} (h : entries ≤ entries') :
    countUnder refs entries ≤ countUnder refs entries' :=
  Multiset.countP_le_of_le _ h

theorem countUnder_eq_zero {refs : List Text} {entries : Multiset MemoryEntry}
    (h : ∀ e ∈ entries, e.evidenceRef ∉ refs) : countUnder refs entries = 0 :=
  Multiset.countP_eq_zero.mpr h

theorem countUnder_pos {refs : List Text} {entries : Multiset MemoryEntry} {e : MemoryEntry} (h : e ∈ entries)
    (href : e.evidenceRef ∈ refs) : 0 < countUnder refs entries :=
  Multiset.countP_pos.mpr ⟨e, h, href⟩

/-- Under references that are not those of the call there is no more than before. -/
theorem Effect.others {o : Outcome} {refs : List Text} (h : Effect l o)
    (hrefs : ∀ c ∈ o.appended, c.memoryEntry.evidenceRef ∉ refs) :
    countUnder refs o.repo.inWork ≤ countUnder refs l.work := by
  obtain ⟨base, hbase, hwork | ⟨c, hc, hwork⟩⟩ := h.work
  · exact (congrArg (countUnder refs) hwork).le.trans (countUnder_mono hbase)
  · refine le_trans (congrArg (countUnder refs) hwork).le ?_
    have hnone : countUnder refs {c.memoryEntry} = 0 := by
      refine countUnder_eq_zero fun e he => ?_
      rw [Multiset.mem_singleton.mp he]
      exact hrefs c hc
    have hadd : countUnder refs (base + {c.memoryEntry}) = countUnder refs base + countUnder refs {c.memoryEntry} :=
      Multiset.countP_add _ _ _
    have hmono : countUnder refs base ≤ countUnder refs l.work := countUnder_mono hbase
    omega

/-- Under references that no entry had there is at most one. -/
theorem Effect.first {o : Outcome} {refs : List Text} (h : Effect l o) (hrefs : ∀ e ∈ l.work, e.evidenceRef ∉ refs) :
    countUnder refs o.repo.inWork ≤ 1 := by
  obtain ⟨base, hbase, hwork | ⟨c, hc, hwork⟩⟩ := h.work
  · refine le_trans (congrArg (countUnder refs) hwork).le ?_
    rw [countUnder_eq_zero fun e he => hrefs e (Multiset.mem_of_le hbase he)]
    exact Nat.zero_le _
  · refine le_trans (congrArg (countUnder refs) hwork).le ?_
    have hone : countUnder refs {c.memoryEntry} ≤ 1 := (Multiset.countP_le_card _ _).trans (by simp)
    have hadd : countUnder refs (base + {c.memoryEntry}) = countUnder refs base + countUnder refs {c.memoryEntry} :=
      Multiset.countP_add _ _ _
    have hzero : countUnder refs base = 0 := countUnder_eq_zero fun e he => hrefs e (Multiset.mem_of_le hbase he)
    omega

/-- An entry of the working tree was there before, or is one that the call appends. -/
theorem Effect.mem {o : Outcome} {e : MemoryEntry} (h : Effect l o) (he : e ∈ o.repo.inWork) :
    e ∈ l.work ∨ ∃ c ∈ o.appended, e = c.memoryEntry := by
  replace he : e ∈ o.repo.ledger.work := he
  obtain ⟨base, hbase, hwork | ⟨c, hc, hwork⟩⟩ := h.work
  · rw [hwork] at he
    exact .inl (Multiset.mem_of_le hbase he)
  · rw [hwork] at he
    rcases Multiset.mem_add.mp he with he | he
    · exact .inl (Multiset.mem_of_le hbase he)
    · exact .inr ⟨c, hc, Multiset.mem_singleton.mp he⟩

/-! ## The invariant -/

structure Sound (w : World) : Prop where
  ledger : w.repo.ledger.Sound
  origin : ∀ call ∈ w.calls, ∀ c ∈ call.appended, ∀ e ∈ w.repo.inWork, e.evidenceRef = c.memoryEntry.evidenceRef →
    e = c.memoryEntry
  keyed : ∀ call ∈ w.calls, ∀ key, call.op.key = some key → ∀ c ∈ call.appended, key.Of c.memoryEntry
  once : ∀ call ∈ w.calls, countUnder (refsOf call.appended) w.repo.inWork ≤ 1
  single : ∀ key, countUnder (w.refsUnder key) w.repo.inWork ≤ 1
  acknowledged : ∀ call ∈ w.calls, ∀ ref, call.returned = some ref → Acknowledged w.repo.inPublished call ref
  repeated : ∀ key, ∀ call ∈ w.calls, call.op.key = some key → call.returned ≠ none →
    0 < countUnder (w.refsUnder key) w.repo.inPublished ∨
      ∃ e ∈ w.repo.inPublished, key.Of e ∧ e.evidenceRef ∉ w.refsUnder key

theorem Ledger.Sound.published_work (h : l.Sound) : l.published ≤ l.work := h.published_le.trans h.head_le

theorem mem_refsUnder {key : Key} {ref : Text} : ref ∈ w.refsUnder key ↔
    ∃ call ∈ w.calls, call.op.key = some key ∧ ref ∈ refsOf call.appended := by
  simp [World.refsUnder, and_assoc]

theorem refsUnder_exec (key : Key) : (exec env w op).refsUnder key =
    w.refsUnder key ++ if op.key = some key then refsOf (op.run env w.repo).appended else [] := by
  simp only [World.refsUnder, exec, List.filter_append, List.flatMap_append]
  split
  next h => simp [h]
  next h => simp [h]

/-- The references of the call are drawn for it, so they are new. -/
theorem Fresh.appended (h : Fresh w op) {ref : Text} (href : ref ∈ refsOf (op.run env w.repo).appended) :
    (∀ call ∈ w.calls, ref ∉ refsOf call.appended) ∧ ∀ e ∈ w.repo.inWork, e.evidenceRef ≠ ref := by
  obtain ⟨hcalls, hentries⟩ := h.2 ref ((run_own op).1.subset href)
  exact ⟨hcalls, fun e he => hentries e (Multiset.mem_coe.mp he)⟩

theorem mem_refsOf {c : Capture} {appended : List Capture} (h : c ∈ appended) : c.memoryEntry.evidenceRef ∈ refsOf appended :=
  List.mem_map_of_mem h

/-- An entry of the working tree that stands under the key of captures has that key. -/
theorem Sound.keyOf (h : Sound w) {key : Key} {e : MemoryEntry} (he : e ∈ w.repo.inWork)
    (href : e.evidenceRef ∈ w.refsUnder key) : key.Of e := by
  obtain ⟨call, hcall, hkey, href⟩ := mem_refsUnder.mp href
  obtain ⟨c, hc, heq⟩ := List.mem_map.mp href
  rw [h.origin call hcall c hc e he heq.symm]
  exact h.keyed call hcall key hkey c hc

/-- What a capture acknowledges without an append is published. -/
theorem found_published (h : w.repo.ledger.Sound) {call : CaptureCall} (hmeets : Meets env w (.capture call)) {ref : Text}
    (happended : (captureEvidence env w.repo call).appended = [])
    (hreturned : (captureEvidence env w.repo call).returned = some ref) :
    ∃ e ∈ (captureEvidence env w.repo call).repo.inPublished, e.evidenceRef = ref ∧ call.input.matches e = true := by
  obtain ⟨hready, e, he, href, hmatches⟩ := captureEvidence_found happended hreturned
  have hhead : e ∈ w.repo.inHead := Multiset.mem_coe.mpr (hmeets.2.2 hready e he hmatches)
  have hpublished : e ∈ w.repo.inPublished := by
    rw [show w.repo.inPublished = w.repo.inHead from h.level (not_ahead hready)]
    exact hhead
  exact ⟨e, Multiset.mem_of_le (captureEvidence_effect h).kept hpublished, href, hmatches⟩

/-- Entries that were acknowledged stay so. -/
theorem Acknowledged.mono {published published' : Multiset MemoryEntry} {call : Call} {ref : Text}
    (h : Acknowledged published call ref) (hle : published ≤ published')
    (honce : countUnder (refsOf call.appended) published' ≤ 1) : Acknowledged published' call ref := by
  cases h with
  | appended e one mem own named content =>
    have hmono : countUnder (refsOf call.appended) published ≤ _ := countUnder_mono hle
    exact .appended e (by omega) (Multiset.mem_of_le hle mem) own named content
  | earlier capture op e mem named found => exact .earlier capture op e (Multiset.mem_of_le hle mem) named found

/-- The references of the call are those of no entry that was there, and of no earlier call. -/
theorem Sound.once_exec (h : Sound w) (hmeets : Meets env w op) :
    ∀ call ∈ (exec env w op).calls, countUnder (refsOf call.appended) (exec env w op).repo.inWork ≤ 1 := by
  have heffect := run_effect h.ledger hmeets
  intro call hcall
  rcases List.mem_append.mp hcall with hcall | hcall
  · refine (heffect.others fun c hc hmem => ?_).trans (h.once call hcall)
    exact (hmeets.1.appended (mem_refsOf hc)).1 call hcall hmem
  · obtain rfl := List.mem_singleton.mp hcall
    exact heffect.first fun e he hmem => (hmeets.1.appended hmem).2 e he rfl

theorem Sound.single_exec (h : Sound w) (hmeets : Meets env w op) (key : Key) :
    countUnder ((exec env w op).refsUnder key) (exec env w op).repo.inWork ≤ 1 := by
  have heffect := run_effect h.ledger hmeets
  have hothers : ∀ c ∈ (op.run env w.repo).appended, c.memoryEntry.evidenceRef ∉ w.refsUnder key := by
    intro c hc hmem
    obtain ⟨call, hcall, -, href⟩ := mem_refsUnder.mp hmem
    exact (hmeets.1.appended (mem_refsOf hc)).1 call hcall href
  rw [refsUnder_exec]
  split
  next hkey =>
    by_cases hnone : (op.run env w.repo).appended = []
    · rw [hnone, show refsOf [] = [] from rfl, List.append_nil]
      exact (heffect.others hothers).trans (h.single key)
    · -- The capture has found no entry with its key, so none stands under it.
      cases op with
      | store call => cases hkey
      | capture call =>
        have hnew : ∀ e ∈ w.repo.entries w.repo.work, call.input.matches e = false := captureEvidence_new hnone
        refine heffect.first fun e he hmem => ?_
        rcases List.mem_append.mp hmem with hmem | hmem
        · have hmatches := ((key_of_capture hkey hmeets.2.1).2 e).mp (h.keyOf he hmem)
          rw [hnew e (Multiset.mem_coe.mp he)] at hmatches
          cases hmatches
        · exact (hmeets.1.appended hmem).2 e he rfl
  next =>
    rw [List.append_nil]
    exact (heffect.others hothers).trans (h.single key)

theorem Sound.origin_exec (h : Sound w) (hmeets : Meets env w op) :
    ∀ call ∈ (exec env w op).calls, ∀ c ∈ call.appended, ∀ e ∈ (exec env w op).repo.inWork,
      e.evidenceRef = c.memoryEntry.evidenceRef → e = c.memoryEntry := by
  have heffect := run_effect h.ledger hmeets
  intro call hcall c hc e he href
  rcases List.mem_append.mp hcall with hcall | hcall
  · rcases heffect.mem he with he | ⟨c', hc', rfl⟩
    · exact h.origin call hcall c hc e he href
    · exact absurd (href ▸ mem_refsOf hc) ((hmeets.1.appended (mem_refsOf hc')).1 call hcall)
  · obtain rfl := List.mem_singleton.mp hcall
    rcases heffect.mem he with he | ⟨c', hc', rfl⟩
    · exact absurd href ((hmeets.1.appended (mem_refsOf hc)).2 e he)
    · have hnodup : (refsOf (op.run env w.repo).appended).Nodup := (run_own op).1.nodup hmeets.1.1
      exact congrArg Capture.memoryEntry (List.inj_on_of_nodup_map hnodup hc' hc href)

theorem Sound.keyed_exec (h : Sound w) (hmeets : Meets env w op) :
    ∀ call ∈ (exec env w op).calls, ∀ key, call.op.key = some key → ∀ c ∈ call.appended, key.Of c.memoryEntry := by
  intro call hcall key hkey c hc
  rcases List.mem_append.mp hcall with hcall | hcall
  · exact h.keyed call hcall key hkey c hc
  · obtain rfl := List.mem_singleton.mp hcall
    cases op with
    | store call => cases hkey
    | capture call =>
      obtain ⟨verbatim, rfl⟩ : ∃ verbatim, c = call.input.capture verbatim call.draw := by
        replace hc : c ∈ (captureEvidence env w.repo call).appended := hc
        unfold captureEvidence at hc
        split at hc
        next => cases hc
        next =>
          split at hc
          next => cases hc
          next => cases hc
          next => exact ⟨_, List.mem_singleton.mp hc⟩
      exact (key_of_capture hkey hmeets.2.1).1 verbatim

theorem Sound.acknowledged_exec (h : Sound w) (hmeets : Meets env w op) :
    ∀ call ∈ (exec env w op).calls, ∀ ref, call.returned = some ref →
      Acknowledged (exec env w op).repo.inPublished call ref := by
  have heffect := run_effect h.ledger hmeets
  intro call hcall ref hreturned
  have honce := (countUnder_mono heffect.sound.published_work).trans (h.once_exec hmeets call hcall)
  rcases List.mem_append.mp hcall with hcall | hcall
  · exact (h.acknowledged call hcall ref hreturned).mono heffect.kept honce
  · obtain rfl := List.mem_singleton.mp hcall
    by_cases hnone : (op.run env w.repo).appended = []
    · cases op with
      | store call => cases (store_thrown hnone).symm.trans hreturned
      | capture call =>
        obtain ⟨e, he, href, hmatches⟩ := found_published h.ledger hmeets hnone hreturned
        exact .earlier call rfl e he href hmatches
    · obtain ⟨c, hc, rfl, hmem⟩ := heffect.returned ref hreturned hnone
      have hpos := countUnder_pos hmem (mem_refsOf hc)
      refine .appended c.memoryEntry (Nat.le_antisymm honce hpos) hmem (mem_refsOf hc) rfl ?_
      exact congrArg trimEnd ((run_own op).2 c hc)

theorem Sound.repeated_exec (h : Sound w) (hmeets : Meets env w op) (key : Key) :
    ∀ call ∈ (exec env w op).calls, call.op.key = some key → call.returned ≠ none →
      0 < countUnder ((exec env w op).refsUnder key) (exec env w op).repo.inPublished ∨
        ∃ e ∈ (exec env w op).repo.inPublished, key.Of e ∧ e.evidenceRef ∉ (exec env w op).refsUnder key := by
  have heffect := run_effect h.ledger hmeets
  -- An entry with the key that was published is under the captures' references, or under those of nobody.
  have hleft : ∀ e ∈ (exec env w op).repo.inPublished, key.Of e →
      0 < countUnder ((exec env w op).refsUnder key) (exec env w op).repo.inPublished ∨
        ∃ e ∈ (exec env w op).repo.inPublished, key.Of e ∧ e.evidenceRef ∉ (exec env w op).refsUnder key := by
    intro e he hkey
    by_cases hmem : e.evidenceRef ∈ (exec env w op).refsUnder key
    · exact .inl (countUnder_pos he hmem)
    · exact .inr ⟨e, he, hkey, hmem⟩
  intro call hcall hkey hreturned
  rcases List.mem_append.mp hcall with hcall | hcall
  · rcases h.repeated key call hcall hkey hreturned with hpos | ⟨e, he, hof, -⟩
    · obtain ⟨e, he, href⟩ := Multiset.countP_pos.mp hpos
      have hof := h.keyOf (Multiset.mem_of_le h.ledger.published_work he) href
      exact hleft e (Multiset.mem_of_le heffect.kept he) hof
    · exact hleft e (Multiset.mem_of_le heffect.kept he) hof
  · obtain rfl := List.mem_singleton.mp hcall
    cases op with
    | store call => cases hkey
    | capture call =>
      obtain ⟨ref, href⟩ := Option.ne_none_iff_exists'.mp hreturned
      by_cases hnone : (captureEvidence env w.repo call).appended = []
      · obtain ⟨e, he, -, hmatches⟩ := found_published h.ledger hmeets hnone href
        exact hleft e he (((key_of_capture hkey hmeets.2.1).2 e).mpr hmatches)
      · obtain ⟨c, hc, -, hmem⟩ := heffect.returned ref href hnone
        exact hleft c.memoryEntry hmem (h.keyed_exec hmeets _ (List.mem_append_right _ hcall) key hkey c hc)

/-- **The step lemma.** -/
theorem Sound.exec (h : Sound w) (hmeets : Meets env w op) : Sound (exec env w op) where
  ledger := (run_effect h.ledger hmeets).sound
  origin := h.origin_exec hmeets
  keyed := h.keyed_exec hmeets
  once := h.once_exec hmeets
  single := h.single_exec hmeets
  acknowledged := h.acknowledged_exec hmeets
  repeated := h.repeated_exec hmeets

theorem ledger_clone (files : Files) : (clone files).ledger.Sound := ⟨fun _ => rfl, le_rfl, le_rfl⟩

theorem sound_clone (files : Files) : Sound { repo := clone files } where
  ledger := ledger_clone files
  origin _ hcall := nomatch hcall
  keyed _ hcall := nomatch hcall
  once _ hcall := nomatch hcall
  single _ := (countUnder_eq_zero fun _ _ => List.not_mem_nil).trans_le (Nat.zero_le _)
  acknowledged _ hcall := nomatch hcall
  repeated _ _ hcall := nomatch hcall

/-- What is true of the working tree is true of what is published of it. -/
theorem Sound.inCustody (h : Sound w) : InCustody w where
  acknowledged := h.acknowledged
  once call hcall := (countUnder_mono h.ledger.published_work).trans (h.once call hcall)
  single key := (countUnder_mono h.ledger.published_work).trans (h.single key)
  repeated key call hcall hkey hreturned := by
    have hle : countUnder (w.refsUnder key) _ ≤ 1 := (countUnder_mono h.ledger.published_work).trans (h.single key)
    rcases h.repeated key call hcall hkey hreturned with hpos | hother
    · exact .inl (Nat.le_antisymm hle hpos)
    · exact .inr hother

/-- **Acknowledgements of custody are true**, in every run from a fresh clone whose
calls find under their source ids what is committed, write lines that are one
line and pages that are pages, and publish an uncertain filing whole. -/
theorem in_custody (env : Surroundings) (files : Files) (ops : List Op)
    (hops : Along (exec env) (Meets env) ops { repo := clone files }) : InCustody (run env files ops) :=
  (hops.invariant (fun _ _ hmeets h => h.exec hmeets) (sound_clone files)).inCustody

/-! ## Runs -/

def Surroundings.sample : Surroundings where
  host := Host.sample
  unicode := .ascii
  urlOf := id
  provider := .github
  join := id

def noFiles : Files where
  paths := []
  text _ := none
  nodup := List.nodup_nil
  supported _ _ := rfl

def sampleInput : StoreInput where
  content := "The quote is 300.".toList
  source := .whatsapp
  contentType := some .voiceNote
  sourceId := some "wa-1".toList

def draw (last : UInt8) : Draw := ⟨Moment.sample, (0, 0, last)⟩

/-- The commit of a capture fails, and it is tried again. -/
def triedAgain : List Op :=
  [.capture { input := sampleInput, draw := draw 1, publication := { commitFails := true } },
    .capture { input := sampleInput, draw := draw 2 }]

/-- The second attempt finds the entry in the working tree and acknowledges it, with nothing published. -/
theorem acknowledged_unpublished : ¬ InCustody (run .sample noFiles triedAgain) := by
  intro h
  have hpublished : (run .sample noFiles triedAgain).repo.inPublished = 0 := by decide +kernel
  have hreturned : ∃ call ∈ (run .sample noFiles triedAgain).calls, call.returned.isSome = true ∧
      refsOf call.appended = [] := by decide +kernel
  obtain ⟨call, hcall, hsome, -⟩ := hreturned
  obtain ⟨ref, href⟩ := Option.isSome_iff_exists.mp hsome
  cases h.acknowledged call hcall ref href with
  | appended e _ mem => rw [hpublished] at mem; exact Multiset.notMem_zero e mem
  | earlier _ _ e mem => rw [hpublished] at mem; exact Multiset.notMem_zero e mem

/-- A capture whose first push loses its answer, the same again, and a store without a classification. -/
def captured : List Op :=
  [.capture
      { input := sampleInput, draw := draw 1,
        publication := { attempt := fun n => if n = 0 then { outcome := .lost } else {} } },
    .capture { input := sampleInput, draw := draw 2 },
    .store { input := sampleInput, draw := draw 3, again := draw 4, stamp := "2026-11-01T10-05-00".toList }]

theorem captured_once : (run .sample noFiles captured).calls.map (·.returned.isSome) = [true, true, true] ∧
    InCustody (run .sample noFiles captured) :=
  ⟨by decide +kernel, in_custody .sample noFiles captured (by decide +kernel)⟩

end Zenod.Custody
