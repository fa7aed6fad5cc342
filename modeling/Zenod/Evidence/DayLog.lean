/-
What a day file is for, and that the file is it: the entries of the captures
in order, and for each the targets it was filed to (`DayLog`).

`evidence_codec_iff`: in every run of captures and filings, the file at a path
that starts out without one reads back as its day log after every step, with
every step an append that leaves the entries before it alone, if and only if no
recorded target contains a line break.
-/
import Zenod.Evidence.Filed
import Zenod.Evidence.Immutability

namespace Zenod.Evidence

open Text

/-! ## The log as its readers see it -/

structure DayLog where
  entries : List MemoryEntry := []
  /-- Anchor and target of each filing, in order. -/
  filed : List (Text × Text) := []

def DayLog.targets (log : DayLog) (anchor : Text) : List Text :=
  (log.filed.filter (·.1 = anchor)).map (·.2)

def DayLog.capture (log : DayLog) (c : Capture) : DayLog := { log with entries := log.entries ++ [c.memoryEntry] }

/-- The new targets of an entry; an anchor without an entry records nothing. -/
def DayLog.file (log : DayLog) (anchor : Text) (targets : List Text) : DayLog :=
  if log.entries.any (·.anchor = anchor) then
    { log with filed := log.filed ++ (freshOf (log.targets anchor) targets).map fun t => (anchor, t) }
  else log

theorem DayLog.any_anchor {log : DayLog} {anchor : Text} :
    log.entries.any (·.anchor = anchor) = true ↔ anchor ∈ log.entries.map (·.anchor) := by
  simp only [List.any_eq_true, List.mem_map, decide_eq_true_eq]

theorem DayLog.file_of_mem {log : DayLog} {anchor : Text} (targets : List Text)
    (h : anchor ∈ log.entries.map (·.anchor)) : log.file anchor targets =
      { log with filed := log.filed ++ (freshOf (log.targets anchor) targets).map fun t => (anchor, t) } :=
  if_pos (DayLog.any_anchor.2 h)

theorem DayLog.file_of_not_mem {log : DayLog} {anchor : Text} (targets : List Text)
    (h : anchor ∉ log.entries.map (·.anchor)) : log.file anchor targets = log :=
  if_neg fun hany => h (DayLog.any_anchor.1 hany)

/-! ## Runs -/

inductive EvidenceOp
  | append (c : Capture)
  | file (evidenceRef : Text) (targets : List Text)

def EvidenceOp.run : EvidenceOp → Vault → Vault
  | .append c, vault => (appendEvidence c vault).2
  | .file evidenceRef targets, vault => fileTargets evidenceRef targets vault

def runEvidence (ops : List EvidenceOp) (vault : Vault) : Vault := ops.foldl (fun vault op => op.run vault) vault

/-- What an operation records in the log of the file at a path. -/
def EvidenceOp.record (path : Text) : EvidenceOp → DayLog → DayLog
  | .append c, log => if c.logPath = path then log.capture c else log
  | .file evidenceRef targets, log =>
    match splitEvidenceRef evidenceRef with
    | .ok ref => if ref.logPath = path then log.file ref.anchor targets else log
    | .error _ => log

def dayLog (path : Text) (ops : List EvidenceOp) : DayLog := ops.foldl (fun log op => op.record path log) {}

/-- The entry an operation adds to the file at a path. -/
def EvidenceOp.entryIn (path : Text) : EvidenceOp → Option MemoryEntry
  | .append c => if c.logPath = path then some c.memoryEntry else none
  | .file _ _ => none

theorem runEvidence_append (ops more : List EvidenceOp) (vault : Vault) :
    runEvidence (ops ++ more) vault = runEvidence more (runEvidence ops vault) := by
  simp only [runEvidence, List.foldl_append]

theorem dayLog_concat (path : Text) (ops : List EvidenceOp) (op : EvidenceOp) :
    dayLog path (ops ++ [op]) = op.record path (dayLog path ops) := by
  simp only [dayLog, List.foldl_append, List.foldl_cons, List.foldl_nil]

/-- The day log has one entry for each capture of its day, in order. -/
theorem dayLog_entries (path : Text) (ops : List EvidenceOp) :
    (dayLog path ops).entries = ops.filterMap (EvidenceOp.entryIn path) := by
  induction ops using List.reverseRecOn with
  | nil => rfl
  | append_singleton ops op ih =>
    rw [dayLog_concat, List.filterMap_append, ← ih]
    cases op with
    | append c =>
      simp only [EvidenceOp.record, EvidenceOp.entryIn, List.filterMap_cons, List.filterMap_nil]
      split <;> simp [DayLog.capture]
    | file evidenceRef targets =>
      simp only [EvidenceOp.record, EvidenceOp.entryIn, List.filterMap_cons, List.filterMap_nil, List.append_nil]
      split
      next ref _ =>
        split
        · simp only [DayLog.file]
          split <;> rfl
        · rfl
      next => rfl

theorem dayLog_filed_mono (path : Text) (ops more : List EvidenceOp) :
    (dayLog path ops).filed <+: (dayLog path (ops ++ more)).filed := by
  induction more using List.reverseRecOn with
  | nil => rw [List.append_nil]
  | append_singleton more op ih =>
    rw [← List.append_assoc, dayLog_concat]
    refine ih.trans ?_
    cases op with
    | append c =>
      simp only [EvidenceOp.record]
      split <;> exact List.prefix_rfl
    | file evidenceRef targets =>
      simp only [EvidenceOp.record]
      split
      next ref _ =>
        split
        · simp only [DayLog.file]
          split
          · exact List.prefix_append _ _
          · exact List.prefix_rfl
        · exact List.prefix_rfl
      next => exact List.prefix_rfl

/-! ## Frames -/

theorem fileTargets_other {evidenceRef : Text} {targets : List Text} {vault : Vault} {path : Text}
    (h : ∀ ref, splitEvidenceRef evidenceRef = .ok ref → ref.logPath ≠ path) :
    fileTargets evidenceRef targets vault path = vault path := by
  cases href : splitEvidenceRef evidenceRef with
  | error e => rw [fileTargets_unsplit targets vault href]
  | ok ref =>
    have hne := h ref href
    cases hraw : vault ref.logPath with
    | none => rw [fileTargets_noFile targets href hraw]
    | some raw =>
      by_cases hno : freshOf (parseFiledLines raw ref.anchor) targets = [] ∨ ¬HasEntry raw ref.anchor
      · rw [fileTargets_nothing href hraw hno]
      · simp only [not_or, not_not] at hno
        obtain ⟨_, _, _, _, -, -, -, -, -, hwrite⟩ := fileTargets_writes href hraw hno.2 hno.1
        rw [hwrite, write_other _ _ (Ne.symm hne)]

theorem appendEvidence_other (c : Capture) (vault : Vault) {path : Text} (h : c.logPath ≠ path) :
    (appendEvidence c vault).2 path = vault path := write_other _ _ (Ne.symm h)

/-! ## Every step only appends -/

/-- What a step writes to a file that is there starts with the file. -/
theorem op_appends (op : EvidenceOp) (vault : Vault) (path before : Text) (h : vault path = some before) :
    op.run vault path = some before ∨ ∃ more, op.run vault path =
      some ((if endsWithNewline before then before else before ++ ['\n']) ++ more) := by
  cases op with
  | append c =>
    by_cases hpath : c.logPath = path
    · subst hpath
      right
      simp only [EvidenceOp.run, appendEvidence, h, Option.getD_some, write_self]
      split
      · exact ⟨_, by rw [List.append_assoc]⟩
      · refine ⟨'\n' :: c.entry, ?_⟩
        rw [List.append_assoc, List.append_assoc]
        rfl
    · left
      rw [EvidenceOp.run, appendEvidence_other c vault hpath, h]
  | file evidenceRef targets =>
    by_cases hpath : ∃ ref, splitEvidenceRef evidenceRef = .ok ref ∧ ref.logPath = path
    · obtain ⟨ref, href, rfl⟩ := hpath
      by_cases hno : freshOf (parseFiledLines before ref.anchor) targets = [] ∨ ¬HasEntry before ref.anchor
      · left
        rw [EvidenceOp.run, fileTargets_nothing href h hno, h]
      · right
        simp only [not_or, not_not] at hno
        obtain ⟨ls, _, _, _, -, hclosed, -, -, -, hwrite⟩ := fileTargets_writes href h hno.2 hno.1
        rw [EvidenceOp.run, hwrite, write_self, terminated_append, ← hclosed]
        exact ⟨_, rfl⟩
    · left
      rw [EvidenceOp.run, fileTargets_other fun ref href heq => hpath ⟨ref, href, heq⟩, h]

theorem op_changes {op : EvidenceOp} {vault : Vault} {path : Text} (h : op.run vault path ≠ vault path) :
    startsWith path "Log/".toList = true := by
  cases op with
  | append c =>
    by_cases hpath : c.logPath = path
    · rw [← hpath]
      rfl
    · exact absurd (appendEvidence_other c vault hpath) h
  | file evidenceRef targets =>
    by_cases hpath : ∃ ref, splitEvidenceRef evidenceRef = .ok ref ∧ ref.logPath = path
    · obtain ⟨ref, href, rfl⟩ := hpath
      rw [(splitEvidenceRef_ok href).1]
      rfl
    · exact absurd (fileTargets_other fun ref href heq => hpath ⟨ref, href, heq⟩) h

/-- **Every step passes the immutability check**, at every path and in every vault. -/
theorem op_immutable (op : EvidenceOp) (vault : Vault) (path : Text) :
    checkEvidenceImmutability [⟨path, vault path, op.run vault path⟩] = [] := by
  rw [check_eq_nil]
  intro change hchange
  obtain rfl := List.mem_singleton.1 hchange
  cases hbefore : vault path with
  | none => exact errors_new path _
  | some before =>
    by_cases hne : op.run vault path = vault path
    · rw [hne, hbefore]
      exact errors_same path before
    · rcases op_appends op vault path before hbefore with hafter | ⟨more, hafter⟩
      · rw [hafter]
        exact errors_same path before
      · rw [hafter]
        exact errors_append (op_changes hne) before more

/-! ## The file is the log -/

/-- The file at a path reads back as the log. -/
structure ReadsBack (path : Text) (vault : Vault) (log : DayLog) : Prop where
  entries : entriesAt path vault = log.entries
  targets : ∀ bytes, filedAt path (anchorOf bytes) vault = log.targets (anchorOf bytes)

theorem targets_file (log : DayLog) (anchor other : Text) (targets : List Text)
    (h : anchor ∈ log.entries.map (·.anchor)) :
    (log.file anchor targets).targets other =
      log.targets other ++ if anchor = other then freshOf (log.targets anchor) targets else [] := by
  rw [DayLog.file_of_mem targets h]
  simp only [DayLog.targets, List.filter_append, List.map_append, List.filter_map]
  congr 1
  by_cases heq : anchor = other
  · simp [heq, Function.comp_def]
  · simp [heq, Function.comp_def]

/-- Anchors in a day log are drawn ones. -/
theorem dayLog_anchor {path : Text} {ops : List EvidenceOp} {anchor : Text}
    (h : anchor ∈ (dayLog path ops).entries.map (·.anchor)) : ∃ bytes, anchor = anchorOf bytes := by
  rw [dayLog_entries] at h
  obtain ⟨e, he, rfl⟩ := List.mem_map.1 h
  obtain ⟨op, -, hop⟩ := List.mem_filterMap.1 he
  cases op with
  | append c =>
    simp only [EvidenceOp.entryIn] at hop
    split at hop
    · cases hop
      exact ⟨c.bytes, rfl⟩
    · cases hop
  | file => cases hop

/-- A filing for the file keeps the two together when its new targets stand on one line. -/
theorem file_readsBack {evidenceRef : Text} {ref : EvidenceRef} {targets : List Text} {vault : Vault}
    {ops : List EvidenceOp} (href : splitEvidenceRef evidenceRef = .ok ref)
    (h : ReadsBack ref.logPath vault (dayLog ref.logPath ops))
    (hline : ∀ filed ∈ ((dayLog ref.logPath ops).file ref.anchor targets).filed, SingleLine filed.2) :
    ReadsBack ref.logPath (fileTargets evidenceRef targets vault)
      ((dayLog ref.logPath ops).file ref.anchor targets) := by
  obtain ⟨hlog, hday, -⟩ := splitEvidenceRef_ok href
  have hdate : logDate ref.logPath = some ref.date := by rw [hlog, logDate_of_isDay hday]
  by_cases hmem : ref.anchor ∈ (dayLog ref.logPath ops).entries.map (·.anchor)
  · obtain ⟨raw, hraw⟩ : ∃ raw, vault ref.logPath = some raw := by
      cases hv : vault ref.logPath with
      | some raw => exact ⟨raw, rfl⟩
      | none =>
        have hnil : entriesAt ref.logPath vault = [] := by
          rw [entriesAt, hv, Option.getD_none, parseEvidenceFile_eq hdate]
          rfl
        rw [← h.entries, hnil] at hmem
        cases hmem
    have hentry : HasEntry raw ref.anchor := by
      rw [hasEntry_iff hdate]
      rw [← h.entries, entriesAt, hraw] at hmem
      exact hmem
    obtain ⟨bytes, hbytes⟩ := dayLog_anchor hmem
    have hrecorded : parseFiledLines raw ref.anchor = (dayLog ref.logPath ops).targets ref.anchor := by
      have := h.targets bytes
      rwa [filedAt, hraw, ← hbytes] at this
    have hfresh : ∀ t ∈ freshOf (parseFiledLines raw ref.anchor) targets, SingleLine t := by
      intro t ht
      apply hline (ref.anchor, t)
      rw [DayLog.file_of_mem targets hmem, ← hrecorded]
      exact List.mem_append_right _ (List.mem_map_of_mem ht)
    refine ⟨?_, fun other => ?_⟩
    · rw [entriesAt_fileTargets href hraw hfresh, h.entries, DayLog.file_of_mem targets hmem]
    · rw [filedAt_fileTargets href hraw hentry hfresh, targets_file _ _ _ _ hmem, h.targets, hrecorded]
  · rw [DayLog.file_of_not_mem targets hmem]
    have hsame : fileTargets evidenceRef targets vault = vault := by
      cases hraw : vault ref.logPath with
      | none => exact fileTargets_noFile targets href hraw
      | some raw =>
        refine fileTargets_nothing href hraw (Or.inr ?_)
        rw [hasEntry_iff hdate]
        rw [← h.entries, entriesAt, hraw] at hmem
        exact hmem
    rw [hsame]
    exact h

/-- A step keeps the file and its log together, unless it records a target of several lines. -/
theorem ReadsBack.step {path : Text} {vault : Vault} {ops : List EvidenceOp} (op : EvidenceOp)
    (h : ReadsBack path vault (dayLog path ops))
    (hline : ∀ filed ∈ (dayLog path (ops ++ [op])).filed, SingleLine filed.2) :
    ReadsBack path (op.run vault) (dayLog path (ops ++ [op])) := by
  rw [dayLog_concat] at hline ⊢
  cases op with
  | append c =>
    simp only [EvidenceOp.run, EvidenceOp.record]
    split
    next hpath =>
      subst hpath
      refine ⟨?_, fun bytes => ?_⟩
      · rw [parse_appendEvidence, h.entries]
        rfl
      · rw [filedAt_appendEvidence, h.targets]
        rfl
    next hpath =>
      have hsame := appendEvidence_other c vault hpath
      refine ⟨?_, fun bytes => ?_⟩
      · rw [entriesAt, hsame]
        exact h.entries
      · rw [filedAt, hsame]
        exact h.targets bytes
  | file evidenceRef targets =>
    have hframe : (∀ ref, splitEvidenceRef evidenceRef = .ok ref → ref.logPath ≠ path) →
        ReadsBack path (fileTargets evidenceRef targets vault) (dayLog path ops) := by
      intro hother
      have hsame : fileTargets evidenceRef targets vault path = vault path := fileTargets_other hother
      refine ⟨?_, fun bytes => ?_⟩
      · rw [entriesAt, hsame]
        exact h.entries
      · rw [filedAt, hsame]
        exact h.targets bytes
    simp only [EvidenceOp.run, EvidenceOp.record] at hline ⊢
    cases href : splitEvidenceRef evidenceRef with
    | error e =>
      refine hframe fun ref hok => ?_
      rw [href] at hok
      cases hok
    | ok ref =>
      simp only [href] at hline ⊢
      by_cases hpath : ref.logPath = path
      · rw [if_pos hpath] at hline ⊢
        subst hpath
        exact file_readsBack href h hline
      · rw [if_neg hpath]
        refine hframe fun other hok => ?_
        rw [href] at hok
        cases hok
        exact hpath

/-! ## Every run -/

theorem readsBack_new {path : Text} {vault : Vault} (h : vault path = none) : ReadsBack path vault {} := by
  refine ⟨?_, fun bytes => ?_⟩
  · rw [entriesAt, h, Option.getD_none, parseEvidenceFile]
    cases logDate path <;> rfl
  · rw [filedAt, h]
    rfl

/-- The file reads back as its log while no target breaks its line. -/
theorem readsBack_run {path : Text} {vault : Vault} (hnew : vault path = none) (ops : List EvidenceOp)
    (hline : ∀ filed ∈ (dayLog path ops).filed, SingleLine filed.2) :
    ReadsBack path (runEvidence ops vault) (dayLog path ops) := by
  induction ops using List.reverseRecOn with
  | nil => exact readsBack_new hnew
  | append_singleton ops op ih =>
    have hbefore := ih fun filed hf => hline filed ((dayLog_filed_mono path ops [op]).subset hf)
    rw [runEvidence_append]
    exact hbefore.step op hline

theorem dayLog_filed_anchor (path : Text) (ops : List EvidenceOp) :
    ∀ filed ∈ (dayLog path ops).filed, filed.1 ∈ (dayLog path ops).entries.map (·.anchor) := by
  induction ops using List.reverseRecOn with
  | nil =>
    intro filed hf
    cases hf
  | append_singleton ops op ih =>
    intro filed hf
    rw [dayLog_concat] at hf ⊢
    cases op with
    | append c =>
      simp only [EvidenceOp.record] at hf ⊢
      split at hf
      next hpath =>
        rw [if_pos hpath, DayLog.capture, List.map_append]
        exact List.mem_append_left _ (ih filed hf)
      next hpath =>
        rw [if_neg hpath]
        exact ih filed hf
    | file evidenceRef targets =>
      simp only [EvidenceOp.record] at hf ⊢
      cases href : splitEvidenceRef evidenceRef with
      | error e =>
        simp only [href] at hf ⊢
        exact ih filed hf
      | ok ref =>
        simp only [href] at hf ⊢
        by_cases hpath : ref.logPath = path
        · rw [if_pos hpath] at hf ⊢
          simp only [DayLog.file] at hf ⊢
          split at hf
          next hmem =>
            rw [if_pos hmem]
            rcases List.mem_append.1 hf with hf | hf
            · exact ih filed hf
            · obtain ⟨t, -, rfl⟩ := List.mem_map.1 hf
              exact DayLog.any_anchor.1 hmem
          next hmem =>
            rw [if_neg hmem]
            exact ih filed hf
        · rw [if_neg hpath] at hf ⊢
          exact ih filed hf

/-- **Main result.** A day file produced from nothing by any captures and filings reads back after every
step: one entry for each capture of its day, in order, as it was given, and for each anchor the targets
recorded for it; each step passes the immutability check and a filing changes no entry. This holds of a run
if and only if no target it records for the file breaks its line. -/
theorem evidence_codec_iff (vault : Vault) (path : Text) (hnew : vault path = none) (ops : List EvidenceOp) :
    (∀ done rest, ops = done ++ rest →
      entriesAt path (runEvidence done vault) = done.filterMap (EvidenceOp.entryIn path) ∧
      (∀ bytes, filedAt path (anchorOf bytes) (runEvidence done vault) =
        (dayLog path done).targets (anchorOf bytes)) ∧
      ∀ op later, rest = op :: later →
        checkEvidenceImmutability [⟨path, runEvidence done vault path, runEvidence (done ++ [op]) vault path⟩] = [] ∧
        ∀ evidenceRef targets, op = .file evidenceRef targets →
          entriesAt path (runEvidence (done ++ [op]) vault) = entriesAt path (runEvidence done vault)) ↔
    ∀ filed ∈ (dayLog path ops).filed, SingleLine filed.2 := by
  constructor
  · intro h filed hf
    obtain ⟨-, htargets, -⟩ := h ops [] (List.append_nil ops).symm
    obtain ⟨bytes, hbytes⟩ := dayLog_anchor (dayLog_filed_anchor path ops filed hf)
    have hmem : filed.2 ∈ (dayLog path ops).targets (anchorOf bytes) := by
      rw [← hbytes, DayLog.targets]
      exact List.mem_map_of_mem (List.mem_filter.2 ⟨hf, decide_eq_true rfl⟩)
    rw [← htargets bytes] at hmem
    exact parseFiledLines_singleLine hmem
  · intro hline done rest hops
    have hreads : ∀ done rest, ops = done ++ rest → ReadsBack path (runEvidence done vault) (dayLog path done) := by
      intro done rest hops
      refine readsBack_run hnew done fun filed hf => hline filed ?_
      rw [hops]
      exact (dayLog_filed_mono path done rest).subset hf
    have hdone := hreads done rest hops
    refine ⟨?_, hdone.targets, ?_⟩
    · rw [hdone.entries, dayLog_entries]
    · intro op later hrest
      subst hrest
      have hnext := hreads (done ++ [op]) later (by rw [hops, List.append_assoc]; rfl)
      refine ⟨?_, ?_⟩
      · rw [runEvidence_append]
        exact op_immutable op _ path
      · intro evidenceRef targets hop
        rw [hnext.entries, hdone.entries, dayLog_entries, dayLog_entries, List.filterMap_append, hop]
        simp [EvidenceOp.entryIn]

def sampleCapture : Capture where
  content := "## 09:00 not a heading  ^e-000000\n- source: web".toList
  source := .telegram
  verbatim := true
  now := Moment.sample
  bytes := (0xaa, 0xbb, 0xcc)

/-- A capture that imitates a heading and a field, filed to a page with a one-line lineage. -/
def sampleOps (lineage : Text) : List EvidenceOp :=
  [.append sampleCapture, .file "Log/2026-11-01.md#^e-aabbcc".toList
    [filedTarget (.page { path := "Notes/Boat.md".toList, lineage := some lineage })]]

theorem evidence_codec_sample :
    entriesAt "Log/2026-11-01.md".toList (runEvidence (sampleOps "Working › Boat repair".toList) fun _ => none) =
      [sampleCapture.memoryEntry] := by
  have h := (evidence_codec_iff (fun _ => none) "Log/2026-11-01.md".toList rfl
    (sampleOps "Working › Boat repair".toList)).2 (by decide +kernel)
  exact (h _ [] (List.append_nil _).symm).1.trans (by decide +kernel)

/-- **A title of two lines breaks the record**: the lineage it stands in is read back cut at the break. -/
theorem broken_lineage :
    filedAt "Log/2026-11-01.md".toList "e-aabbcc".toList
        (runEvidence (sampleOps "Working › Boat\nrepair".toList) fun _ => none) =
      ["[[Notes/Boat]] (Working › Boat".toList] ∧
    (dayLog "Log/2026-11-01.md".toList (sampleOps "Working › Boat\nrepair".toList)).targets "e-aabbcc".toList =
      ["[[Notes/Boat]] (Working › Boat\nrepair)".toList] := by
  decide +kernel

end Zenod.Evidence
