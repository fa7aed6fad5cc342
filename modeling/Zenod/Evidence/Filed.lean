/-
Filed lines: what `appendFiledLines` adds to a day file, and what
`parseFiledLines` and `parseEvidenceFile` make of it.

A target on one line adds one inert line. `filedAt_appendFiledLines`: the
lines of a call are read back for its entry, in either form, and for no other.
-/
import Zenod.Evidence.Codec

namespace Zenod.Evidence

open Text

/-! ## Reading filed lines -/

/-- Whether the lines read so far end under the entry's heading. -/
def inEntryAfter (anchor : Text) (inEntry : Bool) (ls : List Text) : Bool :=
  ls.foldl (fun inEntry line => match entryHeading line with
    | some heading => heading.anchor == anchor
    | none => inEntry) inEntry

theorem parseFiledLinesFrom_append (anchor : Text) (inEntry : Bool) (ls ms : List Text) :
    parseFiledLinesFrom anchor inEntry (ls ++ ms) =
      parseFiledLinesFrom anchor inEntry ls ++ parseFiledLinesFrom anchor (inEntryAfter anchor inEntry ls) ms := by
  induction ls generalizing inEntry with
  | nil => rfl
  | cons l ls ih =>
    simp only [List.cons_append, parseFiledLinesFrom, ih, List.append_assoc]
    rfl

/-- A line that is no filed line of any entry. -/
def Silent (line : Text) : Prop := startsWith line "- filed".toList = false

theorem Silent.not_own {line : Text} (h : Silent line) : startsWith line "- filed: ".toList = false := by
  rw [Bool.eq_false_iff]
  intro hs
  have hpre : "- filed".toList <+: line :=
    (show "- filed".toList <+: "- filed: ".toList from ⟨": ".toList, rfl⟩).trans (List.isPrefixOf_iff_prefix.1 hs)
  rw [Silent, startsWith, List.isPrefixOf_iff_prefix.2 hpre] at h
  cases h

theorem Silent.not_addressed {line : Text} (h : Silent line) (anchor : Text) :
    startsWith line ("- filed ".toList ++ anchor ++ ": ".toList) = false := by
  rw [Bool.eq_false_iff]
  intro hs
  have hpre : "- filed".toList <+: line :=
    (show "- filed".toList <+: "- filed ".toList ++ anchor ++ ": ".toList from
      ⟨" ".toList ++ anchor ++ ": ".toList, rfl⟩).trans (List.isPrefixOf_iff_prefix.1 hs)
  rw [Silent, startsWith, List.isPrefixOf_iff_prefix.2 hpre] at h
  cases h

theorem parseFiledLinesFrom_silent {ls : List Text} (h : ∀ l ∈ ls, Silent l) (anchor : Text) (inEntry : Bool) :
    parseFiledLinesFrom anchor inEntry ls = [] := by
  induction ls generalizing inEntry with
  | nil => rfl
  | cons l ls ih =>
    have hl := h l List.mem_cons_self
    rw [parseFiledLinesFrom, ih (fun m hm => h m (List.mem_cons_of_mem _ hm)), hl.not_own, hl.not_addressed]
    simp

theorem silent_nil : Silent [] := rfl

theorem silent_of_head {line : Text} (h : line.head? ≠ some '-') : Silent line := by
  cases line with
  | nil => rfl
  | cons c line =>
    have hc : ('-' == c) = false := by
      rw [beq_eq_false_iff_ne]
      exact fun he => h (by rw [← he]; rfl)
    change ('-' == c && " filed".toList.isPrefixOf line) = false
    rw [hc, Bool.false_and]

/-- Nothing a capture writes is a filed line. -/
theorem capture_silent (c : Capture) : ∀ l ∈ [] :: c.heading :: c.body, Silent l := by
  intro l hl
  rcases List.mem_cons.1 hl with rfl | hl
  · exact silent_nil
  rcases List.mem_cons.1 hl with rfl | hl
  · exact silent_of_head (by simp [Capture.heading])
  simp only [Capture.body, Capture.metadataLines, quoted, List.mem_append, List.mem_cons, List.not_mem_nil, or_false,
    List.mem_map, Option.mem_toList, Option.map_eq_some_iff] at hl
  rcases hl with (((hl | ⟨v, -, rfl⟩) | ⟨v, -, rfl⟩) | ⟨v, -, rfl⟩) | rfl | ⟨l, -, rfl⟩
  · rcases hl with rfl | rfl <;> rfl
  · rfl
  · rfl
  · rfl
  · exact silent_nil
  · exact silent_of_head (by simp)

/-- The targets recorded for an entry of the file at a path. -/
def filedAt (path anchor : Text) (vault : Vault) : List Text := parseFiledLines ((vault path).getD []) anchor

theorem silent_blank : ∀ l ∈ [[]], Silent l := by
  intro l hl
  obtain rfl := List.mem_singleton.1 hl
  exact silent_nil

/-- **A capture records no target**, for any entry. -/
theorem filedAt_appendEvidence (c : Capture) (vault : Vault) (anchor : Text) :
    filedAt c.logPath anchor (appendEvidence c vault).2 = filedAt c.logPath anchor vault := by
  obtain ⟨ls, hline, hlines, hwrite⟩ := appendEvidence_writes c vault
  have hbefore : filedAt c.logPath anchor vault = parseFiledLinesFrom anchor false ls := by
    have hday : parseFiledLines (dayText vault c) anchor = filedAt c.logPath anchor vault := by
      simp only [dayText, filedAt]
      cases vault c.logPath with
      | some text => rfl
      | none =>
        apply parseFiledLinesFrom_silent
        intro l hl
        rw [Option.getD_none, show "\n".toList = '\n' :: [] from rfl, lines_append] at hl
        rcases List.mem_append.1 hl with hl | hl
        · have hdate : SingleLine ("# ".toList ++ todayString c.now) := by
            refine append_singleLine (by decide) ?_
            intro h
            exact absurd (todayString_mem h) (by decide)
          rw [lines_of_singleLine hdate] at hl
          obtain rfl := List.mem_singleton.1 hl
          rfl
        · exact silent_blank l hl
    rw [← hday, parseFiledLines]
    rcases hlines with h | h
    · rw [h]
    · rw [h, parseFiledLinesFrom_append, parseFiledLinesFrom_silent silent_blank, List.append_nil]
  rw [hbefore, filedAt, hwrite, write_self, Option.getD_some, parseFiledLines, lines_appended hline,
    parseFiledLinesFrom_append, parseFiledLinesFrom_silent silent_blank, List.append_nil,
    parseFiledLinesFrom_append, parseFiledLinesFrom_silent (capture_silent c), List.append_nil]

/-! ## What a call of appendFiledLines adds -/

/-- The form of a call's lines: under its entry, or addressed to it. -/
def filedPrefix (isLast : Bool) (anchor : Text) : Text :=
  if isLast then "- filed: ".toList else "- filed ".toList ++ anchor ++ ": ".toList

/-- What stands before a mark and what stands behind it are found again. -/
theorem prefix_of_mark {x : Char} {a b s t : Text} (ha : x ∉ a) (hb : x ∉ b) (h : a ++ x :: s <+: b ++ x :: t) :
    a = b := by
  induction a generalizing b with
  | nil =>
    cases b with
    | nil => rfl
    | cons d b =>
      obtain ⟨rfl, -⟩ := List.cons_prefix_cons.1 h
      exact absurd List.mem_cons_self hb
  | cons c a ih =>
    simp only [List.mem_cons, not_or] at ha
    cases b with
    | nil =>
      obtain ⟨rfl, -⟩ := List.cons_prefix_cons.1 h
      exact absurd rfl ha.1
    | cons d b =>
      simp only [List.mem_cons, not_or] at hb
      obtain ⟨rfl, hrest⟩ := List.cons_prefix_cons.1 h
      rw [ih ha.2 hb.2 hrest]

theorem read_own (anchor : Text) (inEntry : Bool) (targets : List Text) :
    parseFiledLinesFrom anchor inEntry (targets.map fun t => "- filed: ".toList ++ t) =
      if inEntry then targets else [] := by
  induction targets with
  | nil => cases inEntry <;> rfl
  | cons t ts ih =>
    have hhead : entryHeading ("- filed: ".toList ++ t) = none := entryHeading_eq_none (by simp)
    have hown : startsWith ("- filed: ".toList ++ t) "- filed: ".toList = true := rfl
    have haddr : startsWith ("- filed: ".toList ++ t) ("- filed ".toList ++ anchor ++ ": ".toList) = false := rfl
    simp only [List.map_cons, parseFiledLinesFrom, hhead, hown, haddr, ih]
    cases inEntry <;> rfl

theorem read_addressed {anchor other : Text} (ha : ':' ∉ anchor) (ho : ':' ∉ other) (inEntry : Bool)
    (targets : List Text) :
    parseFiledLinesFrom anchor inEntry (targets.map fun t => "- filed ".toList ++ other ++ ": ".toList ++ t) =
      if other = anchor then targets else [] := by
  induction targets with
  | nil => split <;> rfl
  | cons t ts ih =>
    have hhead : entryHeading ("- filed ".toList ++ other ++ ": ".toList ++ t) = none :=
      entryHeading_eq_none (by simp)
    have hown : startsWith ("- filed ".toList ++ other ++ ": ".toList ++ t) "- filed: ".toList = false := rfl
    by_cases heq : other = anchor
    · subst heq
      have haddr : startsWith ("- filed ".toList ++ other ++ ": ".toList ++ t)
          ("- filed ".toList ++ other ++ ": ".toList) = true := List.isPrefixOf_iff_prefix.2 ⟨t, rfl⟩
      have hdrop : ("- filed ".toList ++ other ++ ": ".toList ++ t).drop (other.length + 10) = t := by
        have hlen : ("- filed ".toList ++ other ++ ": ".toList).length = other.length + 10 := by
          simp only [List.length_append]
          have h1 : "- filed ".toList.length = 8 := rfl
          have h2 : ": ".toList.length = 2 := rfl
          omega
        rw [← hlen]
        exact List.drop_left
      simp only [List.map_cons, parseFiledLinesFrom, hhead, hown, haddr, hdrop, ih, Bool.and_false, if_true]
      rfl
    · have haddr : startsWith ("- filed ".toList ++ other ++ ": ".toList ++ t)
          ("- filed ".toList ++ anchor ++ ": ".toList) = false := by
        rw [Bool.eq_false_iff]
        intro h
        have hpre := List.isPrefixOf_iff_prefix.1 h
        rw [List.append_assoc, List.append_assoc, List.append_assoc, List.prefix_append_right_inj] at hpre
        exact heq (prefix_of_mark ha ho hpre).symm
      simp only [List.map_cons, parseFiledLinesFrom, hhead, hown, haddr, ih, if_neg heq, Bool.and_false]
      rfl

/-! ## Calls -/

theorem splitEvidenceRef_ok {evidenceRef : Text} {ref : EvidenceRef} (h : splitEvidenceRef evidenceRef = .ok ref) :
    ref.logPath = logPathOf ref.date ∧ isDay ref.date = true ∧ ∀ c ∈ ref.anchor, c ∈ anchorAlphabet := by
  simp only [splitEvidenceRef] at h
  split at h
  next hok =>
    obtain ⟨-, hday, -, hstart, -, hhex⟩ := hok
    cases h
    refine ⟨rfl, hday, ?_⟩
    intro c hc
    obtain ⟨rest, hrest⟩ := List.isPrefixOf_iff_prefix.1 hstart
    have hc' : c ∈ evidenceRef.drop 19 := hc
    rw [← hrest] at hc' hhex
    have hdigits : ∀ c ∈ rest, c ∈ hex := forall_of_all hhex
    rcases List.mem_append.1 hc' with hc' | hc'
    · have hall : ∀ c ∈ "e-".toList, c ∈ anchorAlphabet := forall_of_all (by decide)
      exact hall c hc'
    · exact hex_subset (hdigits c hc')
  next => cases h

theorem logDate_of_isDay {date : Text} (h : isDay date = true) : logDate (logPathOf date) = some date := by
  simp only [isDay, Bool.and_eq_true, beq_iff_eq, List.all_eq_true, List.mem_range] at h
  obtain ⟨hlen, hall⟩ := h
  apply logDate_of_length hlen
  intro c hc
  obtain ⟨i, hi, rfl⟩ := List.getElem_of_mem hc
  have hi' := hall i (by omega)
  rw [List.getElem?_eq_getElem hi] at hi'
  split at hi'
  · have hdash : date[i] = '-' := by simpa using hi'
    rw [hdash]
    decide
  · have hdigit : date[i].isDigit = true := by simpa using hi'
    simp only [Char.isDigit, Bool.and_eq_true, decide_eq_true_eq] at hdigit
    have hle : date[i].val ≤ 57 := hdigit.2
    have : date[i].toNat ≤ 57 := hle
    omega

/-- The targets of a call that are new to its entry. -/
def freshOf (recorded targets : List Text) : List Text :=
  freshTargets recorded (recorded.map filedKey) targets.eraseDups

/-- The vault a call leaves, also when it throws. -/
def fileTargets (evidenceRef : Text) (targets : List Text) (vault : Vault) : Vault :=
  match appendFiledLines evidenceRef targets vault with
  | .ok (_, vault) => vault
  | .error _ => vault

/-- Some line of the text is the heading of the anchor's entry. -/
def HasEntry (text anchor : Text) : Prop := ∃ l ∈ lines text, (entryHeading l).map (·.anchor) = some anchor

theorem fileTargets_unsplit {evidenceRef : Text} {e : EvidenceError} (targets : List Text) (vault : Vault)
    (h : splitEvidenceRef evidenceRef = .error e) : fileTargets evidenceRef targets vault = vault := by
  simp only [fileTargets, appendFiledLines, h]
  rfl

theorem fileTargets_noFile {evidenceRef : Text} {ref : EvidenceRef} (targets : List Text) {vault : Vault}
    (h : splitEvidenceRef evidenceRef = .ok ref) (hnone : vault ref.logPath = none) :
    fileTargets evidenceRef targets vault = vault := by
  simp only [fileTargets, appendFiledLines, h]
  simp only [bind, Except.bind, hnone]
  rfl

theorem dropWhile_heading_eq_nil {text anchor : Text}
    (h : ¬HasEntry text anchor) :
    ((lines text).dropWhile fun line => (entryHeading line).map (·.anchor) ≠ some anchor) = [] := by
  rw [List.dropWhile_eq_nil_iff]
  intro l hl
  exact decide_eq_true fun he => h ⟨l, hl, he⟩

/-- Without a new target, or without the entry, a call leaves the vault as it is. -/
theorem fileTargets_nothing {evidenceRef : Text} {ref : EvidenceRef} {targets : List Text} {vault : Vault} {raw : Text}
    (h : splitEvidenceRef evidenceRef = .ok ref) (hraw : vault ref.logPath = some raw)
    (hno : freshOf (parseFiledLines raw ref.anchor) targets = [] ∨ ¬HasEntry raw ref.anchor) :
    fileTargets evidenceRef targets vault = vault := by
  simp only [fileTargets, appendFiledLines, h]
  simp only [bind, Except.bind, hraw]
  by_cases hfresh : freshOf (parseFiledLines raw ref.anchor) targets = []
  · simp only [freshOf] at hfresh
    simp only [hfresh, if_true]
    rfl
  · have hdrop := dropWhile_heading_eq_nil (hno.resolve_left hfresh)
    simp only [freshOf] at hfresh
    simp only [if_neg hfresh, hdrop]
    rfl

/-- A call that finds its entry writes its new targets behind the file's lines. -/
theorem fileTargets_writes {evidenceRef : Text} {ref : EvidenceRef} {targets : List Text} {vault : Vault} {raw : Text}
    (h : splitEvidenceRef evidenceRef = .ok ref) (hraw : vault ref.logPath = some raw)
    (hentry : HasEntry raw ref.anchor) (hfresh : freshOf (parseFiledLines raw ref.anchor) targets ≠ []) :
    ∃ (ls before later : List Text) (line : Text), (∀ l ∈ ls, SingleLine l) ∧
      (if endsWithNewline raw then raw else raw ++ ['\n']) = terminated ls ∧
      (lines raw = ls ∨ lines raw = ls ++ [[]]) ∧ lines raw = before ++ line :: later ∧
      (entryHeading line).map (·.anchor) = some ref.anchor ∧
      fileTargets evidenceRef targets vault = vault.write ref.logPath (terminated (ls ++
        (freshOf (parseFiledLines raw ref.anchor) targets).map fun t =>
          filedPrefix (later.all fun line => (entryHeading line).isNone) ref.anchor ++ t)) := by
  obtain ⟨ls, -, hline, hclosed, hlines⟩ := exists_closed raw
  obtain ⟨m, hm, hanchor⟩ := hentry
  cases hdrop : (lines raw).dropWhile fun line => (entryHeading line).map (·.anchor) ≠ some ref.anchor with
  | nil =>
    have := List.dropWhile_eq_nil_iff.1 hdrop m hm
    simp [hanchor] at this
  | cons line later =>
    have hsplit : lines raw = (lines raw).takeWhile (fun line => (entryHeading line).map (·.anchor) ≠ some ref.anchor) ++
        line :: later := by
      rw [← hdrop, List.takeWhile_append_dropWhile]
    have hhead : (entryHeading line).map (·.anchor) = some ref.anchor := by
      have := List.head?_dropWhile_not (fun line => decide ((entryHeading line).map (·.anchor) ≠ some ref.anchor)) (lines raw)
      rw [hdrop] at this
      simpa using this
    refine ⟨ls, _, later, line, hline, hclosed, hlines, hsplit, hhead, ?_⟩
    have hadded : (freshOf (parseFiledLines raw ref.anchor) targets).map (fun t =>
        filedPrefix (later.all fun line => (entryHeading line).isNone) ref.anchor ++ t) ≠ [] := by
      simpa using hfresh
    rw [terminated_append, ← hclosed, ← join_append_newline hadded]
    simp only [fileTargets, appendFiledLines, h]
    simp only [bind, Except.bind, hraw]
    simp only [freshOf] at hfresh
    simp only [if_neg hfresh, hdrop, ← List.append_assoc]
    rfl

/-! ## What a call changes for its readers -/

theorem inEntryAfter_append (anchor : Text) (inEntry : Bool) (ls ms : List Text) :
    inEntryAfter anchor inEntry (ls ++ ms) = inEntryAfter anchor (inEntryAfter anchor inEntry ls) ms := by
  simp only [inEntryAfter, List.foldl_append]

theorem inEntryAfter_no_heading {ls : List Text} (h : ∀ l ∈ ls, entryHeading l = none) (anchor : Text)
    (inEntry : Bool) : inEntryAfter anchor inEntry ls = inEntry := by
  induction ls generalizing inEntry with
  | nil => rfl
  | cons l ls ih =>
    simp only [inEntryAfter] at ih
    simp only [inEntryAfter, List.foldl_cons, h l List.mem_cons_self]
    exact ih (fun m hm => h m (List.mem_cons_of_mem _ hm)) inEntry

/-- Under the last heading of a file, the entry is the heading's. -/
theorem inEntryAfter_last {before later : List Text} {line anchor : Text}
    (hline : (entryHeading line).map (·.anchor) = some anchor)
    (hlast : (later.all fun line => (entryHeading line).isNone) = true) (other : Text) :
    inEntryAfter other false (before ++ line :: later) = (anchor == other) := by
  obtain ⟨heading, hheading, hanchor⟩ := Option.map_eq_some_iff.1 hline
  have hlater : ∀ l ∈ later, entryHeading l = none := by
    intro l hl
    simpa using List.all_eq_true.1 hlast l hl
  rw [inEntryAfter_append]
  simp only [inEntryAfter, List.foldl_cons, hheading, hanchor]
  exact inEntryAfter_no_heading hlater other (anchor == other)

theorem filedPrefix_eq (isLast : Bool) (anchor : Text) : ∃ rest, filedPrefix isLast anchor = "- f".toList ++ rest := by
  cases isLast with
  | true => exact ⟨"iled: ".toList, rfl⟩
  | false => exact ⟨"iled ".toList ++ anchor ++ ": ".toList, rfl⟩

theorem added_inert (isLast : Bool) (anchor : Text) (targets : List Text) :
    ∀ l ∈ targets.map (fun t => filedPrefix isLast anchor ++ t), Inert l := by
  intro l hl
  obtain ⟨t, -, rfl⟩ := List.mem_map.1 hl
  obtain ⟨rest, hrest⟩ := filedPrefix_eq isLast anchor
  rw [hrest, List.append_assoc]
  exact inert_filed _

theorem filedPrefix_singleLine (isLast : Bool) {anchor : Text} (h : ∀ c ∈ anchor, c ∈ anchorAlphabet) :
    SingleLine (filedPrefix isLast anchor) := by
  cases isLast with
  | true =>
    have h : SingleLine "- filed: ".toList := by decide
    exact h
  | false =>
    refine append_singleLine (append_singleLine (by decide) ?_) (by decide)
    intro hnl
    exact absurd (h _ hnl) (by decide)

/-- The lines of the file after a call whose new targets stand on one line each. -/
theorem lines_filed {ls : List Text} {anchor : Text} {targets : List Text} (isLast : Bool)
    (hline : ∀ l ∈ ls, SingleLine l) (hanchor : ∀ c ∈ anchor, c ∈ anchorAlphabet)
    (htargets : ∀ t ∈ targets, SingleLine t) :
    lines (terminated (ls ++ targets.map fun t => filedPrefix isLast anchor ++ t)) =
      ls ++ targets.map (fun t => filedPrefix isLast anchor ++ t) ++ [[]] := by
  apply lines_terminated
  intro l hl
  rcases List.mem_append.1 hl with hl | hl
  · exact hline l hl
  · obtain ⟨t, ht, rfl⟩ := List.mem_map.1 hl
    exact append_singleLine (filedPrefix_singleLine isLast hanchor) (htargets t ht)

theorem inert_blank : ∀ l ∈ [[]], Inert l := by
  intro l hl
  obtain rfl := List.mem_singleton.1 hl
  exact inert_nil

theorem parseEvidenceFile_eq {path date : Text} (h : logDate path = some date) (text : Text) :
    parseEvidenceFile path text = memoryEntries path date (lines text) := by
  simp only [parseEvidenceFile, h]
  rfl

/-- **Single-line targets change no entry**, of this file or another. -/
theorem entriesAt_fileTargets {evidenceRef : Text} {ref : EvidenceRef} {targets : List Text} {vault : Vault} {raw : Text}
    (h : splitEvidenceRef evidenceRef = .ok ref) (hraw : vault ref.logPath = some raw)
    (hline : ∀ t ∈ freshOf (parseFiledLines raw ref.anchor) targets, SingleLine t) :
    entriesAt ref.logPath (fileTargets evidenceRef targets vault) = entriesAt ref.logPath vault := by
  by_cases hno : freshOf (parseFiledLines raw ref.anchor) targets = [] ∨ ¬HasEntry raw ref.anchor
  · rw [fileTargets_nothing h hraw hno]
  simp only [not_or, not_not] at hno
  obtain ⟨ls, before, later, line, hls, -, hlines, -, -, hwrite⟩ := fileTargets_writes h hraw hno.2 hno.1
  obtain ⟨hpath, hday, hanchor⟩ := splitEvidenceRef_ok h
  have hdate : logDate ref.logPath = some ref.date := by rw [hpath, logDate_of_isDay hday]
  have hbefore : entriesAt ref.logPath vault = memoryEntries ref.logPath ref.date ls := by
    rw [entriesAt, hraw, Option.getD_some, parseEvidenceFile_eq hdate]
    rcases hlines with h | h
    · rw [h]
    · rw [h, memoryEntries_append_inert _ _ _ inert_blank]
  rw [hbefore, hwrite, entriesAt, write_self, Option.getD_some, parseEvidenceFile_eq hdate,
    lines_filed _ hls hanchor hline, memoryEntries_append_inert _ _ _ inert_blank,
    memoryEntries_append_inert _ _ _ (added_inert _ _ _)]

/-- **The targets of a call are read back for its entry**, behind those recorded before, and for no other. -/
theorem filedAt_fileTargets {evidenceRef : Text} {ref : EvidenceRef} {targets : List Text} {vault : Vault} {raw : Text}
    (h : splitEvidenceRef evidenceRef = .ok ref) (hraw : vault ref.logPath = some raw)
    (hentry : HasEntry raw ref.anchor)
    (hline : ∀ t ∈ freshOf (parseFiledLines raw ref.anchor) targets, SingleLine t) (bytes : RandomBytes) :
    filedAt ref.logPath (anchorOf bytes) (fileTargets evidenceRef targets vault) =
      filedAt ref.logPath (anchorOf bytes) vault ++
        if ref.anchor = anchorOf bytes then freshOf (parseFiledLines raw ref.anchor) targets else [] := by
  by_cases hfresh : freshOf (parseFiledLines raw ref.anchor) targets = []
  · rw [fileTargets_nothing h hraw (Or.inl hfresh), hfresh, ite_self, List.append_nil]
  obtain ⟨ls, before, later, line, hls, -, hlines, hsplit, hhead, hwrite⟩ := fileTargets_writes h hraw hentry hfresh
  obtain ⟨-, -, hanchor⟩ := splitEvidenceRef_ok h
  have hbefore : filedAt ref.logPath (anchorOf bytes) vault = parseFiledLinesFrom (anchorOf bytes) false ls := by
    rw [filedAt, hraw, Option.getD_some, parseFiledLines]
    rcases hlines with h | h
    · rw [h]
    · rw [h, parseFiledLinesFrom_append, parseFiledLinesFrom_silent silent_blank, List.append_nil]
  have hcolon : ':' ∉ ref.anchor := fun hc => absurd (hanchor _ hc) (by decide)
  rw [hbefore, hwrite, filedAt, write_self, Option.getD_some, parseFiledLines, lines_filed _ hls hanchor hline,
    parseFiledLinesFrom_append, parseFiledLinesFrom_silent silent_blank, List.append_nil, parseFiledLinesFrom_append]
  congr 1
  cases hlast : later.all fun line => (entryHeading line).isNone with
  | true =>
    have hin : inEntryAfter (anchorOf bytes) false ls = (ref.anchor == anchorOf bytes) := by
      have hall : inEntryAfter (anchorOf bytes) false (before ++ line :: later) = (ref.anchor == anchorOf bytes) :=
        inEntryAfter_last hhead hlast (anchorOf bytes)
      rw [← hsplit] at hall
      rcases hlines with h | h
      · rwa [h] at hall
      · have hblank : ∀ l ∈ [[]], entryHeading l = none := fun l hl => (inert_blank l hl).1
        rwa [h, inEntryAfter_append, inEntryAfter_no_heading hblank] at hall
    rw [hin]
    have hread := read_own (anchorOf bytes) (ref.anchor == anchorOf bytes)
      (freshOf (parseFiledLines raw ref.anchor) targets)
    simp only [beq_iff_eq] at hread
    exact hread
  | false =>
    exact read_addressed (not_mem_anchorOf (by decide)) hcolon _ _

/-- The anchors of a file's entries are those of its headings. -/
theorem mem_anchors_iff {path date anchor : Text} {ls : List Text} :
    anchor ∈ (memoryEntries path date ls).map (·.anchor) ↔
      ∃ l ∈ ls, (entryHeading l).map (·.anchor) = some anchor := by
  induction ls with
  | nil => simp [memoryEntries, sections]
  | cons l ls ih =>
    simp only [memoryEntries] at ih
    simp only [memoryEntries, sections, List.exists_mem_cons_iff]
    cases entryHeading l with
    | none => simpa using ih
    | some heading =>
      have hanchor : (memoryEntry path date heading
          (ls.takeWhile fun l => (entryHeading l).isNone)).anchor = heading.anchor := rfl
      simp only [List.map_cons, List.mem_cons, ih, hanchor, Option.map_some, Option.some.injEq]
      rw [eq_comm]

theorem hasEntry_iff {path date text anchor : Text} (h : logDate path = some date) :
    HasEntry text anchor ↔ anchor ∈ (parseEvidenceFile path text).map (·.anchor) := by
  rw [parseEvidenceFile_eq h, mem_anchors_iff]
  rfl

/-- What is read back as a target stands on one line. -/
theorem parseFiledLines_singleLine {text anchor t : Text} (h : t ∈ parseFiledLines text anchor) : SingleLine t := by
  have hall : ∀ (ls : List Text) (inEntry : Bool), (∀ l ∈ ls, SingleLine l) →
      ∀ t ∈ parseFiledLinesFrom anchor inEntry ls, SingleLine t := by
    intro ls
    induction ls with
    | nil =>
      intro inEntry hls t ht
      cases ht
    | cons l ls ih =>
      intro inEntry hls t ht
      have hl := hls l List.mem_cons_self
      have hdrop : ∀ n, SingleLine (l.drop n) := fun n hn => hl (List.mem_of_mem_drop hn)
      simp only [parseFiledLinesFrom, List.mem_append, List.mem_ite_nil_right, List.mem_singleton] at ht
      rcases ht with (⟨-, rfl⟩ | ⟨-, rfl⟩) | ht
      · exact hdrop 9
      · exact hdrop _
      · exact ih _ (fun m hm => hls m (List.mem_cons_of_mem _ hm)) t ht
  exact hall _ _ (fun l hl => singleLine_of_mem_lines hl) t h

/-! ## Which targets stand on one line -/

/-- A flattened text has no white space but the blank. -/
theorem mem_oneLine {text : Text} {max : Nat} {c : Char} (h : c ∈ oneLine text max) : c = ' ' ∨ Js.isSpace c = false := by
  have hflat : ∀ c ∈ [' '].intercalate (words text), c = ' ' ∨ Js.isSpace c = false := by
    intro c hc
    rcases mem_intercalate hc with hc | ⟨w, hw, hc⟩
    · exact .inl (List.mem_singleton.1 hc)
    · exact .inr ((not_space_of_mem_words hw).2 c hc).1
  simp only [oneLine] at h
  split at h
  next =>
    rcases List.mem_append.1 h with h | h
    · rcases takeUnits_mem ((List.rdropWhile_prefix _ _).subset h) with h | rfl
      · exact hflat c h
      · exact .inr (by decide)
    · have hall : ∀ c ∈ "…".toList, Js.isSpace c = false := forall_of_all (by decide)
      exact .inr (hall c h)
  next => exact hflat c h

theorem oneLine_singleLine (text : Text) (max : Nat) : SingleLine (oneLine text max) :=
  fun h => absurd (mem_oneLine h) (by decide)

/-- **A log-only target always stands on one line**: its reason is flattened. -/
theorem filedTarget_logOnly (reason : Text) : SingleLine (filedTarget (.logOnly reason)) :=
  append_singleLine (append_singleLine (by decide) (oneLine_singleLine reason 160)) (by decide)

/-- A page's target does so when its path and its lineage do: those are written as they are. -/
theorem filedTarget_page (page : PlacedPage) (hpath : SingleLine page.path)
    (hlineage : ∀ lineage, page.lineage = some lineage → SingleLine lineage) : SingleLine (filedTarget (.page page)) := by
  have hparent : SingleLine (parentRef page.path) := by
    refine append_singleLine (append_singleLine (by decide) ?_) (by decide)
    split
    · intro h
      exact hpath (List.mem_of_mem_take h)
    · exact hpath
  refine append_singleLine (append_singleLine hparent ?_) ?_
  · split
    next lineage hl =>
      have hsome : page.lineage = some lineage := (Option.filter_eq_some_iff.1 hl).1
      exact append_singleLine (append_singleLine (by decide) (hlineage lineage hsome)) (by decide)
    next => exact List.not_mem_nil
  · cases page.rollup <;> cases page.provisional <;> decide

end Zenod.Evidence
