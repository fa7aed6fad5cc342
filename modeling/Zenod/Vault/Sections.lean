/-
Citations on a page of the tree (`engine/treePlacement.ts`): `appendOpsRollup`
keeps one line a day, with a count, under `## Ops rollup`, and `citeOnLeaf`
lists captures under `## Captures`. A page is what the files hold: rows are
found by patterns over the whole text, sections by their headings.

`inserted_new`, `inserted_inside`: a new line is the last of its section, and
what the page showed stays.
-/
import Zenod.Evidence.Filed
import Zenod.Lib.Rows

namespace Zenod.Sections

open Text Evidence

/-! ## The code -/

def opsRollupHeading : Text := "## Ops rollup".toList

def opsRollupIntro : Text :=
  "Agent ops reports (Watcher reads, console decisions), one line per day; the evidence stays in the Log.".toList

def leafCapturesHeading : Text := "## Captures".toList

def leafCapturesIntro : Text :=
  "Captures that first landed on the parent page; the Log entry is the evidence.".toList

/-- `[[${date}#^${anchor}]]`. -/
def citation (date anchor : Text) : Text := "[[".toList ++ date ++ "#^".toList ++ anchor ++ "]]".toList

/-- What stands before the first row that starts with `## `, and from it on: `search(/^## /m)` and two slices. -/
def cutHeading (atStart : Bool) : Text → Text × Text
  | [] => ([], [])
  | c :: t =>
    if atStart && startsWith (c :: t) "## ".toList then ([], c :: t)
    else
      let r := cutHeading (isLineTerminator c) t
      (c :: r.1, r.2)

def appendToSection (raw heading intro line : Text) : Text :=
  match cut ('\n' :: heading ++ ['\n']) raw with
  | none =>
    raw ++ (if endsWithNewline raw then "\n".toList else "\n\n".toList) ++ heading ++ "\n\n".toList ++ intro ++
      "\n\n".toList ++ line ++ "\n".toList
  | some (before, rest) =>
    let (inside, after) := cutHeading true rest
    let section_ := trimEnd inside
    before ++ ('\n' :: heading ++ ['\n']) ++ section_ ++ (if section_ = [] then [] else "\n".toList) ++ line ++
      "\n".toList ++ (if after = [] then [] else "\n".toList ++ after)

/-- `- ${date} ops (`. -/
def opening (date : Text) : Text := "- ".toList ++ date ++ " ops (".toList

/-- The groups of `/^- ${date} ops \((\d+)\): (.*)$/` in a row. -/
def asRollup (date row : Text) : Option (Text × Text) :=
  let behind := row.drop (opening date).length
  let count := behind.takeWhile Char.isDigit
  let rest := behind.dropWhile Char.isDigit
  if startsWith row (opening date) ∧ count ≠ [] ∧ startsWith rest "): ".toList then some (count, rest.drop 3) else none

structure RollupMatch where
  before : Text
  count : Text
  rest : Text
  behind : Text

/-- The matched row. -/
def RollupMatch.row (m : RollupMatch) (date : Text) : Text := opening date ++ m.count ++ "): ".toList ++ m.rest

/-- `lineRe.exec(raw)`: the first row that matches. -/
def findRow (date : Text) (atStart : Bool) : Text → Option RollupMatch
  | [] => none
  | c :: t =>
    match if atStart then asRollup date ((c :: t).takeWhile fun c => !isLineTerminator c) else none with
    | some (count, rest) =>
      some { before := [], count, rest, behind := (c :: t).dropWhile fun c => !isLineTerminator c }
    | none => (findRow date (isLineTerminator c) t).map fun m => { m with before := c :: m.before }

/-- What `$` means in the replacement text of `raw.replace(lineRe, text)`, where the pattern has two groups. -/
def RollupMatch.expand (m : RollupMatch) (date : Text) : Text → Text
  | '$' :: '$' :: t => '$' :: m.expand date t
  | '$' :: '&' :: t => m.row date ++ m.expand date t
  | '$' :: '1' :: t => m.count ++ m.expand date t
  | '$' :: '2' :: t => m.rest ++ m.expand date t
  | '$' :: '0' :: '1' :: t => m.count ++ m.expand date t
  | '$' :: '0' :: '2' :: t => m.rest ++ m.expand date t
  | '$' :: c :: t =>
    if c.toNat = 0x60 then m.before ++ m.expand date t
    else if c.toNat = 0x27 then m.behind ++ m.expand date t
    else '$' :: m.expand date (c :: t)
  | c :: t => c :: m.expand date t
  | [] => []

/-- `- ${date} ops (${Number(existing[1]) + 1}): ${existing[2]}, ${citation}`. -/
def RollupMatch.longer (m : RollupMatch) (ref : EvidenceRef) : Text :=
  opening ref.date ++ Nat.toDigits 10 (Nat.ofDigitChars 10 m.count 0 + 1) ++ "): ".toList ++ m.rest ++ ", ".toList ++
    citation ref.date ref.anchor

/-- `- ${date} ops (1): ${citation}`. -/
def firstRow (ref : EvidenceRef) : Text :=
  "- ".toList ++ ref.date ++ " ops (1): ".toList ++ citation ref.date ref.anchor

/-- What `appendOpsRollup` writes to the page that is chosen, if it does. -/
def appendOpsRollup (raw evidenceRef : Text) : Except EvidenceError (Option Text) := do
  let ref ← splitEvidenceRef evidenceRef
  if includes raw (citation ref.date ref.anchor) then return none
  match findRow ref.date true raw with
  | some m => return some (m.before ++ m.expand ref.date (m.longer ref) ++ m.behind)
  | none => return some (appendToSection raw opsRollupHeading opsRollupIntro (firstRow ref))

/-- `- ${date} · ${oneLine(summary, 140) || "capture"} ${citation}`. -/
def captureRow (ref : EvidenceRef) (summary : Text) : Text :=
  let text := oneLine summary 140
  "- ".toList ++ ref.date ++ " · ".toList ++ (if text = [] then "capture".toList else text) ++ " ".toList ++
    citation ref.date ref.anchor

/-- What `citeOnLeaf` writes to the page that is chosen, if it does. -/
def citeOnLeaf (raw evidenceRef summary : Text) : Except EvidenceError (Option Text) := do
  let ref ← splitEvidenceRef evidenceRef
  if includes raw (ref.date ++ "#^".toList ++ ref.anchor) then return none
  return some (appendToSection raw leafCapturesHeading leafCapturesIntro (captureRow ref summary))

/-- A call that chooses the page. -/
inductive Call
  | rollup (evidenceRef : Text)
  | cite (evidenceRef summary : Text)

def Call.evidenceRef : Call → Text
  | .rollup evidenceRef => evidenceRef
  | .cite evidenceRef _ => evidenceRef

def Call.writes (raw : Text) : Call → Except EvidenceError (Option Text)
  | .rollup evidenceRef => appendOpsRollup raw evidenceRef
  | .cite evidenceRef summary => citeOnLeaf raw evidenceRef summary

/-- The page after a call: nothing is written where the capture is cited already, or the call throws. -/
def step (raw : Text) (call : Call) : Text :=
  match call.writes raw with
  | .ok (some next) => next
  | _ => raw

def run (raw : Text) (calls : List Call) : Text := calls.foldl step raw

/-! ## Headings -/

theorem cutHeading_append (atStart : Bool) (t : Text) : (cutHeading atStart t).1 ++ (cutHeading atStart t).2 = t := by
  induction t generalizing atStart with
  | nil => rfl
  | cons c t ih =>
    simp only [cutHeading]
    split
    next => rfl
    next => exact congrArg (c :: ·) (ih _)

theorem cutHeading_after (atStart : Bool) (t : Text) :
    (cutHeading atStart t).2 = [] ∨ "## ".toList <+: (cutHeading atStart t).2 := by
  induction t generalizing atStart with
  | nil => exact .inl rfl
  | cons c t ih =>
    simp only [cutHeading]
    split
    next h =>
      rw [Bool.and_eq_true] at h
      exact .inr (startsWith_iff.1 h.2)
    next => exact ih _

/-- What stands before a heading ends a row. -/
theorem cutHeading_meet (atStart : Bool) (t : Text) : (cutHeading atStart t).2 = [] ∨
    ((cutHeading atStart t).1 = [] ∧ atStart = true) ∨
      ∃ s c, isLineTerminator c = true ∧ (cutHeading atStart t).1 = s ++ [c] := by
  induction t generalizing atStart with
  | nil => exact .inl rfl
  | cons c t ih =>
    simp only [cutHeading]
    split
    next h =>
      rw [Bool.and_eq_true] at h
      exact .inr (.inl ⟨rfl, h.1⟩)
    next =>
      rcases ih (isLineTerminator c) with h | ⟨hnil, hc⟩ | ⟨s, d, hd, h⟩
      · exact .inl h
      · exact .inr (.inr ⟨[], c, hc, by simp only [hnil]; rfl⟩)
      · exact .inr (.inr ⟨c :: s, d, hd, by simp only [h]; rfl⟩)

theorem rows_cons_of_not {c : Char} (hc : isLineTerminator c = false) (t : Text) :
    rows (c :: t) = (rows t).modifyHead (c :: ·) := by
  rw [rows, List.splitOnP_cons_eq_if_modifyHead, hc]
  rfl

theorem prefix_of_head_rows {t r : Text} (h : (rows t).head? = some r) : r <+: t := by
  induction t using rows_induction with
  | single t ht =>
    rw [rows_of_single ht, List.head?_cons, Option.some.injEq] at h
    exact h ▸ List.prefix_rfl
  | more s c t hs hc ih =>
    rw [rows_append s t hc, rows_of_single hs, List.singleton_append, List.head?_cons, Option.some.injEq] at h
    exact h ▸ List.prefix_append _ _

/-- No row before the first heading starts like one; the first row counts where the text starts a row. -/
theorem cutHeading_rows (atStart : Bool) (t : Text) :
    (∀ r ∈ (rows (cutHeading atStart t).1).tail, ¬"## ".toList <+: r) ∧
      (atStart = true → ∀ r ∈ (rows (cutHeading atStart t).1).head?, ¬"## ".toList <+: r) := by
  have hnil : ¬"## ".toList <+: ([] : Text) := by decide
  induction t generalizing atStart with
  | nil =>
    refine ⟨fun r hr => absurd hr List.not_mem_nil, fun _ r hr => ?_⟩
    rw [← Option.some.inj hr]
    exact hnil
  | cons c t ih =>
    by_cases hheading : (atStart && startsWith (c :: t) "## ".toList) = true
    · rw [cutHeading, if_pos hheading]
      refine ⟨fun r hr => absurd hr List.not_mem_nil, fun _ r hr => ?_⟩
      rw [← Option.some.inj hr]
      exact hnil
    · rw [cutHeading, if_neg hheading]
      obtain ⟨htail, hhead⟩ := ih (isLineTerminator c)
      have hpre : (cutHeading (isLineTerminator c) t).1 <+: t := ⟨_, cutHeading_append (isLineTerminator c) t⟩
      obtain ⟨first, later, hrows⟩ : ∃ first later, rows (cutHeading (isLineTerminator c) t).1 = first :: later :=
        List.exists_cons_of_ne_nil (List.splitOnP_ne_nil isLineTerminator _)
      rw [hrows] at htail hhead
      cases hc : isLineTerminator c with
      | true =>
        rw [hc] at hrows hhead
        simp only [rows_cons hc, hrows]
        refine ⟨fun r hr => ?_, fun _ r hr => ?_⟩
        · rcases List.mem_cons.1 hr with rfl | hr
          · exact hhead rfl r rfl
          · exact htail r hr
        · rw [← Option.some.inj hr]
          exact hnil
      | false =>
        rw [hc] at hrows hpre
        simp only [rows_cons_of_not hc, hrows]
        have hfirst : first <+: t := (prefix_of_head_rows (by rw [hrows]; rfl)).trans hpre
        refine ⟨htail, fun hstart r hr => ?_⟩
        rw [← Option.some.inj hr]
        intro hstarts
        refine hheading ?_
        rw [hstart, Bool.true_and]
        exact startsWith_iff.2 (hstarts.trans ((List.prefix_cons_inj c).2 hfirst))

theorem cutHeading_true_rows (t : Text) : ∀ r ∈ rows (cutHeading true t).1, ¬"## ".toList <+: r := by
  intro r hr
  obtain ⟨first, later, hrows⟩ : ∃ first later, rows (cutHeading true t).1 = first :: later :=
    List.exists_cons_of_ne_nil (List.splitOnP_ne_nil isLineTerminator _)
  obtain ⟨htail, hhead⟩ := cutHeading_rows true t
  rw [hrows] at hr htail hhead
  rcases List.mem_cons.1 hr with rfl | hr
  · exact hhead rfl r rfl
  · exact htail r hr

/-! ## A line put in a section -/

/-- The heading, the introduction and the line are rows. -/
structure Block (heading intro line : Text) : Prop where
  headingSingle : Single heading
  introSingle : Single intro
  lineSingle : Single line
  plain : ¬"## ".toList <+: intro
  ne_nil : line ≠ []
  trimmed : trimEnd line = line

/-- The line is below the heading, no other heading is between them, and blank rows alone are behind it up to the next
heading or the end. -/
def Below (heading line page : Text) : Prop :=
  ∃ pre mid blank later, rows page = pre ++ heading :: (mid ++ line :: (blank ++ later)) ∧
    (∀ r ∈ mid, ¬"## ".toList <+: r) ∧ (∀ r ∈ blank, r = []) ∧ ∀ r ∈ later.head?, "## ".toList <+: r

/-- What a new line does to the rows of a page. -/
structure Inserted (raw heading intro line next : Text) : Prop where
  below : Below heading line next
  origin : ∀ r ∈ rows next, r = [] ∨ r = heading ∨ r = intro ∨ r = line ∨ ∃ q ∈ rows raw, r = q ∨ r = trimEnd q
  shown : ∃ front new back, printed raw = front ++ back ∧ printed next = front ++ new ++ back ∧ line ∈ new

theorem rows_newline_append (s t : Text) : rows (s ++ "\n".toList ++ t) = rows s ++ rows t := by
  rw [List.append_assoc]
  exact rows_append s t (by decide)

theorem rows_blank_append (s t : Text) : rows (s ++ "\n\n".toList ++ t) = rows s ++ [] :: rows t := by
  rw [List.append_assoc]
  show rows (s ++ '\n' :: '\n' :: t) = _
  rw [rows_append s _ (by decide), rows_cons (by decide)]

theorem rows_newline (s : Text) : rows (s ++ "\n".toList) = rows s ++ [[]] := rows_append s [] (by decide)

/-- A section of its own at the end of the page. -/
theorem inserted_new {raw heading intro line gap : Text} (hb : Block heading intro line)
    (hgap : gap = "\n".toList ∨ gap = "\n\n".toList) :
    Inserted raw heading intro line
      (raw ++ gap ++ heading ++ "\n\n".toList ++ intro ++ "\n\n".toList ++ line ++ "\n".toList) := by
  obtain ⟨fill, hfill, hrows⟩ : ∃ fill : List Text, (∀ r ∈ fill, r = []) ∧
      rows (raw ++ gap ++ heading ++ "\n\n".toList ++ intro ++ "\n\n".toList ++ line ++ "\n".toList) =
        rows raw ++ fill ++ [heading, [], intro, [], line, []] := by
    rw [rows_newline, rows_blank_append, rows_blank_append]
    rcases hgap with rfl | rfl
    · refine ⟨[], fun r hr => absurd hr List.not_mem_nil, ?_⟩
      rw [rows_newline_append, rows_of_single hb.headingSingle, rows_of_single hb.introSingle,
        rows_of_single hb.lineSingle]
      simp
    · refine ⟨[[]], fun r hr => List.mem_singleton.1 hr, ?_⟩
      rw [rows_blank_append, rows_of_single hb.headingSingle, rows_of_single hb.introSingle,
        rows_of_single hb.lineSingle]
      simp
  refine ⟨⟨rows raw ++ fill, [[], intro, []], [[]], [], ?_, ?_, ?_, ?_⟩, ?_, ?_⟩
  · rw [hrows]
    rfl
  · intro r hr
    simp only [List.mem_cons, List.not_mem_nil, or_false] at hr
    rcases hr with rfl | rfl | rfl
    · decide
    · exact hb.plain
    · decide
  · exact fun r hr => List.mem_singleton.1 hr
  · exact fun r hr => absurd hr (by simp)
  · intro r hr
    rw [hrows] at hr
    simp only [List.mem_append, List.mem_cons, List.not_mem_nil, or_false] at hr
    rcases hr with (hr | hr) | rfl | rfl | rfl | rfl | rfl | rfl
    · exact .inr (.inr (.inr (.inr ⟨r, hr, .inl rfl⟩)))
    · exact .inl (hfill r hr)
    · exact .inr (.inl rfl)
    · exact .inl rfl
    · exact .inr (.inr (.inl rfl))
    · exact .inl rfl
    · exact .inr (.inr (.inr (.inl rfl)))
    · exact .inl rfl
  · refine ⟨printed raw, shown [heading, [], intro, [], line, []], [], ?_, ?_, ?_⟩
    · rw [List.append_nil]
    · rw [printed, hrows, shown_append, shown_append, shown_of_blank hfill, List.append_nil, List.append_nil]
      rfl
    · refine List.mem_filter.2 ⟨List.mem_map.2 ⟨line, by simp, hb.trimmed⟩, ?_⟩
      simpa using hb.ne_nil

/-- The rows of a section's text, and what follows it. -/
theorem section_rows {inside after : Text} (hmeet : after = [] ∨ inside = [] ∨
    ∃ s c, isLineTerminator c = true ∧ inside = s ++ [c]) {r : Text}
    (h : r ∈ rows inside ∨ (r ∈ rows after ∧ after ≠ [])) :
    r = [] ∨ r ∈ rows (inside ++ after) := by
  rcases hmeet with rfl | rfl | ⟨s, c, hc, rfl⟩
  · rw [List.append_nil]
    exact .inr (h.resolve_right fun h => h.2 rfl)
  · rcases h with h | h
    · exact .inl (List.mem_singleton.1 h)
    · exact .inr h.1
  · rw [List.append_assoc, List.singleton_append, rows_append s after hc]
    rcases h with h | h
    · rw [rows_append s [] hc] at h
      rcases List.mem_append.1 h with h | h
      · exact .inr (List.mem_append_left _ h)
      · exact .inl (List.mem_singleton.1 h)
    · exact .inr (List.mem_append_right _ h.1)

/-- The line at the end of the section that there is. -/
theorem inserted_inside {before rest heading intro line : Text} (hb : Block heading intro line) :
    Inserted (before ++ ('\n' :: heading ++ ['\n']) ++ rest) heading intro line
      (before ++ ('\n' :: heading ++ ['\n']) ++ trimEnd (cutHeading true rest).1 ++
        (if trimEnd (cutHeading true rest).1 = [] then [] else "\n".toList) ++ line ++ "\n".toList ++
        (if (cutHeading true rest).2 = [] then [] else "\n".toList ++ (cutHeading true rest).2)) := by
  generalize hcut : cutHeading true rest = r
  obtain ⟨inside, after⟩ := r
  have hrest : inside ++ after = rest := by
    have := cutHeading_append true rest
    rwa [hcut] at this
  have hafter : after = [] ∨ "## ".toList <+: after := by
    have := cutHeading_after true rest
    rwa [hcut] at this
  have hmeet : after = [] ∨ inside = [] ∨ ∃ s c, isLineTerminator c = true ∧ inside = s ++ [c] := by
    have := cutHeading_meet true rest
    rw [hcut] at this
    exact this.imp_right fun h => h.imp_left And.left
  have hplain : ∀ r ∈ rows inside, ¬"## ".toList <+: r := by
    have := cutHeading_true_rows rest
    rwa [hcut] at this
  simp only
  have hfront : ∀ t : Text, rows (before ++ ('\n' :: heading ++ ['\n']) ++ t) = rows before ++ heading :: rows t := by
    intro t
    have : before ++ ('\n' :: heading ++ ['\n']) ++ t = before ++ '\n' :: (heading ++ '\n' :: t) := by simp
    rw [this, rows_append before _ (by decide), rows_append heading t (by decide), rows_of_single hb.headingSingle]
    rfl
  obtain ⟨mid, hmid, hmidRows⟩ : ∃ mid : List Text, (mid = [] ∧ trimEnd inside = [] ∨ mid = rows (trimEnd inside)) ∧
      ∀ t, rows (trimEnd inside ++ (if trimEnd inside = [] then [] else "\n".toList) ++ t) = mid ++ rows t := by
    by_cases hblank : trimEnd inside = []
    · exact ⟨[], .inl ⟨rfl, hblank⟩, fun t => by rw [if_pos hblank, hblank]; rfl⟩
    · refine ⟨rows (trimEnd inside), .inr rfl, fun t => ?_⟩
      rw [if_neg hblank, rows_newline_append]
  obtain ⟨later, hlater, hlaterRows⟩ : ∃ later : List Text,
      (later = [] ∧ after = [] ∨ later = rows after ∧ after ≠ []) ∧
      rows (line ++ "\n".toList ++ (if after = [] then [] else "\n".toList ++ after)) = line :: ([[]] ++ later) := by
    by_cases hnone : after = []
    · refine ⟨[], .inl ⟨rfl, hnone⟩, ?_⟩
      rw [if_pos hnone, List.append_nil, rows_newline, rows_of_single hb.lineSingle]
      rfl
    · refine ⟨rows after, .inr ⟨rfl, hnone⟩, ?_⟩
      rw [if_neg hnone, rows_newline_append, rows_of_single hb.lineSingle]
      show line :: rows ('\n' :: after) = _
      rw [rows_cons (by decide)]
      rfl
  have hrows : rows (before ++ ('\n' :: heading ++ ['\n']) ++ trimEnd inside ++
      (if trimEnd inside = [] then [] else "\n".toList) ++ line ++ "\n".toList ++
      (if after = [] then [] else "\n".toList ++ after)) =
      rows before ++ heading :: (mid ++ line :: ([[]] ++ later)) := by
    have hassoc : before ++ ('\n' :: heading ++ ['\n']) ++ trimEnd inside ++
        (if trimEnd inside = [] then [] else "\n".toList) ++ line ++ "\n".toList ++
        (if after = [] then [] else "\n".toList ++ after) =
        before ++ ('\n' :: heading ++ ['\n']) ++ (trimEnd inside ++ (if trimEnd inside = [] then [] else "\n".toList) ++
          (line ++ "\n".toList ++ (if after = [] then [] else "\n".toList ++ after))) := by
      simp only [List.append_assoc]
    rw [hassoc, hfront, hmidRows, hlaterRows]
  have hmidPlain : ∀ r ∈ mid, ∃ q ∈ rows inside, r = q ∨ r = trimEnd q := by
    intro r hr
    rcases hmid with ⟨rfl, -⟩ | rfl
    · cases hr
    · exact mem_rows_trimEnd hr
  refine ⟨⟨rows before, mid, [[]], later, hrows, ?_, ?_, ?_⟩, ?_, ?_⟩
  · intro r hr
    obtain ⟨q, hq, rfl | rfl⟩ := hmidPlain r hr
    · exact hplain r hq
    · exact fun h => hplain q hq (h.trans (prefix_trimEnd q))
  · exact fun r hr => List.mem_singleton.1 hr
  · intro r hr
    rcases hlater with ⟨rfl, -⟩ | ⟨rfl, hne⟩
    · cases hr
    · have hheading := hafter.resolve_left hne
      obtain ⟨t, ht⟩ := hheading
      have hpre := prefix_of_head_rows hr
      -- The row goes on as far as the text has no terminator, and the heading's mark has none.
      have hstart : rows after = (rows t).modifyHead ("## ".toList ++ ·) := by
        rw [← ht]
        show rows ('#' :: '#' :: ' ' :: t) = _
        rw [rows_cons_of_not (by decide), rows_cons_of_not (by decide), rows_cons_of_not (by decide)]
        cases rows t <;> rfl
      rw [hstart] at hr
      cases hrt : rows t with
      | nil => exact absurd hrt (List.splitOnP_ne_nil _ _)
      | cons first more =>
        rw [hrt] at hr
        rw [← Option.some.inj hr]
        exact List.prefix_append _ _
  · intro r hr
    have hraw : ∀ q ∈ rows (inside ++ after), q ∈ rows (before ++ ('\n' :: heading ++ ['\n']) ++ rest) := by
      intro q hq
      rw [hfront, ← hrest]
      exact List.mem_append_right _ (List.mem_cons_of_mem _ hq)
    rw [hrows] at hr
    simp only [List.mem_append, List.mem_cons, List.not_mem_nil, or_false] at hr
    rcases hr with hr | rfl | hr | rfl | rfl | hr
    · refine .inr (.inr (.inr (.inr ⟨r, ?_, .inl rfl⟩)))
      rw [hfront]
      exact List.mem_append_left _ hr
    · exact .inr (.inl rfl)
    · obtain ⟨q, hq, hrq⟩ := hmidPlain r hr
      rcases section_rows hmeet (.inl hq) with rfl | hq
      · exact .inl (by rcases hrq with rfl | rfl <;> rfl)
      · exact .inr (.inr (.inr (.inr ⟨q, hraw q hq, hrq⟩)))
    · exact .inr (.inr (.inr (.inl rfl)))
    · exact .inl rfl
    · rcases hlater with ⟨rfl, -⟩ | ⟨rfl, hne⟩
      · cases hr
      · rcases section_rows hmeet (.inr ⟨hr, hne⟩) with rfl | hq
        · exact .inl rfl
        · exact .inr (.inr (.inr (.inr ⟨r, hraw r hq, .inl rfl⟩)))
  · have hmidShown : shown mid = printed inside := by
      rcases hmid with ⟨rfl, hblank⟩ | rfl
      · rw [← printed_trimEnd, hblank]
        rfl
      · exact printed_trimEnd inside
    have hlaterShown : shown later = printed after := by
      rcases hlater with ⟨rfl, rfl⟩ | ⟨rfl, -⟩
      · rfl
      · rfl
    have hwhole : printed (inside ++ after) = printed inside ++ printed after := by
      refine printed_append ?_
      rcases hmeet with h | h | h
      · exact .inr (.inl h)
      · exact .inl h
      · exact .inr (.inr (.inl h))
    refine ⟨printed before ++ shown [heading] ++ printed inside, [line], printed after, ?_, ?_,
      List.mem_singleton_self line⟩
    · rw [printed, hfront, shown_append, shown_cons, ← hrest]
      show printed before ++ (shown [heading] ++ printed (inside ++ after)) = _
      rw [hwhole, List.append_assoc, List.append_assoc]
    · rw [printed, hrows, shown_append, shown_cons heading, shown_append, shown_cons line, shown_append [[]], hmidShown,
        hlaterShown, shown_single hb.ne_nil hb.trimmed, shown_of_blank fun r hr => List.mem_singleton.1 hr]
      simp only [List.append_assoc, List.nil_append]
      rfl

end Zenod.Sections
