/-
What `appendEvidence` writes, `parseEvidenceFile` reads: a day file's entries
after the call are those before it and the capture's own
(`parse_appendEvidence`), whatever text the file had and whatever the capture
holds.

A heading line is recognised whatever the title holds, because the anchor
behind its last mark has no space (`entryHeading_heading`). Under it, content
stands behind `> ` and cannot be taken for a heading or a field.
-/
import Zenod.Evidence.Log

namespace Zenod.Evidence

open Text

/-! ## The characters of anchors, dates and times -/

theorem hexDigit_mem {n : Nat} (h : n < 16) : Js.hexDigit n ∈ hex := by
  have hall : ∀ n ∈ List.range 16, Js.hexDigit n ∈ hex := by decide
  exact hall n (List.mem_range.2 h)

theorem hexOf_mem {byte : UInt8} {c : Char} (h : c ∈ hexOf byte) : c ∈ hex := by
  have hlt : byte.toNat < 256 := byte.toNat_lt
  simp only [hexOf, List.mem_cons, List.not_mem_nil, or_false] at h
  rcases h with rfl | rfl
  · exact hexDigit_mem (by omega)
  · exact hexDigit_mem (by omega)

def anchorAlphabet : Text := "e-0123456789abcdef".toList

theorem hex_subset {c : Char} (h : c ∈ hex) : c ∈ anchorAlphabet := by
  have hall : ∀ c ∈ hex, c ∈ anchorAlphabet := forall_of_all (by decide)
  exact hall c h

theorem anchorOf_eq (bytes : RandomBytes) :
    anchorOf bytes = 'e' :: '-' :: (hexOf bytes.1 ++ hexOf bytes.2.1 ++ hexOf bytes.2.2) := rfl

theorem hexes_mem {bytes : RandomBytes} {c : Char} (h : c ∈ hexOf bytes.1 ++ hexOf bytes.2.1 ++ hexOf bytes.2.2) :
    c ∈ hex := by
  simp only [List.mem_append] at h
  rcases h with (h | h) | h <;> exact hexOf_mem h

theorem anchorOf_mem {bytes : RandomBytes} {c : Char} (h : c ∈ anchorOf bytes) : c ∈ anchorAlphabet := by
  rw [anchorOf_eq, List.mem_cons, List.mem_cons] at h
  rcases h with rfl | rfl | h
  · decide
  · decide
  · exact hex_subset (hexes_mem h)

theorem not_mem_anchorOf {bytes : RandomBytes} {c : Char} (h : c ∉ anchorAlphabet) : c ∉ anchorOf bytes :=
  fun hc => h (anchorOf_mem hc)

theorem anchorOf_not_space {bytes : RandomBytes} {c : Char} (h : c ∈ anchorOf bytes) : Js.isSpace c = false := by
  have hall : ∀ c ∈ anchorAlphabet, Js.isSpace c = false := forall_of_all (by decide)
  exact hall c (anchorOf_mem h)

theorem utf16Length_eq {t : Text} (h : ∀ c ∈ t, c.toNat < 0x10000) : utf16Length t = t.length := by
  induction t with
  | nil => rfl
  | cons c t ih =>
    have hc : c.toNat < 0x10000 := h c List.mem_cons_self
    have ht := ih fun d hd => h d (List.mem_cons_of_mem _ hd)
    simp only [utf16Length] at ht ⊢
    rw [List.map_cons, List.sum_cons, if_pos hc, ht, List.length_cons]
    omega

theorem validAnchor_anchorOf (bytes : RandomBytes) : validAnchor (anchorOf bytes) = true := by
  have hbmp : ∀ c ∈ anchorAlphabet, c.toNat < 0x10000 := forall_of_all (by decide)
  have hlow : ∀ c ∈ hex, c.toLower ∈ hex := forall_of_all (by decide)
  have hlen : utf16Length (anchorOf bytes) = 8 := by
    rw [utf16Length_eq fun c hc => hbmp c (anchorOf_mem hc)]
    rfl
  have hall : ((anchorOf bytes).drop 2).all (fun c => c.toLower ∈ hex) = true := by
    rw [anchorOf_eq, List.drop_succ_cons, List.drop_succ_cons, List.drop_zero, List.all_eq_true]
    intro c hc
    exact decide_eq_true (hlow c (hexes_mem hc))
  have hstart : startsWith (anchorOf bytes) "e-".toList = true := rfl
  simp only [validAnchor, hlen, hall, hstart]
  rfl

theorem padStart_length (width n : Nat) : (padStart width n).length = width := by simp [padStart]

def dateAlphabet : Text := "+-0123456789".toList

theorem padStart_mem {width n : Nat} {c : Char} (h : c ∈ padStart width n) : c ∈ "0123456789".toList := by
  simp only [padStart, List.mem_map] at h
  obtain ⟨i, -, rfl⟩ := h
  have hall : ∀ n ∈ List.range 10, Js.hexDigit n ∈ "0123456789".toList := by decide
  exact hall _ (List.mem_range.2 (Nat.mod_lt _ (by decide)))

theorem todayString_length (now : Moment) : (todayString now).length = 10 := by
  simp only [todayString, isoYear]
  split <;> simp [padStart_length]

theorem todayString_mem {now : Moment} {c : Char} (h : c ∈ todayString now) : c ∈ dateAlphabet := by
  have hdigit : ∀ c ∈ "0123456789".toList, c ∈ dateAlphabet := forall_of_all (by decide)
  have hyear : ∀ c ∈ isoYear now.year, c ∈ dateAlphabet := by
    intro c hc
    simp only [isoYear] at hc
    split at hc
    · exact hdigit c (padStart_mem hc)
    · rcases List.mem_cons.1 hc with rfl | hc
      · split <;> decide
      · exact hdigit c (padStart_mem hc)
  have hmem := List.mem_of_mem_take h
  simp only [List.mem_append] at hmem
  rcases hmem with (((h | h) | h) | h) | h
  · exact hyear c h
  · obtain rfl : c = '-' := by simpa using h
    decide
  · exact hdigit c (padStart_mem h)
  · obtain rfl : c = '-' := by simpa using h
    decide
  · exact hdigit c (padStart_mem h)

/-- A path made of a date of ten ASCII characters gives the date back. -/
theorem logDate_of_length {date : Text} (hlen : date.length = 10) (hbmp : ∀ c ∈ date, c.toNat < 0x10000) :
    logDate (logPathOf date) = some date := by
  have hunits : utf16Length date = 10 := by rw [utf16Length_eq hbmp, hlen]
  have hstart : startsWith (logPathOf date) "Log/".toList = true := rfl
  have hend : ".md".toList.isSuffixOf (logPathOf date) = true := by
    rw [List.isSuffixOf_iff_suffix]
    exact ⟨"Log/".toList ++ date, rfl⟩
  have hdate : ((logPathOf date).drop 4).rdrop 3 = date := by
    have hdrop : (logPathOf date).drop 4 = date ++ ".md".toList := rfl
    rw [hdrop]
    exact List.rdrop_append_length
  simp only [logDate, hstart, hend, hdate, hunits, Bool.and_self, if_true]

theorem logDate_logPathOf (now : Moment) : logDate (logPathOf (todayString now)) = some (todayString now) := by
  have hbmp : ∀ c ∈ dateAlphabet, c.toNat < 0x10000 := forall_of_all (by decide)
  exact logDate_of_length (todayString_length now) fun c hc => hbmp c (todayString_mem hc)

theorem timeOf_mem {now : Moment} {c : Char} (h : c ∈ timeOf now) : c ∈ "0123456789:".toList := by
  have hdigit : ∀ c ∈ "0123456789".toList, c ∈ "0123456789:".toList := forall_of_all (by decide)
  simp only [timeOf, List.mem_append] at h
  rcases h with (h | h) | h
  · exact hdigit c (padStart_mem h)
  · obtain rfl : c = ':' := by simpa using h
    decide
  · exact hdigit c (padStart_mem h)

/-! ## Titles and headings -/

theorem takeUnits_head (n : Nat) (c : Char) (t : Text) : ∃ t', takeUnits (n + 2) (c :: t) = c :: t' := by
  by_cases h : c.toNat < 0x10000
  · exact ⟨takeUnits (n + 1) t, by simp [takeUnits, h]⟩
  · exact ⟨takeUnits n t, by simp [takeUnits, h]⟩

theorem takeUnits_mem {n : Nat} {t : Text} {c : Char} (h : c ∈ takeUnits n t) :
    c ∈ t ∨ c = Char.ofNat 0xfffd := by
  fun_induction takeUnits n t with
  | case1 => cases h
  | case2 => cases h
  | case3 n d t hd ih =>
    rcases List.mem_cons.1 h with rfl | h
    · exact Or.inl List.mem_cons_self
    · exact (ih h).imp_left (List.mem_cons_of_mem _)
  | case4 d t hd => exact Or.inr (by simpa using h)
  | case5 d t hd n ih =>
    rcases List.mem_cons.1 h with rfl | h
    · exact Or.inl List.mem_cons_self
    · exact (ih h).imp_left (List.mem_cons_of_mem _)

theorem titleWords_spec (content : Text) :
    let ws := (words ((lines content).headD [])).take 8
    Tight ([' '].intercalate ws) ∧ SingleLine ([' '].intercalate ws) := by
  intro ws
  have hword : ∀ w ∈ ws, w ≠ [] ∧ ∀ c ∈ w, Js.isSpace c = false := by
    intro w hw
    obtain ⟨hne, hc⟩ := not_space_of_mem_words (List.mem_of_mem_take hw)
    exact ⟨hne, fun c h => (hc c h).1⟩
  refine ⟨tight_intercalate fun w hw => ⟨tight_of_forall (hword w hw).2, (hword w hw).1⟩, ?_⟩
  intro hnl
  rcases mem_intercalate hnl with h | ⟨w, hw, hc⟩
  · exact absurd h (by decide)
  · exact absurd ((hword w hw).2 _ hc) (by decide)

/-- A title starts and ends with something, and stands on one line. -/
theorem entryTitle_spec (content : Text) :
    entryTitle content ≠ [] ∧ Tight (entryTitle content) ∧ SingleLine (entryTitle content) := by
  obtain ⟨htight, hline⟩ := titleWords_spec content
  simp only [entryTitle]
  generalize [' '].intercalate ((words ((lines content).headD [])).take 8) = w at htight hline ⊢
  cases w with
  | nil => exact ⟨by decide, tight_of_forall (forall_of_all (by decide)), by decide⟩
  | cons c w =>
    split
    next hlong =>
      -- A cut title keeps its head and ends in a dot.
      obtain ⟨w', hw'⟩ := takeUnits_head 55 c w
      have hcut : takeUnits 57 (c :: w) ++ "...".toList = (c :: w') ++ [] ++ "...".toList := by
        rw [hw', List.append_nil]
      have hhead : Tight [c] := tight_of_forall fun d hd => by
        obtain rfl : d = c := by simpa using hd
        exact htight.1 d rfl
      have htight' : Tight (takeUnits 57 (c :: w) ++ "...".toList) := by
        have hdots : Tight "...".toList := tight_of_forall (forall_of_all (by decide))
        have := hhead.append hdots (List.cons_ne_nil c []) (by decide) w'
        rw [hcut]
        simpa using this
      refine ⟨by simp [hw'], by simpa [hw'] using htight', ?_⟩
      have hmem : SingleLine (takeUnits 57 (c :: w) ++ "...".toList) := by
        intro h
        rcases List.mem_append.1 h with h | h
        · rcases takeUnits_mem h with h | h
          · exact hline h
          · exact absurd h (by decide)
        · exact absurd h (by decide)
      simpa [hw'] using hmem
    next hshort => simpa using ⟨htight, hline⟩

theorem timeOf_spec (now : Moment) :
    timeOf now ≠ [] ∧ (∀ c ∈ timeOf now, Js.isSpace c = false) ∧ ' ' ∉ timeOf now ∧ SingleLine (timeOf now) := by
  have hall : ∀ c ∈ "0123456789:".toList, Js.isSpace c = false := forall_of_all (by decide)
  have hspace : ∀ c ∈ timeOf now, Js.isSpace c = false := fun c hc => hall c (timeOf_mem hc)
  refine ⟨by simp [timeOf], hspace, ?_, ?_⟩
  · intro h
    exact absurd (hspace _ h) (by decide)
  · intro h
    exact absurd (hspace _ h) (by decide)

theorem entryHeading_heading (c : Capture) :
    entryHeading c.heading = some { anchor := c.anchor, title := entryTitle c.content, time := timeOf c.now } := by
  obtain ⟨htne, htspace, htmem, -⟩ := timeOf_spec c.now
  obtain ⟨hne, htight, -⟩ := entryTitle_spec c.content
  have hdef : c.heading = "## ".toList ++ timeOf c.now ++ " ".toList ++ entryTitle c.content ++ "  ^".toList ++
      c.anchor := rfl
  generalize entryTitle c.content = title at hne htight hdef ⊢
  generalize timeOf c.now = time at htne htspace htmem hdef ⊢
  have hanchor : trim c.anchor = c.anchor := (tight_of_forall fun d hd => anchorOf_not_space hd).trim_eq
  have hmark : ' ' ∉ '^' :: c.anchor := by
    rw [List.mem_cons, not_or]
    exact ⟨by decide, not_mem_anchorOf (by decide)⟩
  have hline : c.heading = ("## ".toList ++ (time ++ [' '] ++ title) ++ [' ']) ++ ' ' :: '^' :: c.anchor := by
    rw [hdef]
    simp
  have hsplit := splitLast_append ("## ".toList ++ (time ++ [' '] ++ title) ++ [' ']) hmark
  have hstart : startsWith c.heading "## ".toList = true := rfl
  have hdrop : ("## ".toList ++ (time ++ [' '] ++ title) ++ [' ']).drop 3 = time ++ [' '] ++ title ++ [' '] := rfl
  have htrim : trim (time ++ [' '] ++ title ++ [' ']) = time ++ ' ' :: title := by
    have := (tight_of_forall htspace).append htight htne hne [' ']
    rw [this.trim_append_space (by simp)]
    simp
  have hmem : ' ' ∈ time ++ ' ' :: title := List.mem_append_right _ List.mem_cons_self
  have hpass : ∀ d ∈ time, decide (d ≠ ' ') = true := by
    intro d hd
    exact decide_eq_true fun h => htmem (h ▸ hd)
  have htake : (time ++ ' ' :: title).takeWhile (· ≠ ' ') = time := by
    rw [List.takeWhile_append_of_pos hpass]
    simp
  have hrest : ((time ++ ' ' :: title).dropWhile (· ≠ ' ')).drop 1 = title := by
    rw [List.dropWhile_append_of_pos hpass]
    simp
  have hvalid : validAnchor c.anchor = true := validAnchor_anchorOf c.bytes
  rw [entryHeading, if_pos hstart, hline, hsplit]
  dsimp only
  rw [hanchor, if_pos hvalid, hdrop, htrim, if_pos hmem, htake, hrest, htight.trim_eq]

/-! ## The lines under a heading -/

theorem entryHeading_eq_none {line : Text} (h : line.head? ≠ some '#') : entryHeading line = none := by
  have hstart : startsWith line "## ".toList = false := by
    cases line with
    | nil => rfl
    | cons c line =>
      have hc : ('#' == c) = false := by
        rw [beq_eq_false_iff_ne]
        exact fun he => h (by rw [← he]; rfl)
      change ('#' == c && "# ".toList.isPrefixOf line) = false
      rw [hc, Bool.false_and]
  simp only [entryHeading, hstart, Bool.false_eq_true, if_false]

theorem tight_singleLine (value : Text) : Tight (singleLine value) := by
  apply tight_intercalate
  intro part hpart
  obtain ⟨hmem, hne⟩ := List.mem_filter.1 hpart
  obtain ⟨l, -, rfl⟩ := List.mem_map.1 hmem
  exact ⟨tight_trim l, by simpa using hne⟩

theorem singleLine_singleLine (value : Text) : SingleLine (singleLine value) := by
  intro h
  rcases mem_intercalate h with h | ⟨part, hpart, hc⟩
  · exact absurd h (by decide)
  · obtain ⟨l, hl, rfl⟩ := List.mem_map.1 (List.mem_filter.1 hpart).1
    exact singleLine_of_mem_lines hl (trim_subset hc)

theorem read_source (f : Fields) (s : Surface) :
    f.read ("- source: ".toList ++ s.text) = { f with source := s } := by
  cases s <;> rfl

theorem read_verbatim (f : Fields) (b : Bool) :
    f.read ("- verbatim: ".toList ++ if b then "yes".toList else "no".toList) = { f with verbatim := b } := by
  cases b <;> rfl

theorem read_contentType (f : Fields) (t : MemoryContentType) :
    f.read ("- content-type: ".toList ++ singleLine t.name) = { f with contentType := some t } := by
  cases t <;> rfl

theorem read_capturedAt (f : Fields) (value : Text) :
    f.read ("- captured-at: ".toList ++ singleLine value) =
      { f with capturedAt := (truthy (some (singleLine value))).getD f.capturedAt } := by
  have h : valueOf ("- captured-at: ".toList ++ singleLine value) "- captured-at: ".toList = singleLine value :=
    (tight_singleLine value).trim_eq
  calc f.read ("- captured-at: ".toList ++ singleLine value)
      = { f with capturedAt := (truthy (some (valueOf ("- captured-at: ".toList ++ singleLine value)
          "- captured-at: ".toList))).getD f.capturedAt } := rfl
    _ = _ := by rw [h]

theorem read_sourceId (f : Fields) (value : Text) :
    f.read ("- source-id: ".toList ++ singleLine value) =
      { f with sourceId := truthy (some (singleLine value)) } := by
  have h : valueOf ("- source-id: ".toList ++ singleLine value) "- source-id: ".toList = singleLine value :=
    (tight_singleLine value).trim_eq
  calc f.read ("- source-id: ".toList ++ singleLine value)
      = { f with sourceId := truthy (some (valueOf ("- source-id: ".toList ++ singleLine value)
          "- source-id: ".toList)) } := rfl
    _ = _ := by rw [h]

theorem read_quoted (f : Fields) (line : Text) :
    f.read ("> ".toList ++ line) = { f with content := f.content ++ [line] } := rfl

/-- A line under a heading that says nothing of the entry. -/
def Inert (line : Text) : Prop := entryHeading line = none ∧ ∀ f : Fields, f.read line = f

theorem inert_nil : Inert [] := ⟨rfl, fun _ => rfl⟩

/-- Filed lines are inert: no field's label goes on with an `f`. -/
theorem inert_filed (rest : Text) : Inert ("- f".toList ++ rest) := ⟨entryHeading_eq_none (by simp), fun _ => rfl⟩

theorem foldl_inert {ls : List Text} (h : ∀ l ∈ ls, Inert l) (f : Fields) : ls.foldl Fields.read f = f := by
  induction ls with
  | nil => rfl
  | cons l ls ih =>
    rw [List.foldl_cons, (h l List.mem_cons_self).2 f]
    exact ih fun m hm => h m (List.mem_cons_of_mem _ hm)

/-! ## Sections -/

theorem sections_eq_nil {ls : List Text} (h : ∀ l ∈ ls, entryHeading l = none) : sections ls = [] := by
  induction ls with
  | nil => rfl
  | cons l ls ih =>
    simp only [sections, h l List.mem_cons_self]
    exact ih fun m hm => h m (List.mem_cons_of_mem _ hm)

/-- A heading ends the section before it. -/
theorem sections_append_heading (ls : List Text) {line : Text} (h : (entryHeading line).isSome) (ms : List Text) :
    sections (ls ++ line :: ms) = sections ls ++ sections (line :: ms) := by
  induction ls with
  | nil => rfl
  | cons l ls ih =>
    have hcut : (ls ++ line :: ms).takeWhile (fun l => (entryHeading l).isNone) =
        ls.takeWhile fun l => (entryHeading l).isNone := by
      rw [List.takeWhile_append]
      split
      next hall =>
        have hline : (entryHeading line).isNone = false := by
          simpa using h
        have hself : ls.takeWhile (fun l => (entryHeading l).isNone) = ls :=
          (List.takeWhile_prefix _).eq_of_length hall
        rw [List.takeWhile_cons, hline, hself]
        simp
      next => rfl
    simp only [List.cons_append, sections, hcut]
    cases entryHeading l with
    | none => exact ih
    | some heading => exact congrArg (List.cons _) ih

def memoryEntries (path date : Text) (ls : List Text) : List MemoryEntry :=
  (sections ls).map fun s => memoryEntry path date s.1 s.2

theorem memoryEntry_inert {path date : Text} {heading : Heading} (body : List Text) {ms : List Text}
    (h : ∀ l ∈ ms, Inert l) : memoryEntry path date heading (body ++ ms) = memoryEntry path date heading body := by
  simp only [memoryEntry, List.foldl_append, foldl_inert h]

/-- **Inert lines at the end of a file** change no entry. -/
theorem memoryEntries_append_inert (path date : Text) (ls : List Text) {ms : List Text} (h : ∀ l ∈ ms, Inert l) :
    memoryEntries path date (ls ++ ms) = memoryEntries path date ls := by
  induction ls with
  | nil =>
    simp only [memoryEntries, List.nil_append, sections_eq_nil fun l hl => (h l hl).1]
    rfl
  | cons l ls ih =>
    simp only [memoryEntries] at ih
    simp only [memoryEntries, List.cons_append, sections]
    cases entryHeading l with
    | none => exact ih
    | some heading =>
      simp only [List.map_cons, ih]
      congr 1
      rw [List.takeWhile_append]
      split
      next hall =>
        have hself : ls.takeWhile (fun l => (entryHeading l).isNone) = ls :=
          (List.takeWhile_prefix _).eq_of_length hall
        rw [hself]
        exact memoryEntry_inert ls fun l hl => h l ((List.takeWhile_prefix _).subset hl)
      next => rfl

theorem memoryEntries_append_heading (path date : Text) (ls : List Text) {line : Text}
    (h : (entryHeading line).isSome) (ms : List Text) :
    memoryEntries path date (ls ++ line :: ms) =
      memoryEntries path date ls ++ memoryEntries path date (line :: ms) := by
  rw [memoryEntries, sections_append_heading ls h, List.map_append]
  rfl

/-! ## A capture reads back -/

def Capture.body (c : Capture) : List Text := c.metadataLines ++ [] :: quoted c.content

/-- The entry a capture stands for. -/
def Capture.memoryEntry (c : Capture) : MemoryEntry where
  evidenceRef := c.logPath ++ "#^".toList ++ c.anchor
  path := c.logPath
  anchor := c.anchor
  title := entryTitle c.content
  content := trimEnd c.content
  source := c.source
  verbatim := c.verbatim
  contentType := c.metadata.contentType
  capturedAt := ((truthy c.metadata.capturedAt).bind fun v => truthy (some (singleLine v))).getD
    (todayString c.now ++ "T".toList ++ timeOf c.now ++ ":00".toList)
  sourceId := (truthy c.metadata.sourceId).bind fun v => truthy (some (singleLine v))

theorem foldl_quoted (ls : List Text) (f : Fields) :
    (ls.map fun line => "> ".toList ++ line).foldl Fields.read f = { f with content := f.content ++ ls } := by
  induction ls generalizing f with
  | nil => simp
  | cons l ls ih => rw [List.map_cons, List.foldl_cons, read_quoted, ih]; simp

theorem foldl_metadata (c : Capture) (f : Fields) :
    c.metadataLines.foldl Fields.read f = { f with
      source := c.source
      verbatim := c.verbatim
      contentType := c.metadata.contentType.or f.contentType
      capturedAt := ((truthy c.metadata.capturedAt).bind fun v => truthy (some (singleLine v))).getD f.capturedAt
      sourceId := match truthy c.metadata.sourceId with
        | some v => truthy (some (singleLine v))
        | none => f.sourceId } := by
  simp only [Capture.metadataLines, List.foldl_append, List.foldl_cons, List.foldl_nil, read_source, read_verbatim]
  cases c.metadata.contentType <;> cases truthy c.metadata.capturedAt <;> cases truthy c.metadata.sourceId <;>
    simp only [Option.map_some, Option.map_none, Option.toList_some, Option.toList_none, List.foldl_cons,
      List.foldl_nil, read_contentType, read_capturedAt, read_sourceId] <;> rfl

theorem body_no_heading (c : Capture) : ∀ l ∈ c.body, entryHeading l = none := by
  intro l hl
  apply entryHeading_eq_none
  simp only [Capture.body, Capture.metadataLines, quoted, List.mem_append, List.mem_cons, List.not_mem_nil, or_false,
    List.mem_map, Option.mem_toList, Option.map_eq_some_iff] at hl
  rcases hl with (((hl | ⟨v, -, rfl⟩) | ⟨v, -, rfl⟩) | ⟨v, -, rfl⟩) | rfl | ⟨l, -, rfl⟩
  · rcases hl with rfl | rfl <;> simp
  all_goals simp

theorem memoryEntries_capture (c : Capture) :
    memoryEntries c.logPath (todayString c.now) (c.heading :: c.body) = [c.memoryEntry] := by
  have hbody : c.body.takeWhile (fun l => (entryHeading l).isNone) = c.body :=
    List.takeWhile_eq_self_iff.2 fun l hl => by simp [body_no_heading c l hl]
  simp only [memoryEntries, sections, entryHeading_heading, hbody, sections_eq_nil (body_no_heading c),
    List.map_cons, List.map_nil]
  congr 1
  simp only [Zenod.Evidence.memoryEntry, Capture.body, List.foldl_append, List.foldl_cons, foldl_metadata,
    inert_nil.2, quoted, foldl_quoted, List.nil_append, join_lines, trimEnd_idem, Capture.memoryEntry]
  cases truthy c.metadata.sourceId <;> simp

/-! ## What a call of appendEvidence does to its file -/

theorem append_singleLine {s t : Text} (hs : SingleLine s) (ht : SingleLine t) : SingleLine (s ++ t) := by
  intro h
  rcases List.mem_append.1 h with h | h
  · exact hs h
  · exact ht h

theorem heading_singleLine (c : Capture) : SingleLine c.heading := by
  have htime := (timeOf_spec c.now).2.2.2
  have htitle := (entryTitle_spec c.content).2.2
  have hanchor : SingleLine c.anchor := not_mem_anchorOf (by decide)
  exact append_singleLine (append_singleLine (append_singleLine (append_singleLine (append_singleLine
    (by decide) htime) (by decide)) htitle) (by decide)) hanchor

theorem body_singleLine (c : Capture) : ∀ l ∈ c.body, SingleLine l := by
  intro l hl
  simp only [Capture.body, Capture.metadataLines, quoted, List.mem_append, List.mem_cons, List.not_mem_nil, or_false,
    List.mem_map, Option.mem_toList, Option.map_eq_some_iff] at hl
  rcases hl with (((hl | ⟨v, -, rfl⟩) | ⟨v, -, rfl⟩) | ⟨v, -, rfl⟩) | rfl | ⟨l, hl, rfl⟩
  · rcases hl with rfl | rfl
    · refine append_singleLine (by decide) ?_
      cases c.source <;> decide
    · refine append_singleLine (by decide) ?_
      cases c.verbatim <;> decide
  · exact append_singleLine (by decide) (singleLine_singleLine _)
  · exact append_singleLine (by decide) (singleLine_singleLine _)
  · exact append_singleLine (by decide) (singleLine_singleLine _)
  · exact List.not_mem_nil
  · exact append_singleLine (by decide) (singleLine_of_mem_lines hl)

theorem quoted_ne_nil (content : Text) : quoted content ≠ [] := by
  simp [quoted, lines_ne_nil]

theorem entry_eq (c : Capture) : c.entry = terminated (c.heading :: c.body) := by
  have hjoin : join [[], join (quoted c.content), []] = '\n' :: terminated (quoted c.content) := by
    rw [join_cons_cons, join_cons_cons, List.nil_append, ← join_append_newline (quoted_ne_nil c.content)]
    rfl
  rw [Capture.entry, join_append (List.cons_ne_nil _ _) (List.cons_ne_nil _ _), hjoin, Capture.body,
    ← List.cons_append, terminated_append, ← join_append_newline (List.cons_ne_nil c.heading c.metadataLines)]
  simp

/-- The text a call finds: a file that is not there starts with its day. -/
def dayText (vault : Vault) (c : Capture) : Text :=
  (vault c.logPath).getD ("# ".toList ++ todayString c.now ++ "\n".toList)

theorem appendEvidence_writes (c : Capture) (vault : Vault) : ∃ ls : List Text, (∀ l ∈ ls, SingleLine l) ∧
    (lines (dayText vault c) = ls ∨ lines (dayText vault c) = ls ++ [[]]) ∧
    (appendEvidence c vault).2 = vault.write c.logPath (terminated (ls ++ [] :: c.heading :: c.body)) := by
  obtain ⟨ls, -, hline, hclosed, hlines⟩ := exists_closed (dayText vault c)
  refine ⟨ls, hline, hlines, ?_⟩
  have hpre : dayText vault c ++ (if endsWithNewline (dayText vault c) then "\n".toList else "\n\n".toList) =
      terminated (ls ++ [[]]) := by
    rw [terminated_append, ← hclosed]
    split <;> simp
  have htext : dayText vault c ++ (if endsWithNewline (dayText vault c) then "\n".toList else "\n\n".toList) ++
      c.entry = terminated (ls ++ [] :: c.heading :: c.body) := by
    rw [hpre, entry_eq, ← terminated_append, List.append_assoc]
    rfl
  rw [← htext]
  rfl

theorem write_self (vault : Vault) (path text : Text) : vault.write path text path = some text := by
  simp [Vault.write]

theorem write_other (vault : Vault) {path p : Text} (text : Text) (h : p ≠ path) :
    vault.write path text p = vault p := by
  simp [Vault.write, h]

theorem lines_appended {c : Capture} {ls : List Text} (h : ∀ l ∈ ls, SingleLine l) :
    lines (terminated (ls ++ [] :: c.heading :: c.body)) = ls ++ [] :: c.heading :: c.body ++ [[]] := by
  apply lines_terminated
  intro l hl
  rcases List.mem_append.1 hl with hl | hl
  · exact h l hl
  rcases List.mem_cons.1 hl with rfl | hl
  · exact List.not_mem_nil
  rcases List.mem_cons.1 hl with rfl | hl
  · exact heading_singleLine c
  · exact body_singleLine c l hl

theorem parseEvidenceFile_logPath (c : Capture) (text : Text) :
    parseEvidenceFile c.logPath text = memoryEntries c.logPath (todayString c.now) (lines text) := by
  simp only [parseEvidenceFile, Capture.logPath, logDate_logPathOf]
  rfl

/-- The entries of the file at a path; a file that is not there has none. -/
def entriesAt (path : Text) (vault : Vault) : List MemoryEntry := parseEvidenceFile path ((vault path).getD [])

theorem parse_dayText (c : Capture) (vault : Vault) :
    parseEvidenceFile c.logPath (dayText vault c) = entriesAt c.logPath vault := by
  simp only [dayText, entriesAt]
  cases vault c.logPath with
  | some text => rfl
  | none =>
    have hheader : ∀ l ∈ lines ("# ".toList ++ todayString c.now ++ "\n".toList), entryHeading l = none := by
      have hdate : SingleLine ("# ".toList ++ todayString c.now) := by
        refine append_singleLine (by decide) ?_
        intro h
        exact absurd (todayString_mem h) (by decide)
      intro l hl
      rw [show "\n".toList = '\n' :: [] from rfl, lines_append, lines_of_singleLine hdate] at hl
      rcases List.mem_append.1 hl with hl | hl
      · obtain rfl := List.mem_singleton.1 hl
        rfl
      · obtain rfl : l = [] := by simpa [lines] using hl
        rfl
    simp only [Option.getD_none, parseEvidenceFile_logPath, memoryEntries, sections_eq_nil hheader]
    rfl

/-- **A call of appendEvidence adds its own entry behind those of its file.** -/
theorem parse_appendEvidence (c : Capture) (vault : Vault) :
    entriesAt c.logPath (appendEvidence c vault).2 = entriesAt c.logPath vault ++ [c.memoryEntry] := by
  obtain ⟨ls, hline, hlines, hwrite⟩ := appendEvidence_writes c vault
  have hinert : ∀ l ∈ [[]], Inert l := fun l hl => by
    obtain rfl := List.mem_singleton.1 hl
    exact inert_nil
  have hbefore : entriesAt c.logPath vault = memoryEntries c.logPath (todayString c.now) ls := by
    rw [← parse_dayText, parseEvidenceFile_logPath]
    rcases hlines with h | h
    · rw [h]
    · rw [h, memoryEntries_append_inert _ _ _ hinert]
  have hhead : (entryHeading c.heading).isSome := by simp [entryHeading_heading]
  rw [hbefore, entriesAt, hwrite, write_self, Option.getD_some, parseEvidenceFile_logPath, lines_appended hline,
    memoryEntries_append_inert _ _ _ hinert, List.append_cons, memoryEntries_append_heading _ _ _ hhead,
    memoryEntries_append_inert _ _ _ hinert, memoryEntries_capture]

end Zenod.Evidence
