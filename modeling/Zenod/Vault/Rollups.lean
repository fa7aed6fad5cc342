/-
The rows that `appendOpsRollup` and `citeOnLeaf` leave on a page over any
calls: a row of a day gets longer by one citation, a new row is put at the end
of its section.

`rollup_bookkeeping`: on a page without dated rollup rows, no capture is cited
twice, a rollup row counts its distinct citations, a new row is the last of
its section, and what the page showed stays.
-/
import Zenod.Lib.Outcome
import Zenod.Vault.Sections

namespace Zenod.Sections

open Text Evidence

/-! ## Rollup rows -/

theorem isDay_spec {date : Text} (h : isDay date = true) :
    date.length = 10 ∧ ∀ c ∈ date, c.isDigit = true ∨ c = '-' := by
  simp only [isDay, Bool.and_eq_true, beq_iff_eq, List.all_eq_true, List.mem_range] at h
  refine ⟨h.1, fun c hc => ?_⟩
  obtain ⟨i, hi, rfl⟩ := List.mem_iff_getElem.1 hc
  have hat := h.2 i (h.1 ▸ hi)
  split at hat
  next =>
    rw [List.getElem?_eq_getElem hi, beq_iff_eq] at hat
    exact .inr (Option.some.inj hat)
  next =>
    rw [List.getElem?_eq_getElem hi] at hat
    exact .inl hat

/-- The characters of dates, anchors and citations. -/
theorem plain_of_digit {c : Char} (h : c.isDigit = true ∨ c = '-') :
    Js.isSpace c = false ∧ isLineTerminator c = false ∧ c ≠ '$' ∧ c ≠ '[' := by
  rcases h with h | rfl
  · have hrange := Char.isDigit_iff_toNat.1 h
    have hlow : 48 ≤ c.toNat := hrange.1
    have hhigh : c.toNat ≤ 57 := hrange.2
    refine ⟨?_, ?_, ?_, ?_⟩
    · simp only [Js.isSpace, Bool.or_eq_false_iff, Bool.and_eq_false_iff, decide_eq_false_iff_not, beq_eq_false_iff_ne]
      omega
    · simp only [isLineTerminator, Bool.or_eq_false_iff, beq_eq_false_iff_ne]
      omega
    · rintro rfl
      exact absurd h (by decide)
    · rintro rfl
      exact absurd h (by decide)
  · decide

theorem plain_of_anchor {c : Char} (h : c ∈ anchorAlphabet) :
    Js.isSpace c = false ∧ isLineTerminator c = false ∧ c ≠ '$' ∧ c ≠ '[' := by
  have hall : ∀ c ∈ anchorAlphabet, Js.isSpace c = false ∧ isLineTerminator c = false ∧ c ≠ '$' ∧ c ≠ '[' :=
    forall_of_all (by decide)
  exact hall c h

/-- A date and an anchor as the references of captures have them. -/
structure Named (date anchor : Text) : Prop where
  day : isDay date = true
  anchor : ∀ c ∈ anchor, c ∈ anchorAlphabet

theorem mem_citation {date anchor : Text} {c : Char} (h : c ∈ citation date anchor) :
    c ∈ "[]#^".toList ∨ c ∈ date ∨ c ∈ anchor := by
  have hopen : ∀ c ∈ "[[".toList, c ∈ "[]#^".toList := forall_of_all (by decide)
  have hmark : ∀ c ∈ "#^".toList, c ∈ "[]#^".toList := forall_of_all (by decide)
  have hclose : ∀ c ∈ "]]".toList, c ∈ "[]#^".toList := forall_of_all (by decide)
  simp only [citation, List.mem_append] at h
  rcases h with (((h | h) | h) | h) | h
  · exact .inl (hopen c h)
  · exact .inr (.inl h)
  · exact .inl (hmark c h)
  · exact .inr (.inr h)
  · exact .inl (hclose c h)

theorem Named.citation_plain {date anchor : Text} (h : Named date anchor) {c : Char} (hc : c ∈ citation date anchor) :
    Js.isSpace c = false ∧ isLineTerminator c = false ∧ c ≠ '$' := by
  rcases mem_citation hc with hc | hc | hc
  · have hall : ∀ c ∈ "[]#^".toList, Js.isSpace c = false ∧ isLineTerminator c = false ∧ c ≠ '$' :=
      forall_of_all (by decide)
    exact hall c hc
  · have := plain_of_digit ((isDay_spec h.day).2 c hc)
    exact ⟨this.1, this.2.1, this.2.2.1⟩
  · have := plain_of_anchor (h.anchor c hc)
    exact ⟨this.1, this.2.1, this.2.2.1⟩

theorem Named.citation_solid {date anchor : Text} (h : Named date anchor) : Solid (citation date anchor) :=
  ⟨by simp [citation], fun _ hc => (h.citation_plain hc).1⟩

theorem Named.citation_single {date anchor : Text} (h : Named date anchor) : Single (citation date anchor) :=
  fun _ hc => (h.citation_plain hc).2.1

theorem asRollup_some {date row : Text} {r : Text × Text} (h : asRollup date row = some r) :
    row = opening date ++ r.1 ++ "): ".toList ++ r.2 ∧ r.1 ≠ [] ∧ ∀ c ∈ r.1, c.isDigit = true := by
  simp only [asRollup] at h
  split at h
  next hguard =>
    obtain ⟨hopening, hcount, hclose⟩ := hguard
    cases h
    obtain ⟨t, rfl⟩ := startsWith_iff.1 hopening
    rw [List.drop_left] at hcount hclose ⊢
    obtain ⟨rest, hrest⟩ := startsWith_iff.1 hclose
    refine ⟨?_, hcount, fun c hc => List.mem_takeWhile_imp hc⟩
    have hdrop : (t.dropWhile Char.isDigit).drop 3 = rest := by rw [← hrest]; rfl
    rw [hdrop, List.append_assoc, hrest, List.append_assoc, List.takeWhile_append_dropWhile]
  next => cases h

theorem asRollup_opening {date count rest : Text} (hne : count ≠ []) (hdigits : ∀ c ∈ count, c.isDigit = true) :
    asRollup date (opening date ++ count ++ "): ".toList ++ rest) = some (count, rest) := by
  have htake : (count ++ ("): ".toList ++ rest)).takeWhile Char.isDigit = count := by
    rw [List.takeWhile_append_of_pos hdigits]
    exact List.append_nil _
  have hdrop : (count ++ ("): ".toList ++ rest)).dropWhile Char.isDigit = "): ".toList ++ rest := by
    rw [List.dropWhile_append_of_pos hdigits]
    rfl
  simp only [asRollup, List.append_assoc]
  rw [List.drop_left, htake, hdrop, if_pos ⟨startsWith_iff.2 (List.prefix_append _ _), hne,
    startsWith_iff.2 (List.prefix_append _ _)⟩]
  rfl

/-- The dated rollup row with these citations. -/
def rollupRow (date : Text) (anchors : List Text) : Text :=
  opening date ++ Nat.toDigits 10 anchors.length ++ "): ".toList ++
    ", ".toList.intercalate (anchors.map (citation date))

/-- A row that some day's pattern matches. -/
def isRollup (row : Text) : Bool :=
  isDay ((row.drop 2).take 10) && (asRollup ((row.drop 2).take 10) row).isSome

theorem prefix_opening {date date' t : Text} (hdate : date.length = 10) (hdate' : date'.length = 10)
    (h : opening date <+: "- ".toList ++ date' ++ t) : date = date' ∧ " ops (".toList <+: t := by
  obtain ⟨s, hs⟩ := h
  have hs : "- ".toList ++ (date ++ (" ops (".toList ++ s)) = "- ".toList ++ (date' ++ t) := by
    simpa only [opening, List.append_assoc] using hs
  obtain ⟨heq, hrest⟩ := List.append_inj (List.append_cancel_left hs) (hdate.trans hdate'.symm)
  exact ⟨heq, s, hrest⟩

theorem isRollup_of_asRollup {date row : Text} (hday : isDay date = true) (h : (asRollup date row).isSome = true) :
    isRollup row = true := by
  obtain ⟨r, hr⟩ := Option.isSome_iff_exists.1 h
  have hrow := (asRollup_some hr).1
  have hdate : (row.drop 2).take 10 = date := by
    rw [hrow, opening, List.append_assoc, List.append_assoc, List.append_assoc, List.append_assoc]
    show (date ++ _).take 10 = date
    rw [← (isDay_spec hday).1, List.take_left]
  rw [isRollup, hdate, hday, h]
  rfl

theorem asRollup_of_isRollup {row : Text} (h : isRollup row = true) :
    ∃ date r, isDay date = true ∧ asRollup date row = some r := by
  rw [isRollup, Bool.and_eq_true] at h
  obtain ⟨r, hr⟩ := Option.isSome_iff_exists.1 h.2
  exact ⟨_, r, h.1, hr⟩

/-- What is trimmed off does not decide whether a row is a rollup's. -/
theorem isRollup_mono {r q : Text} (hpre : r <+: q) (h : isRollup r = true) : isRollup q = true := by
  obtain ⟨date, ⟨count, rest⟩, hday, hr⟩ := asRollup_of_isRollup h
  obtain ⟨hrow, hne, hdigits⟩ := asRollup_some hr
  obtain ⟨s, rfl⟩ := hpre
  refine isRollup_of_asRollup hday ?_
  rw [hrow, List.append_assoc, asRollup_opening hne hdigits]
  rfl

/-- A rollup row with as many distinct citations as it counts. -/
def Formed (row : Text) : Prop :=
  ∃ date anchors, anchors ≠ [] ∧ anchors.Nodup ∧ (∀ anchor ∈ anchors, Named date anchor) ∧ row = rollupRow date anchors

def Counted (page : Text) : Prop := ∀ row ∈ rows page, isRollup row = true → Formed row

theorem digits_ne_nil (n : Nat) : Nat.toDigits 10 n ≠ [] := Nat.toDigits_ne_nil

theorem isDigit_of_mem_digits {n : Nat} {c : Char} (h : c ∈ Nat.toDigits 10 n) : c.isDigit = true :=
  Nat.isDigit_of_mem_toDigits (by decide) (by decide) h

theorem asRollup_rollupRow (date : Text) (anchors : List Text) : asRollup date (rollupRow date anchors) =
    some (Nat.toDigits 10 anchors.length, ", ".toList.intercalate (anchors.map (citation date))) :=
  asRollup_opening (digits_ne_nil _) fun _ hc => isDigit_of_mem_digits hc

theorem isRollup_rollupRow {date : Text} (hday : isDay date = true) (anchors : List Text) :
    isRollup (rollupRow date anchors) = true :=
  isRollup_of_asRollup hday (by rw [asRollup_rollupRow]; rfl)

theorem intercalate_concat {sep : Text} {ts : List Text} (h : ts ≠ []) (t : Text) :
    sep.intercalate (ts ++ [t]) = sep.intercalate ts ++ sep ++ t := by
  induction ts with
  | nil => exact absurd rfl h
  | cons s ts ih =>
    cases ts with
    | nil => simp
    | cons r ts =>
      have := ih (List.cons_ne_nil r ts)
      simp only [List.cons_append, List.intercalate_cons_cons] at this ⊢
      rw [this]
      simp only [List.append_assoc]

theorem trimEnd_brackets (t : Text) : trimEnd (t ++ "]]".toList) = t ++ "]]".toList := by
  rw [trimEnd_append, if_neg (by decide)]
  rfl

theorem brackets_suffix {date : Text} {anchors : List Text} (hne : anchors ≠ []) :
    "]]".toList <:+ ", ".toList.intercalate (anchors.map (citation date)) := by
  obtain ⟨front, last, rfl⟩ : ∃ front last, anchors = front ++ [last] :=
    ⟨anchors.dropLast, anchors.getLast hne, (List.dropLast_append_getLast hne).symm⟩
  have hlast : "]]".toList <:+ citation date last := List.suffix_append _ _
  rw [List.map_append, List.map_singleton]
  cases front with
  | nil => simpa using hlast
  | cons first front =>
    rw [intercalate_concat (by simp)]
    exact hlast.trans (List.suffix_append _ _)

theorem Formed.trimmed {row : Text} (h : Formed row) : row ≠ [] ∧ trimEnd row = row := by
  obtain ⟨date, anchors, hne, -, -, rfl⟩ := h
  obtain ⟨t, ht⟩ := (@brackets_suffix date anchors hne).trans (List.suffix_append (opening date ++
    Nat.toDigits 10 anchors.length ++ "): ".toList) _)
  have hrow : rollupRow date anchors = t ++ "]]".toList := ht.symm
  rw [hrow]
  exact ⟨by simp, trimEnd_brackets t⟩

/-! ## A rollup row gets longer -/

theorem takeWhile_single (t : Text) : Single (t.takeWhile fun c => !isLineTerminator c) := by
  intro c hc
  simpa using List.mem_takeWhile_imp hc

theorem dropWhile_terminator (t : Text) : t.dropWhile (fun c => !isLineTerminator c) = [] ∨
    ∃ c s, isLineTerminator c = true ∧ t.dropWhile (fun c => !isLineTerminator c) = c :: s := by
  cases hrest : t.dropWhile (fun c => !isLineTerminator c) with
  | nil => exact .inl rfl
  | cons c s =>
    have hne : t.dropWhile (fun c => !isLineTerminator c) ≠ [] := by
      rw [hrest]
      exact List.cons_ne_nil c s
    have hc := List.head_dropWhile_not (fun c => !isLineTerminator c) hne
    simp only [hrest, List.head_cons] at hc
    exact .inr ⟨c, s, by simpa using hc, rfl⟩

/-- The match is a row of the text. -/
structure Matched (date : Text) (atStart : Bool) (t : Text) (m : RollupMatch) : Prop where
  text : t = m.before ++ m.row date ++ m.behind
  single : Single (m.row date)
  groups : asRollup date (m.row date) = some (m.count, m.rest)
  before : (m.before = [] ∧ atStart = true) ∨ ∃ s c, isLineTerminator c = true ∧ m.before = s ++ [c]
  behind : m.behind = [] ∨ ∃ c s, isLineTerminator c = true ∧ m.behind = c :: s

theorem findRow_matched {date : Text} {atStart : Bool} {t : Text} {m : RollupMatch}
    (h : findRow date atStart t = some m) : Matched date atStart t m := by
  induction t generalizing atStart m with
  | nil => cases h
  | cons c t ih =>
    rw [findRow] at h
    split at h
    next count rest hrow =>
      cases h
      split at hrow
      next hstart =>
        obtain ⟨heq, -, -⟩ := asRollup_some hrow
        have hrowEq : opening date ++ count ++ "): ".toList ++ rest =
            (c :: t).takeWhile fun c => !isLineTerminator c := heq.symm
        refine ⟨?_, ?_, ?_, .inl ⟨rfl, hstart⟩, dropWhile_terminator (c :: t)⟩
        · rw [RollupMatch.row, hrowEq, List.nil_append, List.takeWhile_append_dropWhile]
        · rw [RollupMatch.row, hrowEq]
          exact takeWhile_single (c :: t)
        · rw [RollupMatch.row, hrowEq]
          exact hrow
      next => cases hrow
    next =>
      obtain ⟨m', hm', rfl⟩ := Option.map_eq_some_iff.1 h
      obtain ⟨htext, hsingle, hgroups, hbefore, hbehind⟩ := ih hm'
      refine ⟨?_, hsingle, hgroups, .inr ?_, hbehind⟩
      · exact congrArg (c :: ·) htext
      · rcases hbefore with ⟨hnil, hc⟩ | ⟨s, d, hd, hs⟩
        · exact ⟨[], c, hc, by simp only [hnil]; rfl⟩
        · exact ⟨c :: s, d, hd, by simp only [hs]; rfl⟩

theorem expand_eq {m : RollupMatch} {date t : Text} (h : '$' ∉ t) : m.expand date t = t := by
  induction t with
  | nil => rfl
  | cons c t ih =>
    have hc : c ≠ '$' := fun heq => h (heq ▸ List.mem_cons_self)
    have hstep : m.expand date (c :: t) = c :: m.expand date t := by
      rw [RollupMatch.expand]
      all_goals
        intros
        simp_all
    rw [hstep, ih fun hmem => h (List.mem_cons_of_mem c hmem)]

/-- The citations of a row have no `$`. -/
theorem dollar_notMem_rollupRow {date : Text} {anchors : List Text} (hnamed : ∀ anchor ∈ anchors, Named date anchor)
    (hne : anchors ≠ []) : '$' ∉ rollupRow date anchors := by
  obtain ⟨first, hfirst⟩ := List.exists_mem_of_ne_nil anchors hne
  intro hmem
  simp only [rollupRow, opening, List.mem_append] at hmem
  rcases hmem with ((((h | h) | h) | h) | h) | h
  · exact absurd h (by decide)
  · exact (plain_of_digit ((isDay_spec (hnamed first hfirst).day).2 _ h)).2.2.1 rfl
  · exact absurd h (by decide)
  · exact absurd (isDigit_of_mem_digits h) (by decide)
  · exact absurd h (by decide)
  · rcases mem_intercalate h with h | ⟨t, ht, h⟩
    · exact absurd h (by decide)
    · obtain ⟨anchor, hanchor, rfl⟩ := List.mem_map.1 ht
      exact ((hnamed anchor hanchor).citation_plain h).2.2 rfl

theorem longer_eq {m : RollupMatch} {ref : EvidenceRef} {anchors : List Text} (hne : anchors ≠ [])
    (hrow : m.row ref.date = rollupRow ref.date anchors)
    (hgroups : asRollup ref.date (m.row ref.date) = some (m.count, m.rest)) :
    m.longer ref = rollupRow ref.date (anchors ++ [ref.anchor]) := by
  rw [hrow, asRollup_rollupRow] at hgroups
  obtain ⟨hcount, hrest⟩ := Prod.mk.inj (Option.some.inj hgroups)
  rw [RollupMatch.longer, rollupRow, ← hcount, ← hrest, Nat.ofDigitChars_ten_toDigits, List.length_append,
    List.map_append, List.map_singleton, intercalate_concat (by simpa using hne)]
  simp only [List.append_assoc, List.length_singleton]

/-- One rollup row of the page has a citation more. -/
def Lengthened (raw date anchor next : Text) : Prop :=
  ∃ front back anchors, anchors ≠ [] ∧ (anchors ++ [anchor]).Nodup ∧ (∀ a ∈ anchors ++ [anchor], Named date a) ∧
    rows raw = front ++ rollupRow date anchors :: back ∧
    rows next = front ++ rollupRow date (anchors ++ [anchor]) :: back

theorem Formed.single {row : Text} (h : Formed row) : Single row := by
  obtain ⟨date, anchors, hne, -, hnamed, rfl⟩ := h
  obtain ⟨first, hfirst⟩ := List.exists_mem_of_ne_nil anchors hne
  intro c hc
  simp only [rollupRow, opening, List.mem_append] at hc
  have hdash : Single "- ".toList := by decide
  have hops : Single " ops (".toList := by decide
  have hcolon : Single "): ".toList := by decide
  rcases hc with ((((h | h) | h) | h) | h) | h
  · exact hdash c h
  · exact (plain_of_digit ((isDay_spec (hnamed first hfirst).day).2 c h)).2.1
  · exact hops c h
  · exact (plain_of_digit (.inl (isDigit_of_mem_digits h))).2.1
  · exact hcolon c h
  · rcases mem_intercalate h with h | ⟨t, ht, h⟩
    · have hall : ∀ c ∈ ", ".toList, isLineTerminator c = false := forall_of_all (by decide)
      exact hall c h
    · obtain ⟨anchor, hanchor, rfl⟩ := List.mem_map.1 ht
      exact ((hnamed anchor hanchor).citation_plain h).2.1

theorem lengthened {raw : Text} {ref : EvidenceRef} {m : RollupMatch} (hcounted : Counted raw)
    (hnamed : Named ref.date ref.anchor) (hnew : ¬citation ref.date ref.anchor <:+: raw)
    (hm : findRow ref.date true raw = some m) :
    Lengthened raw ref.date ref.anchor (m.before ++ m.expand ref.date (m.longer ref) ++ m.behind) := by
  obtain ⟨htext, hsingle, hgroups, hbefore, hbehind⟩ := findRow_matched hm
  obtain ⟨front, back, hrows⟩ := rows_around (hbefore.imp_left And.left) hbehind
  have hraw : rows raw = front ++ m.row ref.date :: back := by
    conv_lhs => rw [htext]
    exact hrows _ hsingle
  have hmem : m.row ref.date ∈ rows raw := by
    rw [hraw]
    exact List.mem_append_right _ List.mem_cons_self
  obtain ⟨date, anchors, hne, hnodup, hall, hrow⟩ :=
    hcounted _ hmem (isRollup_of_asRollup hnamed.day (by rw [hgroups]; rfl))
  have hdate : ref.date = date := by
    obtain ⟨first, hfirst⟩ := List.exists_mem_of_ne_nil anchors hne
    have hpre : opening ref.date <+: "- ".toList ++ date ++ (" ops (".toList ++ Nat.toDigits 10 anchors.length ++
        "): ".toList ++ ", ".toList.intercalate (anchors.map (citation date))) := by
      have hshape : rollupRow date anchors = _ := hrow.symm.trans (asRollup_some hgroups).1
      rw [rollupRow, opening] at hshape
      simp only [List.append_assoc] at hshape ⊢
      rw [hshape]
      exact List.prefix_append _ _
    exact (prefix_opening (isDay_spec hnamed.day).1 (isDay_spec (hall first hfirst).day).1 hpre).1
  subst hdate
  have hfresh : ref.anchor ∉ anchors := by
    intro hin
    have hcited : citation ref.date ref.anchor <:+: rollupRow ref.date anchors :=
      (infix_intercalate (List.mem_map_of_mem hin)).trans (List.suffix_append _ _).isInfix
    exact hnew (hcited.trans (hrow ▸ infix_of_mem_rows hmem))
  have hnodup' : (anchors ++ [ref.anchor]).Nodup := by
    refine List.Nodup.append hnodup (List.nodup_singleton _) fun a ha ha' => ?_
    rw [List.mem_singleton.1 ha'] at ha
    exact hfresh ha
  have hall' : ∀ a ∈ anchors ++ [ref.anchor], Named ref.date a := by
    intro a ha
    rcases List.mem_append.1 ha with ha | ha
    · exact hall a ha
    · rw [List.mem_singleton.1 ha]
      exact hnamed
  have hformed : Formed (rollupRow ref.date (anchors ++ [ref.anchor])) :=
    ⟨_, _, by simp, hnodup', hall', rfl⟩
  refine ⟨front, back, anchors, hne, hnodup', hall', ?_, ?_⟩
  · rw [hraw, hrow]
  · rw [longer_eq hne hrow hgroups, expand_eq (dollar_notMem_rollupRow hall' (by simp)), hrows _ hformed.single]

/-! ## What a call writes -/

theorem named_of_ok {evidenceRef : Text} {ref : EvidenceRef} (h : splitEvidenceRef evidenceRef = .ok ref) :
    Named ref.date ref.anchor :=
  ⟨(splitEvidenceRef_ok h).2.1, (splitEvidenceRef_ok h).2.2⟩

theorem firstRow_eq (ref : EvidenceRef) : firstRow ref = rollupRow ref.date [ref.anchor] := by
  have hone : Nat.toDigits 10 [ref.anchor].length = "1".toList := by
    rw [List.length_singleton]
    decide
  rw [firstRow, rollupRow, hone, opening]
  simp

theorem firstRow_formed {ref : EvidenceRef} (h : Named ref.date ref.anchor) : Formed (firstRow ref) := by
  refine ⟨ref.date, [ref.anchor], List.cons_ne_nil _ _, List.nodup_singleton _, fun a ha => ?_, firstRow_eq ref⟩
  rw [List.mem_singleton.1 ha]
  exact h

theorem firstRow_block {ref : EvidenceRef} (h : Named ref.date ref.anchor) :
    Block opsRollupHeading opsRollupIntro (firstRow ref) where
  headingSingle := by decide
  introSingle := by decide
  lineSingle := (firstRow_formed h).single
  plain := by decide
  ne_nil := (firstRow_formed h).trimmed.1
  trimmed := (firstRow_formed h).trimmed.2

theorem terminator_of_not_space {c : Char} (h : Js.isSpace c = false) : isLineTerminator c = false := by
  rw [Bool.eq_false_iff]
  intro hc
  rw [isSpace_of_isLineTerminator hc] at h
  cases h

theorem oneLine_single (text : Text) (max : Nat) : Single (oneLine text max) := by
  intro c hc
  rcases mem_oneLine hc with rfl | hspace
  · decide
  · exact terminator_of_not_space hspace

theorem captureRow_block {ref : EvidenceRef} (h : Named ref.date ref.anchor) (summary : Text) :
    Block leafCapturesHeading leafCapturesIntro (captureRow ref summary) where
  headingSingle := by decide
  introSingle := by decide
  lineSingle := by
    have hdate : Single ref.date := fun c hc => (plain_of_digit ((isDay_spec h.day).2 c hc)).2.1
    have htext : Single (if oneLine summary 140 = [] then "capture".toList else oneLine summary 140) := by
      split
      next => decide
      next => exact oneLine_single summary 140
    have hdash : Single "- ".toList := by decide
    have hdot : Single " · ".toList := by decide
    have hblank : Single " ".toList := by decide
    exact ((((hdash.append hdate).append hdot).append htext).append hblank).append h.citation_single
  plain := by decide
  ne_nil := List.append_ne_nil_of_right_ne_nil _ h.citation_solid.1
  trimmed := by
    rw [captureRow, citation, ← List.append_assoc]
    exact trimEnd_brackets _

theorem not_isRollup_captureRow {ref : EvidenceRef} (h : Named ref.date ref.anchor) (summary : Text) :
    isRollup (captureRow ref summary) = false := by
  rw [Bool.eq_false_iff]
  intro hrollup
  obtain ⟨date, r, hday, hr⟩ := asRollup_of_isRollup hrollup
  have hpre : opening date <+: "- ".toList ++ ref.date ++ (" · ".toList ++
      ((if oneLine summary 140 = [] then "capture".toList else oneLine summary 140) ++ (" ".toList ++
        citation ref.date ref.anchor))) := by
    have hrow := (asRollup_some hr).1
    simp only [captureRow, List.append_assoc] at hrow ⊢
    rw [hrow]
    exact List.prefix_append _ _
  obtain ⟨t, ht⟩ := (prefix_opening (isDay_spec hday).1 (isDay_spec h.day).1 hpre).2
  have hchar : 'o' = '·' := (List.cons.inj (List.cons.inj ht).2).1
  exact absurd hchar (by decide)

/-- What a call that writes does to the page. -/
inductive Effect (ref : EvidenceRef) (raw next : Text) : Call → Prop
  | first (evidenceRef : Text) (h : Inserted raw opsRollupHeading opsRollupIntro (firstRow ref) next) :
      Effect ref raw next (.rollup evidenceRef)
  | longer (evidenceRef : Text) (h : Lengthened raw ref.date ref.anchor next) :
      Effect ref raw next (.rollup evidenceRef)
  | capture (evidenceRef summary : Text)
      (h : Inserted raw leafCapturesHeading leafCapturesIntro (captureRow ref summary) next) :
      Effect ref raw next (.cite evidenceRef summary)

theorem appendToSection_inserted {raw heading intro line : Text} (hb : Block heading intro line) :
    Inserted raw heading intro line (appendToSection raw heading intro line) := by
  simp only [appendToSection]
  split
  next =>
    refine inserted_new hb ?_
    split
    next => exact .inl rfl
    next => exact .inr rfl
  next before rest hcut =>
    have hraw : raw = before ++ ('\n' :: heading ++ ['\n']) ++ rest := (cut_eq_some hcut)
    rw [hraw]
    exact inserted_inside hb

/-- A call that writes had not found its capture cited. -/
theorem writes_effect {raw next : Text} {call : Call} (hcounted : Counted raw) (h : call.writes raw = .ok (some next)) :
    ∃ ref, splitEvidenceRef call.evidenceRef = .ok ref ∧ ¬citation ref.date ref.anchor <:+: raw ∧
      Effect ref raw next call := by
  cases call with
  | rollup evidenceRef =>
    simp only [Call.writes, appendOpsRollup] at h
    obtain ⟨ref, href, h⟩ := bind_ok.1 h
    have hnamed := named_of_ok href
    split at h
    next => cases h
    next hcited =>
      have hnew : ¬citation ref.date ref.anchor <:+: raw := fun hin => hcited (includes_iff.2 hin)
      refine ⟨ref, href, hnew, ?_⟩
      split at h
      next m hfind =>
        cases h
        exact .longer evidenceRef (lengthened hcounted hnamed hnew hfind)
      next =>
        cases h
        exact .first evidenceRef (appendToSection_inserted (firstRow_block hnamed))
  | cite evidenceRef summary =>
    simp only [Call.writes, citeOnLeaf] at h
    obtain ⟨ref, href, h⟩ := bind_ok.1 h
    split at h
    next => cases h
    next hcited =>
      cases h
      refine ⟨ref, href, fun hin => hcited (includes_iff.2 (List.IsInfix.trans ?_ hin)), ?_⟩
      · exact ⟨"[[".toList, "]]".toList, by simp only [citation, List.append_assoc]⟩
      · exact .capture evidenceRef summary (appendToSection_inserted (captureRow_block (named_of_ok href) summary))

/-! ## What stays -/

/-- A row that is a rollup's is one after white space at its end is put back. -/
theorem Counted.trimmed {page row : Text} (h : Counted page) {q : Text} (hq : q ∈ rows page)
    (hrow : row = q ∨ row = trimEnd q) (hrollup : isRollup row = true) : Formed row := by
  rcases hrow with rfl | rfl
  · exact h row hq hrollup
  · have hformed := h q hq (isRollup_mono (prefix_trimEnd q) hrollup)
    rw [hformed.trimmed.2]
    exact hformed

theorem Inserted.counted {raw heading intro line next : Text} (h : Inserted raw heading intro line next)
    (hraw : Counted raw) (hheading : isRollup heading = false) (hintro : isRollup intro = false)
    (hline : isRollup line = true → Formed line) : Counted next := by
  intro row hrow hrollup
  rcases h.origin row hrow with rfl | rfl | rfl | rfl | ⟨q, hq, horigin⟩
  · exact absurd hrollup (by decide)
  · exact absurd hrollup (by rw [hheading]; exact Bool.false_ne_true)
  · exact absurd hrollup (by rw [hintro]; exact Bool.false_ne_true)
  · exact hline hrollup
  · exact hraw.trimmed hq horigin hrollup

theorem Lengthened.counted {raw date anchor next : Text} (h : Lengthened raw date anchor next) (hraw : Counted raw) :
    Counted next := by
  obtain ⟨front, back, anchors, -, hnodup, hall, hrows, hnext⟩ := h
  intro row hrow hrollup
  have hkeep : ∀ row ∈ front ++ back, isRollup row = true → Formed row := by
    intro row hrow
    refine hraw row ?_
    rw [hrows]
    rcases List.mem_append.1 hrow with hrow | hrow
    · exact List.mem_append_left _ hrow
    · exact List.mem_append_right _ (List.mem_cons_of_mem _ hrow)
  rw [hnext] at hrow
  rcases List.mem_append.1 hrow with hrow | hrow
  · exact hkeep row (List.mem_append_left _ hrow) hrollup
  · rcases List.mem_cons.1 hrow with rfl | hrow
    · exact ⟨date, anchors ++ [anchor], by simp, hnodup, hall, rfl⟩
    · exact hkeep row (List.mem_append_right _ hrow) hrollup

theorem Effect.counted {ref : EvidenceRef} {raw next : Text} {call : Call} (hnamed : Named ref.date ref.anchor)
    (hraw : Counted raw) (h : Effect ref raw next call) : Counted next := by
  cases h with
  | first evidenceRef h => exact h.counted hraw (by decide) (by decide) fun _ => firstRow_formed hnamed
  | longer evidenceRef h => exact h.counted hraw
  | capture evidenceRef summary h =>
    refine h.counted hraw (by decide) (by decide) fun hrollup => ?_
    rw [not_isRollup_captureRow hnamed summary] at hrollup
    cases hrollup

/-- What a page shows besides rollup rows. -/
def others (page : Text) : List Text := (printed page).filter fun row => !isRollup row

theorem Lengthened.shown_formed {date : Text} {anchors : List Text} (hne : anchors ≠ []) (hnodup : anchors.Nodup)
    (hall : ∀ a ∈ anchors, Named date a) : shown [rollupRow date anchors] = [rollupRow date anchors] := by
  have hformed : Formed (rollupRow date anchors) := ⟨date, anchors, hne, hnodup, hall, rfl⟩
  exact shown_single hformed.trimmed.1 hformed.trimmed.2

/-- What the page shows before and after: one row differs. -/
theorem Lengthened.printed {raw date anchor next : Text} (h : Lengthened raw date anchor next) :
    ∃ front back anchors, isDay date = true ∧ Text.printed raw = front ++ rollupRow date anchors :: back ∧
      Text.printed next = front ++ rollupRow date (anchors ++ [anchor]) :: back ∧ anchors ≠ [] := by
  obtain ⟨front, back, anchors, hne, hnodup, hall, hrows, hnext⟩ := h
  refine ⟨shown front, shown back, anchors, (hall anchor (by simp)).day, ?_, ?_, hne⟩
  · rw [Text.printed, hrows, shown_append, shown_cons, Lengthened.shown_formed hne (List.Nodup.of_append_left hnodup)
      fun a ha => hall a (List.mem_append_left _ ha)]
    rfl
  · rw [Text.printed, hnext, shown_append, shown_cons, Lengthened.shown_formed (by simp) hnodup hall]
    rfl

theorem Inserted.others {raw heading intro line next : Text} (h : Inserted raw heading intro line next) :
    (others raw).Sublist (others next) := by
  obtain ⟨front, new, back, hraw, hnext, -⟩ := h.shown
  refine List.Sublist.filter _ ?_
  rw [hraw, hnext, List.append_assoc]
  exact (List.Sublist.refl front).append (List.sublist_append_right new back)

theorem Lengthened.others {raw date anchor next : Text} (h : Lengthened raw date anchor next) :
    others next = others raw := by
  obtain ⟨front, back, anchors, hday, hraw, hnext, -⟩ := h.printed
  rw [Sections.others, Sections.others, hraw, hnext, List.filter_append, List.filter_append, List.filter_cons_of_neg,
    List.filter_cons_of_neg]
  · simp [isRollup_rollupRow hday]
  · simp [isRollup_rollupRow hday]

theorem Effect.others {ref : EvidenceRef} {raw next : Text} {call : Call} (h : Effect ref raw next call) :
    (others raw).Sublist (others next) := by
  cases h with
  | first evidenceRef h => exact h.others
  | longer evidenceRef h => exact h.others ▸ List.Sublist.refl _
  | capture evidenceRef summary h => exact h.others

/-! ## Citations stay -/

theorem bracket_mem_citation (date anchor : Text) : '[' ∈ citation date anchor := by simp [citation]

/-- A citation in a rollup row is one of its citations, so it is in the longer row too. -/
theorem citation_longer {date anchor m : Text} {anchors : List Text} (hday : isDay date = true) (hm : Solid m)
    (hbracket : '[' ∈ m) (hne : anchors ≠ []) (h : m <:+: rollupRow date anchors) :
    m <:+: rollupRow date (anchors ++ [anchor]) := by
  have hsplit : rollupRow date anchors = (opening date ++ Nat.toDigits 10 anchors.length ++ "):".toList) ++
      ' ' :: ", ".toList.intercalate (anchors.map (citation date)) := by
    simp only [rollupRow, List.append_assoc]
    rfl
  rw [hsplit] at h
  rcases hm.infix_append_cons (by decide) h with h | h
  · have hin := h.subset hbracket
    simp only [opening, List.mem_append] at hin
    rcases hin with (((h | h) | h) | h) | h
    · exact absurd h (by decide)
    · exact absurd rfl (plain_of_digit ((isDay_spec hday).2 _ h)).2.2.2
    · exact absurd h (by decide)
    · exact absurd (isDigit_of_mem_digits h) (by decide)
    · exact absurd h (by decide)
  · refine h.trans ?_
    rw [rollupRow, List.map_append, List.map_singleton, intercalate_concat (by simpa using hne)]
    refine ⟨opening date ++ Nat.toDigits 10 (anchors ++ [anchor]).length ++ "): ".toList,
      ", ".toList ++ citation date anchor, ?_⟩
    simp only [List.append_assoc]

theorem Effect.cited {ref : EvidenceRef} {raw next : Text} {call : Call} (h : Effect ref raw next call) {m : Text}
    (hm : Solid m) (hbracket : '[' ∈ m) (hin : m <:+: raw) : m <:+: next := by
  obtain ⟨row, hrow, hin⟩ := (infix_printed hm).1 hin
  have hinserted : ∀ {heading intro line : Text}, Inserted raw heading intro line next → m <:+: next := by
    intro heading intro line h
    obtain ⟨front, new, back, hraw, hnext, -⟩ := h.shown
    refine (infix_printed hm).2 ⟨row, ?_, hin⟩
    rw [hraw] at hrow
    rw [hnext, List.append_assoc]
    exact (List.mem_append.1 hrow).elim (List.mem_append_left _)
      fun hrow => List.mem_append_right _ (List.mem_append_right _ hrow)
  cases h with
  | first evidenceRef h => exact hinserted h
  | longer evidenceRef h =>
    obtain ⟨front, back, anchors, hday, hraw, hnext, hne⟩ := h.printed
    refine (infix_printed hm).2 ?_
    rw [hraw] at hrow
    rw [hnext]
    rcases List.mem_append.1 hrow with hrow | hrow
    · exact ⟨row, List.mem_append_left _ hrow, hin⟩
    · rcases List.mem_cons.1 hrow with rfl | hrow
      · exact ⟨_, List.mem_append_right _ List.mem_cons_self, citation_longer hday hm hbracket hne hin⟩
      · exact ⟨row, List.mem_append_right _ (List.mem_cons_of_mem _ hrow), hin⟩
  | capture evidenceRef summary h => exact hinserted h

/-- The capture of a call that writes is cited from then on. -/
theorem Effect.citation {ref : EvidenceRef} {raw next : Text} {call : Call} (h : Effect ref raw next call) :
    Sections.citation ref.date ref.anchor <:+: next := by
  have hinserted : ∀ {heading intro line : Text}, Inserted raw heading intro line next →
      Sections.citation ref.date ref.anchor <:+: line → Sections.citation ref.date ref.anchor <:+: next := by
    intro heading intro line h hin
    obtain ⟨pre, mid, blank, later, hrows, -⟩ := h.below
    refine hin.trans (infix_of_mem_rows ?_)
    rw [hrows]
    simp
  cases h with
  | first evidenceRef h => exact hinserted h (List.suffix_append _ _).isInfix
  | longer evidenceRef h =>
    obtain ⟨front, back, anchors, -, -, -, -, hnext⟩ := h
    refine List.IsInfix.trans ?_ (infix_of_mem_rows (r := rollupRow ref.date (anchors ++ [ref.anchor])) ?_)
    · refine (infix_intercalate ?_).trans (List.suffix_append _ _).isInfix
      exact List.mem_map_of_mem (List.mem_append_right _ (List.mem_singleton_self _))
    · rw [hnext]
      exact List.mem_append_right _ List.mem_cons_self
  | capture evidenceRef summary h => exact hinserted h (List.suffix_append _ _).isInfix

/-! ## Runs -/

/-- The captures cited, each as often as a call cites it. -/
def citedBy (raw : Text) : List Call → List Text
  | [] => []
  | call :: calls =>
    match call.writes raw with
    | .ok (some next) => call.evidenceRef :: citedBy next calls
    | _ => citedBy raw calls

/-- The line of a call is the last of its section, or its citation the last of its day's row. -/
def Placed (raw next : Text) (call : Call) : Prop :=
  ∃ ref, splitEvidenceRef call.evidenceRef = .ok ref ∧
    match call with
    | .rollup _ => Below opsRollupHeading (firstRow ref) next ∨ Lengthened raw ref.date ref.anchor next
    | .cite _ summary => Below leafCapturesHeading (captureRow ref summary) next

theorem step_of_writes {raw next : Text} {call : Call} (h : call.writes raw = .ok (some next)) :
    step raw call = next := by
  rw [step, h]

/-- A call writes, or the page stays. -/
theorem step_cases (raw : Text) (call : Call) :
    (∃ next, call.writes raw = .ok (some next)) ∨
      (step raw call = raw ∧ ∀ calls, citedBy raw (call :: calls) = citedBy raw calls) := by
  cases h : call.writes raw with
  | error e => exact .inr ⟨by rw [step, h], fun calls => by rw [citedBy, h]⟩
  | ok out =>
    cases out with
    | none => exact .inr ⟨by rw [step, h], fun calls => by rw [citedBy, h]⟩
    | some next => exact .inl ⟨next, rfl⟩

theorem counted_step {raw : Text} (h : Counted raw) (call : Call) : Counted (step raw call) := by
  rcases step_cases raw call with ⟨next, hnext⟩ | ⟨hstay, -⟩
  · obtain ⟨ref, href, -, heffect⟩ := writes_effect h hnext
    rw [step_of_writes hnext]
    exact heffect.counted (named_of_ok href) h
  · rwa [hstay]

theorem counted_run {raw : Text} (h : Counted raw) (calls : List Call) : Counted (run raw calls) := by
  induction calls generalizing raw with
  | nil => exact h
  | cons call calls ih => exact ih (counted_step h call)

theorem others_run {raw : Text} (h : Counted raw) (calls : List Call) :
    (others raw).Sublist (others (run raw calls)) := by
  induction calls generalizing raw with
  | nil => exact List.Sublist.refl _
  | cons call calls ih =>
    refine List.Sublist.trans ?_ (ih (counted_step h call))
    rcases step_cases raw call with ⟨next, hnext⟩ | ⟨hstay, -⟩
    · obtain ⟨ref, -, -, heffect⟩ := writes_effect h hnext
      rw [step_of_writes hnext]
      exact heffect.others
    · rw [hstay]

/-- What is cited already is not cited again. -/
theorem notMem_citedBy {raw evidenceRef : Text} {ref : EvidenceRef} (h : Counted raw)
    (href : splitEvidenceRef evidenceRef = .ok ref) (hcited : citation ref.date ref.anchor <:+: raw)
    (calls : List Call) :
    evidenceRef ∉ citedBy raw calls := by
  induction calls generalizing raw with
  | nil => exact List.not_mem_nil
  | cons call calls ih =>
    rcases step_cases raw call with ⟨next, hnext⟩ | ⟨-, hsame⟩
    · obtain ⟨ref', href', hnew, heffect⟩ := writes_effect h hnext
      rw [citedBy, hnext, List.mem_cons, not_or]
      have hnamed := named_of_ok href
      refine ⟨?_, ih (heffect.counted (named_of_ok href') h)
        (heffect.cited hnamed.citation_solid (bracket_mem_citation _ _) hcited)⟩
      rintro rfl
      rw [href] at href'
      cases href'
      exact hnew hcited
    · rw [hsame]
      exact ih h hcited

theorem nodup_citedBy {raw : Text} (h : Counted raw) (calls : List Call) : (citedBy raw calls).Nodup := by
  induction calls generalizing raw with
  | nil => exact List.nodup_nil
  | cons call calls ih =>
    rcases step_cases raw call with ⟨next, hnext⟩ | ⟨-, hsame⟩
    · obtain ⟨ref, href, -, heffect⟩ := writes_effect h hnext
      have hcounted := heffect.counted (named_of_ok href) h
      rw [citedBy, hnext]
      exact List.nodup_cons.2 ⟨notMem_citedBy hcounted href heffect.citation calls, ih hcounted⟩
    · rw [hsame]
      exact ih h

theorem placed_of_writes {raw next : Text} {call : Call} (h : Counted raw) (hnext : call.writes raw = .ok (some next)) :
    Placed raw next call := by
  obtain ⟨ref, href, -, heffect⟩ := writes_effect h hnext
  refine ⟨ref, href, ?_⟩
  cases heffect with
  | first evidenceRef h => exact .inl h.below
  | longer evidenceRef h => exact .inr h
  | capture evidenceRef summary h => exact h.below

theorem others_of_plain {page : Text} (h : ∀ row ∈ rows page, isRollup row = false) : others page = printed page := by
  refine List.filter_eq_self.2 fun row hrow => ?_
  obtain ⟨q, hq, rfl⟩ := List.mem_map.1 (List.mem_filter.1 hrow).1
  rw [Bool.not_eq_true', Bool.eq_false_iff]
  intro hrollup
  have hq' := isRollup_mono (prefix_trimEnd q) hrollup
  rw [h q hq] at hq'
  cases hq'

/-- **Main result.** Over any calls, on a page without rollup rows: no capture is cited by two of them, each rollup row
has as many distinct citations of its day as it counts, each line is the last of its section when it is put there, and
what the page showed is still shown in its order. -/
theorem rollup_bookkeeping {page : Text} (hpage : ∀ row ∈ rows page, isRollup row = false) (calls : List Call) :
    (citedBy page calls).Nodup ∧ (∀ row ∈ rows (run page calls), isRollup row = true → Formed row) ∧
      (∀ before call after next, calls = before ++ call :: after → call.writes (run page before) = .ok (some next) →
        Placed (run page before) next call) ∧
      (printed page).Sublist (printed (run page calls)) := by
  have hcounted : Counted page := by
    intro row hrow hrollup
    rw [hpage row hrow] at hrollup
    cases hrollup
  refine ⟨nodup_citedBy hcounted calls, counted_run hcounted calls, ?_, ?_⟩
  · intro before call after next _ hnext
    exact placed_of_writes (counted_run hcounted before) hnext
  · rw [← others_of_plain hpage]
    exact (others_run hcounted calls).trans List.filter_sublist

def farmPage : Text := "# Farm\n\n## Ops rollup\n\n## Captures\n\nnote  \n".toList

def farmCalls : List Call :=
  [.rollup "Log/2026-01-02.md#^e-1a".toList, .cite "Log/2026-01-02.md#^e-1a".toList "Lambs".toList,
    .rollup "Log/2026-01-02.md#^e-1b".toList, .cite "Log/2026-01-03.md#^e-2c".toList "Fence  mended".toList]

set_option maxRecDepth 8000 in
theorem farm_bookkeeping :
    (∀ row ∈ rows farmPage, isRollup row = false) ∧ (citedBy farmPage farmCalls).Nodup ∧
      rollupRow "2026-01-02".toList ["e-1a".toList, "e-1b".toList] ∈ rows (run farmPage farmCalls) ∧
      (printed farmPage).Sublist (printed (run farmPage farmCalls)) := by
  have hplain : ∀ row ∈ rows farmPage, isRollup row = false := by decide
  obtain ⟨hnodup, -, -, hshown⟩ := rollup_bookkeeping hplain farmCalls
  exact ⟨hplain, hnodup, by decide, hshown⟩

set_option maxRecDepth 8000 in
/-- The last line of a section loses the white space at its end. -/
theorem trailing_space_lost : ¬∀ (page : Text) (calls : List Call), (∀ row ∈ rows page, isRollup row = false) →
    ((rows page).filter fun row => trimEnd row ≠ []).Sublist (rows (run page calls)) := by
  intro h
  have hlost := h farmPage farmCalls (by decide)
  have hrow : "note  ".toList ∈ rows (run farmPage farmCalls) := hlost.subset (by decide)
  exact absurd hrow (by decide)

end Zenod.Sections
