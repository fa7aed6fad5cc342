/-
What a complete coverage means. The tracker is told by the log of what was
recorded: the pages of a query since its last restart, and the passages read
behind it.

`Tracked` is what a search of the tracker says of the log; `run_mirrors` keeps
it along a run. `coverage_complete`: where the coverage is complete, the pages
hold every entry that was matched and the passages every section of them.
-/
import Zenod.Engine.Coverage
import Zenod.Engine.EntryWalk

namespace Zenod.Engine

open Text

/-! ## Catalogs with one snapshot -/

section
variable {host : Host} {entries others selected selected' : List CatalogEntry} {query : MemoryEntryQuery}

theorem mapM_stamp_eq {stamped : List (Int × CatalogEntry)} (h : entries.mapM stamp = .ok stamped) :
    stamped = entries.map fun e => (timeOf e, e) := by
  induction entries generalizing stamped with
  | nil => cases h; rfl
  | cons e entries ih =>
    rw [List.mapM_cons] at h
    cases he : stamp e with
    | error err => rw [he] at h; cases h
    | ok first =>
      cases hrest : entries.mapM stamp with
      | error err => rw [he, hrest] at h; cases h
      | ok rest =>
        rw [he, hrest] at h
        cases h
        obtain ⟨rfl, htime⟩ := stamp_ok he
        rw [memoryTimestamp_eq ⟨_, htime⟩] at htime
        rw [List.map_cons, ← ih hrest, Except.ok.inj htime]

theorem select_perm (hperm : entries.Perm others) (h : selectMemoryEntries host entries query = .ok selected)
    (h' : selectMemoryEntries host others query = .ok selected') : selected.Perm selected' := by
  unfold selectMemoryEntries at h h'
  cases hcriteria : criteriaOf host query with
  | error err => rw [hcriteria] at h; cases h
  | ok criteria =>
  cases hstamped : entries.mapM stamp with
  | error err => rw [hcriteria, hstamped] at h; cases h
  | ok stamped =>
  cases hstamped' : others.mapM stamp with
  | error err => rw [hcriteria, hstamped'] at h'; cases h'
  | ok stamped' =>
  rw [hcriteria, hstamped] at h
  rw [hcriteria, hstamped'] at h'
  cases h
  cases h'
  have hsame : stamped.Perm stamped' := by
    rw [mapM_stamp_eq hstamped, mapM_stamp_eq hstamped']
    exact hperm.map _
  refine List.Perm.map _ ?_
  exact ((List.perm_insertionSort _ _).trans (hsame.filter _)).trans (List.perm_insertionSort _ _).symm

theorem perm_of_snapshotOf_eq (h : snapshotOf entries = snapshotOf others) : entries.Perm others := by
  have hentries : (snapshotOf entries).Perm entries := List.perm_insertionSort _ _
  have hothers : (snapshotOf others).Perm others := List.perm_insertionSort _ _
  exact hentries.symm.trans (h ▸ hothers)

end

/-! ## The log -/

/-- A page of an entry search, and what it was searched in. -/
structure SearchCall where
  input : EntrySearchInput
  catalog : EntryCatalog
  result : EntrySearchResult

def SearchCall.key (c : SearchCall) : Text := c.input.key

def SearchCall.snapshot (c : SearchCall) : Text := c.result.pagination.snapshot

/-- What is called on the tracker; the last four are what its callers write to its public fields. -/
inductive CoverageEvent
  | recordSearch (call : SearchCall)
  | failSearch (input : EntrySearchInput) (message : Text)
  | invalidate (query : EntrySearchInput)
  | recordRead (passage : NotePassage)
  | reserveEntryPage
  | reserveRead
  | askExhaustive
  | searchChats
  | failRead (path : Text)
  | succeedRead (path : Text)

namespace RetrievalCoverage

def step (t : RetrievalCoverage) : CoverageEvent → RetrievalCoverage
  | .recordSearch call => t.recordSearch call.input call.result
  | .failSearch input message => t.failSearch input message
  | .invalidate query => t.invalidate query
  | .recordRead passage => t.recordRead passage
  | .reserveEntryPage => t.reserveEntryPage.1
  | .reserveRead => t.reserveRead.1
  | .askExhaustive => { t with exhaustive := true }
  | .searchChats => { t with chats := true }
  | .failRead path => { t with failedReads := addTo t.failedReads path }
  | .succeedRead path => { t with failedReads := t.failedReads.filter (· ≠ path) }

/-- The tracker of a question, behind a log. -/
def run (unicode : Unicode) (question : Text) (pinned : List Text) (log : List CoverageEvent) : RetrievalCoverage :=
  log.foldl step (new unicode question pinned)

end RetrievalCoverage

open RetrievalCoverage

/-- The pages of a query. -/
def pagesOf (key : Text) (log : List CoverageEvent) : List SearchCall := log.filterMap fun
  | .recordSearch call => if call.key = key then some call else none
  | _ => none

/-- The passages that were read. -/
def readsOf (log : List CoverageEvent) : List NotePassage := log.filterMap fun
  | .recordRead passage => some passage
  | _ => none

/-- The page does not continue what was recorded before: it is asked for without a cursor, or it is not of the snapshot
of the page before it, if there is one. -/
def Restarts (before : List CoverageEvent) (call : SearchCall) : Prop :=
  call.input.continues = false ∨ (pagesOf call.key before).getLast?.map SearchCall.snapshot ≠ some call.snapshot

/-- `call` is the last restart of the query. -/
structure LastRestart (log : List CoverageEvent) (key : Text) (before : List CoverageEvent) (call : SearchCall)
    (after : List CoverageEvent) : Prop where
  log_eq : log = before ++ .recordSearch call :: after
  key_eq : call.key = key
  restarts : Restarts before call
  last : ∀ b c a, after = b ++ .recordSearch c :: a → c.key = key → ¬Restarts (before ++ .recordSearch call :: b) c

/-- The passages of the entry that were read last, of one version, leave nothing of its section out: the section that
the first of them names. -/
def ReadInFull (ref : Text) (reads : List NotePassage) : Prop :=
  ∃ latest first, (reads.filter fun p => p.identity = ref && p.part = .body).getLast? = some latest ∧
    first ∈ reads ∧ first.identity = ref ∧ first.part = .body ∧ first.version = latest.version ∧
    ∀ x, first.extent.sectionStart ≤ x → x < first.extent.sectionStop →
      ∃ p ∈ reads, p.identity = ref ∧ p.part = .body ∧ p.version = latest.version ∧ p.extent.start ≤ x ∧ x < p.extent.stop

/-- The pages are of one snapshot, and everything they matched stands in one of them and was read behind the restart. -/
def Exhausted (host : Host) (pages : List SearchCall) (reads : List NotePassage) : Prop :=
  (∀ c ∈ pages, ∀ d ∈ pages, c.snapshot = d.snapshot) ∧
  ∀ c ∈ pages, ∃ selected, selectMemoryEntries host c.catalog.merged c.input.toQuery = .ok selected ∧
    ∀ e ∈ selected, (∃ d ∈ pages, memoryEntrySummary e ∈ d.result.entries) ∧ ReadInFull e.evidenceRef reads

/-! ## What a search says of the log -/

section
variable {key : Text} {log before after : List CoverageEvent} {call : SearchCall} {e : CoverageEvent}

theorem pagesOf_append (key : Text) (log log' : List CoverageEvent) :
    pagesOf key (log ++ log') = pagesOf key log ++ pagesOf key log' := List.filterMap_append

theorem readsOf_append (log log' : List CoverageEvent) : readsOf (log ++ log') = readsOf log ++ readsOf log' :=
  List.filterMap_append

theorem pagesOf_cons_call (h : call.key = key) (after : List CoverageEvent) :
    pagesOf key (.recordSearch call :: after) = call :: pagesOf key after := by
  unfold pagesOf
  rw [List.filterMap_cons]
  simp only [h, if_true]

namespace LastRestart

/-- The pages of the query end with those since its restart. -/
theorem pages_eq (h : LastRestart log key before call after) :
    pagesOf key log = pagesOf key before ++ call :: pagesOf key after := by
  rw [h.log_eq, pagesOf_append, pagesOf_cons_call h.key_eq]

theorem getLast?_eq (h : LastRestart log key before call after) :
    (pagesOf key log).getLast? = (call :: pagesOf key after).getLast? := by
  rw [h.pages_eq, List.getLast?_append]
  cases hlast : (call :: pagesOf key after).getLast? with
  | none => simp at hlast
  | some c => rfl

theorem first (hkey : call.key = key) (h : Restarts log call) : LastRestart (log ++ [.recordSearch call]) key log call [] where
  log_eq := rfl
  key_eq := hkey
  restarts := h
  last := by
    intro b c a hlog
    cases b <;> cases hlog

/-- What is recorded behind a restart, unless it restarts the query again. -/
theorem snoc (h : LastRestart log key before call after)
    (he : ∀ c, e = .recordSearch c → c.key = key → ¬Restarts log c) :
    LastRestart (log ++ [e]) key before call (after ++ [e]) where
  log_eq := by rw [h.log_eq, List.append_assoc, List.cons_append]
  key_eq := h.key_eq
  restarts := h.restarts
  last := by
    intro b c a hafter hkey
    rcases List.eq_nil_or_concat a with rfl | ⟨a', e', rfl⟩
    · obtain ⟨rfl, he'⟩ := List.append_inj' hafter rfl
      have hlog := he c (List.singleton_inj.1 he') hkey
      rwa [h.log_eq] at hlog
    · rw [List.concat_eq_append, ← List.cons_append, ← List.append_assoc] at hafter
      obtain ⟨rfl, _⟩ := List.append_inj' hafter rfl
      exact h.last b c a' rfl hkey

end LastRestart

end

/-- What a search of the tracker says of the pages since its restart and of the passages read behind it. -/
structure Tracked (t : RetrievalCoverage) (key : Text) (s : Search) (call : SearchCall) (after : List CoverageEvent) :
    Prop where
  snapshot : ∀ c ∈ call :: pagesOf key after, c.snapshot = call.snapshot
  last : ∃ c, (call :: pagesOf key after).getLast? = some c ∧ s.last.pagination.snapshot = c.snapshot ∧
    s.last.pagination.matchedEntries = c.result.pagination.matchedEntries
  nodup : s.refs.Nodup
  refs : ∀ r ∈ s.refs, ∃ c ∈ call :: pagesOf key after, r ∈ c.result.entries.map EntrySummary.evidenceRef
  reads : (t.passages.filter fun p => s.startedAt < p.2).map (·.1) = readsOf after
  started : s.startedAt ≤ t.sequence

/-- What the tracker says of the log. -/
structure Mirrors (log : List CoverageEvent) (t : RetrievalCoverage) : Prop where
  numbered : ∀ p ∈ t.passages, p.2 ≤ t.sequence
  searched : ∀ key, pagesOf key log ≠ [] → ∃ s, (key, s) ∈ t.searches
  tracked : ∀ key s, (key, s) ∈ t.searches →
    ∃ before call after, LastRestart log key before call after ∧ Tracked t key s call after

/-! ## Keyed collections -/

section
variable {α : Type} {m : MapOf α} {key : Text} {a : α} {e : Text × α}

theorem MapOf.has_of_mem (h : (key, a) ∈ m) : m.has key = true :=
  List.any_eq_true.2 ⟨_, h, decide_eq_true rfl⟩

theorem MapOf.get_of_mem (h : (key, a) ∈ m) : ∃ b, m.get key = some b := by
  cases hfind : m.find? (·.1 = key) with
  | none => exact absurd (decide_eq_true rfl) (List.find?_eq_none.1 hfind _ h)
  | some e => exact ⟨e.2, by rw [MapOf.get, hfind]; rfl⟩

theorem MapOf.mem_set_self (m : MapOf α) (key : Text) (a : α) : (key, a) ∈ m.set key a := by
  unfold MapOf.set
  split
  next h =>
    obtain ⟨e, he, hkey⟩ := List.any_eq_true.1 h
    exact List.mem_map.2 ⟨e, he, if_pos (of_decide_eq_true hkey)⟩
  next => exact List.mem_append_right m (List.mem_singleton_self _)

theorem MapOf.mem_set_of_ne (h : e ∈ m) (hkey : e.1 ≠ key) : e ∈ m.set key a := by
  unfold MapOf.set
  split
  next => exact List.mem_map.2 ⟨e, h, if_neg hkey⟩
  next => exact List.mem_append_left _ h

theorem MapOf.eq_or_mem_of_mem_set (h : e ∈ m.set key a) : e = (key, a) ∨ e ∈ m ∧ e.1 ≠ key := by
  unfold MapOf.set at h
  split at h
  next =>
    obtain ⟨d, hd, rfl⟩ := List.mem_map.1 h
    split
    next => exact Or.inl rfl
    next hne => exact Or.inr ⟨hd, hne⟩
  next hhas =>
    rcases List.mem_append.1 h with h | h
    · refine Or.inr ⟨h, fun hkey => hhas ?_⟩
      exact MapOf.has_of_mem (a := e.2) (hkey ▸ h)
    · exact Or.inl (List.mem_singleton.1 h)

end

theorem nodup_addTo {set : List Text} (t : Text) (h : set.Nodup) : (addTo set t).Nodup := by
  unfold addTo
  split
  next => exact h
  next hnew =>
    refine List.nodup_append.2 ⟨h, List.nodup_singleton t, fun a ha b hb => ?_⟩
    rw [List.mem_singleton.1 hb]
    exact fun hab => hnew (List.contains_iff_mem.2 (hab ▸ ha))

theorem nodup_foldl_addTo (ts : List Text) {set : List Text} (h : set.Nodup) : (ts.foldl addTo set).Nodup := by
  induction ts generalizing set with
  | nil => exact h
  | cons t ts ih => exact ih (nodup_addTo t h)

/-! ## One event -/

section
variable {t t' : RetrievalCoverage} {key : Text} {log after : List CoverageEvent} {call : SearchCall} {s s' : Search}
  {e : CoverageEvent}

/-- What is recorded elsewhere leaves a search tracked, also when its pages are discarded. -/
theorem Tracked.frame (h : Tracked t key s call after) (hpages : pagesOf key [e] = [])
    (hstarted : s'.startedAt = s.startedAt) (hrefs : s'.refs.Sublist s.refs)
    (hsnapshot : s'.last.pagination.snapshot = s.last.pagination.snapshot)
    (hmatched : s'.last.pagination.matchedEntries = s.last.pagination.matchedEntries)
    (hreads : ∀ n ≤ t.sequence, (t'.passages.filter fun p => n < p.2).map (·.1) =
      (t.passages.filter fun p => n < p.2).map (·.1) ++ readsOf [e])
    (hsequence : t.sequence ≤ t'.sequence) : Tracked t' key s' call (after ++ [e]) := by
  have hsame : pagesOf key (after ++ [e]) = pagesOf key after := by rw [pagesOf_append, hpages, List.append_nil]
  refine ⟨?_, ?_, h.nodup.sublist hrefs, ?_, ?_, hstarted.symm ▸ h.started.trans hsequence⟩
  · rw [hsame]
    exact h.snapshot
  · obtain ⟨c, hc, hcs, hcm⟩ := h.last
    exact ⟨c, hsame.symm ▸ hc, hsnapshot.trans hcs, hmatched.trans hcm⟩
  · rw [hsame]
    exact fun r hr => h.refs r (hrefs.subset hr)
  · rw [hstarted, hreads _ h.started, h.reads, readsOf_append]

/-- The snapshot a search was left at is that of the last page of its query. -/
theorem Mirrors.snapshot_eq (h : Mirrors log t) (key : Text) :
    (t.searches.get key).map (fun s => s.last.pagination.snapshot) = (pagesOf key log).getLast?.map SearchCall.snapshot := by
  cases hget : t.searches.get key with
  | none =>
    cases hpages : pagesOf key log with
    | nil => rfl
    | cons c rest =>
      obtain ⟨s, hs⟩ := h.searched key (by rw [hpages]; exact List.cons_ne_nil c rest)
      obtain ⟨s', hs'⟩ := MapOf.get_of_mem hs
      rw [hget] at hs'
      cases hs'
  | some s =>
    obtain ⟨before, call, after, hlast, htracked⟩ := h.tracked key s (MapOf.mem_of_get hget)
    obtain ⟨c, hc, hsnapshot, _⟩ := htracked.last
    rw [hlast.getLast?_eq, hc, Option.map_some, Option.map_some, hsnapshot]

theorem Mirrors.searchOf_restart (h : Mirrors log t) (hrestarts : Restarts log call) :
    t.searchOf call.input call.result =
      ({ query := call.input.filters, last := call.result, refs := [], startedAt := t.sequence + 1 }, t.sequence + 1) := by
  have hsnapshot := h.snapshot_eq call.key
  unfold searchOf
  have hnone : (t.searches.get call.input.key).filter (fun s =>
      decide (s.last.pagination.snapshot = call.result.pagination.snapshot) && call.input.continues) = none := by
    rw [Option.filter_eq_none_iff]
    intro s hs hboth
    rw [Bool.and_eq_true, decide_eq_true_eq] at hboth
    rcases hrestarts with hcursor | hother
    · rw [hcursor] at hboth
      cases hboth.2
    · refine hother ?_
      rw [← hsnapshot]
      exact Option.map_eq_some_iff.2 ⟨s, hs, hboth.1⟩
  rw [hnone]

theorem Mirrors.searchOf_continue (h : Mirrors log t) (hcontinues : ¬Restarts log call) :
    ∃ s, (call.key, s) ∈ t.searches ∧ s.last.pagination.snapshot = call.snapshot ∧
      t.searchOf call.input call.result = (s, t.sequence) := by
  unfold Restarts at hcontinues
  rw [not_or, not_not, Bool.not_eq_false, ← h.snapshot_eq call.key] at hcontinues
  obtain ⟨s, hs, hsnapshot⟩ := Option.map_eq_some_iff.1 hcontinues.2
  refine ⟨s, MapOf.mem_of_get hs, hsnapshot, ?_⟩
  unfold searchOf
  have hsome : (t.searches.get call.input.key).filter (fun s =>
      decide (s.last.pagination.snapshot = call.result.pagination.snapshot) && call.input.continues) = some s := by
    rw [show t.searches.get call.input.key = some s from hs]
    refine Option.filter_some_pos ?_
    rw [hcontinues.1, Bool.and_true]
    exact decide_eq_true hsnapshot
  rw [hsome]

theorem pagesOf_other {c : SearchCall} (h : c.key ≠ key) : pagesOf key [.recordSearch c] = [] := by
  simp only [pagesOf, List.filterMap_cons, h, if_false, List.filterMap_nil]

theorem reads_nil {ps : List (NotePassage × Nat)} (h : ∀ p ∈ ps, p.2 ≤ n) :
    (ps.filter fun p => n < p.2).map (·.1) = [] := by
  rw [List.map_eq_nil_iff, List.filter_eq_nil_iff]
  intro p hp hlt
  exact absurd (of_decide_eq_true hlt) (Nat.not_lt.2 (h p hp))

/-- A page that restarts its query. -/
theorem Mirrors.restart (h : Mirrors log t) (hrestarts : Restarts log call) :
    ∃ s, (t.recordSearch call.input call.result).searches = t.searches.set call.key s ∧
      Tracked (t.recordSearch call.input call.result) call.key s call [] := by
  have hof := h.searchOf_restart hrestarts
  unfold recordSearch
  rw [hof]
  refine ⟨_, rfl, ?_⟩
  refine ⟨fun c hc => ?_, ⟨call, rfl, rfl, rfl⟩, nodup_foldl_addTo _ List.nodup_nil, fun r hr => ?_, ?_, Nat.le_refl _⟩
  · rw [List.mem_singleton.1 hc]
  · rcases mem_foldl_addTo.1 hr with hr | hr
    · cases hr
    · exact ⟨call, List.mem_cons_self, hr⟩
  · exact reads_nil fun p hp => Nat.le_succ_of_le (h.numbered p hp)

/-- A page that continues its query. -/
theorem Mirrors.continues (h : Mirrors log t) (hcontinues : ¬Restarts log call) :
    ∃ before first after s, LastRestart log call.key before first after ∧
      (t.recordSearch call.input call.result).searches = t.searches.set call.key s ∧
      Tracked (t.recordSearch call.input call.result) call.key s first (after ++ [.recordSearch call]) := by
  obtain ⟨s, hs, hsnapshot, hof⟩ := h.searchOf_continue hcontinues
  obtain ⟨before, first, after, hlast, htracked⟩ := h.tracked call.key s hs
  have hpages : pagesOf call.key (after ++ [.recordSearch call]) = pagesOf call.key after ++ [call] := by
    rw [pagesOf_append, pagesOf_cons_call rfl]
    rfl
  have hfirst : call.snapshot = first.snapshot := by
    obtain ⟨c, hc, hcs, _⟩ := htracked.last
    rw [← hsnapshot, hcs]
    exact htracked.snapshot c (List.mem_of_getLast? hc)
  refine ⟨before, first, after, _, hlast, rfl, ?_⟩
  unfold recordSearch
  rw [hof]
  refine ⟨fun c hc => ?_, ⟨call, ?_, rfl, rfl⟩, nodup_foldl_addTo _ htracked.nodup, fun r hr => ?_, ?_, htracked.started⟩
  · rw [hpages, ← List.cons_append] at hc
    rcases List.mem_append.1 hc with hc | hc
    · exact htracked.snapshot c hc
    · rw [List.mem_singleton.1 hc, hfirst]
  · rw [hpages, ← List.cons_append, List.getLast?_concat]
  · rw [hpages, ← List.cons_append]
    rcases mem_foldl_addTo.1 hr with hr | hr
    · obtain ⟨c, hc, hr⟩ := htracked.refs r hr
      exact ⟨c, List.mem_append_left _ hc, hr⟩
    · exact ⟨call, List.mem_append_right _ (List.mem_singleton_self _), hr⟩
  · rw [readsOf_append]
    exact htracked.reads.trans (List.append_nil _).symm

/-- The sequence after a page is at least what it was. -/
theorem sequence_recordSearch (t : RetrievalCoverage) (input : EntrySearchInput) (result : EntrySearchResult) :
    t.sequence ≤ (t.recordSearch input result).sequence := by
  unfold recordSearch searchOf
  split
  next => exact Nat.le_refl _
  next => exact Nat.le_succ _

theorem Mirrors.recordSearch (h : Mirrors log t) (call : SearchCall) :
    Mirrors (log ++ [.recordSearch call]) (t.recordSearch call.input call.result) := by
  -- The search of the page, and the searches of the other queries.
  have hown : ∃ s before first after, (t.recordSearch call.input call.result).searches = t.searches.set call.key s ∧
      LastRestart (log ++ [.recordSearch call]) call.key before first after ∧
      Tracked (t.recordSearch call.input call.result) call.key s first after := by
    by_cases hrestarts : Restarts log call
    · obtain ⟨s, hsearches, htracked⟩ := h.restart hrestarts
      exact ⟨s, log, call, [], hsearches, LastRestart.first rfl hrestarts, htracked⟩
    · obtain ⟨before, first, after, s, hlast, hsearches, htracked⟩ := h.continues hrestarts
      refine ⟨s, before, first, _, hsearches, hlast.snoc fun c hc _ => ?_, htracked⟩
      cases hc
      exact hrestarts
  obtain ⟨s, before, first, after, hsearches, hlast, htracked⟩ := hown
  refine ⟨fun p hp => (h.numbered p hp).trans (sequence_recordSearch t _ _), fun key hkey => ?_, fun key s' hs' => ?_⟩
  · rw [hsearches]
    by_cases hsame : call.key = key
    · exact ⟨s, hsame ▸ MapOf.mem_set_self _ _ _⟩
    · rw [pagesOf_append, pagesOf_other hsame, List.append_nil] at hkey
      obtain ⟨s', hs'⟩ := h.searched key hkey
      exact ⟨s', MapOf.mem_set_of_ne hs' fun heq => hsame heq.symm⟩
  · rw [hsearches] at hs'
    rcases MapOf.eq_or_mem_of_mem_set hs' with heq | ⟨hs', hne⟩
    · cases heq
      exact ⟨before, first, after, hlast, htracked⟩
    · obtain ⟨b, c, a, hlast', htracked'⟩ := h.tracked key s' hs'
      refine ⟨b, c, _, hlast'.snoc fun d hd hdkey => ?_, htracked'.frame (pagesOf_other fun heq => hne heq.symm) rfl
        (List.Sublist.refl _) rfl rfl (fun _ _ => (List.append_nil _).symm) (sequence_recordSearch t _ _)⟩
      cases hd
      exact absurd hdkey.symm hne

/-- An event that is no page. -/
theorem Mirrors.other (h : Mirrors log t) (hpage : ∀ key, pagesOf key [e] = []) {f : Search → Search}
    (hsearches : t'.searches = t.searches.map fun s => (s.1, f s.2)) (hf : ∀ s, (f s).startedAt = s.startedAt ∧
      (f s).refs.Sublist s.refs ∧ (f s).last.pagination.snapshot = s.last.pagination.snapshot ∧
      (f s).last.pagination.matchedEntries = s.last.pagination.matchedEntries)
    (hnumbered : ∀ p ∈ t'.passages, p.2 ≤ t'.sequence)
    (hreads : ∀ n ≤ t.sequence, (t'.passages.filter fun p => n < p.2).map (·.1) =
      (t.passages.filter fun p => n < p.2).map (·.1) ++ readsOf [e])
    (hsequence : t.sequence ≤ t'.sequence) : Mirrors (log ++ [e]) t' := by
  refine ⟨hnumbered, fun key hkey => ?_, fun key s' hs' => ?_⟩
  · rw [pagesOf_append, hpage, List.append_nil] at hkey
    obtain ⟨s, hs⟩ := h.searched key hkey
    exact ⟨f s, hsearches ▸ List.mem_map.2 ⟨_, hs, rfl⟩⟩
  · rw [hsearches] at hs'
    obtain ⟨⟨key', s⟩, hs, heq⟩ := List.mem_map.1 hs'
    cases heq
    obtain ⟨b, c, a, hlast, htracked⟩ := h.tracked key' s hs
    obtain ⟨hstarted, hrefs, hsnapshot, hmatched⟩ := hf s
    refine ⟨b, c, _, hlast.snoc fun d hd hdkey => ?_,
      htracked.frame (hpage key') hstarted hrefs hsnapshot hmatched hreads hsequence⟩
    subst hd
    have hpages := hpage key'
    rw [pagesOf_cons_call hdkey] at hpages
    cases hpages

/-- An event that leaves the searches and the passages alone. -/
theorem Mirrors.same (h : Mirrors log t) (hpage : ∀ key, pagesOf key [e] = []) (hread : readsOf [e] = [])
    (hsearches : t'.searches = t.searches) (hpassages : t'.passages = t.passages) (hsequence : t'.sequence = t.sequence) :
    Mirrors (log ++ [e]) t' := by
  refine h.other (f := id) hpage (by simpa using hsearches) (fun s => ⟨rfl, List.Sublist.refl _, rfl, rfl⟩) ?_ ?_
    hsequence.symm.le
  · rw [hpassages, hsequence]
    exact h.numbered
  · intro n _
    rw [hpassages, hread, List.append_nil]

theorem Mirrors.step (h : Mirrors log t) (e : CoverageEvent) : Mirrors (log ++ [e]) (t.step e) := by
  cases e with
  | recordSearch call => exact h.recordSearch call
  | failSearch => exact h.same (fun _ => rfl) rfl rfl rfl rfl
  | invalidate query =>
    refine h.other (f := fun s => if s.query.text = query.text then discard s else s) (fun _ => rfl) ?_ (fun s => ?_)
      h.numbered (fun _ _ => (List.append_nil _).symm) (Nat.le_refl _)
    · refine List.map_congr_left fun s _ => ?_
      split
      next => rfl
      next => rfl
    · split
      next => exact ⟨rfl, List.nil_sublist _, rfl, rfl⟩
      next => exact ⟨rfl, List.Sublist.refl _, rfl, rfl⟩
  | recordRead passage =>
    refine h.other (f := id) (fun _ => rfl) (by simp [RetrievalCoverage.step, recordRead])
      (fun s => ⟨rfl, List.Sublist.refl _, rfl, rfl⟩) (fun p hp => ?_) (fun n hn => ?_) (Nat.le_succ _)
    · rcases List.mem_append.1 hp with hp | hp
      · exact Nat.le_succ_of_le (h.numbered p hp)
      · exact List.mem_singleton.1 hp ▸ Nat.le_refl _
    · show (List.filter _ (t.passages ++ [(passage, t.sequence + 1)])).map _ = _
      have hlater : decide (n < t.sequence + 1) = true := decide_eq_true (Nat.lt_succ_of_le hn)
      rw [List.filter_append, List.map_append, List.filter_cons, hlater]
      rfl
  | reserveEntryPage =>
    refine h.same (fun _ => rfl) rfl ?_ ?_ ?_ <;>
    · simp only [RetrievalCoverage.step, reserveEntryPage]
      split <;> rfl
  | reserveRead =>
    refine h.same (fun _ => rfl) rfl ?_ ?_ ?_ <;>
    · simp only [RetrievalCoverage.step, reserveRead]
      split <;> rfl
  | askExhaustive => exact h.same (fun _ => rfl) rfl rfl rfl rfl
  | searchChats => exact h.same (fun _ => rfl) rfl rfl rfl rfl
  | failRead => exact h.same (fun _ => rfl) rfl rfl rfl rfl
  | succeedRead => exact h.same (fun _ => rfl) rfl rfl rfl rfl

/-- **The tracker mirrors its log.** -/
theorem run_mirrors (unicode : Unicode) (question : Text) (pinned : List Text) (log : List CoverageEvent) :
    Mirrors log (run unicode question pinned log) := by
  induction log using List.reverseRecOn with
  | nil => exact ⟨fun p hp => (by cases hp), fun key hkey => absurd rfl hkey, fun key s hs => (by cases hs)⟩
  | append_singleton log e ih =>
    unfold run at ih ⊢
    rw [List.foldl_concat]
    exact ih.step e

/-! ## Complete coverage -/

/-- **An entry that is complete was read in full.** -/
theorem readInFull_of_entryComplete {ref : Text} {since : Nat} {reads : List NotePassage}
    (hreads : (t.passages.filter fun p => since < p.2).map (·.1) = reads) (h : t.entryComplete ref since = true) :
    ReadInFull ref reads := by
  have hsince : t.readsSince ref since = reads.filter fun p => p.identity = ref && p.part = .body := by
    unfold readsSince
    rw [← hreads, List.filter_map, List.filter_filter]
    refine congrArg (List.map _) (List.filter_congr fun p _ => ?_)
    simp only [Function.comp_apply, Bool.and_assoc, Bool.and_comm]
  unfold entryComplete at h
  rw [hsince] at h
  generalize hown : (reads.filter fun p => p.identity = ref && p.part = .body) = own at h
  have hmem : ∀ p ∈ currentReads own, p ∈ reads ∧ p.identity = ref ∧ p.part = .body ∧
      some p.version = own.getLast?.map NotePassage.version := by
    intro p hp
    obtain ⟨hp, hversion⟩ := List.mem_filter.1 ((List.mem_insertionSort _).1 hp)
    rw [← hown, List.mem_filter, Bool.and_eq_true, decide_eq_true_eq, decide_eq_true_eq] at hp
    exact ⟨hp.1, hp.2.1, hp.2.2, of_decide_eq_true hversion⟩
  cases hcurrent : currentReads own with
  | nil => rw [hcurrent] at h; cases h
  | cons first rest =>
    rw [hcurrent] at h hmem
    simp only [Bool.and_eq_true, Bool.not_eq_true', decide_eq_true_eq] at h
    obtain ⟨hfirst, href, hpart, hversion⟩ := hmem first List.mem_cons_self
    obtain ⟨latest, hlatest, hlast⟩ := Option.map_eq_some_iff.1 hversion.symm
    refine ⟨latest, first, hown ▸ hlatest, hfirst, href, hpart, hlast.symm, fun x hstart hstop => ?_⟩
    obtain ⟨p, hp, hx⟩ := covers_of_readTo h.1 hstart (hstop.trans_le h.2)
    obtain ⟨hread, hid, hbody, hpversion⟩ := hmem p hp
    rw [hlatest] at hpversion
    exact ⟨p, hread, hid, hbody, Option.some.inj hpversion, hx⟩

/-- What a page was made of. -/
theorem searchMemoryEntryPage_ok {host : Host} {catalog : EntryCatalog} {input : EntrySearchInput}
    {result : EntrySearchResult} (h : searchMemoryEntryPage host catalog input = .ok result) :
    ∃ selected, selectMemoryEntries host catalog.merged input.toQuery = .ok selected ∧
      result.pagination.snapshot = hash host (snapshotJson catalog.merged) ∧
      result.pagination.matchedEntries = selected.length ∧
      ∀ s ∈ result.entries, ∃ e ∈ selected, memoryEntrySummary e = s := by
  unfold searchMemoryEntryPage at h
  cases hpage : paginateMemoryEntries host catalog.merged input.toQuery catalog.memoryScope input.cursor? with
  | error err => rw [hpage] at h; cases h
  | ok page =>
    rw [hpage] at h
    cases h
    obtain ⟨j, selected, offset, limit, _, hselected, _, rfl⟩ := paginate_ok hpage
    refine ⟨selected, hselected, rfl, rfl, fun s hs => ?_⟩
    obtain ⟨e, he, rfl⟩ := List.mem_map.1 hs
    exact ⟨e, List.mem_of_mem_drop (List.mem_of_mem_take he), rfl⟩

/-- As many different references as there are entries, all of them of entries, are all there are. -/
theorem mem_refs_of_length {selected : List CatalogEntry} {refs : List Text} (hnodup : refs.Nodup)
    (hsubset : refs ⊆ selected.map fun e => e.evidenceRef) (hlength : refs.length = selected.length) :
    (selected.map fun e => e.evidenceRef).Nodup ∧ ∀ e ∈ selected, e.evidenceRef ∈ refs := by
  have hperm := (hnodup.subperm hsubset).perm_of_length_le (by rw [List.length_map, hlength])
  exact ⟨hperm.nodup_iff.1 hnodup, fun e he => hperm.mem_iff.2 (List.mem_map_of_mem he)⟩

/-- The log holds pages as they were made, and the hash tells their snapshots apart. -/
structure Genuine (host : Host) (log : List CoverageEvent) : Prop where
  page : ∀ c, .recordSearch c ∈ log → searchMemoryEntryPage host c.catalog c.input = .ok c.result
  hash : Set.InjOn host.sha256 {text | ∃ c, .recordSearch c ∈ log ∧ text = (snapshotJson c.catalog.merged).print}

theorem mem_pagesOf {c : SearchCall} : c ∈ pagesOf key log ↔ .recordSearch c ∈ log ∧ c.key = key := by
  unfold pagesOf
  rw [List.mem_filterMap]
  constructor
  · rintro ⟨e, he, heq⟩
    split at heq
    next d =>
      split at heq
      next hkey =>
        cases heq
        exact ⟨he, hkey⟩
      next => cases heq
    next => cases heq
  · rintro ⟨he, hkey⟩
    exact ⟨_, he, if_pos hkey⟩

/-- Pages of one query and one snapshot matched the same entries. -/
theorem Genuine.matched {host : Host} (h : Genuine host log) {c d : SearchCall} (hc : c ∈ pagesOf key log)
    (hd : d ∈ pagesOf key log) (hsnapshot : c.snapshot = d.snapshot) {selected selected' : List CatalogEntry}
    (hselected : selectMemoryEntries host c.catalog.merged c.input.toQuery = .ok selected)
    (hselected' : selectMemoryEntries host d.catalog.merged d.input.toQuery = .ok selected') : selected.Perm selected' := by
  obtain ⟨hc, hckey⟩ := mem_pagesOf.1 hc
  obtain ⟨hd, hdkey⟩ := mem_pagesOf.1 hd
  obtain ⟨_, _, hcs, _⟩ := searchMemoryEntryPage_ok (h.page c hc)
  obtain ⟨_, _, hds, _⟩ := searchMemoryEntryPage_ok (h.page d hd)
  have hhash : Zenod.Engine.hash host (snapshotJson c.catalog.merged) = Zenod.Engine.hash host (snapshotJson d.catalog.merged) :=
    hcs.symm.trans (hsnapshot.trans hds)
  have hperm := perm_of_snapshotOf_eq (snapshotJson_inj (Json.print_injective (h.hash ⟨c, hc, rfl⟩ ⟨d, hd, rfl⟩ hhash)))
  rw [EntrySearchInput.queries_agree host (hckey.trans hdkey.symm)] at hselected
  exact select_perm hperm hselected hselected'

/-- **A search that is complete** holds everything its snapshot matched, and all of it was read. -/
theorem exhausted_of_complete {host : Host} (hgenuine : Genuine host log) {before : List CoverageEvent}
    (hlast : LastRestart log key before call after) (htracked : Tracked t key s call after)
    (hcomplete : (t.reportSearch s).enumerationComplete = true) (hread : (t.reportSearch s).unreadEvidenceRefs = []) :
    Exhausted host (call :: pagesOf key after) (readsOf after) := by
  have hmem : ∀ c ∈ call :: pagesOf key after, c ∈ pagesOf key log := fun c hc => by
    rw [hlast.pages_eq]
    exact List.mem_append_right _ hc
  have hsnapshot : ∀ c ∈ call :: pagesOf key after, ∀ d ∈ call :: pagesOf key after, c.snapshot = d.snapshot :=
    fun c hc d hd => (htracked.snapshot c hc).trans (htracked.snapshot d hd).symm
  simp only [reportSearch, Bool.and_eq_true, decide_eq_true_eq] at hcomplete
  obtain ⟨final, hfinal, _, hmatched⟩ := htracked.last
  have hfinal := List.mem_of_getLast? hfinal
  obtain ⟨selected, hselected, _, hlength, _⟩ := searchMemoryEntryPage_ok (hgenuine.page final (mem_pagesOf.1 (hmem _ hfinal)).1)
  -- What stands in a page, and what a page matched, is what the last page matched.
  have hentries : ∀ d ∈ call :: pagesOf key after, ∀ r ∈ d.result.entries, ∃ f ∈ selected, memoryEntrySummary f = r := by
    intro d hd r hr
    obtain ⟨_, hselected', _, _, hshown⟩ := searchMemoryEntryPage_ok (hgenuine.page d (mem_pagesOf.1 (hmem d hd)).1)
    obtain ⟨f, hf, hfr⟩ := hshown r hr
    have hperm := hgenuine.matched (hmem d hd) (hmem final hfinal) (hsnapshot d hd final hfinal) hselected' hselected
    exact ⟨f, hperm.mem_iff.1 hf, hfr⟩
  obtain ⟨hrefsNodup, hall⟩ := @mem_refs_of_length selected _ htracked.nodup (fun r hr => by
    obtain ⟨d, hd, hdr⟩ := htracked.refs r hr
    obtain ⟨shown, hshown, rfl⟩ := List.mem_map.1 hdr
    obtain ⟨f, hf, rfl⟩ := hentries d hd shown hshown
    exact List.mem_map.2 ⟨f, hf, rfl⟩) (by omega)
  refine ⟨hsnapshot, fun c hc => ?_⟩
  obtain ⟨selected', hselected', _⟩ := searchMemoryEntryPage_ok (hgenuine.page c (mem_pagesOf.1 (hmem c hc)).1)
  refine ⟨selected', hselected', fun e he => ?_⟩
  have hperm := hgenuine.matched (hmem c hc) (hmem final hfinal) (hsnapshot c hc final hfinal) hselected' hselected
  have he := hperm.mem_iff.1 he
  have href := hall e he
  constructor
  · obtain ⟨d, hd, hdr⟩ := htracked.refs _ href
    obtain ⟨shown, hshown, hshownRef⟩ := List.mem_map.1 hdr
    obtain ⟨f, hf, rfl⟩ := hentries d hd shown hshown
    have hsame : f = e := List.inj_on_of_nodup_map hrefsNodup hf he hshownRef
    exact ⟨d, hd, hsame ▸ hshown⟩
  · refine readInFull_of_entryComplete htracked.reads ?_
    have hunread := List.filter_eq_nil_iff.1 hread _ href
    simpa using hunread

theorem pinned_step (t : RetrievalCoverage) (e : CoverageEvent) : (t.step e).pinned = t.pinned := by
  cases e with
  | reserveEntryPage =>
    simp only [RetrievalCoverage.step, reserveEntryPage]
    split <;> rfl
  | reserveRead =>
    simp only [RetrievalCoverage.step, reserveRead]
    split <;> rfl
  | _ => rfl

theorem pinned_run (unicode : Unicode) (question : Text) (pinned : List Text) (log : List CoverageEvent) :
    (run unicode question pinned log).pinned = pinned := by
  induction log using List.reverseRecOn with
  | nil => rfl
  | append_singleton log e ih =>
    unfold run at ih ⊢
    rw [List.foldl_concat, pinned_step, ih]

/-- What is complete about a coverage that is. -/
theorem completed_of_status (h : t.result.status = .completeBoundedScope) :
    (∀ s ∈ t.searches, (t.reportSearch s.2).enumerationComplete = true ∧ (t.reportSearch s.2).unreadEvidenceRefs = []) ∧
    (t.searches = [] → t.pinned ≠ []) := by
  have hstatus : ∀ asked completed clean : Bool,
      (if asked = true then if (completed && clean) = true then CoverageStatus.completeBoundedScope else .partially
        else .focused) = .completeBoundedScope → completed = true := by decide
  unfold result at h
  have hcompleted := hstatus _ _ _ h
  rw [List.length_map] at hcompleted
  constructor
  · intro s hs
    rw [if_pos (List.length_pos_of_mem hs), List.all_map, List.all_eq_true] at hcompleted
    have hs := hcompleted s hs
    rw [Function.comp_apply, Bool.and_eq_true, List.isEmpty_iff] at hs
    exact hs
  · intro hnone hpinned
    rw [hnone, hpinned] at hcompleted
    cases hcompleted

/-- **Complete coverage.** Behind its last restart, the pages of every query searched are of one snapshot and hold every
entry it matched, and the passages read cover the section of each of them; where no query was searched, something is
pinned. -/
theorem coverage_complete {host : Host} {unicode : Unicode} {question : Text} {pinned : List Text}
    (hgenuine : Genuine host log)
    (hcomplete : (run unicode question pinned log).result.status = .completeBoundedScope) :
    (∀ key, pagesOf key log ≠ [] → ∃ before call after, LastRestart log key before call after ∧
      Exhausted host (call :: pagesOf key after) (readsOf after)) ∧
    ((∀ key, pagesOf key log = []) → pinned ≠ []) := by
  have hmirrors := run_mirrors unicode question pinned log
  have hpinned : (run unicode question pinned log).pinned = pinned := pinned_run unicode question pinned log
  generalize run unicode question pinned log = t at hmirrors hcomplete hpinned
  have hcompleted := completed_of_status hcomplete
  constructor
  · intro key hkey
    obtain ⟨s, hs⟩ := hmirrors.searched key hkey
    obtain ⟨before, call, after, hlast, htracked⟩ := hmirrors.tracked key s hs
    obtain ⟨henumerated, hunread⟩ := hcompleted.1 (key, s) hs
    exact ⟨before, call, after, hlast, exhausted_of_complete hgenuine hlast htracked henumerated hunread⟩
  · intro hnone
    rw [← hpinned]
    refine hcompleted.2 (List.eq_nil_iff_forall_not_mem.2 fun s hs => ?_)
    obtain ⟨before, call, after, hlast, _⟩ := hmirrors.tracked s.1 s.2 hs
    have hpages := hnone s.1
    rw [hlast.pages_eq] at hpages
    exact List.cons_ne_nil _ _ (List.append_eq_nil_iff.1 hpages).2

end

/-! ## Two logs -/

def sampleRef : Text := "Log/2026-01-01.md#^e-00000a".toList

/-- **Pins are not read.** A coverage that was asked for one pinned entry is complete before anything was read. -/
theorem pinned_unread :
    Genuine Host.sample [] ∧ (run Unicode.ascii "audit".toList [sampleRef] []).result.status = .completeBoundedScope ∧
      (∀ key, pagesOf key [] = []) ∧ ¬ReadInFull sampleRef (readsOf []) := by
  refine ⟨⟨fun c hc => (by cases hc), fun text ⟨c, hc, _⟩ => (by cases hc)⟩, by decide +kernel, fun _ => rfl, ?_⟩
  rintro ⟨latest, first, hlatest, _⟩
  cases hlatest

def sampleEntryCatalog : EntryCatalog where
  merged := sampleCatalog.take 1
  vaultEntries := 1
  receiptJobs := none
  memoryScope := "tenant-a".toList

def everything : EntrySearchInput := ⟨[.exhaustive true], by decide⟩

def sampleCall : SearchCall where
  input := everything
  catalog := sampleEntryCatalog
  result := {
    entries := memoryEntrySummaries (sampleCatalog.take 1)
    pagination := {
      hasMore := false, nextCursor := none, snapshot := hash Host.sample (snapshotJson (sampleCatalog.take 1))
      matchedEntries := 1, scannedEntries := 1, scannedVaultEntries := 1, scannedReceiptJobs := 0
      receiptEnrichmentAvailable := false
      scope := "all-local-vault-evidence-and-retained-tenant-receipts".toList } }

def samplePassage (start stop : Nat) : NotePassage where
  source := {
    path := "Log/2026-01-01.md".toList, url := "/t".toList, provider := .googleDrive, revisionId := none, githubUrl := none }
  readPath := sampleRef
  part := .body
  frontmatterChars := 2
  version := "v1".toList
  identity := sampleRef
  extent := {
    start := start, stop := stop, total := 100, scopeStart := 0, scopeStop := 100, sectionStart := 0, sectionStop := 100 }
  body := List.replicate (stop - start) 'x'
  truncated := true
  omittedBefore := decide (0 < start)
  nextCursor := none

/-- One page, and its entry in two passages. -/
def sampleLog : List CoverageEvent :=
  [.recordSearch sampleCall, .recordRead (samplePassage 40 100), .recordRead (samplePassage 0 50)]

theorem sampleCall_mem {c : SearchCall} (h : .recordSearch c ∈ sampleLog) : c = sampleCall := by
  simpa [sampleLog] using h

theorem genuine_sampleLog : Genuine Host.sample sampleLog where
  page := fun c hc => by
    obtain rfl := sampleCall_mem hc
    decide +kernel
  hash := by
    rintro _ ⟨c, hc, rfl⟩ _ ⟨d, hd, rfl⟩ _
    rw [sampleCall_mem hc, sampleCall_mem hd]

theorem sample_complete :
    (∀ key, pagesOf key sampleLog ≠ [] → ∃ before call after, LastRestart sampleLog key before call after ∧
      Exhausted Host.sample (call :: pagesOf key after) (readsOf after)) ∧
    ((∀ key, pagesOf key sampleLog = []) → ([] : List Text) ≠ []) :=
  @coverage_complete sampleLog Host.sample Unicode.ascii [] [] genuine_sampleLog (by decide +kernel)

end Zenod.Engine
