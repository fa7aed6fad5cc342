/-
What a call of `captureEvidence` or `store` does to the evidence.

A repository is looked at as a `Ledger`: the entries of its three trees. Each
step of a call acts on the ledger in a simple way, and `Effect` is what a whole
call comes to, provided that what it writes besides the log keeps away from it
(`Classification.Fits`) and that an uncertain filing is published whole.
-/
import Zenod.Custody.Calls

namespace Zenod.Custody

open Text Evidence

/-! ## What a call brings with it -/

def Op.input : Op → StoreInput
  | .capture call => call.input
  | .store call => call.input

def Draw.ref (draw : Draw) : Text := logPathOf (todayString draw.now) ++ "#^".toList ++ anchorOf draw.bytes

def Op.refs : Op → List Text
  | .capture call => [call.draw.ref]
  | .store call => [call.draw.ref, call.again.ref]

def refsOf (appended : List Capture) : List Text := appended.map (·.memoryEntry.evidenceRef)

/-- The entry is one that a capture with this input takes for its own. -/
def StoreInput.matches (input : StoreInput) (e : MemoryEntry) : Bool :=
  e.source = input.source && input.contentType.all (e.contentType = some ·) &&
    (truthy input.sourceId).any (e.sourceId = some ·)

/-- An attempt is accepted before a pull fails. -/
def answered : List PushAttempt → Bool
  | [] => false
  | attempt :: rest => attempt.outcome = .accepted || !attempt.rebaseFails && answered rest

/-- The publication does not fail behind its commit. -/
def Publication.whole (p : Publication) : Bool :=
  p.commitFails || !p.remoteFails && answered ((List.range pushRetries).map p.attempt)

def Classification.Fits (env : Surroundings) (publication : Publication) : Classification → Prop
  | .topics _ _ => True
  | .pages candidates confident _ _ _ =>
    (∀ page ∈ candidates, logDate (env.join (normalizeMarkdownNotePath page.path)) = none) ∧
      (confident = false → candidates ≠ [] → publication.whole = true)

instance (env : Surroundings) (publication : Publication) (c : Classification) : Decidable (c.Fits env publication) := by
  cases c <;> simp only [Classification.Fits] <;> infer_instance

/-! ## The ledger -/

/-- The entries of the three trees. -/
structure Ledger where
  published : Multiset MemoryEntry
  head : Multiset MemoryEntry
  work : Multiset MemoryEntry
  ahead : Bool

structure Ledger.Sound (l : Ledger) : Prop where
  level : l.ahead = false → l.published = l.head
  published_le : l.published ≤ l.head
  head_le : l.head ≤ l.work

def Ledger.append (l : Ledger) (e : MemoryEntry) : Ledger := { l with work := l.work + {e} }

def Ledger.discard (l : Ledger) : Ledger := { l with work := l.head }

def Repo.ledger (s : Repo) : Ledger := ⟨s.inPublished, s.inHead, s.inWork, s.ahead⟩

namespace Repo

variable {s : Repo}

@[simp] theorem ledger_append (c : Capture) : (s.append c).2.ledger = s.ledger.append c.memoryEntry := by
  have hedit : ∀ p ≠ c.logPath, (appendEvidence c s.work).2 p = s.work p :=
    fun _ hp => appendEvidence_other c s.work (Ne.symm hp)
  simp only [ledger, Ledger.append, inWork_append, Ledger.mk.injEq]
  exact ⟨inPublished_edit _ _ hedit, inHead_edit _ _ hedit, trivial, rfl⟩

@[simp] theorem ledger_discard : s.discardChanges.ledger = s.ledger.discard := rfl

/-- A path that is no day of the log. -/
theorem ledger_put {path : Text} (text : Option Text) (h : logDate path = none) : (s.put path text).ledger = s.ledger := by
  simp only [ledger, Ledger.mk.injEq]
  exact ⟨inPublished_edit _ _ _, inHead_edit _ _ _, inWork_edit _ _ h, rfl⟩

@[simp] theorem ledger_putAll (writes : List (PagePath × Option Text)) : (s.putAll writes).ledger = s.ledger := by
  induction writes generalizing s with
  | nil => rfl
  | cons write rest ih => rw [putAll, ih, ledger_put _ write.1.page]

theorem ledger_appendFiledLines {targets : List Text} (h : ∀ t ∈ targets, SingleLine t) (evidenceRef : Text) :
    (s.appendFiledLines evidenceRef targets).ledger = s.ledger := by
  simp only [ledger, Ledger.mk.injEq]
  exact ⟨rfl, rfl, inWork_appendFiledLines h evidenceRef, rfl⟩

@[simp] theorem ledger_writeInboxStub (stamp content question evidenceRef : Text) :
    (s.writeInboxStub stamp content question evidenceRef).ledger = s.ledger :=
  ledger_put _ rfl

theorem ledger_placeFiling {placing : Placing} (h : ∀ t ∈ placing.targets, SingleLine t) (evidenceRef : Text) :
    (s.placeFiling evidenceRef placing).ledger = s.ledger := by
  rw [placeFiling, ledger_appendFiledLines h, ledger_putAll]

/-- A commit that changes something is ahead. -/
theorem ledger_commit (s : Repo) : s.commit.ledger = s.ledger ∧ s.inHead = s.inWork ∨
    s.commit.ledger = { s.ledger with head := s.inWork, ahead := true } := by
  unfold commit
  split
  next h =>
    left
    exact ⟨rfl, by rw [inHead, inWork, changes_eq_nil h]⟩
  next => exact .inr rfl

end Repo

/-- What a publication comes to: the working tree stays, and is what is published where the call returns. -/
structure Ledger.Filed (l l' : Ledger) (done : Bool) : Prop where
  sound : l'.Sound
  work : l'.work = l.work
  kept : l.published ≤ l'.published
  done : done = true → l'.published = l.work

namespace Repo

variable {s : Repo}

theorem publish_filed (h : s.ledger.Sound) : s.publish.ledger.Sound ∧ s.ledger.published ≤ s.publish.ledger.published :=
  ⟨⟨fun _ => rfl, le_rfl, h.head_le⟩, h.published_le⟩

theorem pushAttempts_cases (attempts : List PushAttempt) (s : Repo) :
    s.pushAttempts attempts = (s, false) ∨ s.pushAttempts attempts = (s.publish, false) ∨
      s.pushAttempts attempts = (s.publish, true) := by
  induction attempts generalizing s with
  | nil => exact .inl rfl
  | cons attempt rest ih =>
    unfold pushAttempts
    split
    next => exact .inr (.inr rfl)
    next =>
      split
      next => exact .inr (.inl rfl)
      next =>
        rcases ih s.publish with h | h | h
        · exact .inr (.inl h)
        · exact .inr (.inl h)
        · exact .inr (.inr h)
    next =>
      split
      next => exact .inl rfl
      next => exact ih s

theorem pushAttempts_answered (attempts : List PushAttempt) (s : Repo) :
    (s.pushAttempts attempts).2 = answered attempts := by
  induction attempts generalizing s with
  | nil => rfl
  | cons attempt rest ih =>
    unfold pushAttempts answered
    split
    next h => simp [h]
    next h => split <;> simp_all
    next h => split <;> simp_all

theorem pushWithRetry_filed (h : s.ledger.Sound) (p : Publication) (hlevel : s.inHead = s.inWork) :
    s.ledger.Filed (s.pushWithRetry p).1.ledger (s.pushWithRetry p).2 := by
  have hstill : s.ledger.Filed s.ledger false := ⟨h, rfl, le_rfl, nofun⟩
  obtain ⟨hsound, hle⟩ := publish_filed h
  unfold pushWithRetry
  split
  next => exact hstill
  next =>
    rcases pushAttempts_cases ((List.range pushRetries).map p.attempt) s with heq | heq | heq <;> rw [heq]
    · exact hstill
    · exact ⟨hsound, rfl, hle, nofun⟩
    · exact ⟨hsound, rfl, hle, fun _ => hlevel⟩

theorem commit_sound (h : s.ledger.Sound) :
    s.commit.ledger.Sound ∧ s.commit.inHead = s.commit.inWork ∧ s.commit.inWork = s.inWork ∧
      s.commit.inPublished = s.inPublished := by
  rcases ledger_commit s with ⟨heq, hhead⟩ | heq
  · rw [heq]
    obtain ⟨hpublished, hin, hwork, -⟩ := Ledger.mk.inj heq
    exact ⟨h, by rw [hin, hwork, hhead], hwork, hpublished⟩
  · obtain ⟨hpublished, hin, hwork, -⟩ := Ledger.mk.inj heq
    rw [heq]
    exact ⟨⟨nofun, h.published_le.trans h.head_le, le_rfl⟩, hin.trans hwork.symm, hwork, hpublished⟩

theorem commitAndPublish_filed (h : s.ledger.Sound) (p : Publication) :
    s.ledger.Filed (s.commitAndPublish p).1.ledger (s.commitAndPublish p).2 := by
  unfold commitAndPublish
  split
  next => exact ⟨h, rfl, le_rfl, nofun⟩
  next =>
    obtain ⟨hsound, hlevel, hwork, hpublished⟩ := commit_sound h
    have hfiled := pushWithRetry_filed hsound p hlevel
    exact ⟨hfiled.sound, hfiled.work.trans hwork, hpublished.symm.le.trans hfiled.kept,
      fun hdone => (hfiled.done hdone).trans hwork⟩

theorem commitFiling_filed (h : s.ledger.Sound) (evidenceRef : Text) {placing : Placing}
    (hline : ∀ t ∈ placing.targets, SingleLine t) (p : Publication) :
    s.ledger.Filed (s.commitFiling evidenceRef placing p).1.ledger (s.commitFiling evidenceRef placing p).2 := by
  unfold commitFiling
  split
  next =>
    have hplaced := ledger_placeFiling (s := s) hline evidenceRef
    rw [← hplaced] at h ⊢
    exact commitAndPublish_filed h p
  next => exact commitAndPublish_filed h p

/-- A publication that is whole throws before its commit, if it throws. -/
theorem commitFiling_whole {evidenceRef : Text} {placing : Placing} (hline : ∀ t ∈ placing.targets, SingleLine t)
    {p : Publication} (hwhole : p.whole = true) (hthrows : (s.commitFiling evidenceRef placing p).2 = false) :
    (s.commitFiling evidenceRef placing p).1.ledger = s.ledger := by
  have hpublish : ∀ s : Repo, (s.commitAndPublish p).2 = false → (s.commitAndPublish p).1 = s := by
    intro s hs
    unfold commitAndPublish pushWithRetry at hs ⊢
    simp only [Publication.whole, Bool.or_eq_true, Bool.and_eq_true, Bool.not_eq_true'] at hwhole
    split at hs
    next hfails => rw [if_pos hfails]
    next hcommits =>
      obtain ⟨hremote, hanswered⟩ := hwhole.resolve_left hcommits
      rw [if_neg (by simp [hremote]), pushAttempts_answered, hanswered] at hs
      cases hs
  unfold commitFiling at hthrows ⊢
  split at hthrows
  next => rw [hpublish _ hthrows, ledger_placeFiling hline]
  next => rw [hpublish _ hthrows]

end Repo

/-! ## What a call does -/

/-- What a call has done to the entries: it adds at most one of those it appends, and that one is published where it
returns one. -/
structure Effect (l : Ledger) (o : Outcome) : Prop where
  sound : o.repo.ledger.Sound
  kept : l.published ≤ o.repo.ledger.published
  work : ∃ base ≤ l.work, o.repo.ledger.work = base ∨ ∃ c ∈ o.appended, o.repo.ledger.work = base + {c.memoryEntry}
  returned : ∀ ref, o.returned = some ref → o.appended ≠ [] →
    ∃ c ∈ o.appended, c.memoryEntry.evidenceRef = ref ∧ c.memoryEntry ∈ o.repo.ledger.published

variable {env : Surroundings} {s : Repo} {l : Ledger}

theorem Effect.thrown {appended : List Capture} (h : l.Sound) (hs : s.ledger = l) :
    Effect l { repo := s, appended := appended, returned := none } :=
  ⟨hs ▸ h, hs ▸ le_rfl, ⟨l.work, le_rfl, .inl (hs ▸ rfl)⟩, nofun⟩

theorem Ledger.Sound.append (h : l.Sound) (e : MemoryEntry) : (l.append e).Sound :=
  ⟨h.level, h.published_le, h.head_le.trans (Multiset.le_add_right _ _)⟩

theorem Ledger.Sound.discard (h : l.Sound) : l.discard.Sound := ⟨h.level, h.published_le, le_rfl⟩

/-- A call that throws behind its append. -/
theorem Effect.left {c : Capture} (h : l.Sound) (hs : s.ledger = l.append c.memoryEntry) :
    Effect l { repo := s, appended := [c], returned := none } :=
  ⟨hs ▸ h.append _, hs ▸ le_rfl, ⟨l.work, le_rfl, .inr ⟨c, List.mem_singleton_self c, hs ▸ rfl⟩⟩, nofun⟩

/-- A publication behind an append on `base`, which may be less than there was. -/
theorem Effect.filed (base : Ledger) {c : Capture} {o : Outcome} {done : Bool} {ref : Text}
    (hpublished : base.published = l.published) (hbase : base.work ≤ l.work) (hc : c ∈ o.appended)
    (href : c.memoryEntry.evidenceRef = ref) (hfiled : (base.append c.memoryEntry).Filed o.repo.ledger done)
    (hreturned : o.returned = if done then some ref else none) : Effect l o := by
  refine ⟨hfiled.sound, hpublished ▸ hfiled.kept, ⟨base.work, hbase, .inr ⟨c, hc, hfiled.work⟩⟩, fun ref' href' _ => ?_⟩
  rw [hreturned] at href'
  split at href'
  next hdone =>
    cases href'
    refine ⟨c, hc, href, ?_⟩
    rw [hfiled.done hdone]
    exact Multiset.mem_add.mpr (.inr (Multiset.mem_singleton_self _))
  next => cases href'

theorem filed_effect {call : StoreCall} {c : Capture} {evidence : EvidenceEntry} (h : l.Sound)
    (hs : s.ledger = l.append c.memoryEntry) (href : c.memoryEntry.evidenceRef = evidence.evidenceRef)
    (hline : ∀ t ∈ call.placing.targets, SingleLine t) : Effect l (filed s call c evidence) := by
  have hfiled := Repo.commitFiling_filed (hs ▸ h.append _) evidence.evidenceRef hline call.publication
  rw [hs] at hfiled
  exact .filed l rfl le_rfl (List.mem_singleton_self c) href hfiled rfl

/-- The fallback starts again from HEAD, where nothing of the call is yet. -/
theorem inboxAgain_effect {call : StoreCall} {c : Capture} (question : Text) (h : l.Sound)
    (hs : s.ledger = l.append c.memoryEntry) (hline : ∀ t ∈ call.placingAgain.targets, SingleLine t) :
    Effect l (inboxAgain env s call c question) := by
  let again := call.input.capture (storedVerbatim env call.input) call.again
  let retried := (s.discardChanges.append again).1
  let stubbed := (s.discardChanges.append again).2.writeInboxStub call.stamp call.input.content question retried.evidenceRef
  have hdiscard : s.discardChanges.ledger = l.discard := by rw [Repo.ledger_discard, hs]; rfl
  have hstub : stubbed.ledger = l.discard.append again.memoryEntry := by
    rw [Repo.ledger_writeInboxStub, Repo.ledger_append, hdiscard]
  have hfiled := Repo.commitFiling_filed (hstub ▸ h.discard.append _) retried.evidenceRef hline call.publicationAgain
  rw [hstub] at hfiled
  unfold inboxAgain
  exact .filed l.discard rfl h.head_le (List.mem_cons_of_mem c (List.mem_singleton_self again)) rfl hfiled rfl

theorem composePage_ledger {path : Text} (h : logDate (env.join path) = none) (attempts : List ComposeAttempt) :
    ∀ s : Repo, (s.composePage env path attempts).1.ledger = s.ledger := by
  induction attempts with
  | nil => exact fun _ => rfl
  | cons attempt rest ih =>
    intro s
    cases attempt with
    | fails => rfl
    | text text rejected =>
      simp only [Repo.composePage]
      split
      next => exact Repo.ledger_put _ h
      next => rw [ih, Repo.ledger_put _ h]

theorem composePages_ledger {pages : List Page} (h : ∀ page ∈ pages, logDate (env.join page.path) = none) :
    ∀ s : Repo, (s.composePages env pages).1.ledger = s.ledger := by
  induction pages with
  | nil => exact fun _ => rfl
  | cons page rest ih =>
    intro s
    simp only [Repo.composePages]
    split
    next => rfl
    next =>
      have hpage := composePage_ledger (h page List.mem_cons_self)
        ((List.range (Repo.composeRetries + 1)).map page.attempt) s
      split
      next s' heq =>
        rw [heq] at hpage
        rw [ih (fun page' hpage' => h page' (List.mem_cons_of_mem _ hpage')), hpage]
      next s' heq =>
        rw [heq] at hpage
        exact hpage

/-- An uncertain filing is published as a whole, or nothing of it is committed. -/
theorem fileUncertain_ledger (env : Surroundings) {call : StoreCall} {page : Page} (evidence : EvidenceEntry) (question confidence : Text)
    (rejected : Bool) (h : s.ledger.Sound) (hpage : logDate (env.join page.path) = none)
    (hline : ∀ t ∈ call.placing.targets, SingleLine t) (hwhole : call.publication.whole = true) :
    let r := s.fileUncertain env call page evidence question confidence rejected
    s.ledger.Filed r.1.ledger r.2 ∧ (r.2 = false → r.1.ledger = s.ledger) := by
  have hstill : ∀ s' : Repo, s'.ledger = s.ledger → s.ledger.Filed s'.ledger false ∧ (false = false → s'.ledger = s.ledger) :=
    fun s' hs' => ⟨by rw [hs']; exact ⟨h, rfl, le_rfl, nofun⟩, fun _ => hs'⟩
  simp only [Repo.fileUncertain]
  split
  next => exact hstill s rfl
  next =>
    split
    next => exact hstill s rfl
    next current hcurrent =>
      generalize current ++ (if endsWithNewline current then "\n".toList else "\n\n".toList) ++
        uncertaintyBlock call.input.content question evidence confidence = text
      split
      next => exact hstill _ (Repo.ledger_put _ hpage)
      next =>
        have hput := Repo.ledger_put (s := s) (some text) hpage
        rw [← hput] at h ⊢
        exact ⟨Repo.commitFiling_filed h _ hline _, Repo.commitFiling_whole hline hwhole⟩

theorem fileClassified_effect {call : StoreCall} {c : Capture} {evidence : EvidenceEntry} {classification : Classification}
    (h : l.Sound) (hs : s.ledger = l.append c.memoryEntry) (href : c.memoryEntry.evidenceRef = evidence.evidenceRef)
    (hlevel : l.ahead = false)
    (hline : ∀ t ∈ call.placing.targets ++ call.placingAgain.targets, SingleLine t)
    (hfits : classification.Fits env call.publication) : Effect l (fileClassified env s call c evidence classification) := by
  have hplacing : ∀ t ∈ call.placing.targets, SingleLine t := fun t ht => hline t (List.mem_append_left _ ht)
  have hagain : ∀ t ∈ call.placingAgain.targets, SingleLine t := fun t ht => hline t (List.mem_append_right _ ht)
  cases classification with
  | topics writes fails =>
    have hwrites : (s.putAll writes).ledger = l.append c.memoryEntry := (Repo.ledger_putAll writes).trans hs
    simp only [fileClassified]
    split
    next => exact .left h hwrites
    next =>
      split
      next hnone =>
        -- Nothing has changed, so the entry is that of HEAD, which is published.
        have hhead : (s.putAll writes).inHead = (s.putAll writes).inWork := by
          rw [Repo.inHead, Repo.inWork, Repo.changes_eq_nil hnone]
        obtain ⟨hpublished, hin, hwork, -⟩ := Ledger.mk.inj hwrites
        refine ⟨hwrites ▸ h.append _, hwrites ▸ le_rfl, ⟨l.work, le_rfl, .inr ⟨c, List.mem_singleton_self c, hwrites ▸ rfl⟩⟩, ?_⟩
        intro ref href' _
        cases href'
        refine ⟨c, List.mem_singleton_self c, href, ?_⟩
        show c.memoryEntry ∈ (s.putAll writes).inPublished
        rw [hpublished, h.level hlevel, ← hin, hhead, hwork]
        exact Multiset.mem_add.mpr (.inr (Multiset.mem_singleton_self _))
      next => exact filed_effect h hwrites href hplacing
  | pages pages confident confidence question rejected =>
    have hpages : ∀ page ∈ pages.map fun page => { page with path := normalizeMarkdownNotePath page.path },
        logDate (env.join page.path) = none := by
      intro page hpage
      obtain ⟨page, hmem, rfl⟩ := List.mem_map.mp hpage
      exact hfits.1 page hmem
    simp only [fileClassified]
    split
    next => exact filed_effect h ((Repo.ledger_writeInboxStub ..).trans hs) href hplacing
    next page rest hcons =>
      rw [hcons] at hpages
      split
      next hconfident =>
        have hne : pages ≠ [] := fun hnil => by rw [hnil] at hcons; cases hcons
        have huncertain := fileUncertain_ledger env evidence (question.getD whereToFile) confidence rejected (hs ▸ h.append _)
          (hpages page List.mem_cons_self) hplacing (hfits.2 hconfident hne)
        split
        next s' heq =>
          rw [heq, hs] at huncertain
          exact .filed l rfl le_rfl (List.mem_singleton_self c) href huncertain.1 rfl
        next s' heq =>
          rw [heq] at huncertain
          exact inboxAgain_effect _ h ((huncertain.2 rfl).trans hs) hagain
      next =>
        have hcomposed := composePages_ledger hpages s
        split
        next s' heq =>
          rw [heq] at hcomposed
          exact filed_effect h (hcomposed.trans hs) href hplacing
        next s' heq =>
          rw [heq] at hcomposed
          exact inboxAgain_effect _ h (hcomposed.trans hs) hagain

/-- No publication is open when a call comes to its append. -/
theorem not_ahead (h : s.interrupted = false) : s.ahead = false := by
  unfold Repo.interrupted at h
  simp only [Bool.or_eq_false_iff] at h
  exact h.2

theorem store_effect {call : StoreCall} (h : s.ledger.Sound)
    (hline : ∀ t ∈ call.placing.targets ++ call.placingAgain.targets, SingleLine t)
    (hfits : ∀ c ∈ call.classification, c.Fits env call.publication) : Effect s.ledger (store env s call) := by
  unfold store
  split
  next => exact .thrown h rfl
  next hready =>
    simp only [not_or, Bool.not_eq_true] at hready
    have happend := Repo.ledger_append (s := s) (call.input.capture (storedVerbatim env call.input) call.draw)
    dsimp only
    split
    next => exact .left h happend
    next page text _ =>
      exact filed_effect h ((Repo.ledger_put _ page.page).trans happend) rfl fun t ht => hline t (List.mem_append_left _ ht)
    next =>
      split
      next => exact .left h happend
      next =>
        split
        next => exact inboxAgain_effect _ h happend fun t ht => hline t (List.mem_append_right _ ht)
        next classification hsome =>
          exact fileClassified_effect h happend rfl (not_ahead hready.2.1) hline (hfits classification hsome)

theorem captureEvidence_effect {call : CaptureCall} (h : s.ledger.Sound) : Effect s.ledger (captureEvidence env s call) := by
  unfold captureEvidence
  split
  next => exact .thrown h rfl
  next =>
    split
    next => exact .thrown h rfl
    next entry _ => exact ⟨h, le_rfl, ⟨s.ledger.work, le_rfl, .inl rfl⟩, fun _ _ hne => absurd rfl hne⟩
    next =>
      have happend := s.ledger_append (call.input.capture (call.input.verbatim.getD false) call.draw)
      have hfiled := Repo.commitAndPublish_filed (happend ▸ h.append _) call.publication
      rw [happend] at hfiled
      exact .filed s.ledger rfl le_rfl (List.mem_singleton_self _) rfl hfiled rfl

/-! ## Finding an earlier capture -/

/-- What a capture asks for. -/
def ownQuery (input : StoreInput) (sourceId : Text) : Engine.MemoryEntryQuery :=
  { source := some input.source, contentType := input.contentType, sourceId := some sourceId }

theorem stamped_of_mem {entries : List Engine.CatalogEntry} {stamped : List (Int × Engine.CatalogEntry)}
    (h : entries.mapM Engine.stamp = .ok stamped) : ∀ e ∈ entries, ∃ p ∈ stamped, p.2 = e := by
  induction entries generalizing stamped with
  | nil => exact fun _ he => absurd he List.not_mem_nil
  | cons e entries ih =>
    rw [List.mapM_cons] at h
    cases he : Engine.stamp e with
    | error err => rw [he] at h; cases h
    | ok first =>
      cases hrest : entries.mapM Engine.stamp with
      | error err => rw [he, hrest] at h; cases h
      | ok rest =>
        rw [he, hrest] at h
        cases h
        intro e' he'
        rcases List.mem_cons.mp he' with rfl | he'
        · exact ⟨first, List.mem_cons_self, (Engine.stamp_ok he).1⟩
        · obtain ⟨p, hp, heq⟩ := ih hrest e' he'
          exact ⟨p, List.mem_cons_of_mem _ hp, heq⟩

/-- What is selected for a capture is what it takes for its own. -/
theorem selected_iff {input : StoreInput} {sourceId : Text} {catalog selected : List Engine.CatalogEntry}
    (hid : truthy input.sourceId = some sourceId)
    (h : Engine.selectMemoryEntries env.host catalog (ownQuery input sourceId) = .ok selected) (e : Engine.CatalogEntry) :
    e ∈ selected ↔ e ∈ catalog ∧ input.matches e.toMemoryEntry = true := by
  have hne : sourceId ≠ [] := by
    have := (Option.filter_eq_some_iff.mp hid).2
    simpa using this
  have hadmits : ∀ p : Int × Engine.CatalogEntry, Engine.Criteria.admits env.host
      { source := some input.source, contentType := input.contentType, sourceId := some sourceId, after := none,
        before := none, terms := [] } p = input.matches p.2.toMemoryEntry := by
    intro p
    unfold Engine.Criteria.admits StoreInput.matches
    rw [hid, Option.filter_some_pos (by simpa using hne)]
    cases input.contentType <;> simp [eq_comm]
  cases hstamped : catalog.mapM Engine.stamp with
  | error err =>
    rw [show Engine.selectMemoryEntries env.host catalog (ownQuery input sourceId) = .error err by
      simp only [Engine.selectMemoryEntries, hstamped]; rfl] at h
    cases h
  | ok stamped =>
    have hselected : selected = ((stamped.filter fun p => input.matches p.2.toMemoryEntry).insertionSort
        fun l r => Engine.comesFirst .newest l r = true).map (·.2) := by
      rw [show Engine.selectMemoryEntries env.host catalog (ownQuery input sourceId) = .ok (((stamped.filter
        (Engine.Criteria.admits env.host
          { source := some input.source, contentType := input.contentType, sourceId := some sourceId, after := none,
            before := none, terms := [] })).insertionSort fun l r => Engine.comesFirst .newest l r = true).map (·.2)) by
          simp only [Engine.selectMemoryEntries, hstamped]; rfl] at h
      rw [← Except.ok.inj h, List.filter_congr fun p _ => hadmits p]
    rw [hselected, List.mem_map]
    constructor
    · rintro ⟨p, hp, rfl⟩
      obtain ⟨hp, hmatches⟩ := List.mem_filter.mp ((List.mem_insertionSort _).mp hp)
      exact ⟨(Engine.mapM_stamp hstamped p hp).1, hmatches⟩
    · rintro ⟨hmem, hmatches⟩
      obtain ⟨p, hp, rfl⟩ := stamped_of_mem hstamped e hmem
      exact ⟨p, (List.mem_insertionSort _).mpr (List.mem_filter.mpr ⟨hp, hmatches⟩), rfl⟩

theorem search_ok {input : StoreInput} {sourceId : Text} {found : List Engine.CatalogEntry}
    (h : searchEvidenceEntries env s (ownQuery input sourceId) 1 = .ok found) :
    ∃ selected, Engine.selectMemoryEntries env.host ((s.entries s.work).map (located env)) (ownQuery input sourceId) =
      .ok selected ∧ found = selected.take 1 := by
  unfold searchEvidenceEntries at h
  cases hselected : Engine.selectMemoryEntries env.host ((s.entries s.work).map (located env)) (ownQuery input sourceId) with
  | error err => rw [hselected] at h; cases h
  | ok selected =>
    rw [hselected] at h
    exact ⟨selected, rfl, (Except.ok.inj h).symm⟩

theorem existing_some {input : StoreInput} {entry : Engine.CatalogEntry} (h : existing env s input = .ok (some entry)) :
    entry.toMemoryEntry ∈ s.entries s.work ∧ input.matches entry.toMemoryEntry = true := by
  unfold existing at h
  split at h
  next => cases h
  next sourceId hid =>
    cases hfound : searchEvidenceEntries env s (ownQuery input sourceId) 1 with
    | error err => rw [← ownQuery, hfound] at h; cases h
    | ok found =>
      rw [← ownQuery, hfound] at h
      obtain ⟨selected, hselected, rfl⟩ := search_ok hfound
      have hhead : entry ∈ selected := List.mem_of_mem_take (List.mem_of_mem_head? (Except.ok.inj h))
      obtain ⟨hmem, hmatches⟩ := (selected_iff hid hselected entry).mp hhead
      obtain ⟨e, he, rfl⟩ := List.mem_map.mp hmem
      exact ⟨he, hmatches⟩

theorem existing_none {input : StoreInput} (h : existing env s input = .ok none) :
    ∀ e ∈ s.entries s.work, input.matches e = false := by
  intro e he
  unfold existing at h
  split at h
  next hid => simp [StoreInput.matches, hid]
  next sourceId hid =>
    cases hfound : searchEvidenceEntries env s (ownQuery input sourceId) 1 with
    | error err => rw [← ownQuery, hfound] at h; cases h
    | ok found =>
      rw [← ownQuery, hfound] at h
      obtain ⟨selected, hselected, rfl⟩ := search_ok hfound
      have hnil : selected = [] := by
        have := List.head?_eq_none_iff.mp (Except.ok.inj h)
        simpa using this
      rw [← Bool.not_eq_true]
      intro hmatches
      have := (selected_iff hid hselected (located env e)).mpr ⟨List.mem_map_of_mem he, hmatches⟩
      rw [hnil] at this
      cases this

/-- A capture that returns without an append has found its entry in the working tree. -/
theorem captureEvidence_found {call : CaptureCall} {ref : Text} (happended : (captureEvidence env s call).appended = [])
    (hreturned : (captureEvidence env s call).returned = some ref) :
    s.interrupted = false ∧ ∃ e ∈ s.entries s.work, e.evidenceRef = ref ∧ call.input.matches e = true := by
  unfold captureEvidence at happended hreturned
  split at happended
  next hnot => simp [hnot] at hreturned
  next hready =>
    rw [if_neg hready] at hreturned
    simp only [not_or, Bool.not_eq_true] at hready
    refine ⟨hready.2, ?_⟩
    cases hexisting : existing env s call.input with
    | error err => simp [hexisting] at hreturned
    | ok found =>
      cases found with
      | none => simp [hexisting] at happended
      | some entry =>
        simp only [hexisting, Option.some.injEq] at hreturned
        obtain ⟨hmem, hmatches⟩ := existing_some hexisting
        exact ⟨entry.toMemoryEntry, hmem, hreturned, hmatches⟩

/-- A capture that appends has found no entry of its own. -/
theorem captureEvidence_new {call : CaptureCall} (h : (captureEvidence env s call).appended ≠ []) :
    ∀ e ∈ s.entries s.work, call.input.matches e = false := by
  unfold captureEvidence at h
  split at h
  next => exact absurd rfl h
  next =>
    cases hexisting : existing env s call.input with
    | error err => simp [hexisting] at h
    | ok found =>
      cases found with
      | none => exact existing_none hexisting
      | some entry => simp [hexisting] at h

/-! ## What a call appends -/

/-- Captures with the references of the call's draws, and with its content. -/
def Own (op : Op) (appended : List Capture) : Prop :=
  (refsOf appended).Sublist op.refs ∧ ∀ c ∈ appended, c.content = op.input.content

theorem own_none (op : Op) : Own op [] := ⟨List.nil_sublist _, fun _ hc => absurd hc List.not_mem_nil⟩

theorem own_capture (call : CaptureCall) (verbatim : Bool) :
    Own (.capture call) [call.input.capture verbatim call.draw] :=
  ⟨List.Sublist.refl _, fun c hc => by obtain rfl := List.mem_singleton.mp hc; rfl⟩

theorem own_first (call : StoreCall) (verbatim : Bool) : Own (.store call) [call.input.capture verbatim call.draw] :=
  ⟨List.Sublist.cons_cons _ (List.nil_sublist _), fun c hc => by obtain rfl := List.mem_singleton.mp hc; rfl⟩

theorem own_again (call : StoreCall) (verbatim : Bool) :
    Own (.store call) [call.input.capture verbatim call.draw, call.input.capture verbatim call.again] :=
  ⟨List.Sublist.refl _, fun c hc => by
    simp only [List.mem_cons, List.not_mem_nil, or_false] at hc
    rcases hc with rfl | rfl <;> rfl⟩

theorem captureEvidence_own (call : CaptureCall) : Own (.capture call) (captureEvidence env s call).appended := by
  unfold captureEvidence
  split
  next => exact own_none _
  next =>
    split
    next => exact own_none _
    next => exact own_none _
    next => exact own_capture call _

theorem fileClassified_own (call : StoreCall) (evidence : EvidenceEntry) (classification : Classification) :
    Own (.store call) (fileClassified env s call (call.input.capture (storedVerbatim env call.input) call.draw) evidence
      classification).appended := by
  cases classification with
  | topics writes fails =>
    simp only [fileClassified]
    split
    next => exact own_first call _
    next =>
      split
      next => exact own_first call _
      next => exact own_first call _
  | pages pages confident confidence question rejected =>
    simp only [fileClassified]
    split
    next => exact own_first call _
    next =>
      split
      next =>
        split
        next => exact own_first call _
        next => exact own_again call _
      next =>
        split
        next => exact own_first call _
        next => exact own_again call _

theorem store_own (call : StoreCall) : Own (.store call) (store env s call).appended := by
  unfold store
  split
  next => exact own_none _
  next =>
    dsimp only
    split
    next => exact own_first call _
    next => exact own_first call _
    next =>
      split
      next => exact own_first call _
      next =>
        split
        next => exact own_again call _
        next => exact fileClassified_own call _ _

/-- A store that appends nothing throws. -/
theorem store_thrown {call : StoreCall} (h : (store env s call).appended = []) : (store env s call).returned = none := by
  have hclassified : ∀ s c evidence classification, (fileClassified env s call c evidence classification).appended ≠ [] := by
    intro s c evidence classification
    cases classification with
    | topics => simp only [fileClassified]; split <;> [simp; split <;> simp [filed]]
    | pages =>
      simp only [fileClassified]
      split
      next => simp [filed]
      next => split <;> split <;> simp [filed, inboxAgain]
  unfold store at h ⊢
  split at h
  next hnot => rw [if_pos hnot]
  next =>
    dsimp only at h
    split at h
    next => cases h
    next => cases h
    next =>
      split at h
      next => cases h
      next =>
        split at h
        next => cases h
        next => exact absurd h (hclassified _ _ _ _)

theorem run_own (op : Op) : Own op (op.run env s).appended := by
  cases op with
  | capture call => exact captureEvidence_own call
  | store call => exact store_own call

end Zenod.Custody
