/-
What a run of transactions does to an action and its receipt.

`published_once`: claims and deferrals of an action alternate, an unknown
action is never claimed again, and what is sent stays sent, with one receipt.
-/
import Zenod.Lib.Outcome
import Zenod.Lib.Turns
import Zenod.Publication.Ledger

namespace Zenod.Publication

open Keyed Text LedgerDb

variable {contentId : Text → Text → Text} {db db' db₁ db₂ : LedgerDb} {tenantId id owner : Text} {t : Transaction}

/-! ## Rows behind a statement -/

namespace LedgerDb

/-- How often the tenant's publications were counted. -/
def sends (db : LedgerDb) (tenantId : Text) : Nat := ((db.usage.rows.find? (·.tenantId = tenantId)).map (·.sends)).getD 0

theorem identifies_is (tenantId id : Text) : Table.Identifies fun r : ActionRow => r.is tenantId id := by
  intro a b ha hb
  have hclash : a.is b.tenantId b.id = true := by
    simp only [ActionRow.is, Bool.and_eq_true, decide_eq_true_eq] at ha hb ⊢
    exact ⟨ha.1.trans hb.1.symm, ha.2.trans hb.2.symm⟩
  show (a.is b.tenantId b.id || _) = true
  rw [hclash, Bool.true_or]

theorem identifies_receipt (tenantId actionId : Text) :
    Table.Identifies fun r : ReceiptRow => decide (r.tenantId = tenantId) && decide (r.actionId = actionId) := by
  intro a b ha hb
  simp only [Bool.and_eq_true, decide_eq_true_eq] at ha hb
  show ((a.tenantId, a.actionId) == (b.tenantId, b.actionId) || _) = true
  rw [ha.1, ha.2, hb.1, hb.2, beq_self_eq_true, Bool.true_or]

theorem identifies_url (tenantId url : Text) :
    Table.Identifies fun r : ReceiptRow => decide (r.tenantId = tenantId) && decide (r.url = url) := by
  intro a b ha hb
  simp only [Bool.and_eq_true, decide_eq_true_eq] at ha hb
  show (_ || (a.tenantId, a.url) == (b.tenantId, b.url)) = true
  rw [ha.1, ha.2, hb.1, hb.2, beq_self_eq_true, Bool.or_true]

theorem actionRow_of_mem {r : ActionRow} (h : r ∈ db.actions.rows) : db.actionRow r.tenantId r.id = some r :=
  Table.find?_of_mem (identifies_is _ _) h (by simp [ActionRow.is])

theorem actionRow_spec {r : ActionRow} (h : db.actionRow tenantId id = some r) :
    r ∈ db.actions.rows ∧ r.tenantId = tenantId ∧ r.id = id := by
  unfold actionRow at h
  have hkey := List.find?_some h
  simp only [ActionRow.is, Bool.and_eq_true, decide_eq_true_eq] at hkey
  exact ⟨List.mem_of_find?_eq_some h, hkey⟩

theorem receiptRow_of_mem {r : ReceiptRow} (h : r ∈ db.receipts.rows) : db.receiptRow r.tenantId r.actionId = some r :=
  Table.find?_of_mem (identifies_receipt _ _) h (by simp)

theorem receiptRow_spec {actionId : Text} {r : ReceiptRow} (h : db.receiptRow tenantId actionId = some r) :
    r ∈ db.receipts.rows ∧ r.tenantId = tenantId ∧ r.actionId = actionId := by
  have hkey := List.find?_some h
  simp only [Bool.and_eq_true, decide_eq_true_eq] at hkey
  exact ⟨List.mem_of_find?_eq_some h, hkey⟩

theorem actionRow_reviseActions {p : ActionRow → Bool} {f : ActionRow → ActionRow} (hf : Retains p f) :
    (db.reviseActions p f hf).actionRow tenantId id = (db.actionRow tenantId id).map fun r => if p r then f r else r :=
  Table.find?_revise (fun r _ hp => clash_of_active (hf.tenantId r) (hf.id r) (hf.text r) (hf.active r hp))
    fun r => by simp only [ActionRow.is, hf.tenantId, hf.id]

theorem sends_ensured (id : Text) :
    ((((db.usage.insert? { tenantId := tenantId }).getD db.usage).rows.find? (·.tenantId = id)).map (·.sends)).getD 0 =
      db.sends id ∧
    (id = tenantId → (((db.usage.insert? { tenantId := tenantId }).getD db.usage).rows.find? (·.tenantId = id)).isSome) := by
  unfold sends
  cases hinsert : db.usage.insert? { tenantId := tenantId } with
  | none =>
    refine ⟨rfl, ?_⟩
    rintro rfl
    by_contra hnone
    have hfree : ∀ r ∈ db.usage.rows, clash r ({ tenantId := id } : UsageRow) = false := by
      intro r hr
      have := List.find?_eq_none.1 (Option.not_isSome_iff_eq_none.1 hnone) r hr
      simpa [clash] using this
    obtain ⟨usage, hsome, -⟩ := Table.insert?_isSome hfree
    simp [hsome] at hinsert
  | some usage =>
    simp only [Option.getD_some, Table.find?_insert? hinsert]
    cases hfound : db.usage.rows.find? (·.tenantId = id) with
    | some r => simp
    | none =>
      by_cases hid : tenantId = id
      · simp [hid]
      · simp [hid, Ne.symm hid]

theorem sends_countUp {f : UsageRow → UsageRow} (hf : ∀ r, (f r).tenantId = r.tenantId) {k : Nat}
    (hk : ∀ r, (f r).sends = r.sends + k) (id : Text) :
    (db.countUp tenantId f hf).sends id = db.sends id + if id = tenantId then k else 0 := by
  obtain ⟨hsends, hsome⟩ := @sends_ensured db tenantId id
  rw [← hsends]
  have hclash : ∀ r s : UsageRow, clash (f r) s = clash r s := fun r s => congrArg (· == s.tenantId) (hf r)
  have hfind := @Table.find?_update _ _ ((db.usage.insert? { tenantId := tenantId }).getD db.usage) (·.tenantId = tenantId)
    (·.tenantId = id) f hclash fun r => by simp only [hf]
  show (((db.countUp tenantId f hf).usage.rows.find? (·.tenantId = id)).map (·.sends)).getD 0 = _
  rw [show (db.countUp tenantId f hf).usage.rows.find? (·.tenantId = id) = _ from hfind]
  cases hfound : ((db.usage.insert? { tenantId := tenantId }).getD db.usage).rows.find? (·.tenantId = id) with
  | none =>
    have hid : id ≠ tenantId := fun hid => by simpa [hfound] using hsome hid
    simp [hid]
  | some r =>
    have hr := List.find?_some hfound
    rw [decide_eq_true_eq] at hr
    by_cases hid : id = tenantId
    · simp [hr, hid, hk]
    · simp [hr, hid]

/-- A row that is resolved is one of the tenant's actions. -/
theorem resolveActionRow_spec {approval : HeldActionApproval} {row : ActionRow}
    (h : db.resolveActionRow contentId tenantId approval = some row) : db.actionRow tenantId row.id = some row := by
  suffices hrow : row ∈ db.actions.rows ∧ row.tenantId = tenantId by
    rw [← hrow.2]
    exact actionRow_of_mem hrow.1
  unfold resolveActionRow at h
  split at h
  · split at h
    · cases h
    · next found hfound =>
      have hspec := actionRow_spec hfound
      split at h
      · cases h
        exact ⟨hspec.1, hspec.2.1⟩
      · split at h
        · cases h
          exact ⟨hspec.1, hspec.2.1⟩
        · cases h
  · split at h
    · next found hfound =>
      cases h
      have hmem : row ∈ db.actions.rows.filter (·.isActiveText tenantId approval.text) := by simp [hfound]
      have hmem := List.mem_filter.1 hmem
      simp only [ActionRow.isActiveText, Bool.and_eq_true, decide_eq_true_eq] at hmem
      exact ⟨hmem.1, hmem.2.1.1⟩
    · cases h
    · dsimp only at h
      split at h
      · next found hfound =>
        cases h
        have hspec := actionRow_spec (Option.filter_eq_some_iff.1 hfound).1
        exact ⟨hspec.1, hspec.2.1⟩
      · split at h
        · next found hfound =>
          cases h
          have hmem : row ∈ db.actions.rows.filter fun r => r.tenantId = tenantId && r.text = approval.text && r.status = .sent := by
            simp [hfound]
          have hmem := List.mem_filter.1 hmem
          simp only [Bool.and_eq_true, decide_eq_true_eq] at hmem
          exact ⟨hmem.1, hmem.2.1.1⟩
        · cases h

end LedgerDb

/-! ## Effects -/

/-- The action that a request would reconcile. -/
def Request.target (contentId : Text → Text → Text) (db : LedgerDb) : Request → Option (Text × Text)
  | .reconcileSent tenantId approval _ _ => (db.resolveActionRow contentId tenantId approval).map fun row => (tenantId, row.id)
  | _ => none

/-- What one statement, or a few that belong together, do to the database, and the event that goes with it. -/
inductive Effect (target : Option (Text × Text)) (db : LedgerDb) : Option Event → LedgerDb → Prop
  | count (tenantId : Text) (f : UsageRow → UsageRow) (hf) (hsends : ∀ r, (f r).sends = r.sends) :
    Effect target db none (db.countUp tenantId f hf)
  | recoverLeases (tenantId now : Text) : Effect target db none (db.recoverLeases tenantId now)
  | resumeDeferred (tenantId now : Text) : Effect target db none (db.resumeDeferred tenantId now)
  | expirePending (tenantId now : Text) : Effect target db none (db.expirePending tenantId now)
  | hold {row : ActionRow} {actions} (hpending : row.status = .pending) (hinsert : db.actions.insert? row = some actions) :
    Effect target db none { db with actions := actions }
  | claim {tenantId row} (owner startedAt leaseUntil : Text) (hrow : db.actionRow tenantId row.id = some row)
    (hpending : row.status = .pending) :
    Effect target db (some (.claimed tenantId row.id owner)) (db.dispatch tenantId row.id owner startedAt leaseUntil)
  | markUnknown (tenantId id owner now reason : Text) : Effect target db none (db.doubt tenantId id owner now reason)
  | markDeferred {tenantId id owner row} (reason retryAt : Text) (hrow : db.actionRow tenantId id = some row)
    (howned : row.isOwned tenantId id owner = true) :
    Effect target db (some (.deferred tenantId id owner)) (db.defer tenantId id owner reason retryAt)
  | recordReceipt {row receipt receipts} (now : Text) (hrow : db.actionRow receipt.tenantId receipt.actionId = some row)
    (hdispatching : row.status = .dispatching) (hinsert : db.receipts.insert? receipt = some receipts) :
    Effect target db none
      (({ db with receipts := receipts }.markSent receipt.tenantId receipt.actionId now).countSend receipt.tenantId)
  | reconcileSent {row receipt receipts} (now : Text) (htarget : target = some (receipt.tenantId, receipt.actionId))
    (hrow : db.actionRow receipt.tenantId receipt.actionId = some row) (hunknown : row.status = .unknown)
    (hinsert : db.receipts.insert? receipt = some receipts) :
    Effect target db none
      (({ db with receipts := receipts }.settle receipt.tenantId receipt.actionId now).countSend receipt.tenantId)

inductive Effects (target : Option (Text × Text)) : List Event → LedgerDb → LedgerDb → Prop
  | refl (db : LedgerDb) : Effects target [] db db
  | tail {es e db db₁ db₂} (h : Effects target es db db₁) (he : Effect target db₁ e db₂) :
    Effects target (es ++ e.toList) db db₂

namespace Effects

variable {target : Option (Text × Text)} {es : List Event} {e : Option Event}

theorem single (h : Effect target db e db') : Effects target e.toList db db' := Effects.tail (.refl db) h

theorem recover (tenantId now : Text) : Effects target [] db (db.expireAndRecover tenantId now) :=
  Effects.tail (Effects.tail (single (.recoverLeases tenantId now)) (.resumeDeferred tenantId now)) (.expirePending tenantId now)

/-- What recovers first, and then has another effect. -/
theorem recovered {now : Text} (h : Effect target (db.expireAndRecover tenantId now) e db') : Effects target e.toList db db' :=
  Effects.tail (recover tenantId now) h

end Effects

/-! ## Transactions -/

/-- An action is sent exactly when it has a receipt, and each receipt was counted. -/
structure Sound (db : LedgerDb) : Prop where
  receipted : ∀ tenantId id, (db.receiptRow tenantId id).isSome ↔ ∃ r, db.actionRow tenantId id = some r ∧ r.status = .sent
  counted : ∀ tenantId, db.sends tenantId = db.receipts.count (·.tenantId = tenantId)

variable {target : Option (Text × Text)} {options : Options} {clock : Clock} {drawn text reason receiptText url : Text}
  {approval : HeldActionApproval}

theorem hold_effects {draft : ObservedDraft} (h : db.hold options clock drawn tenantId text = .ok (draft, db')) :
    Effects target [] db db' := by
  simp only [hold, bind_ok] at h
  obtain ⟨now, -, h⟩ := h
  split at h
  · cases h
    exact .recover tenantId now
  · simp only [bind_ok] at h
    obtain ⟨createdAt, -, expiresAt, -, h⟩ := h
    split at h
    · cases h
    · next actions hinsert =>
      cases h
      exact .tail (.recovered (.hold rfl hinsert))
        (.count tenantId (fun r => { r with rejectedDrafts := r.rejectedDrafts + 1 }) (fun _ => rfl) fun _ => rfl)

theorem publicationState_effects {claim : PublicationClaim}
    (h : db.publicationState contentId clock tenantId approval = .ok (claim, db')) : Effects target [] db db' := by
  simp only [publicationState, bind_ok] at h
  obtain ⟨now, -, h⟩ := h
  have heffects : Effects target [] db (db.expireAndRecover tenantId now) := .recover tenantId now
  split at h
  · cases h
    exact heffects
  · split at h
    · cases h
    · cases h
      exact heffects

theorem resolvePending_effects {draft : Option ObservedDraft}
    (h : db.resolvePending contentId clock tenantId approval = .ok (draft, db')) : Effects target [] db db' := by
  simp only [resolvePending, bind_ok] at h
  obtain ⟨now, -, h⟩ := h
  cases h
  exact .recover tenantId now

/-- The statement that takes the action back out of `pending` finds it there. -/
theorem count_pending {row : ActionRow} (hrow : db.actionRow tenantId row.id = some row) (hpending : row.status = .pending) :
    db.actions.count (fun r => r.is tenantId row.id && r.status = .pending) = 1 := by
  obtain ⟨hmem, htenant, -⟩ := actionRow_spec hrow
  have hkey : row.is tenantId row.id = true := by simp [ActionRow.is, htenant]
  exact Table.count_of_mem (identifies_is tenantId row.id) hmem hkey (by simp [hkey, hpending])
    fun s hs => (Bool.and_eq_true_iff.1 hs).1

theorem event_of_state {row : ActionRow} : (Request.claim options drawn tenantId approval).event
    (.publication (db.publicationStateWithoutTransaction tenantId row)) = none := by
  unfold publicationStateWithoutTransaction
  cases row.status with
  | sent => cases db.receiptRow tenantId row.id <;> rfl
  | _ => rfl

theorem claim_effects {claim : PublicationClaim}
    (h : db.claim contentId options clock drawn tenantId approval = .ok (claim, db')) :
    Effects target ((Request.claim options drawn tenantId approval).event (.publication claim)).toList db db' := by
  simp only [LedgerDb.claim, bind_ok] at h
  obtain ⟨now, -, h⟩ := h
  have heffects : Effects target [] db (db.expireAndRecover tenantId now) := .recover tenantId now
  split at h
  · cases h
    exact heffects
  · next row hresolved =>
    have hrow := resolveActionRow_spec hresolved
    split at h
    · cases h
      rw [event_of_state]
      exact heffects
    · next hpending =>
      have hpending : row.status = .pending := not_not.1 hpending
      simp only [bind_ok] at h
      obtain ⟨leaseUntil, -, startedAt, -, h⟩ := h
      rw [if_pos (count_pending hrow hpending)] at h
      cases h
      exact .recovered (@Effect.claim _ _ tenantId row drawn startedAt leaseUntil hrow hpending)

theorem recordReceipt_effects {actionId : Text} {receipt : ObservedReceipt}
    (h : db.recordReceipt contentId clock tenantId actionId owner receiptText url = .ok (receipt, db')) :
    Effects target [] db db' := by
  unfold recordReceipt at h
  split at h
  · cases h
    exact .refl db
  · split at h
    · cases h
    · next row hrow =>
      split at h
      · cases h
      · next howned =>
        simp only [bind_ok] at h
        obtain ⟨now, -, h⟩ := h
        split at h
        · cases h
        · next receipts hinsert =>
          cases h
          rw [not_or, not_not] at howned
          exact .single (.recordReceipt now hrow howned.1 hinsert)

theorem markUnknown_effects {actionId : Text} (h : db.markUnknown clock tenantId actionId owner reason = .ok db') :
    Effects target [] db db' := by
  simp only [LedgerDb.markUnknown, bind_ok] at h
  obtain ⟨now, -, h⟩ := h
  cases h
  exact .single (.markUnknown tenantId actionId owner now _)

/-- The statement of an owner found an action that is dispatched for it. -/
theorem owned_of_count {actionId : Text} (h : db.actions.count (·.isOwned tenantId actionId owner) = 1) :
    ∃ row, db.actionRow tenantId actionId = some row ∧ row.isOwned tenantId actionId owner = true := by
  obtain ⟨row, hrow, howned⟩ := List.countP_pos_iff.1 (show 0 < db.actions.rows.countP _ from by
    rw [show db.actions.rows.countP _ = 1 from h]; omega)
  have hkey : row.is tenantId actionId = true := by
    simp only [ActionRow.isOwned, Bool.and_eq_true] at howned
    exact howned.1.1
  exact ⟨row, Table.find?_of_mem (identifies_is tenantId actionId) hrow hkey, howned⟩

theorem markDeferred_effects {actionId : Text} {retryAt : Date} {countThrottle : Bool} {draft : ObservedDraft}
    (h : db.markDeferred tenantId actionId owner reason retryAt countThrottle = .ok (draft, db')) :
    Effects target [.deferred tenantId actionId owner] db db' := by
  simp only [LedgerDb.markDeferred, bind_ok] at h
  obtain ⟨retryAt, -, h⟩ := h
  split at h
  · cases h
  · next hcount =>
    obtain ⟨row, hrow, howned⟩ := owned_of_count (not_not.1 hcount)
    have hdeferred : Effects target [.deferred tenantId actionId owner] db _ :=
      .single (.markDeferred (takeUnits 500 reason) retryAt hrow howned)
    split at h
    · cases h
    · cases h
      split
      · exact .tail hdeferred (.count tenantId (fun r => { r with throttled := r.throttled + 1 }) (fun _ => rfl) fun _ => rfl)
      · exact hdeferred

/-- An unknown action has no receipt, so the insert of one is refused only for its URL. -/
theorem insert_receipt {row : ActionRow} {receipt : ReceiptRow} (hsound : Sound db)
    (hrow : db.actionRow receipt.tenantId receipt.actionId = some row) (hstatus : row.status ≠ .sent)
    (hurl : (db.receipts.rows.find? fun r => r.tenantId = receipt.tenantId && r.url = receipt.url).any
      (·.actionId ≠ receipt.actionId) = false) : ∃ receipts, db.receipts.insert? receipt = some receipts := by
  have hnone : db.receiptRow receipt.tenantId receipt.actionId = none := by
    by_contra hsome
    obtain ⟨r, hr, hsent⟩ := (hsound.receipted _ _).1 (Option.isSome_iff_ne_none.2 hsome)
    rw [hrow] at hr
    exact hstatus (by rw [Option.some.inj hr, hsent])
  have hfree : ∀ r ∈ db.receipts.rows, clash r receipt = false := by
    intro r hr
    have hkey := List.find?_eq_none.1 hnone r hr
    have hother : ¬(r.tenantId = receipt.tenantId ∧ r.actionId = receipt.actionId) := by simpa using hkey
    have hprovider : ¬(r.tenantId = receipt.tenantId ∧ r.url = receipt.url) := by
      rintro ⟨htenant, hsame⟩
      have hfound := Table.find?_of_mem (identifies_url receipt.tenantId receipt.url) hr (by simp [htenant, hsame])
      rw [hfound, Option.any_some, decide_eq_false_iff_not, not_not] at hurl
      exact hother ⟨htenant, hurl⟩
    simp only [clash, Bool.or_eq_false_iff, beq_eq_false_iff_ne, ne_eq, Prod.mk.injEq]
    exact ⟨hother, hprovider⟩
  obtain ⟨receipts, hinsert, -⟩ := Table.insert?_isSome hfree
  exact ⟨receipts, hinsert⟩

theorem reconcileSent_effects {receipt : Option ObservedReceipt} (hsound : Sound db)
    (htarget : target = (db.resolveActionRow contentId tenantId approval).map fun row => (tenantId, row.id))
    (h : db.reconcileSent contentId clock tenantId approval receiptText url = .ok (receipt, db')) :
    Effects target [] db db' := by
  unfold LedgerDb.reconcileSent at h
  split at h
  · cases h
    exact .refl db
  · next row hresolved =>
    have hrow := resolveActionRow_spec hresolved
    split at h
    · cases h
      exact .refl db
    · split at h
      · cases h
        exact .refl db
      · next hunknown =>
        have hunknown : row.status = .unknown := not_not.1 hunknown
        split at h
        · cases h
          exact .refl db
        · next hurl =>
          simp only [bind_ok] at h
          obtain ⟨now, -, h⟩ := h
          obtain ⟨receipts, hinsert⟩ := @insert_receipt _ _
            ⟨tenantId, row.id, contentId tenantId url, receiptText, url, now⟩ hsound hrow (by rw [hunknown]; decide)
            (Bool.eq_false_iff.2 hurl)
          rw [hinsert, Option.getD_some] at h
          split at h
          · cases h
          · cases h
            exact .single (.reconcileSent now (by rw [htarget, hresolved]; rfl) hrow hunknown hinsert)

/-- **A transaction has its effects and its event, or none.** -/
theorem apply_effects (hsound : Sound db) :
    Effects (t.request.target contentId db) (t.event contentId db).toList db (t.apply contentId db).2 := by
  unfold Transaction.event Transaction.apply
  cases hresult : t.request.transact contentId t.clock db with
  | error e => exact .refl db
  | ok result =>
    obtain ⟨reply, db'⟩ := result
    show Effects (t.request.target contentId db) (t.request.event reply).toList db db'
    obtain ⟨request, clock⟩ := t
    dsimp only at hresult ⊢
    cases request with
    | observeCall tenantId resultText =>
      cases hresult
      exact .single (.count tenantId _ _ fun _ => rfl)
    | hold options drawn tenantId text =>
      obtain ⟨r, hr, heq⟩ := map_ok.1 hresult
      cases heq
      exact hold_effects hr
    | publicationState tenantId approval =>
      obtain ⟨r, hr, heq⟩ := map_ok.1 hresult
      cases heq
      exact publicationState_effects hr
    | claim options drawn tenantId approval =>
      obtain ⟨r, hr, heq⟩ := map_ok.1 hresult
      cases heq
      exact claim_effects hr
    | recordReceipt tenantId actionId owner receiptText url =>
      obtain ⟨r, hr, heq⟩ := map_ok.1 hresult
      cases heq
      exact recordReceipt_effects hr
    | markUnknown tenantId actionId owner reason =>
      obtain ⟨r, hr, heq⟩ := map_ok.1 hresult
      cases heq
      exact markUnknown_effects hr
    | markDeferred tenantId actionId owner reason retryAt countThrottle =>
      obtain ⟨r, hr, heq⟩ := map_ok.1 hresult
      cases heq
      exact markDeferred_effects hr
    | reconcileSent tenantId approval receiptText url =>
      obtain ⟨r, hr, heq⟩ := map_ok.1 hresult
      cases heq
      exact reconcileSent_effects hsound rfl hr
    | resolve tenantId approval =>
      obtain ⟨r, hr, heq⟩ := map_ok.1 hresult
      cases heq
      exact resolvePending_effects hr

/-! ## Soundness -/

def IsSent (db : LedgerDb) (tenantId id : Text) : Prop := ∃ r, db.actionRow tenantId id = some r ∧ r.status = .sent

theorem Sound.of_receipts (hsound : Sound db) (hreceipts : db'.receipts = db.receipts)
    (hsends : ∀ tenantId, db'.sends tenantId = db.sends tenantId)
    (hsent : ∀ tenantId id, IsSent db' tenantId id ↔ IsSent db tenantId id) : Sound db' where
  receipted tenantId id := by
    rw [show db'.receiptRow tenantId id = db.receiptRow tenantId id by unfold receiptRow; rw [hreceipts]]
    exact (hsound.receipted tenantId id).trans (hsent tenantId id).symm
  counted tenantId := by rw [hsends, hreceipts, hsound.counted]

theorem isSent_reviseActions {p : ActionRow → Bool} {f : ActionRow → ActionRow} (hf : Retains p f)
    (hp : ∀ r, p r = true → r.status ≠ .sent ∧ (f r).status ≠ .sent) (tenantId id : Text) :
    IsSent (db.reviseActions p f hf) tenantId id ↔ IsSent db tenantId id := by
  unfold IsSent
  rw [actionRow_reviseActions]
  cases db.actionRow tenantId id with
  | none => simp
  | some r =>
    simp only [Option.map_some, Option.some.injEq, exists_eq_left']
    split
    · next h => exact ⟨fun hsent => absurd hsent (hp r h).2, fun hsent => absurd hsent (hp r h).1⟩
    · rfl

theorem Sound.revise {p : ActionRow → Bool} {f : ActionRow → ActionRow} (hsound : Sound db) (hf : Retains p f)
    (hp : ∀ r, p r = true → r.status ≠ .sent ∧ (f r).status ≠ .sent) : Sound (db.reviseActions p f hf) :=
  hsound.of_receipts rfl (fun _ => rfl) (isSent_reviseActions hf hp)

/-- An action is sent, with a receipt that is new. -/
theorem Sound.send {p : ActionRow → Bool} {f : ActionRow → ActionRow} {row : ActionRow} {receipt : ReceiptRow}
    {receipts : Table ReceiptRow} (hsound : Sound db) (hf : Retains p f)
    (hrow : db.actionRow receipt.tenantId receipt.actionId = some row) (hp : p row = true)
    (hkey : ∀ r, p r = true → r.is receipt.tenantId receipt.actionId = true) (hsent : ∀ r, (f r).status = .sent)
    (hinsert : db.receipts.insert? receipt = some receipts) :
    Sound (({ db with receipts := receipts }.reviseActions p f hf).countSend receipt.tenantId) where
  receipted tenantId id := by
    have hreceipt : (({ db with receipts := receipts }.reviseActions p f hf).countSend receipt.tenantId).receiptRow tenantId id =
        (db.receiptRow tenantId id).or (if receipt.tenantId = tenantId ∧ receipt.actionId = id then some receipt else none) := by
      have hfind := Table.find?_insert? hinsert fun r => r.tenantId = tenantId && r.actionId = id
      simp only [Bool.and_eq_true, decide_eq_true_eq] at hfind
      exact hfind
    have haction : (({ db with receipts := receipts }.reviseActions p f hf).countSend receipt.tenantId).actionRow tenantId id =
        (db.actionRow tenantId id).map fun r => if p r then f r else r :=
      @actionRow_reviseActions { db with receipts := receipts } tenantId id p f hf
    rw [hreceipt, haction]
    by_cases hsame : receipt.tenantId = tenantId ∧ receipt.actionId = id
    · rw [← hsame.1, ← hsame.2, hrow]
      simp [hp, hsent]
    · rw [if_neg hsame, Option.or_none, hsound.receipted tenantId id]
      cases hfound : db.actionRow tenantId id with
      | none => simp
      | some r =>
        have hother : p r = false := by
          by_contra hpr
          obtain ⟨-, htenant, hid⟩ := actionRow_spec hfound
          have his := hkey r (by simpa using hpr)
          simp only [ActionRow.is, Bool.and_eq_true, decide_eq_true_eq] at his
          exact hsame ⟨his.1.symm.trans htenant, his.2.symm.trans hid⟩
        simp [hother]
  counted tenantId := by
    have hsends : (({ db with receipts := receipts }.reviseActions p f hf).countSend receipt.tenantId).sends tenantId =
        db.sends tenantId + if tenantId = receipt.tenantId then 1 else 0 := by
      unfold countSend
      exact sends_countUp _ (fun _ => rfl) tenantId
    rw [hsends, hsound.counted]
    show _ = receipts.rows.countP _
    rw [(Table.insert?_eq_some.1 hinsert).2, List.countP_append]
    simp only [Table.count, List.countP_singleton, decide_eq_true_eq]
    simp only [@eq_comm _ tenantId]

theorem Effect.sound {e : Option Event} (h : Effect target db e db') (hsound : Sound db) : Sound db' := by
  cases h with
  | count tenantId f hf hsends =>
    refine hsound.of_receipts rfl (fun id => ?_) fun _ _ => Iff.rfl
    rw [sends_countUp hf (k := 0) hsends]
    split <;> rfl
  | recoverLeases tenantId now => exact hsound.revise _ fun r h => by simp_all [ActionRow.lapsed]
  | resumeDeferred tenantId now => exact hsound.revise _ fun r h => by simp_all [ActionRow.resumed]
  | expirePending tenantId now => exact hsound.revise _ fun r h => by simp_all [ActionRow.expired]
  | hold hpending hinsert =>
    refine hsound.of_receipts rfl (fun _ => rfl) fun tenantId id => ?_
    unfold IsSent actionRow
    rw [Table.find?_insert? hinsert]
    cases db.actions.rows.find? (·.is tenantId id) with
    | some r => simp
    | none =>
      simp only [Option.none_or]
      split <;> simp [hpending]
  | claim owner startedAt leaseUntil hrow hpending => exact hsound.revise _ fun r h => by simp_all [ActionRow.claimed]
  | markUnknown tenantId id owner now reason => exact hsound.revise _ fun r h => by simp_all [ActionRow.doubted, ActionRow.isOwned]
  | markDeferred reason retryAt hrow howned => exact hsound.revise _ fun r h => by simp_all [ActionRow.deferred, ActionRow.isOwned]
  | recordReceipt now hrow hdispatching hinsert =>
    obtain ⟨-, htenant, hid⟩ := actionRow_spec hrow
    exact hsound.send _ hrow (by simp [ActionRow.is, htenant, hid]) (fun _ h => h) (fun _ => rfl) hinsert
  | reconcileSent now htarget hrow hunknown hinsert =>
    obtain ⟨-, htenant, hid⟩ := actionRow_spec hrow
    exact hsound.send _ hrow (by simp [ActionRow.is, htenant, hid, hunknown]) (fun _ h => (Bool.and_eq_true_iff.1 h).1)
      (fun _ => rfl) hinsert

theorem Effects.sound {es : List Event} (h : Effects target es db db') (hsound : Sound db) : Sound db' := by
  induction h with
  | refl => exact hsound
  | tail _ he ih => exact he.sound (ih hsound)

/-! ## The course of an action -/

/-- The action waits for a claim, or for none any more. -/
def ActionRow.isIdle (r : ActionRow) : Bool := r.status = .pending || r.status = .deferred || r.status = .expired

/-- What an effect does to the row of one action, and the turn that it is. -/
inductive RowStep (reconciles : Prop) : Option (Turn Text) → Option ActionRow → Option ActionRow → Prop
  | same (row) : RowStep reconciles none row row
  | opened {r} (h : r.status = .pending) : RowStep reconciles none none (some r)
  | waits {r r'} (h : r.isIdle = true) (h' : r'.isIdle = true) : RowStep reconciles none (some r) (some r')
  | doubted {r r'} (h : r.status = .dispatching) (h' : r'.status = .unknown) : RowStep reconciles none (some r) (some r')
  | claimed {r} (owner startedAt leaseUntil : Text) (h : r.status = .pending) :
    RowStep reconciles (some (.taken owner)) (some r) (some (r.claimed owner startedAt leaseUntil))
  | deferred {r r'} (owner : Text) (h : r.status = .dispatching) (howner : r.dispatchOwner = some owner)
    (h' : r'.status = .deferred) : RowStep reconciles (some (.returned owner)) (some r) (some r')
  | sent {r r'} (h : r.status = .dispatching) (h' : r'.status = .sent) : RowStep reconciles none (some r) (some r')
  | reconciled {r r'} (hreconciles : reconciles) (h : r.status = .unknown) (h' : r'.status = .sent) :
    RowStep reconciles none (some r) (some r')

variable {reconciles : Prop}

/-- The turn that an event is for an action. -/
def Event.turn (tenantId id : Text) : Event → Option (Turn Text)
  | .claimed t i owner => if t = tenantId ∧ i = id then some (.taken owner) else none
  | .deferred t i owner => if t = tenantId ∧ i = id then some (.returned owner) else none

/-- An update that is no turn of any action. -/
theorem row_reviseActions {p : ActionRow → Bool} {f : ActionRow → ActionRow} (hf : Retains p f)
    (h : ∀ r, db.actionRow tenantId id = some r → p r = true → RowStep reconciles none (some r) (some (f r))) :
    RowStep reconciles none (db.actionRow tenantId id) ((db.reviseActions p f hf).actionRow tenantId id) := by
  rw [actionRow_reviseActions]
  cases hfound : db.actionRow tenantId id with
  | none => exact .same none
  | some r =>
    simp only [Option.map_some]
    split
    · next hp => exact h r hfound hp
    · exact .same (some r)

/-- An update of one action, which is a turn of it. -/
theorem row_reviseOne {p : ActionRow → Bool} {f : ActionRow → ActionRow} {T I : Text} {x : Turn Text} {row : ActionRow}
    (hf : Retains p f) (hkey : ∀ r, p r = true → r.is T I = true) (hrow : db.actionRow T I = some row) (hp : p row = true)
    (h : RowStep reconciles (some x) (some row) (some (f row))) :
    RowStep reconciles (if T = tenantId ∧ I = id then some x else none) (db.actionRow tenantId id)
      ((db.reviseActions p f hf).actionRow tenantId id) := by
  rw [actionRow_reviseActions]
  split
  · next hsame =>
    rw [← hsame.1, ← hsame.2, hrow, Option.map_some, if_pos hp]
    exact h
  · next hother =>
    cases hfound : db.actionRow tenantId id with
    | none => exact .same none
    | some r =>
      have hpr : ¬p r = true := by
        intro hpr
        obtain ⟨-, htenant, hid⟩ := actionRow_spec hfound
        have his := hkey r hpr
        simp only [ActionRow.is, Bool.and_eq_true, decide_eq_true_eq] at his
        exact hother ⟨his.1.symm.trans htenant, his.2.symm.trans hid⟩
      rw [Option.map_some, if_neg hpr]
      exact .same (some r)

/-- **What one effect does to an action.** -/
theorem Effect.row {e : Option Event} (h : Effect target db e db') (tenantId id : Text) :
    RowStep (target = some (tenantId, id)) (e.bind (·.turn tenantId id)) (db.actionRow tenantId id) (db'.actionRow tenantId id) := by
  cases h with
  | count => exact .same _
  | recoverLeases T now => exact row_reviseActions _ fun r _ h => .doubted (by simp_all) rfl
  | resumeDeferred T now => exact row_reviseActions _ fun r _ h => .waits (by simp_all [ActionRow.isIdle]) rfl
  | expirePending T now => exact row_reviseActions _ fun r _ h => .waits (by simp_all [ActionRow.isIdle]) rfl
  | hold hpending hinsert =>
    unfold actionRow
    rw [Table.find?_insert? hinsert]
    cases db.actions.rows.find? (·.is tenantId id) with
    | some r => exact .same _
    | none =>
      rw [Option.none_or]
      split
      · exact .opened hpending
      · exact .same _
  | @claim T row owner startedAt leaseUntil hrow hpending =>
    obtain ⟨-, htenant, -⟩ := actionRow_spec hrow
    exact row_reviseOne _ (fun r h => (Bool.and_eq_true_iff.1 h).1) hrow (by simp [ActionRow.is, htenant, hpending])
      (.claimed owner startedAt leaseUntil hpending)
  | markUnknown T I owner now reason => exact row_reviseActions _ fun r _ h => .doubted (by simp_all [ActionRow.isOwned]) rfl
  | @markDeferred T I owner row reason retryAt hrow howned =>
    have hstatus : row.status = .dispatching ∧ row.dispatchOwner = some owner := by
      simp only [ActionRow.isOwned, Bool.and_eq_true, decide_eq_true_eq] at howned
      exact ⟨howned.1.2, howned.2⟩
    exact row_reviseOne _ (fun r h => by simp_all [ActionRow.isOwned]) hrow howned (.deferred owner hstatus.1 hstatus.2 rfl)
  | @recordReceipt row receipt receipts now hrow hdispatching hinsert =>
    unfold LedgerDb.actionRow at hrow ⊢
    refine @row_reviseActions { db with receipts := receipts } tenantId id _
      (·.is receipt.tenantId receipt.actionId) (·.receipted now)
      ⟨fun _ => rfl, fun _ => rfl, fun _ => rfl, fun _ _ h => by cases h⟩ fun r hr hp => ?_
    obtain ⟨-, htenant, hid⟩ := actionRow_spec hr
    simp only [ActionRow.is, Bool.and_eq_true, decide_eq_true_eq] at hp
    have hsame : some r = some row := by
      rw [← hrow, ← hp.1, ← hp.2, htenant, hid]
      exact hr.symm
    exact .sent (by rw [Option.some.inj hsame, hdispatching]) rfl
  | @reconcileSent row receipt receipts now htarget hrow hunknown hinsert =>
    refine @row_reviseActions { db with receipts := receipts } tenantId id _
      (fun r => r.is receipt.tenantId receipt.actionId && r.status = .unknown) (·.reconciled now)
      ⟨fun _ => rfl, fun _ => rfl, fun _ => rfl, fun _ _ h => by cases h⟩ fun r hr h => ?_
    obtain ⟨-, htenant, hid⟩ := actionRow_spec hr
    simp only [ActionRow.is, Bool.and_eq_true, decide_eq_true_eq] at h
    exact .reconciled (by rw [htarget, ← htenant, ← hid, h.1.1, h.1.2]) h.2 rfl

/-- Who may publish the action: the owner of the dispatch, or somebody once it is unknown or sent. -/
def Holds (row : Option ActionRow) (holder : Option Text) : Prop :=
  match row with
  | none => holder = none
  | some r =>
    match r.status with
    | .dispatching => holder = r.dispatchOwner ∧ holder.isSome
    | .unknown | .sent => holder.isSome
    | .pending | .deferred | .expired => holder = none

theorem holds_idle {r : ActionRow} (h : r.isIdle = true) (holder : Option Text) : Holds (some r) holder ↔ holder = none := by
  unfold Holds
  unfold ActionRow.isIdle at h
  cases hs : r.status <;> simp_all

theorem RowStep.turns {x : Option (Turn Text)} {row row' : Option ActionRow} {l : List (Turn Text)} {holder : Option Text}
    (h : RowStep reconciles x row row') (ht : Turns l holder) (hh : Holds row holder) :
    ∃ holder', Turns (l ++ x.toList) holder' ∧ Holds row' holder' := by
  cases h with
  | same => exact ⟨holder, by rwa [Option.toList_none, List.append_nil], hh⟩
  | opened hr =>
    refine ⟨holder, by rwa [Option.toList_none, List.append_nil], ?_⟩
    rw [holds_idle (by simp [ActionRow.isIdle, hr])]
    exact hh
  | waits hr hr' =>
    refine ⟨holder, by rwa [Option.toList_none, List.append_nil], ?_⟩
    rw [holds_idle hr']
    exact (holds_idle hr holder).1 hh
  | doubted hr hr' =>
    refine ⟨holder, by rwa [Option.toList_none, List.append_nil], ?_⟩
    simp only [Holds, hr, hr'] at hh ⊢
    exact hh.2
  | claimed owner startedAt leaseUntil hr =>
    simp only [Holds, hr] at hh
    subst hh
    exact ⟨some owner, ht.taken owner, rfl, rfl⟩
  | deferred owner hr howner hr' =>
    simp only [Holds, hr, howner] at hh
    rw [hh.1] at ht
    refine ⟨none, ht.returned owner, ?_⟩
    simp only [Holds, hr']
  | sent hr hr' =>
    refine ⟨holder, by rwa [Option.toList_none, List.append_nil], ?_⟩
    simp only [Holds, hr, hr'] at hh ⊢
    exact hh.2
  | reconciled hreconciles hr hr' =>
    refine ⟨holder, by rwa [Option.toList_none, List.append_nil], ?_⟩
    simp only [Holds, hr, hr'] at hh ⊢
    exact hh

theorem Effects.turns {es : List Event} {l : List (Turn Text)} {holder : Option Text} (h : Effects target es db db')
    (ht : Turns l holder) (hh : Holds (db.actionRow tenantId id) holder) :
    ∃ holder', Turns (l ++ es.filterMap (·.turn tenantId id)) holder' ∧ Holds (db'.actionRow tenantId id) holder' := by
  induction h with
  | refl => exact ⟨holder, by rwa [List.filterMap_nil, List.append_nil], hh⟩
  | @tail es e _ _ _ _ he ih =>
    obtain ⟨holder₁, ht₁, hh₁⟩ := ih hh
    obtain ⟨holder₂, ht₂, hh₂⟩ := (he.row tenantId id).turns ht₁ hh₁
    refine ⟨holder₂, ?_, hh₂⟩
    rw [List.filterMap_append, ← List.append_assoc]
    cases e with
    | none => exact ht₂
    | some e =>
      rw [Option.toList_some, List.filterMap_cons, List.filterMap_nil]
      rw [Option.bind_some] at ht₂
      cases hturn : e.turn tenantId id <;> (rw [hturn] at ht₂; exact ht₂)

/-- The publication may have happened. -/
def ActionRow.isOver (r : ActionRow) : Bool := r.status = .unknown || r.status = .sent

/-- Where a row that is over may be later: it is as it was, or reconciled. -/
def Later (reconciles : Prop) (r r' : ActionRow) : Prop := r' = r ∨ reconciles ∧ r.status = .unknown ∧ r'.status = .sent

theorem RowStep.over {x : Option (Turn Text)} {r : ActionRow} {row' : Option ActionRow} (h : RowStep reconciles x (some r) row')
    (hr : r.isOver = true) : x = none ∧ ∃ r', row' = some r' ∧ Later reconciles r r' := by
  unfold ActionRow.isOver at hr
  cases h with
  | same => exact ⟨rfl, r, rfl, Or.inl rfl⟩
  | waits h => cases hs : r.status <;> simp_all [ActionRow.isIdle]
  | doubted h => simp [h] at hr
  | claimed _ _ _ h => simp [h] at hr
  | deferred _ h => simp [h] at hr
  | sent h => simp [h] at hr
  | reconciled hreconciles h h' => exact ⟨rfl, _, rfl, Or.inr ⟨hreconciles, h, h'⟩⟩

theorem Later.isOver {reconciles : Prop} {r r' : ActionRow} (h : Later reconciles r r') (hr : r.isOver = true) :
    r'.isOver = true := by
  rcases h with rfl | ⟨-, -, hsent⟩
  · exact hr
  · simp [ActionRow.isOver, hsent]

theorem Later.trans {p q s : Prop} {r r' r'' : ActionRow} (h : Later p r r') (h' : Later q r' r'') (hp : p → s) (hq : q → s) :
    Later s r r'' := by
  rcases h with rfl | ⟨hreconciles, hr, hr'⟩
  · exact h'.imp id fun h => ⟨hq h.1, h.2⟩
  · rcases h' with rfl | ⟨-, hr'', -⟩
    · exact Or.inr ⟨hp hreconciles, hr, hr'⟩
    · rw [hr'] at hr''
      cases hr''

theorem Effects.over {es : List Event} {r : ActionRow} (h : Effects target es db db')
    (hr : db.actionRow tenantId id = some r) (hover : r.isOver = true) :
    es.filterMap (·.turn tenantId id) = [] ∧
      ∃ r', db'.actionRow tenantId id = some r' ∧ Later (target = some (tenantId, id)) r r' := by
  induction h with
  | refl => exact ⟨rfl, r, hr, Or.inl rfl⟩
  | @tail es e _ _ _ _ he ih =>
    obtain ⟨hnone, r₁, hr₁, hlater₁⟩ := ih hr
    have hrow := he.row tenantId id
    rw [hr₁] at hrow
    obtain ⟨hturn, r₂, hr₂, hlater₂⟩ := hrow.over (hlater₁.isOver hover)
    refine ⟨?_, r₂, hr₂, hlater₁.trans hlater₂ (fun h => h) fun h => h⟩
    rw [List.filterMap_append, hnone, List.nil_append]
    cases e with
    | none => rfl
    | some e =>
      rw [Option.toList_some, List.filterMap_cons, List.filterMap_nil, show e.turn tenantId id = none from hturn]

/-! ## Runs -/

variable {ts : List Transaction}

theorem run_sound (hsound : Sound db) : Sound (run contentId db ts) := by
  induction ts generalizing db with
  | nil => exact hsound
  | cons t ts ih => exact ih ((apply_effects hsound).sound hsound)

theorem run_turns {l : List (Turn Text)} {holder : Option Text} (hsound : Sound db) (ht : Turns l holder)
    (hh : Holds (db.actionRow tenantId id) holder) :
    ∃ holder', Turns (l ++ (history contentId ts db).filterMap (·.turn tenantId id)) holder' := by
  induction ts generalizing db l holder with
  | nil => exact ⟨holder, by rwa [history, List.filterMap_nil, List.append_nil]⟩
  | cons t ts ih =>
    have heffects := @apply_effects contentId db t hsound
    obtain ⟨holder₁, ht₁, hh₁⟩ := heffects.turns ht hh
    rw [history, List.filterMap_append, ← List.append_assoc]
    exact ih (heffects.sound hsound) ht₁ hh₁

/-- A transaction of the run reconciles the action, in the state where it comes. -/
def Reconciled (contentId : Text → Text → Text) (db : LedgerDb) (ts : List Transaction) (tenantId id : Text) : Prop :=
  ∃ before t after, ts = before ++ t :: after ∧ t.request.target contentId (run contentId db before) = some (tenantId, id)

theorem run_over {r : ActionRow} (hsound : Sound db) (hr : db.actionRow tenantId id = some r) (hover : r.isOver = true) :
    (history contentId ts db).filterMap (·.turn tenantId id) = [] ∧
      ∃ r', (run contentId db ts).actionRow tenantId id = some r' ∧ Later (Reconciled contentId db ts tenantId id) r r' := by
  induction ts generalizing db r with
  | nil => exact ⟨rfl, r, hr, Or.inl rfl⟩
  | cons t ts ih =>
    have heffects := @apply_effects contentId db t hsound
    obtain ⟨hnone, r₁, hr₁, hlater₁⟩ := heffects.over hr hover
    obtain ⟨hnone', r', hr', hlater'⟩ := ih (heffects.sound hsound) hr₁ (hlater₁.isOver hover)
    refine ⟨?_, r', hr', hlater₁.trans hlater' (fun h => ⟨[], t, ts, rfl, h⟩) ?_⟩
    · rw [history, List.filterMap_append, hnone, hnone']
      rfl
    · rintro ⟨before, s, after, heq, htarget⟩
      exact ⟨t :: before, s, after, by rw [heq, List.cons_append], htarget⟩

theorem sound_empty : Sound {} where
  receipted tenantId id := by simp [receiptRow, actionRow]
  counted tenantId := by simp [sends, Table.count]

def Event.isClaimOf (tenantId id : Text) : Event → Bool
  | .claimed t i _ => t = tenantId && i = id
  | .deferred .. => false

def Event.isDeferralOf (tenantId id : Text) : Event → Bool
  | .claimed .. => false
  | .deferred t i _ => t = tenantId && i = id

theorem taken_iff (e : Event) : ((e.turn tenantId id).map (·.isTaken)).getD false = e.isClaimOf tenantId id := by
  cases e with
  | claimed t i owner =>
    simp only [Event.turn, Event.isClaimOf]
    split <;> simp_all [Turn.isTaken]
  | deferred t i owner =>
    simp only [Event.turn, Event.isClaimOf]
    split <;> simp [Turn.isTaken]

theorem returned_iff (e : Event) : ((e.turn tenantId id).map (!·.isTaken)).getD false = e.isDeferralOf tenantId id := by
  cases e with
  | claimed t i owner =>
    simp only [Event.turn, Event.isDeferralOf]
    split <;> simp [Turn.isTaken]
  | deferred t i owner =>
    simp only [Event.turn, Event.isDeferralOf]
    split <;> simp_all [Turn.isTaken]

theorem turn_eq_returned {e : Event} (h : e.turn tenantId id = some (.returned owner)) : e = .deferred tenantId id owner := by
  cases e with
  | claimed t i o => by_cases hsame : t = tenantId ∧ i = id <;> simp [Event.turn, hsame] at h
  | deferred t i o =>
    by_cases hsame : t = tenantId ∧ i = id
    · simp only [Event.turn, if_pos hsame, Option.some.injEq, Turn.returned.injEq] at h
      rw [hsame.1, hsame.2, h]
    · simp [Event.turn, hsame] at h

/-- Two rows of one text that are both active clash. -/
theorem eq_of_active {a b : ActionRow} (ha : a ∈ db.actions.rows) (hb : b ∈ db.actions.rows) (htenant : a.tenantId = b.tenantId)
    (htext : a.text = b.text) (hactive : a.isActive = true) (hactive' : b.isActive = true) : a = b := by
  have hid : Table.Identifies fun r : ActionRow => r.isActiveText b.tenantId b.text := by
    intro x y hx hy
    simp only [ActionRow.isActiveText, Bool.and_eq_true, decide_eq_true_eq] at hx hy
    show (_ || (x.isActiveText y.tenantId y.text && y.isActive)) = true
    rw [Bool.or_eq_true, Bool.and_eq_true, ActionRow.isActiveText]
    exact Or.inr ⟨by simp [hx, hy], hy.2⟩
  exact Table.eq_of_identifies hid ha hb (by simp [ActionRow.isActiveText, htenant, htext, hactive])
    (by simp [ActionRow.isActiveText, hactive'])

/-- **A held publication is published at most once.** In every state that a run reaches, one action of a text is active.
Its claims and deferrals alternate, and between two claims the owner of the first deferred it. Once it is unknown no claim
of it succeeds and only its reconciliation changes it. Once it is sent nothing changes it; it is sent exactly when it has a
receipt, no two actions of a tenant share a URL, and the tenant's sends are its receipts. -/
theorem published_once (ts : List Transaction) :
    (∀ a ∈ (run contentId {} ts).actions.rows, ∀ b ∈ (run contentId {} ts).actions.rows,
      a.tenantId = b.tenantId → a.text = b.text → a.isActive = true → b.isActive = true → a = b) ∧
    (∀ tenantId id, (history contentId ts {}).countP (·.isClaimOf tenantId id) ≤
      (history contentId ts {}).countP (·.isDeferralOf tenantId id) + 1) ∧
    (∀ tenantId id owner owner' xs ys zs,
      history contentId ts {} = xs ++ .claimed tenantId id owner :: ys ++ .claimed tenantId id owner' :: zs →
      .deferred tenantId id owner ∈ ys) ∧
    (∀ tenantId id r, (run contentId {} ts).actionRow tenantId id = some r → r.status = .unknown →
      (∀ later owner, .claimed tenantId id owner ∉ history contentId later (run contentId {} ts)) ∧
      ∀ later, ∃ r', (run contentId {} (ts ++ later)).actionRow tenantId id = some r' ∧
        (r' = r ∨ r'.status = .sent ∧ Reconciled contentId (run contentId {} ts) later tenantId id)) ∧
    (∀ tenantId id r, (run contentId {} ts).actionRow tenantId id = some r → r.status = .sent →
      ∀ later, (run contentId {} (ts ++ later)).actionRow tenantId id = some r) ∧
    (∀ a ∈ (run contentId {} ts).actions.rows,
      a.status = .sent ↔ ∃ r ∈ (run contentId {} ts).receipts.rows, r.tenantId = a.tenantId ∧ r.actionId = a.id) ∧
    (∀ r ∈ (run contentId {} ts).receipts.rows, ∀ s ∈ (run contentId {} ts).receipts.rows,
      r.tenantId = s.tenantId → r.url = s.url → r.actionId = s.actionId) ∧
    ∀ tenantId, (run contentId {} ts).sends tenantId = (run contentId {} ts).receipts.count (·.tenantId = tenantId) := by
  have hsound := @run_sound contentId _ ts sound_empty
  have hturns : ∀ tenantId id, ∃ holder, Turns ((history contentId ts {}).filterMap (·.turn tenantId id)) holder :=
    fun tenantId id => @run_turns contentId {} tenantId id ts [] none sound_empty .start rfl
  refine ⟨fun a ha b hb => eq_of_active ha hb, fun tenantId id => ?_, ?_, ?_, ?_, fun a ha => ?_, ?_, hsound.counted⟩
  · obtain ⟨holder, ht⟩ := hturns tenantId id
    have hcount := ht.count
    simp only [List.countP_filterMap, taken_iff, returned_iff] at hcount
    rw [hcount]
    split <;> omega
  · intro tenantId id owner owner' xs ys zs heq
    obtain ⟨holder, ht⟩ := hturns tenantId id
    have hclaim : ∀ o, (Event.claimed tenantId id o).turn tenantId id = some (.taken o) := fun o => if_pos ⟨rfl, rfl⟩
    simp only [heq, List.filterMap_append, List.filterMap_cons, hclaim] at ht
    obtain ⟨e, he, hturn⟩ := List.mem_filterMap.1 ht.returned_between
    rwa [← turn_eq_returned hturn]
  · intro tenantId id r hr hunknown
    have hover : r.isOver = true := by simp [ActionRow.isOver, hunknown]
    refine ⟨fun later owner hmem => ?_, fun later => ?_⟩
    · obtain ⟨hnone, -⟩ := @run_over contentId _ tenantId id later r hsound hr hover
      have hturn : (Event.claimed tenantId id owner).turn tenantId id = some (.taken owner) := if_pos ⟨rfl, rfl⟩
      have hmem := List.mem_filterMap.2 ⟨_, hmem, hturn⟩
      rw [hnone] at hmem
      cases hmem
    · obtain ⟨-, r', hr', hlater⟩ := @run_over contentId _ tenantId id later r hsound hr hover
      refine ⟨r', ?_, hlater.imp (fun h => h) fun h => ⟨h.2.2, h.1⟩⟩
      rwa [run, List.foldl_append]
  · intro tenantId id r hr hsent later
    obtain ⟨-, r', hr', hlater⟩ := @run_over contentId _ tenantId id later r hsound hr (by simp [ActionRow.isOver, hsent])
    rcases hlater with rfl | ⟨-, hunknown, -⟩
    · rwa [run, List.foldl_append]
    · rw [hsent] at hunknown
      cases hunknown
  · have hreceipted := hsound.receipted a.tenantId a.id
    rw [actionRow_of_mem ha] at hreceipted
    constructor
    · intro hsent
      obtain ⟨r, hr⟩ := Option.isSome_iff_exists.1 (hreceipted.2 ⟨a, rfl, hsent⟩)
      exact ⟨r, receiptRow_spec hr⟩
    · rintro ⟨r, hr, htenant, hid⟩
      have hfound := receiptRow_of_mem hr
      rw [htenant, hid] at hfound
      obtain ⟨s, hs, hsent⟩ := hreceipted.1 (by rw [hfound]; rfl)
      rwa [Option.some.inj hs]
  · intro r hr s hs htenant hurl
    exact congrArg (·.actionId)
      (Table.eq_of_identifies (identifies_url s.tenantId s.url) hr hs (by simp [htenant, hurl]) (by simp))

end Zenod.Publication
