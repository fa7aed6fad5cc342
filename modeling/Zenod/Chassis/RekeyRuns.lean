/-
Runs of a key rotation, interrupted or not.

Each run advances a file (`Advance`): its envelopes are written anew or stay,
and what they hold, under the new key or under the old one, stays. A run that
reports no failure has found every envelope and leaves all of them under the
new key.
-/
import Zenod.Chassis.RekeyCells

namespace Zenod.Chassis

open Text Keyed

section Envelopes

variable (crypto : Crypto) (o : ChassisRekeyOptions)

/-- What an envelope holds under the new key. -/
def holdsNow (id : VaultId) (aadKey value : Text) : Option Text :=
  tryDecryptVaultValue crypto value (deriveTenantVaultKey crypto o.key id) (vaultAad id aadKey)

/-- What an envelope holds under the new key or else under the old one. -/
def holds (id : VaultId) (aadKey value : Text) : Option Text :=
  (holdsNow crypto o id aadKey value).or (o.previousKey.bind fun previousKey =>
    tryDecryptVaultValue crypto value (deriveTenantVaultKey crypto previousKey id) (vaultAad id aadKey))

/-- The value that a verdict leaves. -/
def Verdict.leaves (value : Text) : Verdict → Text
  | .rekey value' => value'
  | _ => value

end Envelopes

variable {crypto : Crypto} {o : ChassisRekeyOptions} {d : Draw}

/-! ## One envelope -/

theorem judge_verified {id : VaultId} {iv : Iv} {ref : EnvelopeRef}
    (h : holdsNow crypto o id ref.aadKey ref.value ≠ none) : judge crypto o id iv ref = .verified := by
  unfold judge
  exact if_pos (Option.isSome_iff_ne_none.2 h)

theorem judge_leaves (hc : crypto.Lawful) (id : VaultId) (iv : Iv) (ref : EnvelopeRef) (henv : isEnvelope ref.value = true) :
    isEnvelope ((judge crypto o id iv ref).leaves ref.value) = true ∧
    holds crypto o id ref.aadKey ((judge crypto o id iv ref).leaves ref.value) =
      holds crypto o id ref.aadKey ref.value ∧
    (judge crypto o id iv ref ≠ .failed → ∃ plaintext,
      holdsNow crypto o id ref.aadKey ((judge crypto o id iv ref).leaves ref.value) = some plaintext ∧
      holds crypto o id ref.aadKey ref.value = some plaintext) := by
  cases hnow : holdsNow crypto o id ref.aadKey ref.value with
  | some plaintext =>
    rw [judge_verified (by rw [hnow]; exact Option.some_ne_none _)]
    exact ⟨henv, rfl, fun _ => ⟨plaintext, hnow, by rw [holds, hnow]; rfl⟩⟩
  | none =>
    have hnone : ¬(tryDecryptVaultValue crypto ref.value (deriveTenantVaultKey crypto o.key id)
        (vaultAad id ref.aadKey)).isSome = true := by
      rw [show tryDecryptVaultValue crypto ref.value _ _ = none from hnow]
      exact Bool.false_ne_true
    unfold judge
    rw [if_neg hnone]
    cases hold : o.previousKey.bind fun previousKey =>
        tryDecryptVaultValue crypto ref.value (deriveTenantVaultKey crypto previousKey id) (vaultAad id ref.aadKey) with
    | none => exact ⟨henv, rfl, fun hne => absurd rfl hne⟩
    | some plaintext =>
      have hnew : holdsNow crypto o id ref.aadKey (encryptVaultValue crypto plaintext
          (deriveTenantVaultKey crypto o.key id) (vaultAad id ref.aadKey) iv) = some plaintext := by
        simp only [holdsNow, tryDecryptVaultValue, decrypt_encrypt hc]
      have hwas : holds crypto o id ref.aadKey ref.value = some plaintext := by
        rw [holds, hnow, hold]
        rfl
      refine ⟨startsWith_envelope _ _ _ _, ?_, fun _ => ⟨plaintext, hnew, hwas⟩⟩
      rw [hwas, holds]
      dsimp only [Verdict.leaves]
      rw [hnew]
      rfl

/-! ## One file -/

theorem Plan.writeRef_eq (hc : crypto.Lawful) (plan : Plan) {ref : EnvelopeRef} (henv : isEnvelope ref.value = true)
    (hcolumn : ref.loc.column ∉ nameColumns) (f : DataFile) :
    ∃ r : Resealing, plan.writeRef crypto o d f ref = r.file f ∧ (∀ loc t, loc ≠ ref.loc → r.value loc t = t) ∧
      r.value ref.loc ref.value = (judge crypto o plan.id (d plan.path ref) ref).leaves ref.value := by
  have hleaves := (judge_leaves (o := o) hc plan.id (d plan.path ref) ref henv).1
  unfold Plan.writeRef
  cases hjudge : judge crypto o plan.id (d plan.path ref) ref with
  | verified => exact ⟨Resealing.none, (Resealing.file_none f).symm, fun _ _ _ => rfl, rfl⟩
  | failed => exact ⟨Resealing.none, (Resealing.file_none f).symm, fun _ _ _ => rfl, rfl⟩
  | rekey value =>
    rw [hjudge] at hleaves
    refine ⟨Resealing.one ref value hleaves hcolumn, updateCell_eq _ _ henv f, fun loc t hne => ?_, ?_⟩
    · exact if_neg fun hhit => hne hhit.1
    · exact if_pos ⟨rfl, rfl⟩

/-- The transaction of a file writes each envelope as its verdict says. -/
theorem Plan.write_eq (hc : crypto.Lawful) (plan : Plan) {f₀ : DataFile} (hrefs : RefsOf f₀ plan.refs) (f : DataFile) :
    ∃ r : Resealing, plan.write crypto o d f = r.file f ∧ ∀ ref ∈ plan.refs,
      r.value ref.loc ref.value = (judge crypto o plan.id (d plan.path ref) ref).leaves ref.value := by
  have henv := hrefs.isEnvelope
  have hnodup := hrefs.nodup
  have hcolumn := hrefs.column
  unfold Plan.write
  generalize plan.refs = refs at henv hnodup hcolumn
  -- The places differ, so what one update wrote no other one finds.
  suffices h : ∃ r : Resealing, refs.foldl (plan.writeRef crypto o d) f = r.file f ∧
      (∀ loc t, loc ∉ refs.map EnvelopeRef.loc → r.value loc t = t) ∧ ∀ ref ∈ refs,
        r.value ref.loc ref.value = (judge crypto o plan.id (d plan.path ref) ref).leaves ref.value by
    obtain ⟨r, hfile, -, hvalue⟩ := h
    exact ⟨r, hfile, hvalue⟩
  induction refs generalizing f with
  | nil => exact ⟨Resealing.none, (Resealing.file_none f).symm, fun _ _ _ => rfl, nofun⟩
  | cons ref refs ih =>
    rw [List.map_cons, List.nodup_cons] at hnodup
    obtain ⟨r, hfile, hother, hvalue⟩ := plan.writeRef_eq (o := o) (d := d) hc
      (henv ref List.mem_cons_self) (hcolumn ref List.mem_cons_self) f
    obtain ⟨s, hrest, hothers, hvalues⟩ := ih (r.file f) (fun ref' h => henv ref' (List.mem_cons_of_mem ref h)) hnodup.2
      fun ref' h => hcolumn ref' (List.mem_cons_of_mem ref h)
    refine ⟨r.comp s, ?_, fun loc t hloc => ?_, fun ref' href' => ?_⟩
    · rw [List.foldl_cons, hfile, hrest, Resealing.file_comp]
    · rw [List.map_cons, List.mem_cons, not_or] at hloc
      change s.value loc (r.value loc t) = t
      rw [hother loc t hloc.1, hothers loc t hloc.2]
    · change s.value ref'.loc (r.value ref'.loc ref'.value) = _
      rcases List.mem_cons.1 href' with rfl | href'
      · rw [hvalue, hothers _ _ hnodup.1]
      · rw [hother ref'.loc ref'.value fun heq => hnodup.1 (heq ▸ List.mem_map_of_mem href'), hvalues ref' href']

variable (crypto o) in
/-- The envelopes of a file were written anew, and they hold what they held. -/
def Advance (f f' : DataFile) : Prop := ∃ r : Resealing, f' = r.file f ∧ ∀ refs, f.knownRefs = .ok refs →
  ∀ ref ∈ refs, holds crypto o f.vaultId ref.aadKey (r.value ref.loc ref.value) =
    holds crypto o f.vaultId ref.aadKey ref.value

namespace Advance

variable {f f' f'' : DataFile}

theorem refl (f : DataFile) : Advance crypto o f f :=
  ⟨Resealing.none, (Resealing.file_none f).symm, fun _ _ _ _ => rfl⟩

theorem trans (h : Advance crypto o f f') (h' : Advance crypto o f' f'') : Advance crypto o f f'' := by
  obtain ⟨r, rfl, hr⟩ := h
  obtain ⟨s, rfl, hs⟩ := h'
  refine ⟨r.comp s, (Resealing.file_comp r s f).symm, fun refs hrefs ref href => ?_⟩
  have hmid : (r.file f).knownRefs = .ok (refs.map r.ref) := by
    rw [r.knownRefs_file, hrefs]
    rfl
  have hheld : holds crypto o f.vaultId ref.aadKey (s.value ref.loc (r.value ref.loc ref.value)) =
      holds crypto o f.vaultId ref.aadKey (r.value ref.loc ref.value) :=
    hs _ hmid (r.ref ref) (List.mem_map_of_mem href)
  exact hheld.trans (hr refs hrefs ref href)

end Advance

/-! ## The scan -/

/-- A plan is for this file. -/
def DataFile.HasPlan (f : DataFile) (plan : Plan) : Prop :=
  f.path = plan.path ∧ f.vaultId = plan.id ∧ f.knownRefs = .ok plan.refs

structure Surveyed (files : List DataFile) (s : Survey) : Prop where
  file : ∀ plan ∈ s.plans, ∃ f ∈ files, f.HasPlan plan
  plan : ∀ f ∈ files, f.countEnvelopes ≠ 0 → ∃ plan ∈ s.plans, f.HasPlan plan
  paths : (s.plans.map Plan.path).Sublist (files.map DataFile.path)
  nonneg : 0 ≤ s.unaccounted
  accounted : s.unaccounted = 0 → ∀ f ∈ files, ∀ refs, f.countEnvelopes ≠ 0 → f.knownRefs = .ok refs →
    refs.length = f.countEnvelopes
  total : (((s.plans.map fun plan => plan.refs.length).sum : Nat) : Int) = s.envelopes - s.unaccounted

theorem survey_ok {files : List DataFile} {s : Survey} (h : survey files = .ok s) : Surveyed files s := by
  induction files generalizing s with
  | nil =>
    obtain rfl : {} = s := by simpa [survey] using h
    exact ⟨nofun, nofun, List.Sublist.slnil, le_refl _, nofun, rfl⟩
  | cons f files ih =>
    rw [survey] at h
    split at h
    next hzero =>
      have hrest := ih h
      refine ⟨fun plan hplan => ?_, fun g hg hne => ?_, hrest.paths.cons _, hrest.nonneg, fun hall g hg => ?_, hrest.total⟩
      · obtain ⟨g, hg, hgplan⟩ := hrest.file plan hplan
        exact ⟨g, List.mem_cons_of_mem f hg, hgplan⟩
      · rcases List.mem_cons.1 hg with rfl | hg
        · exact absurd hzero hne
        · exact hrest.plan g hg hne
      · rcases List.mem_cons.1 hg with rfl | hg
        · exact fun refs hne => absurd hzero hne
        · exact hrest.accounted hall g hg
    next hne =>
      simp only [bind_ok, pure_ok] at h
      obtain ⟨refs, hrefs, rest, hsurvey, rfl⟩ := h
      have hrest := ih hsurvey
      have hle := (knownRefs_refsOf hrefs).length_le
      have hnonneg := hrest.nonneg
      refine ⟨fun plan hplan => ?_, fun g hg hg0 => ?_, hrest.paths.cons_cons _, ?_, fun hall g hg refs' hg0 hrefs' => ?_, ?_⟩
      · rcases List.mem_cons.1 hplan with rfl | hplan
        · exact ⟨f, List.mem_cons_self, rfl, rfl, hrefs⟩
        · obtain ⟨g, hg, hgplan⟩ := hrest.file plan hplan
          exact ⟨g, List.mem_cons_of_mem f hg, hgplan⟩
      · rcases List.mem_cons.1 hg with rfl | hg
        · exact ⟨_, List.mem_cons_self, rfl, rfl, hrefs⟩
        · obtain ⟨plan, hplan, hgplan⟩ := hrest.plan g hg hg0
          exact ⟨plan, List.mem_cons_of_mem _ hplan, hgplan⟩
      · dsimp only
        omega
      · dsimp only at hall
        rcases List.mem_cons.1 hg with rfl | hg
        · rw [hrefs, Except.ok.injEq] at hrefs'
          rw [← hrefs']
          omega
        · exact hrest.accounted (by omega) g hg refs' hg0 hrefs'
      · have htotal := hrest.total
        simp only [List.map_cons, List.sum_cons, Nat.cast_add]
        omega

/-! ## The directory -/

variable (crypto o d) in
/-- What the transactions of these plans do to one file. -/
def writeAll (plans : List Plan) (f : DataFile) : DataFile :=
  plans.foldl (fun f plan => if f.path = plan.path then plan.write crypto o d f else f) f

theorem files_rekeyFile (dir : DataDir) (plan : Plan) (scrubbed : Bool) :
    (dir.rekeyFile crypto o d plan scrubbed).files =
      dir.files.map fun f => if f.path = plan.path then plan.write crypto o d f else f := rfl

theorem files_rekeyFiles (dir : DataDir) (plans : List Plan) :
    (dir.rekeyFiles crypto o d plans).files = dir.files.map (writeAll crypto o d plans) := by
  induction plans generalizing dir with
  | nil => exact (List.map_id' _).symm
  | cons plan plans ih =>
    rw [DataDir.rekeyFiles, List.foldl_cons, ← DataDir.rekeyFiles, ih, DataDir.rekeyFile, List.map_map]
    rfl

theorem writeAll_other {plans : List Plan} {f : DataFile} (h : ∀ plan ∈ plans, f.path ≠ plan.path) :
    writeAll crypto o d plans f = f := by
  induction plans with
  | nil => rfl
  | cons plan plans ih =>
    rw [writeAll, List.foldl_cons, if_neg (h plan List.mem_cons_self)]
    exact ih fun plan' h' => h plan' (List.mem_cons_of_mem plan h')

/-- Of distinct paths, one transaction at most is for a file. -/
theorem writeAll_eq {plans : List Plan} (hnodup : (plans.map Plan.path).Nodup) {plan : Plan} (hplan : plan ∈ plans)
    {f : DataFile} (hpath : f.path = plan.path) :
    writeAll crypto o d plans f = plan.write crypto o d f := by
  induction plans generalizing f with
  | nil => cases hplan
  | cons head plans ih =>
    rw [List.map_cons, List.nodup_cons] at hnodup
    rw [writeAll, List.foldl_cons]
    rcases List.mem_cons.1 hplan with rfl | hplan
    · rw [if_pos hpath]
      refine writeAll_other fun plan' hplan' heq => hnodup.1 ?_
      rw [plan.path_write, hpath] at heq
      exact List.mem_map.2 ⟨plan', hplan', heq.symm⟩
    · rw [if_neg fun heq => hnodup.1 (List.mem_map.2 ⟨plan, hplan, by rw [← hpath, heq]⟩)]
      exact ih hnodup.2 hplan hpath

/-- What the transaction of a file does, by the plan of the file. -/
theorem write_advance (hc : crypto.Lawful) {f : DataFile} {plan : Plan} (hplan : f.HasPlan plan) :
    ∃ r : Resealing, plan.write crypto o d f = r.file f ∧ ∀ ref ∈ plan.refs,
      holds crypto o f.vaultId ref.aadKey (r.value ref.loc ref.value) =
        holds crypto o f.vaultId ref.aadKey ref.value ∧
      (.failed ∉ plan.verdicts crypto o d → ∃ plaintext,
        holdsNow crypto o f.vaultId ref.aadKey (r.value ref.loc ref.value) = some plaintext ∧
        holds crypto o f.vaultId ref.aadKey ref.value = some plaintext) := by
  obtain ⟨-, hid, hknown⟩ := hplan
  have hrefs := knownRefs_refsOf hknown
  obtain ⟨r, hfile, hvalue⟩ := plan.write_eq (o := o) (d := d) hc hrefs f
  refine ⟨r, hfile, fun ref href => ?_⟩
  obtain ⟨-, hheld, hnow⟩ := judge_leaves (o := o) hc plan.id (d plan.path ref) ref
    (hrefs.isEnvelope ref href)
  rw [hvalue ref href, hid]
  refine ⟨hheld, fun hnone => hnow fun hfailed => hnone ?_⟩
  exact List.mem_map.2 ⟨ref, href, hfailed⟩

theorem writeAll_advance (hc : crypto.Lawful) {dir : DataDir} {s : Survey} (hs : Surveyed dir.files s) {plans : List Plan}
    (hplans : plans.Sublist s.plans) {f : DataFile} (hf : f ∈ dir.files) :
    Advance crypto o f (writeAll crypto o d plans f) := by
  have hpaths := hs.paths
  have hnodup : (plans.map Plan.path).Nodup := dir.distinct.sublist ((hplans.map Plan.path).trans hpaths)
  by_cases hany : ∃ plan ∈ plans, f.path = plan.path
  · obtain ⟨plan, hplan, hpath⟩ := hany
    obtain ⟨g, hg, hgplan⟩ := hs.file plan (hplans.subset hplan)
    have hgf : g = f := List.inj_on_of_nodup_map dir.distinct hg hf (by rw [hgplan.1, hpath])
    subst hgf
    obtain ⟨r, hfile, hvalue⟩ := write_advance (o := o) (d := d) hc hgplan
    rw [writeAll_eq hnodup hplan hpath]
    refine ⟨r, hfile, fun refs hrefs ref href => (hvalue ref ?_).1⟩
    rw [hgplan.2.2, Except.ok.injEq] at hrefs
    exact hrefs ▸ href
  · rw [writeAll_other fun plan hplan heq => hany ⟨plan, hplan, heq⟩]
    exact Advance.refl f

theorem interrupted_advance (hc : crypto.Lawful) (dir : DataDir) (i : Interruption) {f : DataFile} (hf : f ∈ dir.files) :
    ∃ f' ∈ (interrupted crypto o dir i).files, Advance crypto o f f' := by
  unfold interrupted
  split
  next => exact ⟨f, hf, .refl f⟩
  next s hs =>
    split
    next => exact ⟨f, hf, .refl f⟩
    next =>
      have hfiles : ∀ plans : List Plan, plans.Sublist s.plans →
          ∃ f' ∈ dir.files.map (writeAll crypto o i.draw plans), Advance crypto o f f' := fun plans hplans =>
        ⟨_, List.mem_map_of_mem hf, writeAll_advance hc (survey_ok hs) hplans hf⟩
      have htake := hfiles _ (List.take_sublist i.done s.plans)
      dsimp only
      split
      next plan hplan =>
        split
        next =>
          -- The file that was not scrubbed is written like the ones before it.
          have hnext := hfiles _ (List.take_sublist (i.done + 1) s.plans)
          rw [List.take_add_one, hplan, Option.toList_some] at hnext
          have hall : (writeAll crypto o i.draw (s.plans.take i.done ++ [plan])) =
              (fun f => if f.path = plan.path then plan.write crypto o i.draw f else f) ∘
                writeAll crypto o i.draw (s.plans.take i.done) := by
            funext f
            simp only [writeAll, List.foldl_append, List.foldl_cons, List.foldl_nil, Function.comp_apply]
            rfl
          rw [files_rekeyFile, files_rekeyFiles, List.map_map, ← hall]
          exact hnext
        next =>
          rw [files_rekeyFiles]
          exact htake
      next =>
        rw [files_rekeyFiles]
        exact htake

variable (crypto o) in
/-- The directory after runs that did not come to their end. -/
def DataDir.after (dir : DataDir) (attempts : List Interruption) : DataDir :=
  attempts.foldl (interrupted crypto o) dir

theorem after_advance (hc : crypto.Lawful) (attempts : List Interruption) (dir : DataDir) {f : DataFile}
    (hf : f ∈ dir.files) : ∃ f' ∈ (dir.after crypto o attempts).files, Advance crypto o f f' := by
  induction attempts generalizing dir f with
  | nil => exact ⟨f, hf, .refl f⟩
  | cons i attempts ih =>
    obtain ⟨g, hg, hfg⟩ := interrupted_advance (o := o) hc dir i hf
    obtain ⟨f', hf', hgf'⟩ := ih _ hg
    exact ⟨f', hf', hfg.trans hgf'⟩

/-! ## A run that reports no failure -/

/-- What a run has done that came to its end and reports no failure. -/
theorem rekey_ok {dir dir' : DataDir} {report : ChassisRekeyReport}
    (h : rekeyChassisDataDir crypto o d dir = .ok (report, dir')) (hfailed : report.failed = 0) :
    ∃ s, survey dir.files = .ok s ∧ s.unaccounted = 0 ∧ report = s.report crypto o d ∧
      dir' = dir.rekeyFiles crypto o d s.plans ∧ ∀ plan ∈ s.plans, .failed ∉ plan.verdicts crypto o d := by
  simp only [rekeyChassisDataDir, bind_ok] at h
  obtain ⟨s, hs, h⟩ := h
  split at h
  next hne =>
    simp only [pure_ok, Prod.mk.injEq] at h
    rw [← h.1] at hfailed
    exact absurd hfailed hne
  next hzero =>
    simp only [pure_ok, Prod.mk.injEq] at h
    refine ⟨s, hs, not_not.1 hzero, h.1.symm, h.2.symm, fun plan hplan hmem => ?_⟩
    rw [← h.1] at hfailed
    simp only [Survey.report, Nat.cast_eq_zero, List.count_eq_zero] at hfailed
    exact hfailed (List.mem_flatMap.2 ⟨plan, hplan, hmem⟩)

/-- Every envelope of a file is under the new key then. -/
theorem rekey_file (hc : crypto.Lawful) {dir dir' : DataDir} {report : ChassisRekeyReport}
    (h : rekeyChassisDataDir crypto o d dir = .ok (report, dir')) (hfailed : report.failed = 0) {f : DataFile}
    (hf : f ∈ dir.files) (hcount : f.countEnvelopes ≠ 0) :
    ∃ (r : Resealing) (refs : List EnvelopeRef), r.file f ∈ dir'.files ∧ f.knownRefs = .ok refs ∧
      refs.length = f.countEnvelopes ∧ ∀ ref ∈ refs, ∃ plaintext,
        holdsNow crypto o f.vaultId ref.aadKey (r.value ref.loc ref.value) = some plaintext ∧
        holds crypto o f.vaultId ref.aadKey ref.value = some plaintext := by
  obtain ⟨s, hs, hzero, -, rfl, hverdicts⟩ := rekey_ok h hfailed
  have hsurveyed := survey_ok hs
  obtain ⟨plan, hplan, hfplan⟩ := hsurveyed.plan f hf hcount
  obtain ⟨r, hfile, hvalue⟩ := write_advance (o := o) (d := d) hc hfplan
  refine ⟨r, plan.refs, ?_, hfplan.2.2, hsurveyed.accounted hzero f hf _ hcount hfplan.2.2,
    fun ref href => (hvalue ref href).2 (hverdicts plan hplan)⟩
  rw [files_rekeyFiles, ← hfile,
    ← writeAll_eq (dir.distinct.sublist hsurveyed.paths) hplan hfplan.1]
  exact List.mem_map_of_mem hf

def zeroDraw : Draw := fun _ _ => zeroIv

/-- From the key 7 to the key 8. -/
def rotation : ChassisRekeyOptions := ⟨keyOf 8, some (keyOf 7)⟩

/-- The one envelope of such a vault. -/
def vaultRef (tenantId key value : Text) : EnvelopeRef :=
  ⟨⟨vaultEntries, encryptedValue, 1⟩, key,
    encryptVaultValue labelled value (keyOf 7) (vaultAad ⟨tenantId, "vault.sqlite".toList⟩ key) zeroIv⟩

/-- A vault of one entry under the key 7. -/
def vaultFile (tenantId key value : Text) : DataFile where
  path := [tenantId, "vault.sqlite".toList]
  tables := [{
    name := vaultEntries
    columns := [tenantIdColumn, keyColumn, encryptedValue]
    rows := ⟨[⟨1, fun column =>
      if column = tenantIdColumn then .text tenantId
      else if column = keyColumn then .text key
      else .text (vaultRef tenantId key value).value⟩],
      List.pairwise_singleton _ _⟩
    distinct := by decide }]
  distinct := List.nodup_singleton _

def vaultPlan (tenantId key value : Text) : Plan :=
  ⟨[tenantId, "vault.sqlite".toList], ⟨tenantId, "vault.sqlite".toList⟩, [vaultRef tenantId key value]⟩

def twoVaults : DataDir where
  files := [vaultFile "alpha".toList "github".toList "a".toList, vaultFile "beta".toList "gitlab".toList "b".toList]
  distinct := by decide
  residue _ := []

/-- **A rotation that reports no failure strands nothing**: whatever runs were cut short before it, every envelope of
every file opens under the new key, to what it held at first. -/
theorem every_envelope_rekeyed (hc : crypto.Lawful) (dir : DataDir) (attempts : List Interruption)
    {report : ChassisRekeyReport} {dir' : DataDir}
    (h : rekeyChassisDataDir crypto o d (dir.after crypto o attempts) = .ok (report, dir'))
    (hfailed : report.failed = 0) {f : DataFile} (hf : f ∈ dir.files) {loc : Loc} {value : Text}
    (hmem : (loc, value) ∈ f.envelopes) :
    ∃ refs, f.knownRefs = .ok refs ∧ ∃ ref ∈ refs, ref.loc = loc ∧ ref.value = value ∧
      ∃ f' ∈ dir'.files, f'.path = f.path ∧ ∃ value' plaintext, (loc, value') ∈ f'.envelopes ∧
        holdsNow crypto o f.vaultId ref.aadKey value' = some plaintext ∧
        holds crypto o f.vaultId ref.aadKey value = some plaintext := by
  obtain ⟨g, hg, r, rfl, hheld⟩ := after_advance (o := o) hc attempts dir hf
  have hcount : (r.file f).countEnvelopes ≠ 0 := by
    rw [r.countEnvelopes_file, ← length_envelopes]
    exact (List.length_pos_of_mem hmem).ne'
  obtain ⟨s, refs', hfile, hrefs', hlen, hvalue⟩ := rekey_file hc h hfailed hg hcount
  -- The refs of the file as it was at first are those of the file as the last run found it.
  rw [r.knownRefs_file, map_ok] at hrefs'
  obtain ⟨refs, hrefs, rfl⟩ := hrefs'
  rw [List.length_map, r.countEnvelopes_file] at hlen
  obtain ⟨ref, href, rfl, rfl⟩ := (knownRefs_refsOf hrefs).cover hlen hmem
  obtain ⟨plaintext, hnow, hwas⟩ := hvalue (r.ref ref) (List.mem_map_of_mem href)
  refine ⟨refs, hrefs, ref, href, rfl, rfl, _, hfile, rfl, s.value ref.loc (r.value ref.loc ref.value), plaintext, ?_,
    hnow, (hheld refs hrefs ref href).symm.trans hwas⟩
  rw [s.envelopes_file, r.envelopes_file]
  exact List.mem_map.2 ⟨_, List.mem_map_of_mem hmem, rfl⟩

theorem interrupted_rekeyed : ∃ report dir', rekeyChassisDataDir labelled rotation zeroDraw
      (twoVaults.after labelled rotation [⟨zeroDraw, 0, true⟩]) = .ok (report, dir') ∧
    ∀ f ∈ twoVaults.files, ∀ loc value, (loc, value) ∈ f.envelopes →
      ∃ f' ∈ dir'.files, f'.path = f.path ∧ ∃ value', (loc, value') ∈ f'.envelopes := by
  have hreport : (rekeyChassisDataDir labelled rotation zeroDraw
      (twoVaults.after labelled rotation [⟨zeroDraw, 0, true⟩])).map Prod.fst = .ok ⟨2, 2, 2, 1, 0⟩ := by decide +kernel
  obtain ⟨⟨report, dir'⟩, h, hreport⟩ := map_ok.1 hreport
  refine ⟨report, dir', h, fun f hf loc value hmem => ?_⟩
  obtain ⟨-, -, -, -, -, -, f', hf', hpath, value', -, hvalue, -⟩ := every_envelope_rekeyed labelled_lawful twoVaults
    [⟨zeroDraw, 0, true⟩] h (by rw [show report = _ from hreport]) hf hmem
  exact ⟨f', hf', hpath, value', hvalue⟩

/-! ## Running it again -/

/-- A scan finds the same after envelopes were written anew. -/
theorem survey_map {files : List DataFile} {g : DataFile → DataFile} (hg : ∀ f ∈ files, ∃ r : Resealing, g f = r.file f)
    {s : Survey} (h : survey files = .ok s) : ∃ s', survey (files.map g) = .ok s' ∧ s'.files = s.files ∧
      s'.envelopes = s.envelopes ∧ s'.unaccounted = s.unaccounted := by
  induction files generalizing s with
  | nil => exact ⟨s, h, rfl, rfl, rfl⟩
  | cons f files ih =>
    obtain ⟨r, hr⟩ := hg f List.mem_cons_self
    rw [survey] at h
    rw [List.map_cons, survey, hr, r.countEnvelopes_file, r.knownRefs_file]
    split at h
    next hzero =>
      rw [if_pos hzero]
      exact ih (fun f' hf' => hg f' (List.mem_cons_of_mem f hf')) h
    next hne =>
      simp only [bind_ok, pure_ok] at h
      obtain ⟨refs, hrefs, rest, hsurvey, rfl⟩ := h
      obtain ⟨s', hs', hfiles, henvelopes, hunaccounted⟩ := ih (fun f' hf' => hg f' (List.mem_cons_of_mem f hf')) hsurvey
      rw [if_neg hne]
      refine ⟨_, bind_ok.2 ⟨refs.map r.ref, by rw [hrefs]; rfl, bind_ok.2 ⟨s', hs', rfl⟩⟩, ?_, ?_, ?_⟩
      · rw [hfiles]
      · rw [henvelopes]
      · rw [hunaccounted, List.length_map]

/-- A plan of verified envelopes writes nothing. -/
theorem rekeyFile_verified {dir : DataDir} {plan : Plan} (h : ∀ v ∈ plan.verdicts crypto o d, v = .verified)
    (scrubbed : Bool) : dir.rekeyFile crypto o d plan scrubbed = dir := by
  have hverified : ∀ ref ∈ plan.refs, judge crypto o plan.id (d plan.path ref) ref = .verified :=
    fun ref href => h _ (List.mem_map_of_mem href)
  have hwrite : ∀ f, plan.write crypto o d f = f := by
    intro f
    unfold Plan.write
    generalize plan.refs = refs at hverified
    induction refs with
    | nil => rfl
    | cons ref refs ih =>
      rw [List.foldl_cons, Plan.writeRef, hverified ref List.mem_cons_self]
      exact ih fun ref' h' => hverified ref' (List.mem_cons_of_mem ref h')
  have hretired : plan.retired crypto o d = [] := by
    refine List.filterMap_eq_nil_iff.2 fun ref href => ?_
    rw [hverified ref href]
  have hfiles : (dir.rekeyFile crypto o d plan scrubbed).files = dir.files := by
    simp only [files_rekeyFile, hwrite, ite_self, List.map_id']
  have hresidue : (dir.rekeyFile crypto o d plan scrubbed).residue = dir.residue := by
    simp only [DataDir.rekeyFile, DataDir.residueAfter, hretired, if_true]
  cases dir
  cases hdir : DataDir.rekeyFile crypto o d ⟨_, _, _⟩ plan scrubbed
  rw [hdir] at hfiles hresidue
  congr

theorem rekeyFiles_verified {dir : DataDir} {plans : List Plan}
    (h : ∀ plan ∈ plans, ∀ v ∈ plan.verdicts crypto o d, v = .verified) : dir.rekeyFiles crypto o d plans = dir := by
  induction plans with
  | nil => rfl
  | cons plan plans ih =>
    rw [DataDir.rekeyFiles, List.foldl_cons, rekeyFile_verified (h plan List.mem_cons_self)]
    exact ih fun plan' h' => h plan' (List.mem_cons_of_mem plan h')

/-- The report of verified envelopes. -/
theorem report_verified {s : Survey} (h : ∀ plan ∈ s.plans, ∀ v ∈ plan.verdicts crypto o d, v = .verified) :
    s.report crypto o d =
      ⟨s.files, s.envelopes, (s.plans.map fun plan => plan.refs.length).sum, 0, 0⟩ := by
  have hlength : (s.plans.flatMap fun plan => plan.verdicts crypto o d).length =
      (s.plans.map fun plan => plan.refs.length).sum := by
    simp only [List.length_flatMap, Plan.verdicts, List.length_map]
  have hall : ∀ v ∈ s.plans.flatMap fun plan => plan.verdicts crypto o d, v = .verified := by
    intro v hv
    obtain ⟨plan, hplan, hv⟩ := List.mem_flatMap.1 hv
    exact h plan hplan v hv
  have hverified := List.count_eq_length.2 fun v hv => (hall v hv).symm
  have hfailed : (s.plans.flatMap fun plan => plan.verdicts crypto o d).count .failed = 0 := by
    refine List.count_eq_zero.2 fun hmem => ?_
    cases hall _ hmem
  have hrekeyed : (s.plans.flatMap fun plan => plan.verdicts crypto o d).countP
      (fun v => v != .verified && v != .failed) = 0 := by
    refine List.countP_eq_zero.2 fun v hv => ?_
    rw [hall v hv]
    decide
  simp only [Survey.report, hverified, hfailed, hrekeyed, hlength, Nat.add_zero, Nat.cast_zero]

/-- **A second run finds everything done**, whatever previous key it is given. -/
theorem rekey_again (hc : crypto.Lawful) {dir dir' : DataDir} {report : ChassisRekeyReport}
    (h : rekeyChassisDataDir crypto o d dir = .ok (report, dir')) (hfailed : report.failed = 0)
    (previousKey : Option VaultKey) (d' : Draw) :
    rekeyChassisDataDir crypto { o with previousKey } d' dir' =
      .ok (⟨report.files, report.envelopes, report.envelopes, 0, 0⟩, dir') := by
  obtain ⟨s, hs, hzero, hreport, hdir, hverdicts⟩ := rekey_ok h hfailed
  have hsurveyed := survey_ok hs
  have hreseal : ∀ f ∈ dir.files, ∃ r : Resealing, writeAll crypto o d s.plans f = r.file f := fun f hf =>
    (writeAll_advance hc hsurveyed (List.Sublist.refl _) hf).imp fun r hr => hr.1
  obtain ⟨s', hs', hfiles, henvelopes, hunaccounted⟩ := survey_map hreseal hs
  have hdirFiles : dir'.files = dir.files.map (writeAll crypto o d s.plans) := by rw [hdir, files_rekeyFiles]
  rw [← hdirFiles] at hs'
  have hsurveyed' := survey_ok hs'
  have hverified : ∀ plan ∈ s'.plans, ∀ v ∈ plan.verdicts crypto { o with previousKey } d', v = .verified := by
    intro plan hplan v hv
    obtain ⟨ref, href, rfl⟩ := List.mem_map.1 hv
    refine judge_verified ?_
    obtain ⟨f', hf', -, hid, hknown⟩ := hsurveyed'.file plan hplan
    rw [hdirFiles] at hf'
    obtain ⟨f, hf, rfl⟩ := List.mem_map.1 hf'
    -- The plan of the second run is that of the first, with the values that the first run left.
    by_cases hany : ∃ plan₀ ∈ s.plans, f.path = plan₀.path
    · obtain ⟨plan₀, hplan₀, hpath⟩ := hany
      obtain ⟨f₀, hf₀, hfplan⟩ := hsurveyed.file plan₀ hplan₀
      have hsame : f₀ = f := List.inj_on_of_nodup_map dir.distinct hf₀ hf (by rw [hfplan.1, hpath])
      subst hsame
      obtain ⟨r, hfile, hvalue⟩ := write_advance (o := o) (d := d) hc hfplan
      rw [writeAll_eq (dir.distinct.sublist hsurveyed.paths) hplan₀ hpath, hfile] at hknown hid
      rw [r.knownRefs_file, hfplan.2.2] at hknown
      obtain ⟨ref₀, href₀, rfl⟩ := List.mem_map.1 ((Except.ok.inj hknown) ▸ href)
      obtain ⟨plaintext, hnow, -⟩ := (hvalue ref₀ href₀).2 (hverdicts plan₀ hplan₀)
      rw [← hid]
      exact fun hnone => Option.some_ne_none plaintext (hnow.symm.trans hnone)
    · rw [writeAll_other fun plan₀ h₀ heq => hany ⟨plan₀, h₀, heq⟩] at hknown
      have hmem := (knownRefs_refsOf hknown).mem ref href
      have hcount : f.countEnvelopes ≠ 0 := by
        rw [← length_envelopes]
        exact (List.length_pos_of_mem hmem).ne'
      obtain ⟨plan₀, hplan₀, hfplan⟩ := hsurveyed.plan f hf hcount
      exact absurd ⟨plan₀, hplan₀, hfplan.1⟩ hany
  have htotal := hsurveyed'.total
  simp only [rekeyChassisDataDir, hs', hunaccounted, hzero, ne_eq, not_true_eq_false, if_false, bind, Except.bind,
    report_verified hverified, rekeyFiles_verified hverified, pure, Except.pure]
  have hsum : (s'.plans.map fun plan => plan.refs.length).sum = s'.envelopes := by omega
  rw [hsum, hreport, Survey.report, hfiles, henvelopes]

theorem rekeyed_again : ∃ dir', rekeyChassisDataDir labelled ⟨keyOf 8, none⟩ zeroDraw dir' =
    .ok (⟨2, 2, 2, 0, 0⟩, dir') := by
  have hreport : (rekeyChassisDataDir labelled rotation zeroDraw twoVaults).map Prod.fst = .ok ⟨2, 2, 2, 2, 0⟩ := by
    decide +kernel
  obtain ⟨⟨report, dir'⟩, h, hreport⟩ := map_ok.1 hreport
  obtain rfl : report = ⟨2, 2, 2, 2, 0⟩ := hreport
  exact ⟨dir', rekey_again labelled_lawful h rfl none zeroDraw⟩

/-! ## Replaced envelopes -/

variable (crypto o) in
/-- Every envelope of the file is under the new key. -/
def AllNow (f : DataFile) : Prop := ∀ refs, f.knownRefs = .ok refs → ∀ ref ∈ refs,
  holdsNow crypto o f.vaultId ref.aadKey ref.value ≠ none

/-- A plan that has nothing to write for a file leaves the file and what is left over of it. -/
theorem rekeyFile_keeps {dir : DataDir} {plan : Plan} {f : DataFile} (hf : f ∈ dir.files)
    (hplan : plan.path = f.path → ∀ v ∈ plan.verdicts crypto o d, v = .verified) (scrubbed : Bool) :
    f ∈ (dir.rekeyFile crypto o d plan scrubbed).files ∧
      (dir.rekeyFile crypto o d plan scrubbed).residue f.path = dir.residue f.path := by
  by_cases hpath : plan.path = f.path
  · rw [rekeyFile_verified (hplan hpath)]
    exact ⟨hf, rfl⟩
  · refine ⟨?_, ?_⟩
    · rw [files_rekeyFile]
      exact List.mem_map.2 ⟨f, hf, if_neg fun heq => hpath heq.symm⟩
    · simp only [DataDir.rekeyFile, DataDir.residueAfter]
      split
      · rfl
      · rw [Function.update_of_ne fun heq => hpath heq.symm]

theorem rekeyFiles_keeps {dir : DataDir} {plans : List Plan} {f : DataFile} (hf : f ∈ dir.files)
    (hplans : ∀ plan ∈ plans, plan.path = f.path → ∀ v ∈ plan.verdicts crypto o d, v = .verified) :
    f ∈ (dir.rekeyFiles crypto o d plans).files ∧
      (dir.rekeyFiles crypto o d plans).residue f.path = dir.residue f.path := by
  induction plans generalizing dir with
  | nil => exact ⟨hf, rfl⟩
  | cons plan plans ih =>
    obtain ⟨hnext, hresidue⟩ := rekeyFile_keeps hf (hplans plan List.mem_cons_self) true
    obtain ⟨hend, hresidues⟩ := ih hnext fun plan' h' => hplans plan' (List.mem_cons_of_mem plan h')
    exact ⟨hend, hresidues.trans hresidue⟩

/-- The plan of such a file has nothing to write. -/
theorem AllNow.verified {dir : DataDir} {s : Survey} (hs : Surveyed dir.files s) {f : DataFile} (hf : f ∈ dir.files)
    (hnow : AllNow crypto o f) {plan : Plan} (hplan : plan ∈ s.plans) (hpath : plan.path = f.path) :
    ∀ v ∈ plan.verdicts crypto o d, v = .verified := by
  obtain ⟨g, hg, hgplan⟩ := hs.file plan hplan
  have hgf : g = f := List.inj_on_of_nodup_map dir.distinct hg hf (by rw [hgplan.1, hpath])
  subst hgf
  intro v hv
  obtain ⟨ref, href, rfl⟩ := List.mem_map.1 hv
  refine judge_verified ?_
  rw [← hgplan.2.1]
  exact hnow plan.refs hgplan.2.2 ref href

theorem interrupted_keeps {dir : DataDir} {f : DataFile} (hf : f ∈ dir.files) (hnow : AllNow crypto o f)
    (i : Interruption) : f ∈ (interrupted crypto o dir i).files ∧
      (interrupted crypto o dir i).residue f.path = dir.residue f.path := by
  unfold interrupted
  split
  next => exact ⟨hf, rfl⟩
  next s hs =>
    split
    next => exact ⟨hf, rfl⟩
    next =>
      have hverified : ∀ plan ∈ s.plans, plan.path = f.path → ∀ v ∈ plan.verdicts crypto o i.draw, v = .verified :=
        fun plan hplan hpath => hnow.verified (survey_ok hs) hf hplan hpath
      have hbefore : ∀ plan ∈ s.plans.take i.done, plan.path = f.path → ∀ v ∈ plan.verdicts crypto o i.draw,
          v = .verified := fun plan hplan => hverified plan ((List.take_sublist i.done s.plans).subset hplan)
      obtain ⟨hmem, hresidue⟩ := rekeyFiles_keeps hf hbefore
      dsimp only
      split
      next plan hplan =>
        split
        next =>
          obtain ⟨hend, hresidues⟩ := rekeyFile_keeps hmem (hverified plan (List.mem_of_getElem? hplan)) false
          exact ⟨hend, hresidues.trans hresidue⟩
        next => exact ⟨hmem, hresidue⟩
      next => exact ⟨hmem, hresidue⟩

theorem after_keeps {dir : DataDir} {f : DataFile} (hf : f ∈ dir.files) (hnow : AllNow crypto o f)
    (attempts : List Interruption) : f ∈ (dir.after crypto o attempts).files ∧
      (dir.after crypto o attempts).residue f.path = dir.residue f.path := by
  induction attempts generalizing dir with
  | nil => exact ⟨hf, rfl⟩
  | cons i attempts ih =>
    obtain ⟨hmem, hresidue⟩ := interrupted_keeps hf hnow i
    obtain ⟨hend, hresidues⟩ := ih hmem
    exact ⟨hend, hresidues.trans hresidue⟩

/-- No run scrubs a file that has nothing to write anew. -/
theorem rekey_keeps {dir dir' : DataDir} {f : DataFile} (hf : f ∈ dir.files) (hnow : AllNow crypto o f)
    {report : ChassisRekeyReport} (h : rekeyChassisDataDir crypto o d dir = .ok (report, dir')) :
    dir'.residue f.path = dir.residue f.path := by
  simp only [rekeyChassisDataDir, bind_ok] at h
  obtain ⟨s, hs, h⟩ := h
  split at h
  next =>
    simp only [pure_ok, Prod.mk.injEq] at h
    rw [← h.2]
  next =>
    simp only [pure_ok, Prod.mk.injEq] at h
    rw [← h.2]
    exact (rekeyFiles_keeps hf fun plan hplan hpath => hnow.verified (survey_ok hs) hf hplan hpath).2

/-- A file that was written anew without a failure is under the new key, and what it replaced is left over. -/
theorem committed_unscrubbed (hc : crypto.Lawful) {dir : DataDir} {i : Interruption} {s : Survey} {plan : Plan}
    (hs : survey dir.files = .ok s) (hzero : s.unaccounted = 0) (hplan : s.plans[i.done]? = some plan)
    (hcommitted : i.committed = true) (hfailed : .failed ∉ plan.verdicts crypto o i.draw)
    (hretired : plan.retired crypto o i.draw ≠ []) :
    ∃ f ∈ (interrupted crypto o dir i).files, f.path = plan.path ∧ AllNow crypto o f ∧
      (interrupted crypto o dir i).residue f.path ≠ [] := by
  have hsurveyed := survey_ok hs
  have hmem := List.mem_of_getElem? hplan
  obtain ⟨f, hf, hfplan⟩ := hsurveyed.file plan hmem
  obtain ⟨r, hfile, hvalue⟩ := write_advance (o := o) (d := i.draw) hc hfplan
  have hdir : interrupted crypto o dir i =
      (dir.rekeyFiles crypto o i.draw (s.plans.take i.done)).rekeyFile crypto o i.draw plan false := by
    simp only [interrupted, hs, hzero, ne_eq, not_true_eq_false, if_false, hplan, hcommitted, if_true]
  have hnodup : (s.plans.map Plan.path).Nodup := dir.distinct.sublist hsurveyed.paths
  -- The plans before this one are for other files.
  have hother : writeAll crypto o i.draw (s.plans.take i.done) f = f := by
    refine writeAll_other fun plan' hplan' heq => ?_
    obtain ⟨k, hk, hget⟩ := List.mem_take_iff_getElem.1 hplan'
    have hsame : plan'.path = plan.path := by rw [← heq, hfplan.1]
    obtain ⟨hlt, hgetPlan⟩ := List.getElem?_eq_some_iff.1 hplan
    have hk' : k < (s.plans.map Plan.path).length := by
      rw [List.length_map]
      omega
    have hlt' : i.done < (s.plans.map Plan.path).length := by rwa [List.length_map]
    have hsamePath : (s.plans.map Plan.path)[k] = (s.plans.map Plan.path)[i.done] := by
      simp only [List.getElem_map, hget, hgetPlan, hsame]
    have hindex := hnodup.getElem_inj_iff.1 hsamePath
    omega
  refine ⟨r.file f, ?_, hfplan.1, ?_, ?_⟩
  · rw [hdir, files_rekeyFile, files_rekeyFiles, List.map_map, ← hfile]
    refine List.mem_map.2 ⟨f, hf, ?_⟩
    rw [Function.comp_apply, hother, if_pos hfplan.1]
  · intro refs hrefs ref href
    rw [r.knownRefs_file, hfplan.2.2] at hrefs
    obtain ⟨ref₀, href₀, rfl⟩ := List.mem_map.1 (Except.ok.inj hrefs ▸ href)
    obtain ⟨plaintext, hnow, -⟩ := (hvalue ref₀ href₀).2 hfailed
    exact fun hnone => Option.some_ne_none plaintext (hnow.symm.trans hnone)
  · rw [hdir, show (r.file f).path = plan.path from hfplan.1]
    simp [DataDir.rekeyFile, DataDir.residueAfter, hretired]

end Zenod.Chassis
