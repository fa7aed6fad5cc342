/-
Runs of a tenant vault: any number of processes open it, write to it and end,
in any order and between any two of their statements.

`Stores` says that the rows are the contents under a key; `Sealed` what holds
of a file from the first migration on. Each turn keeps it (`Sealed.step`), so
a run does.
-/
import Zenod.Chassis.Vault

namespace Zenod.Chassis

open Text Bytes Keyed

variable {crypto : Crypto} {id : VaultId} {key : VaultKey}

/-! ## Names -/

theorem normalizeVaultKey_ok {name safeKey : Text} (h : normalizeVaultKey name = .ok safeKey) : safeKey = trim name := by
  unfold normalizeVaultKey at h
  dsimp only at h
  split at h
  · cases h
  · injection h with h
    exact h.symm

theorem normalizeVaultKey_normal {name safeKey : Text} (h : normalizeVaultKey name = .ok safeKey) :
    normalizeVaultKey safeKey = .ok safeKey := by
  have hsafe := normalizeVaultKey_ok h
  have htrim : trim safeKey = safeKey := by
    rw [hsafe]
    exact (tight_trim name).trim_eq
  unfold normalizeVaultKey at h ⊢
  dsimp only at h ⊢
  rw [htrim]
  rw [← hsafe] at h
  exact h

theorem head?_verifierKey (id : VaultId) : (verifierKey id).head? = some 'k' := by
  unfold verifierKey
  rw [List.head?_append_of_ne_nil _ (by decide)]
  decide

theorem head?_metadataKey (id : VaultId) : (metadataKey id).head? = some 'e' := by
  unfold metadataKey
  rw [List.head?_append_of_ne_nil _ (by decide)]
  decide

theorem verifierKey_ne (id : VaultId) : verifierKey id ≠ metadataKey id := by
  intro h
  have hhead := head?_verifierKey id
  rw [h, head?_metadataKey] at hhead
  exact absurd hhead (by decide)

theorem stateV1_ne : stateV1 ≠ statePending := by decide

/-! ## Rows -/

variable (crypto id key) in
/-- The rows are the contents, each in an envelope of this key. -/
structure Stores (entries : Table EntryRow) (c : Contents) : Prop where
  tenant : ∀ row ∈ entries.rows, row.tenantId = id.tenantId
  normal : ∀ row ∈ entries.rows, normalizeVaultKey row.key = .ok row.key
  value : ∀ row ∈ entries.rows, ∃ value iv, c row.key = some value ∧
    row.value = encryptVaultValue crypto value key (vaultAad id row.key) iv
  key : ∀ k value, c k = some value → ∃ row ∈ entries.rows, row.key = k

namespace Stores

variable {entries : Table EntryRow} {c : Contents}

theorem find (h : Stores crypto id key entries c) (k : Text) :
    (entries.rows.find? (fun row => row.tenantId == id.tenantId && row.key == k) = none ∧ c k = none) ∨
    ∃ row ∈ entries.rows, row.key = k ∧
      entries.rows.find? (fun row => row.tenantId == id.tenantId && row.key == k) = some row := by
  cases hfind : entries.rows.find? (fun row => row.tenantId == id.tenantId && row.key == k) with
  | none =>
    refine .inl ⟨rfl, ?_⟩
    rw [List.find?_eq_none] at hfind
    cases hc : c k with
    | none => rfl
    | some value =>
      obtain ⟨row, hrow, hkey⟩ := h.key k value hc
      have := hfind row hrow
      simp [h.tenant row hrow, hkey] at this
  | some row =>
    have hrow := List.find?_some hfind
    simp only [Bool.and_eq_true, beq_iff_eq] at hrow
    exact .inr ⟨row, List.mem_of_find?_eq_some hfind, hrow.2, rfl⟩

/-- A key that no row has is in no contents. -/
theorem none_of_fresh (h : Stores crypto id key entries c) {row : EntryRow} (htenant : row.tenantId = id.tenantId)
    (hfresh : ∀ r ∈ entries.rows, clash r row = false) : c row.key = none := by
  cases hc : c row.key with
  | none => rfl
  | some value =>
    obtain ⟨r, hr, hkey⟩ := h.key _ _ hc
    have hclash := hfresh r hr
    simp [clash, h.tenant r hr, htenant, hkey] at hclash

variable {row : EntryRow} {value : Text} {iv : Iv}

/-- A row for a key that had none. -/
theorem insert (h : Stores crypto id key entries c) {entries' : Table EntryRow}
    (hins : entries.insert? row = some entries') (htenant : row.tenantId = id.tenantId)
    (hnormal : normalizeVaultKey row.key = .ok row.key)
    (hvalue : row.value = encryptVaultValue crypto value key (vaultAad id row.key) iv) :
    Stores crypto id key entries' (Function.update c row.key (some value)) := by
  obtain ⟨hfresh, hrows⟩ := Table.insert?_eq_some.1 hins
  have hnone := h.none_of_fresh htenant hfresh
  constructor
  · intro r hr
    rw [hrows, List.mem_append, List.mem_singleton] at hr
    rcases hr with hr | rfl
    · exact h.tenant r hr
    · exact htenant
  · intro r hr
    rw [hrows, List.mem_append, List.mem_singleton] at hr
    rcases hr with hr | rfl
    · exact h.normal r hr
    · exact hnormal
  · intro r hr
    rw [hrows, List.mem_append, List.mem_singleton] at hr
    rcases hr with hr | rfl
    · obtain ⟨v, iv', hc, hv⟩ := h.value r hr
      refine ⟨v, iv', ?_, hv⟩
      have hne : r.key ≠ row.key := by
        intro heq
        rw [heq, hnone] at hc
        cases hc
      rw [Function.update_of_ne hne, hc]
    · exact ⟨value, iv, Function.update_self .., hvalue⟩
  · intro k v hk
    by_cases hkey : k = row.key
    · exact ⟨row, by simp [hrows], hkey.symm⟩
    · rw [Function.update_of_ne hkey] at hk
      obtain ⟨r, hr, hrk⟩ := h.key k v hk
      exact ⟨r, by simp [hrows, hr], hrk⟩

/-- The row of a key gets another value. -/
theorem replace (h : Stores crypto id key entries c) (hmem : ∃ r ∈ entries.rows, clash r row = true)
    (hvalue : row.value = encryptVaultValue crypto value key (vaultAad id row.key) iv) (hf) :
    Stores crypto id key (entries.update (fun r => clash r row)
      (fun r => { r with value := row.value, updatedAt := row.updatedAt }) hf)
      (Function.update c row.key (some value)) := by
  have hrows : ∀ r ∈ (entries.update (fun r => clash r row)
      (fun r => { r with value := row.value, updatedAt := row.updatedAt }) hf).rows,
      ∃ r₀ ∈ entries.rows, r.tenantId = r₀.tenantId ∧ r.key = r₀.key ∧
        r.value = if clash r₀ row then row.value else r₀.value := by
    intro r hr
    rw [Table.rows_update, List.mem_map] at hr
    obtain ⟨r₀, hr₀, rfl⟩ := hr
    refine ⟨r₀, hr₀, ?_⟩
    split <;> simp
  constructor
  · intro r hr
    obtain ⟨r₀, hr₀, ht, -, -⟩ := hrows r hr
    rw [ht, h.tenant r₀ hr₀]
  · intro r hr
    obtain ⟨r₀, hr₀, -, hk, -⟩ := hrows r hr
    rw [hk, h.normal r₀ hr₀]
  · intro r hr
    obtain ⟨r₀, hr₀, -, hk, hv⟩ := hrows r hr
    obtain ⟨v, iv', hc, hv₀⟩ := h.value r₀ hr₀
    by_cases hkey : r₀.key = row.key
    · obtain ⟨r₁, hr₁, hclash⟩ := hmem
      have hclash₀ : clash r₀ row = true := by
        simp only [clash, Bool.and_eq_true, beq_iff_eq] at hclash ⊢
        exact ⟨by rw [h.tenant r₀ hr₀, ← h.tenant r₁ hr₁, hclash.1], hkey⟩
      rw [if_pos hclash₀] at hv
      rw [hk, hkey]
      exact ⟨value, iv, Function.update_self .., by rw [hv, hvalue]⟩
    · have hclash₀ : ¬clash r₀ row = true := by simp [clash, hkey]
      rw [if_neg hclash₀] at hv
      rw [hk]
      exact ⟨v, iv', by rw [Function.update_of_ne hkey, hc], by rw [hv, hv₀]⟩
  · intro k v hk
    have hmap : ∀ r ∈ entries.rows, ∃ r' ∈ (entries.update (fun r => clash r row)
        (fun r => { r with value := row.value, updatedAt := row.updatedAt }) hf).rows, r'.key = r.key := by
      intro r hr
      refine ⟨_, List.mem_map_of_mem hr, ?_⟩
      split <;> rfl
    by_cases hkey : k = row.key
    · obtain ⟨r₁, hr₁, hclash⟩ := hmem
      obtain ⟨r', hr', hk'⟩ := hmap r₁ hr₁
      simp only [clash, Bool.and_eq_true, beq_iff_eq] at hclash
      exact ⟨r', hr', by rw [hk', hclash.2, hkey]⟩
    · rw [Function.update_of_ne hkey] at hk
      obtain ⟨r, hr, hrk⟩ := h.key k v hk
      obtain ⟨r', hr', hk'⟩ := hmap r hr
      exact ⟨r', hr', hk'.trans hrk⟩

theorem upsert (h : Stores crypto id key entries c) (htenant : row.tenantId = id.tenantId)
    (hnormal : normalizeVaultKey row.key = .ok row.key)
    (hvalue : row.value = encryptVaultValue crypto value key (vaultAad id row.key) iv) :
    Stores crypto id key (Chassis.upsert entries row) (Function.update c row.key (some value)) := by
  unfold Chassis.upsert
  cases hins : entries.insert? row with
  | some entries' => exact h.insert hins htenant hnormal hvalue
  | none =>
    refine h.replace ?_ hvalue _
    by_contra hnone
    obtain ⟨t, ht, -⟩ := Table.insert?_isSome fun r hr =>
      show clash r row = false from Bool.eq_false_iff.2 fun hclash => hnone ⟨r, hr, hclash⟩
    rw [ht] at hins
    cases hins

theorem delete (h : Stores crypto id key entries c) (k : Text) :
    Stores crypto id key (entries.delete fun row => row.tenantId == id.tenantId && row.key == k)
      (Function.update c k none) := by
  have hrows : ∀ r, r ∈ (entries.delete fun row => row.tenantId == id.tenantId && row.key == k).rows →
      r ∈ entries.rows ∧ r.key ≠ k := by
    intro r hr
    have hr := List.mem_filter.1 hr
    refine ⟨hr.1, fun hk => ?_⟩
    have := hr.2
    simp [h.tenant r hr.1, hk] at this
  constructor
  · exact fun r hr => h.tenant r (hrows r hr).1
  · exact fun r hr => h.normal r (hrows r hr).1
  · intro r hr
    obtain ⟨v, iv, hc, hv⟩ := h.value r (hrows r hr).1
    exact ⟨v, iv, by rw [Function.update_of_ne (hrows r hr).2, hc], hv⟩
  · intro k' v hk'
    have hne : k' ≠ k := by
      intro heq
      rw [heq, Function.update_self] at hk'
      cases hk'
    rw [Function.update_of_ne hne] at hk'
    obtain ⟨r, hr, hrk⟩ := h.key k' v hk'
    refine ⟨r, List.mem_filter.2 ⟨hr, ?_⟩, hrk⟩
    simp [hrk, hne]

/-- **A handle reads the contents.** -/
theorem get (hc : crypto.Lawful) {db : VaultDb} (h : Stores crypto id key db.entries c) (name : Text) :
    Chassis.get crypto id key db name = (normalizeVaultKey name).map c := by
  unfold Chassis.get VaultDb.row?
  cases hname : normalizeVaultKey name with
  | error e => rfl
  | ok safeKey =>
    rcases h.find safeKey with ⟨hfind, hnone⟩ | ⟨row, hrow, hkey, hfind⟩
    · simp [bind, Except.bind, Except.map, pure, Except.pure, hfind, hnone]
    · obtain ⟨value, iv, hvalue, henv⟩ := h.value row hrow
      subst hkey
      simp [bind, Except.bind, Except.map, pure, Except.pure, hfind, hvalue, henv, decrypt_encrypt hc]

theorem mem_listKeys {db : VaultDb} (h : Stores crypto id key db.entries c) (k : Text) :
    k ∈ listKeys id db ↔ c k ≠ none := by
  rw [listKeys, List.mem_mergeSort, List.mem_map]
  constructor
  · intro ⟨row, hrow, hkey⟩
    obtain ⟨value, -, hvalue, -⟩ := h.value row (List.mem_filter.1 hrow).1
    rw [← hkey, hvalue]
    exact Option.some_ne_none value
  · intro hne
    obtain ⟨value, hvalue⟩ := Option.ne_none_iff_exists'.1 hne
    obtain ⟨row, hrow, hkey⟩ := h.key k value hvalue
    exact ⟨row, List.mem_filter.2 ⟨hrow, by simp [h.tenant row hrow]⟩, hkey⟩

theorem empty : Stores crypto id key Table.empty fun _ => none :=
  ⟨nofun, nofun, nofun, nofun⟩

end Stores

/-! ## Opening -/

/-- The first row that a key normalizes to gives it its value. -/
def firstValue (rows : List EntryRow) : Contents := fun safeKey =>
  (rows.find? fun row => decide (normalizeVaultKey row.key = .ok safeKey)).map EntryRow.value

/-- What the loop has inserted holds what was there and what the rows hold. -/
theorem encryptRows_stores {draw : Nat → Iv} {rows : List EntryRow} {n : Nat} {entries entries' : Table EntryRow}
    {c : Contents} (h : encryptRows crypto id key draw rows n entries = .ok entries')
    (hstores : Stores crypto id key entries c) :
    Stores crypto id key entries' fun k => (c k).or (firstValue rows k) := by
  induction rows generalizing n entries c with
  | nil =>
    obtain rfl : entries = entries' := by simpa [encryptRows] using h
    simpa [firstValue] using hstores
  | cons row rows ih =>
    rw [encryptRows, bind_ok] at h
    obtain ⟨safeKey, hsafe, h⟩ := h
    split at h
    next => cases h
    next migrated hins =>
      have hfresh := (Table.insert?_eq_some.1 hins).1
      have hnone := hstores.none_of_fresh rfl hfresh
      have hnext := ih h (hstores.insert hins rfl (normalizeVaultKey_normal hsafe) rfl)
      convert hnext using 2 with k
      by_cases hk : k = safeKey
      · subst hk
        rw [Function.update_self, show c k = none from hnone]
        simp [firstValue, hsafe]
      · rw [Function.update_of_ne hk]
        have hne : ¬normalizeVaultKey row.key = .ok k := by
          rw [hsafe]
          exact fun heq => hk (Except.ok.inj heq).symm
        simp [firstValue, hne]

/-- The file holds the contents under a key, from the first migration on. -/
structure Kept (crypto : Crypto) (id : VaultId) (key : VaultKey) (db : VaultDb) (c : Contents) : Prop where
  schema : db.schema = .encrypted
  verifier : ∃ iv, db.metadata (verifierKey id) =
    some (encryptVaultValue crypto VAULT_KEY_VERIFIER_VALUE key (vaultAad id VAULT_KEY_VERIFIER_KEY) iv)
  stores : Stores crypto id key db.entries c
  state : db.state id = some stateV1 ∨ db.state id = some statePending

theorem Kept.assertVaultV1Schema {db : VaultDb} {c : Contents} (h : Kept crypto id key db c) :
    Chassis.assertVaultV1Schema db = .ok () := by
  rw [Chassis.assertVaultV1Schema, if_neg (not_not_intro h.schema)]
  rfl

/-- Another key does not pass the verifier. -/
theorem Kept.verify_other (hc : crypto.Lawful) {db : VaultDb} {c : Contents} (h : Kept crypto id key db c)
    {key' : VaultKey} (hne : key' ≠ key) :
    verifyVaultKey crypto id key' db = .error "tenant vault entry could not be decrypted".toList := by
  obtain ⟨iv, hverifier⟩ := h.verifier
  have hother : ¬(key' = key ∧ vaultAad id VAULT_KEY_VERIFIER_KEY = vaultAad id VAULT_KEY_VERIFIER_KEY) :=
    fun heq => hne heq.1
  simp only [verifyVaultKey, hverifier, decrypt_other hc _ hother]
  rfl

theorem Kept.migrate_other (hc : crypto.Lawful) {db : VaultDb} {c : Contents} (h : Kept crypto id key db c)
    {key' : VaultKey} (hne : key' ≠ key) (draw : Nat → Iv) :
    migrate crypto id key' draw db = .error "tenant vault entry could not be decrypted".toList := by
  unfold migrate
  rcases h.state with hstate | hstate
  · simp only [hstate, if_pos, h.assertVaultV1Schema, h.verify_other hc hne]
    rfl
  · simp only [hstate, if_neg stateV1_ne.symm, ne_eq, not_true_eq_false, if_false, h.assertVaultV1Schema,
      h.verify_other hc hne]
    rfl

/-- The transaction of an open on such a file leaves it as it is. -/
theorem Kept.migrate_ok (hc : crypto.Lawful) {db db' : VaultDb} {c : Contents} (h : Kept crypto id key db c)
    {key' : VaultKey} {draw : Nat → Iv} {needsScrub : Bool}
    (hopen : migrate crypto id key' draw db = .ok (needsScrub, db')) :
    key' = key ∧ db' = db ∧ (needsScrub = false → db.state id = some stateV1) := by
  have hkey : key' = key := by
    by_contra hne
    rw [h.migrate_other hc hne] at hopen
    cases hopen
  refine ⟨hkey, ?_⟩
  unfold migrate at hopen
  rcases h.state with hstate | hstate
  · simp only [hstate, if_pos, bind_unit_ok, pure_ok, Prod.mk.injEq] at hopen
    exact ⟨hopen.2.2.2.symm, fun _ => hstate⟩
  · simp only [hstate, if_neg stateV1_ne.symm, ne_eq, not_true_eq_false, if_false, bind_unit_ok, pure_ok,
      Prod.mk.injEq] at hopen
    refine ⟨hopen.2.2.2.2.symm, fun hfalse => ?_⟩
    rw [hfalse] at hopen
    exact absurd hopen.2.2.2.1 (by simp)

/-- The transaction of the first open. -/
theorem migrate_fresh {db db' : VaultDb} {draw : Nat → Iv} {needsScrub : Bool} (hstate : db.state id = none)
    (hopen : migrate crypto id key draw db = .ok (needsScrub, db')) :
    Kept crypto id key db' db.contents ∧ needsScrub = true ∧ db'.state id = some statePending := by
  unfold migrate at hopen
  simp only [hstate, bind_ok, pure_ok, Prod.mk.injEq] at hopen
  obtain ⟨rows, hrows, entries, hentries, hscrub, rfl⟩ := hopen
  have hall : rows = db.entries.rows := by
    simp only [legacyRows, unless_ok, pure_ok] at hrows
    exact hrows.2.2.2.symm
  have hverifier := verifierKey_ne id
  have hpending : (db.migrated crypto id key rows entries (draw rows.length)).state id = some statePending := by
    simp [VaultDb.state, VaultDb.migrated, VaultDb.setMetadata, Function.update_of_ne hverifier.symm]
  refine ⟨⟨rfl, ⟨draw rows.length, ?_⟩, ?_, .inr hpending⟩, hscrub.symm, hpending⟩
  · simp [VaultDb.migrated, VaultDb.setMetadata]
  · have hstores := encryptRows_stores hentries Stores.empty
    subst hall
    have hcontents : (fun k => (none : Option Text).or (firstValue db.entries.rows k)) = db.contents := by
      funext k
      exact Option.none_or
    exact hcontents ▸ hstores

/-! ## Turns -/

/-- No process has opened the file yet. -/
structure Fresh (id : VaultId) (w : World) (c : Contents) : Prop where
  state : w.db.state id = none
  processes : ∀ p, w.processes p = none
  contents : c = w.db.contents

structure Sealed (crypto : Crypto) (id : VaultId) (key : VaultKey) (w : World) (c : Contents) : Prop where
  kept : Kept crypto id key w.db c
  keys : ∀ p process, w.processes p = some process → process.key = key
  clean : (w.db.state id = some stateV1 ∨ ∃ p process, w.processes p = some process ∧ process.phase ≠ .scrub) →
    w.db.residue = []

theorem processes_enter {w : World} {p q : Nat} {key : VaultKey} {phase : Phase} {process : Process}
    (h : (w.enter p key phase).processes q = some process) :
    (q = p ∧ process = ⟨key, phase⟩) ∨ w.processes q = some process := by
  by_cases hq : q = p
  · subst hq
    simp only [World.enter, Function.update_self, Option.some.injEq] at h
    exact .inl ⟨rfl, h.symm⟩
  · simp only [World.enter, Function.update_of_ne hq] at h
    exact .inr h

theorem processes_leave {w : World} {p q : Nat} {process : Process} (h : (w.leave p).processes q = some process) :
    w.processes q = some process := by
  by_cases hq : q = p
  · subst hq
    simp [World.leave] at h
  · simpa [World.leave, Function.update_of_ne hq] using h

namespace Sealed

variable {w : World} {c : Contents}

theorem leave (h : Sealed crypto id key w c) (p : Nat) : Sealed crypto id key (w.leave p) c := by
  refine ⟨h.kept, fun q process hq => h.keys q process (processes_leave hq), fun hclean => h.clean ?_⟩
  refine hclean.imp_right fun hready => ?_
  obtain ⟨q, process, hq, hphase⟩ := hready
  exact ⟨q, process, processes_leave hq, hphase⟩

/-- A process enters a phase; the file is clean when it no longer has to scrub it. -/
theorem enter (h : Sealed crypto id key w c) (p : Nat) {phase : Phase} (hphase : phase ≠ .scrub → w.db.residue = []) :
    Sealed crypto id key (w.enter p key phase) c := by
  refine ⟨h.kept, fun q process hq => ?_, fun hclean => ?_⟩
  · rcases processes_enter hq with ⟨-, rfl⟩ | hq
    · rfl
    · exact h.keys q process hq
  · rcases hclean with hstate | ⟨q, process, hq, hne⟩
    · exact h.clean (.inl hstate)
    · rcases processes_enter hq with ⟨-, rfl⟩ | hq
      · exact hphase hne
      · exact h.clean (.inr ⟨q, process, hq, hne⟩)

/-- A turn for a phase: only a process in it acts, under the key of the file. -/
theorem inPhase (h : Sealed crypto id key w c) {c' : Contents} {p : Nat} {phase : Phase} {act : VaultKey → World}
    (hact : w.processes p = some ⟨key, phase⟩ → Sealed crypto id key (act key) c')
    (hidle : w.processes p ≠ some ⟨key, phase⟩ → c' = c) : Sealed crypto id key (w.inPhase p phase act) c' := by
  unfold World.inPhase
  cases hp : w.processes p with
  | none =>
    rw [hidle (by simp [hp])]
    exact h
  | some process =>
    obtain ⟨key', phase'⟩ := process
    obtain rfl : key' = key := h.keys p _ hp
    dsimp only
    split
    next hphase =>
      subst hphase
      exact hact hp
    next hphase =>
      rw [hidle fun heq => hphase (by simpa [hp] using heq)]
      exact h

theorem isReady_of_idle (h : Sealed crypto id key w c) {p : Nat} (hidle : w.processes p ≠ some ⟨key, .ready⟩) :
    w.isReady p = false := by
  unfold World.isReady
  cases hp : w.processes p with
  | none => rfl
  | some process =>
    obtain ⟨key', phase⟩ := process
    obtain rfl : key' = key := h.keys p _ hp
    simp only [Option.any_some, beq_eq_false_iff_ne, ne_eq]
    intro hready
    exact hidle (by rw [hp, hready])

/-- A file whose rows changed, and nothing else. -/
theorem rewrite (h : Sealed crypto id key w c) {entries : Table EntryRow} {c' : Contents}
    (hstores : Stores crypto id key entries c') :
    Sealed crypto id key { w with db := { w.db with entries } } c' :=
  ⟨⟨h.kept.schema, h.kept.verifier, hstores, h.kept.state⟩, h.keys, h.clean⟩

/-- **Every turn keeps the file sealed**, and the rows in step with the contents. -/
theorem step (hc : crypto.Lawful) (h : Sealed crypto id key w c) (turn : Turn) :
    Sealed crypto id key (w.step crypto id turn) (c.step w turn) := by
  cases turn with
  | «open» p masterKey draw =>
    simp only [World.step, Contents.step]
    split
    next needsScrub db hfree hopen =>
      obtain ⟨hkey, hdb, hv1⟩ := h.kept.migrate_ok hc hopen
      subst hdb
      rw [hkey]
      refine h.enter p fun hphase => h.clean (.inl (hv1 ?_))
      cases needsScrub with
      | false => rfl
      | true => exact absurd rfl hphase
    next => exact h
  | scrub p busy =>
    unfold World.step
    refine h.inPhase (fun hp => ?_) fun _ => rfl
    cases busy with
    | true => exact h.leave p
    | false =>
      have hscrubbed : Sealed crypto id key { w with db := { w.db with residue := [] } } c :=
        ⟨⟨h.kept.schema, h.kept.verifier, h.kept.stores, h.kept.state⟩, h.keys, fun _ => rfl⟩
      exact hscrubbed.enter p fun _ => rfl
  | mark p =>
    unfold World.step
    refine h.inPhase (fun hp => ?_) fun _ => rfl
    have hresidue := h.clean (.inr ⟨p, _, hp, nofun⟩)
    have hmarked : Sealed crypto id key { w with db := w.db.setMetadata (metadataKey id) stateV1 } c := by
      refine ⟨⟨h.kept.schema, ?_, h.kept.stores, .inl ?_⟩, h.keys, fun _ => hresidue⟩
      · obtain ⟨iv, hverifier⟩ := h.kept.verifier
        exact ⟨iv, by simp [VaultDb.setMetadata, Function.update_of_ne (verifierKey_ne id), hverifier]⟩
      · simp [VaultDb.state, VaultDb.setMetadata]
    exact hmarked.enter p fun _ => hresidue
  | truncate p busy =>
    unfold World.step
    refine h.inPhase (fun hp => ?_) fun _ => rfl
    cases busy with
    | true => exact h.leave p
    | false => exact h.enter p fun _ => h.clean (.inr ⟨p, _, hp, nofun⟩)
  | set p name value iv now =>
    unfold World.step
    refine h.inPhase (fun hp => ?_) fun hidle => ?_
    · have hready : w.isReady p = true := by simp [World.isReady, hp]
      simp only [Contents.step, hready, if_true, Contents.write]
      unfold Chassis.set
      cases hname : normalizeVaultKey name with
      | error e => exact h
      | ok safeKey => exact h.rewrite (h.kept.stores.upsert rfl (normalizeVaultKey_normal hname) rfl)
    · simp [Contents.step, h.isReady_of_idle hidle]
  | delete p name =>
    unfold World.step
    refine h.inPhase (fun hp => ?_) fun hidle => ?_
    · have hready : w.isReady p = true := by simp [World.isReady, hp]
      simp only [Contents.step, hready, if_true, Contents.write]
      unfold Chassis.delete
      cases hname : normalizeVaultKey name with
      | error e => exact h
      | ok safeKey => exact h.rewrite (h.kept.stores.delete safeKey)
    · simp [Contents.step, h.isReady_of_idle hidle]
  | stop p => exact h.leave p

theorem run (hc : crypto.Lawful) (turns : List Turn) (h : Sealed crypto id key w c) :
    Sealed crypto id key (w.run crypto id turns) (c.run crypto id w turns) := by
  induction turns generalizing w c with
  | nil => exact h
  | cons turn turns ih => exact ih (h.step hc turn)

end Sealed

variable (crypto) in
/-- Until an open commits, nothing happens; the first that does seals the file. -/
theorem Fresh.step {w : World} {c : Contents} (h : Fresh id w c) (turn : Turn) :
    Fresh id (w.step crypto id turn) (c.step w turn) ∨
      ∃ key, Sealed crypto id key (w.step crypto id turn) (c.step w turn) := by
  have hidle : ∀ p phase act, w.inPhase p phase act = w := fun p phase act => by
    rw [World.inPhase, h.processes p]
  have hready : ∀ p, w.isReady p = false := fun p => by rw [World.isReady, h.processes p]; rfl
  cases turn with
  | «open» p masterKey draw =>
    simp only [World.step, Contents.step]
    split
    next needsScrub db hfree hopen =>
      obtain ⟨hkept, rfl, hpending⟩ := migrate_fresh h.state hopen
      refine .inr ⟨deriveTenantVaultKey crypto masterKey id, ?_⟩
      have hdb : Sealed crypto id (deriveTenantVaultKey crypto masterKey id) { w with db } c := by
        refine ⟨h.contents ▸ hkept, fun q process hq => ?_, fun hclean => ?_⟩
        · rw [h.processes q] at hq
          cases hq
        · rcases hclean with hstate | ⟨q, process, hq, -⟩
          · rw [hpending, Option.some.injEq] at hstate
            exact absurd hstate.symm stateV1_ne
          · rw [h.processes q] at hq
            cases hq
      exact hdb.enter p fun hphase => absurd rfl hphase
    next => exact .inl h
  | stop p =>
    refine .inl ⟨h.state, fun q => ?_, h.contents⟩
    simp only [World.step, World.leave, Function.update_apply, h.processes q, ite_self]
  | scrub p busy =>
    rw [World.step, hidle]
    exact .inl h
  | mark p =>
    rw [World.step, hidle]
    exact .inl h
  | truncate p busy =>
    rw [World.step, hidle]
    exact .inl h
  | set p name value iv now =>
    rw [World.step, hidle, Contents.step, hready]
    exact .inl h
  | delete p name =>
    rw [World.step, hidle, Contents.step, hready]
    exact .inl h

theorem Fresh.run (hc : crypto.Lawful) {w : World} {c : Contents} (h : Fresh id w c) (turns : List Turn) :
    Fresh id (w.run crypto id turns) (c.run crypto id w turns) ∨
      ∃ key, Sealed crypto id key (w.run crypto id turns) (c.run crypto id w turns) := by
  induction turns generalizing w c with
  | nil => exact .inl h
  | cons turn turns ih =>
    rcases h.step crypto turn with hfresh | ⟨key, hsealed⟩
    · exact ih hfresh
    · exact .inr ⟨key, hsealed.run hc turns⟩

/-! ## What a process may rely on -/

def alpha : VaultId := ⟨"tenant_alpha".toList, "vault.sqlite".toList⟩

/-- A file of the old version with two entries, one that looks like an envelope. -/
def legacyFile : VaultDb where
  schema := .legacy
  entries := ⟨[⟨alpha.tenantId, "github".toList, "legacy-secret".toList, 1, 1⟩,
    ⟨alpha.tenantId, "prefix".toList, vaultEnvelopePrefix, 1, 1⟩], by decide⟩
  metadata _ := none
  residue := ["older-secret".toList]

/-- The first process ends behind its COMMIT, the second goes on from there. -/
def interruptedOpen (key : VaultKey) : List Turn :=
  [.open 0 key fun _ => zeroIv, .stop 0, .open 1 key fun _ => zeroIv, .scrub 1 false, .mark 1,
    .truncate 1 false, .set 1 " gitlab ".toList "token".toList zeroIv 5]

/-- In a run that let some process in, the file is sealed under the key of that process. -/
theorem sealed_of_process (hc : crypto.Lawful) {db : VaultDb} (hstate : db.state id = none) {turns : List Turn} {p : Nat}
    {process : Process} (hp : ((World.start db).run crypto id turns).processes p = some process) :
    Sealed crypto id process.key ((World.start db).run crypto id turns)
      (db.contents.run crypto id (World.start db) turns) := by
  have hfresh : Fresh id (World.start db) db.contents := ⟨hstate, fun _ => rfl, rfl⟩
  rcases hfresh.run hc turns with hfresh | ⟨key, hsealed⟩
  · rw [hfresh.processes p] at hp
    cases hp
  · rw [hsealed.keys p process hp]
    exact hsealed

theorem run_append (w : World) (turns later : List Turn) :
    w.run crypto id (turns ++ later) = (w.run crypto id turns).run crypto id later :=
  List.foldl_append

/-- **A handle reads what was written**: the values that the old file held, changed by the writes since. -/
theorem reads_contents (hc : crypto.Lawful) {db : VaultDb} (hstate : db.state id = none) (turns : List Turn) {p : Nat}
    {process : Process} (hp : ((World.start db).run crypto id turns).processes p = some process) :
    (∀ name, get crypto id process.key ((World.start db).run crypto id turns).db name =
      (normalizeVaultKey name).map (db.contents.run crypto id (World.start db) turns)) ∧
    ∀ k, k ∈ listKeys id ((World.start db).run crypto id turns).db ↔
      db.contents.run crypto id (World.start db) turns k ≠ none := by
  have hstores := (sealed_of_process hc hstate hp).kept.stores
  exact ⟨hstores.get hc, hstores.mem_listKeys⟩

theorem interruptedOpen_ready :
    ((World.start legacyFile).run labelled alpha (interruptedOpen (keyOf 7))).processes 1 = some ⟨keyOf 7, .ready⟩ := by
  decide +kernel

theorem interrupted_reads :
    get labelled alpha (keyOf 7) ((World.start legacyFile).run labelled alpha (interruptedOpen (keyOf 7))).db "prefix".toList =
      .ok (some vaultEnvelopePrefix) := by
  refine ((reads_contents labelled_lawful rfl (interruptedOpen (keyOf 7)) interruptedOpen_ready).1 _).trans ?_
  decide +kernel

/-- **The master key of the first migration stays the only one.** -/
theorem other_master_refused (hc : crypto.Lawful) {db : VaultDb} (hstate : db.state id = none) (turns later : List Turn)
    {p : Nat} {process : Process} (hp : ((World.start db).run crypto id turns).processes p = some process)
    {masterKey masterKey' : VaultKey} (hkey : process.key = deriveTenantVaultKey crypto masterKey id)
    (hne : masterKey' ≠ masterKey) (q : Nat) (draw : Nat → Iv) :
    migrate crypto id (deriveTenantVaultKey crypto masterKey' id) draw
        ((World.start db).run crypto id (turns ++ later)).db =
      .error "tenant vault entry could not be decrypted".toList ∧
    ((World.start db).run crypto id (turns ++ later)).step crypto id (.open q masterKey' draw) =
      (World.start db).run crypto id (turns ++ later) := by
  have hsealed := (sealed_of_process hc hstate hp).run hc later
  rw [hkey, ← run_append] at hsealed
  have hrefused := hsealed.kept.migrate_other hc (deriveTenantVaultKey_ne hc hne id) draw
  refine ⟨hrefused, ?_⟩
  simp only [World.step]
  split
  next hopen =>
    rw [hrefused] at hopen
    cases hopen
  next => rfl

theorem second_master_refused :
    ((World.start legacyFile).run labelled alpha (interruptedOpen (keyOf 7) ++ [.stop 1])).step labelled alpha
        (.open 2 (keyOf 8) fun _ => zeroIv) =
      (World.start legacyFile).run labelled alpha (interruptedOpen (keyOf 7) ++ [.stop 1]) := by
  have hkey : (⟨keyOf 7, .ready⟩ : Process).key = deriveTenantVaultKey labelled (keyOf 7) alpha := rfl
  exact (other_master_refused labelled_lawful rfl (interruptedOpen (keyOf 7)) [.stop 1] interruptedOpen_ready hkey
    (fun h => absurd (congrArg VaultKey.bytes h) (by decide)) 2 fun _ => zeroIv).2

/-- A turn leaves no new plaintext behind. -/
theorem Sealed.residue_step (hc : crypto.Lawful) {w : World} {c : Contents} (h : Sealed crypto id key w c)
    (hclean : w.db.residue = []) (turn : Turn) : (w.step crypto id turn).db.residue = [] := by
  have hphase : ∀ p phase act, (∀ key, (act key).db.residue = []) → (w.inPhase p phase act).db.residue = [] := by
    intro p phase act hact
    unfold World.inPhase
    split
    · split
      · exact hact _
      · exact hclean
    · exact hclean
  cases turn with
  | «open» p masterKey draw =>
    simp only [World.step]
    split
    next needsScrub db hfree hopen =>
      obtain ⟨-, rfl, -⟩ := h.kept.migrate_ok hc hopen
      exact hclean
    next => exact hclean
  | scrub p busy =>
    refine hphase p _ _ fun key => ?_
    cases busy with
    | true => exact hclean
    | false => rfl
  | mark p => exact hphase p _ _ fun key => hclean
  | truncate p busy =>
    refine hphase p _ _ fun key => ?_
    cases busy <;> exact hclean
  | set p name value iv now =>
    refine hphase p _ _ fun key => ?_
    unfold Chassis.set
    cases normalizeVaultKey name <;> exact hclean
  | delete p name =>
    refine hphase p _ _ fun key => ?_
    unfold Chassis.delete
    cases normalizeVaultKey name <;> exact hclean
  | stop p => exact hclean

theorem Sealed.residue_run (hc : crypto.Lawful) {w : World} {c : Contents} (h : Sealed crypto id key w c)
    (hclean : w.db.residue = []) (turns : List Turn) : (w.run crypto id turns).db.residue = [] := by
  induction turns generalizing w c with
  | nil => exact hclean
  | cons turn turns ih => exact ih (h.step hc turn) (h.residue_step hc hclean turn)

/-- **Once a constructor has returned, the file shows no plaintext any more.** -/
theorem no_plaintext_left (hc : crypto.Lawful) {db : VaultDb} (hstate : db.state id = none) (turns later : List Turn)
    {p : Nat} {process : Process} (hp : ((World.start db).run crypto id turns).processes p = some process)
    (hready : process.phase = .ready) :
    ((World.start db).run crypto id (turns ++ later)).db.residue = [] ∧
    ∀ row ∈ ((World.start db).run crypto id (turns ++ later)).db.entries.rows,
      startsWith row.value vaultEnvelopePrefix = true := by
  have hsealed := sealed_of_process hc hstate hp
  have hclean := hsealed.clean (.inr ⟨p, process, hp, by rw [hready]; nofun⟩)
  rw [run_append]
  refine ⟨hsealed.residue_run hc hclean later, fun row hrow => ?_⟩
  obtain ⟨value, iv, -, henvelope⟩ := (hsealed.run hc later).kept.stores.value row hrow
  rw [henvelope]
  exact startsWith_envelope value _ _ iv

theorem interrupted_leaves_none :
    ((World.start legacyFile).run labelled alpha (interruptedOpen (keyOf 7) ++ [.stop 1])).db.residue = [] :=
  (no_plaintext_left labelled_lawful rfl (interruptedOpen (keyOf 7)) [.stop 1] interruptedOpen_ready rfl).1

end Zenod.Chassis
