/-
The value ciphers of tenants (`TenantStorageHandle.encryptedValues`): whoever
opens one is bound by the master key, the tenant, the namespace and the name of
the value, all of which the envelope is made with.
-/
import Zenod.Chassis.Rekey

namespace Zenod.Chassis

open Text

/-! ## Names in paths -/

def normalizeTenantId (id : Text) : Except Text Text :=
  let trimmed := trim id
  if tenantIdRe trimmed then .ok trimmed
  else .error ("tenant id must be 1-128 chars of A-Z, a-z, 0-9, _, ., or - and cannot start with " ++
    "punctuation").toList

/-- `PATH_SEGMENT_RE`, the same expression as `TENANT_ID_RE`. -/
def pathSegmentRe : Text → Bool := tenantIdRe

/-- `requested.split(/[\\/]+/)` without what is empty or `.`. -/
def pathParts (requested : Text) : List Text :=
  (requested.splitOnP fun c => c == '\\' || c == '/').filter fun part => part ≠ [] ∧ part ≠ ['.']

/-- The parts of the path below the root of the tenant. -/
def safeTenantPath (requested : Text) : Except Text (List Text) :=
  if startsWith requested ['/'] then .error "tenant storage paths must be relative".toList
  else if (pathParts requested).any fun part => part == "..".toList || !pathSegmentRe part then
    .error "tenant storage path contains an unsafe segment".toList
  else .ok (pathParts requested)

def normalizedTenantPath (requested : Text) : Text := List.intercalate ['/'] (pathParts requested)

/-! ## Ciphers -/

/-- A `TenantValueCipherHandle`. -/
structure ValueCipher where
  id : VaultId
  encryptionKey : VaultKey
deriving DecidableEq

variable (crypto : Crypto)

/-- `forTenant` and `encryptedValues`. -/
def encryptedValues (vaultMasterKey : Option VaultKey) (tenant requested : Text) : Except Text ValueCipher := do
  let tenantId ← normalizeTenantId tenant
  match vaultMasterKey with
  | none =>
    throw "tenant value encryption requires storage.vaultEncryptionKey or CHASSIS_VAULT_MASTER_KEY".toList
  | some masterKey => do
    let _ ← safeTenantPath requested
    let id : VaultId := ⟨tenantId, normalizedTenantPath requested⟩
    pure ⟨id, deriveTenantVaultKey crypto masterKey id⟩

def ValueCipher.encrypt (cipher : ValueCipher) (key value : Text) (iv : Iv) : Except Text Text := do
  let safeKey ← normalizeVaultKey key
  pure (encryptVaultValue crypto value cipher.encryptionKey (vaultAad cipher.id safeKey) iv)

def ValueCipher.decrypt (cipher : ValueCipher) (key encryptedValue : Text) : Except Text Text := do
  let safeKey ← normalizeVaultKey key
  decryptVaultValue crypto encryptedValue cipher.encryptionKey (vaultAad cipher.id safeKey)

variable {crypto}

/-! ## What an envelope is bound to -/

theorem isSegmentChar_nul : isSegmentChar (Char.ofNat 0) = false := by decide

theorem nul_not_mem_segment {t : Text} (h : tenantIdRe t = true) : Char.ofNat 0 ∉ t := by
  intro hmem
  cases t with
  | nil => cases hmem
  | cons c t =>
    simp only [tenantIdRe, Bool.and_eq_true, List.all_eq_true] at h
    rcases List.mem_cons.1 hmem with hc | ht
    · rw [← hc] at h
      exact absurd h.1.1 (by decide)
    · have := h.2 _ ht
      rw [isSegmentChar_nul] at this
      cases this

theorem nul_not_mem_path {requested : Text} {parts : List Text} (h : safeTenantPath requested = .ok parts) :
    Char.ofNat 0 ∉ normalizedTenantPath requested := by
  unfold safeTenantPath at h
  split at h
  · cases h
  · split at h
    · cases h
    · next hsafe =>
      intro hmem
      rcases mem_intercalate hmem with hsep | ⟨part, hpart, hnul⟩
      · exact absurd hsep (by decide)
      · refine nul_not_mem_segment ?_ hnul
        by_contra hre
        refine hsafe (List.any_eq_true.2 ⟨part, hpart, ?_⟩)
        simp only [pathSegmentRe, Bool.eq_false_iff.2 hre, Bool.not_false, Bool.or_true]

theorem append_nul_inj {a b s t : Text} (ha : Char.ofNat 0 ∉ a) (hb : Char.ofNat 0 ∉ b)
    (h : a ++ Char.ofNat 0 :: s = b ++ Char.ofNat 0 :: t) : a = b ∧ s = t := by
  have hsplit := congrArg (List.splitOn (Char.ofNat 0)) h
  rw [List.splitOn_append_cons_self, List.splitOn_append_cons_self, List.splitOn_eq_singleton ha,
    List.splitOn_eq_singleton hb] at hsplit
  obtain rfl : a = b := (List.cons.inj hsplit).1
  exact ⟨rfl, (List.cons.inj (List.append_cancel_left h)).2⟩

/-- The additional data names the tenant, the namespace and the value. -/
theorem vaultAad_inj {id id' : VaultId} {key key' : Text} (htenant : Char.ofNat 0 ∉ id.tenantId)
    (htenant' : Char.ofNat 0 ∉ id'.tenantId) (hname : Char.ofNat 0 ∉ id.vaultName)
    (hname' : Char.ofNat 0 ∉ id'.vaultName) (h : vaultAad id key = vaultAad id' key') : id = id' ∧ key = key' := by
  simp only [vaultAad, List.append_assoc, List.cons_append, List.nil_append] at h
  obtain ⟨htenants, hrest⟩ := append_nul_inj htenant htenant' h
  obtain ⟨hnames, hkeys⟩ := append_nul_inj hname hname' hrest
  cases id
  cases id'
  exact ⟨by congr, hkeys⟩

theorem encryptedValues_ok {vaultMasterKey : Option VaultKey} {tenant requested : Text} {cipher : ValueCipher}
    (h : encryptedValues crypto vaultMasterKey tenant requested = .ok cipher) :
    ∃ masterKey, vaultMasterKey = some masterKey ∧ normalizeTenantId tenant = .ok cipher.id.tenantId ∧
      normalizedTenantPath requested = cipher.id.vaultName ∧
      cipher.encryptionKey = deriveTenantVaultKey crypto masterKey cipher.id ∧
      Char.ofNat 0 ∉ cipher.id.tenantId ∧ Char.ofNat 0 ∉ cipher.id.vaultName := by
  rw [encryptedValues, bind_ok] at h
  obtain ⟨tenantId, htenant, h⟩ := h
  cases vaultMasterKey with
  | none => cases h
  | some masterKey =>
    simp only [bind_ok, pure_ok] at h
    obtain ⟨parts, hparts, rfl⟩ := h
    refine ⟨masterKey, rfl, htenant, rfl, rfl, ?_, nul_not_mem_path hparts⟩
    unfold normalizeTenantId at htenant
    dsimp only at htenant
    split at htenant
    · next hre =>
      injection htenant with htenant
      exact htenant ▸ nul_not_mem_segment hre
    · cases htenant

/-- **An envelope opens for what it was made for, and for nothing else.** -/
theorem decrypt_encrypted_iff (hc : crypto.Lawful) {masterKey masterKey' : VaultKey}
    {tenant tenant' requested requested' key key' value value' sealed : Text} {cipher cipher' : ValueCipher} {iv : Iv}
    (h : encryptedValues crypto (some masterKey) tenant requested = .ok cipher)
    (h' : encryptedValues crypto (some masterKey') tenant' requested' = .ok cipher')
    (hsealed : cipher.encrypt crypto key value iv = .ok sealed) :
    cipher'.decrypt crypto key' sealed = .ok value' ↔
      masterKey' = masterKey ∧ normalizeTenantId tenant' = normalizeTenantId tenant ∧
        normalizedTenantPath requested' = normalizedTenantPath requested ∧
        normalizeVaultKey key' = normalizeVaultKey key ∧ value' = value := by
  obtain ⟨master, hmaster, htenant, hpath, hkey, hnul, hnulPath⟩ := encryptedValues_ok h
  obtain ⟨master', hmaster', htenant', hpath', hkey', hnul', hnulPath'⟩ := encryptedValues_ok h'
  obtain rfl := Option.some.inj hmaster
  obtain rfl := Option.some.inj hmaster'
  simp only [ValueCipher.encrypt, bind_ok, pure_ok] at hsealed
  obtain ⟨safeKey, hsafe, rfl⟩ := hsealed
  rw [ValueCipher.decrypt, bind_ok]
  constructor
  · rintro ⟨safeKey', hsafe', hopen⟩
    by_cases heq : cipher'.encryptionKey = cipher.encryptionKey ∧ vaultAad cipher'.id safeKey' = vaultAad cipher.id safeKey
    · obtain ⟨hid, hname⟩ := vaultAad_inj hnul' hnul hnulPath' hnulPath heq.2
      have hmasters : masterKey' = masterKey := by
        refine hc.hkdf_injective _ _ _ (?_ : deriveTenantVaultKey crypto masterKey' cipher.id = _)
        rw [← hid, ← hkey', heq.1, hkey, hid]
        rfl
      rw [heq.1, heq.2, decrypt_encrypt hc, Except.ok.injEq] at hopen
      exact ⟨hmasters, by rw [htenant', htenant, hid], by rw [hpath', hpath, hid], by rw [hsafe', hsafe, hname],
        hopen.symm⟩
    · rw [decrypt_other hc value heq] at hopen
      cases hopen
  · rintro ⟨rfl, hsameTenant, hsamePath, hsameKey, rfl⟩
    have hid : cipher'.id = cipher.id := by
      rw [htenant', htenant, Except.ok.injEq] at hsameTenant
      rw [hpath', hpath] at hsamePath
      cases hid' : cipher'.id
      cases hid : cipher.id
      rw [hid', hid] at hsameTenant hsamePath
      exact congr (congrArg VaultId.mk hsameTenant) hsamePath
    refine ⟨safeKey, hsameKey.trans hsafe, ?_⟩
    rw [hkey', hid, hkey, decrypt_encrypt hc]

theorem decrypt_of_other_tenant : ValueCipher.decrypt labelled
    ⟨⟨"beta".toList, "settings/keys".toList⟩, keyOf 7⟩ "token".toList (encryptVaultValue labelled "secret".toList
      (keyOf 7) (vaultAad ⟨"alpha".toList, "settings/keys".toList⟩ "token".toList) zeroIv) ≠ .ok "secret".toList := by
  intro hopen
  have halpha : encryptedValues labelled (some (keyOf 7)) " alpha ".toList "settings/keys".toList =
      .ok ⟨⟨"alpha".toList, "settings/keys".toList⟩, keyOf 7⟩ := by decide +kernel
  have hbeta : encryptedValues labelled (some (keyOf 7)) "beta".toList "./settings//keys".toList =
      .ok ⟨⟨"beta".toList, "settings/keys".toList⟩, keyOf 7⟩ := by decide +kernel
  have hsealed : ValueCipher.encrypt labelled ⟨⟨"alpha".toList, "settings/keys".toList⟩, keyOf 7⟩ " token".toList
      "secret".toList zeroIv = .ok (encryptVaultValue labelled "secret".toList (keyOf 7)
        (vaultAad ⟨"alpha".toList, "settings/keys".toList⟩ "token".toList) zeroIv) := by decide +kernel
  have hbound := (decrypt_encrypted_iff labelled_lawful halpha hbeta hsealed).1 hopen
  exact absurd hbound.2.1 (by decide +kernel)

end Zenod.Chassis
