/-
The envelope a tenant vault stores a value in (`storage.ts`): a mark, the
initialization vector, the authentication tag and the ciphertext, each in
base64url, with dots between them.

AES-256-GCM and HKDF are Node's; `Crypto` is what the code has of them. What it
relies on is `Crypto.Lawful`: an envelope opens under the key and the
additional data it was made with, and under no other key, and two master keys
derive two keys for a vault.
-/
import Zenod.Lib.Bytes

namespace Zenod.Chassis

open Text Bytes

/-! ## Keys -/

/-- `VAULT_KEY_BYTES` octets. -/
structure VaultKey where
  bytes : List Nat
  length_eq : bytes.length = 32
  octets : ∀ b ∈ bytes, b < 256
deriving DecidableEq

/-- `randomBytes(VAULT_IV_BYTES)`. -/
structure Iv where
  bytes : List Nat
  length_eq : bytes.length = 12
  octets : ∀ b ∈ bytes, b < 256

/-- `createCipheriv` and `createDecipheriv` on whole messages, and `hkdfSync`. -/
structure Crypto where
  /-- The tag and the ciphertext of a plaintext. -/
  encipher : VaultKey → Iv → (aad plaintext : List Nat) → List Nat × List Nat
  /-- The plaintext, unless the tag does not fit. -/
  decipher : VaultKey → (iv aad tag ciphertext : List Nat) → Option (List Nat)
  hkdf : VaultKey → (info : List Nat) → VaultKey

structure Crypto.Lawful (crypto : Crypto) : Prop where
  decipher_encipher : ∀ key iv aad value, crypto.decipher key iv.bytes (utf8 aad)
    (crypto.encipher key iv (utf8 aad) (utf8 value)).1 (crypto.encipher key iv (utf8 aad) (utf8 value)).2 =
      some (utf8 value)
  other : ∀ key key' iv aad aad' value, ¬(key' = key ∧ aad' = aad) → crypto.decipher key' iv.bytes (utf8 aad')
    (crypto.encipher key iv (utf8 aad) (utf8 value)).1 (crypto.encipher key iv (utf8 aad) (utf8 value)).2 = none
  tag_length : ∀ key iv aad value, (crypto.encipher key iv (utf8 aad) (utf8 value)).1.length = 16
  tag_octets : ∀ key iv aad value, ∀ b ∈ (crypto.encipher key iv (utf8 aad) (utf8 value)).1, b < 256
  ciphertext_octets : ∀ key iv aad value, ∀ b ∈ (crypto.encipher key iv (utf8 aad) (utf8 value)).2, b < 256
  hkdf_injective : ∀ master master' info, crypto.hkdf master info = crypto.hkdf master' info → master = master'

/-- The key, the length of the additional data in ones, and that data. -/
def label (key : VaultKey) (aad : List Nat) : List Nat := key.bytes ++ (List.replicate aad.length 1 ++ 0 :: aad)

/-- A cipher that only writes a label in front of the plaintext. -/
def labelled : Crypto where
  encipher key _ aad plaintext := (List.replicate 16 0, label key aad ++ plaintext)
  decipher key _ aad _ ciphertext :=
    if (label key aad).isPrefixOf ciphertext then some (ciphertext.drop (label key aad).length) else none
  hkdf masterKey _ := masterKey

theorem replicate_cons_inj {n m : Nat} {s t : List Nat} (h : List.replicate n 1 ++ 0 :: s = List.replicate m 1 ++ 0 :: t) :
    n = m ∧ s = t := by
  induction n generalizing m with
  | zero =>
    cases m with
    | zero => simpa using h
    | succ m => simp [List.replicate_succ] at h
  | succ n ih =>
    cases m with
    | zero => simp [List.replicate_succ] at h
    | succ m =>
      rw [List.replicate_succ, List.replicate_succ, List.cons_append, List.cons_append, List.cons.injEq] at h
      obtain ⟨hn, hs⟩ := ih h.2
      exact ⟨congrArg (· + 1) hn, hs⟩

/-- A label tells where it ends. -/
theorem label_append_inj {key key' : VaultKey} {aad aad' s t : List Nat} (h : label key aad ++ s = label key' aad' ++ t) :
    key = key' ∧ aad = aad' := by
  simp only [label, List.append_assoc, List.cons_append] at h
  obtain ⟨hkey, hrest⟩ := List.append_inj h (by rw [key.length_eq, key'.length_eq])
  obtain ⟨hlen, haad⟩ := replicate_cons_inj hrest
  refine ⟨?_, (List.append_inj haad hlen).1⟩
  cases key
  cases key'
  congr

theorem utf8_injective {s t : Text} (h : utf8 s = utf8 t) : s = t := by
  rw [← decodeUtf8_utf8 s, h, decodeUtf8_utf8]

theorem labelled_lawful : labelled.Lawful where
  decipher_encipher key iv aad value := by simp [labelled]
  other key key' iv aad aad' value hne := by
    have hprefix : ¬label key' (utf8 aad') <+: label key (utf8 aad) ++ utf8 value := by
      intro ⟨rest, hrest⟩
      obtain ⟨hkey, haad⟩ := label_append_inj hrest
      exact hne ⟨hkey, utf8_injective haad⟩
    simp [labelled, hprefix]
  tag_length key iv aad value := by simp [labelled]
  tag_octets key iv aad value b hb := by
    rw [List.eq_of_mem_replicate hb]
    decide
  ciphertext_octets key iv aad value b hb := by
    have hutf8 := utf8_lt aad b
    have hvalue := utf8_lt value b
    have hkey := key.octets b
    simp only [labelled, label, List.mem_append, List.mem_cons, List.mem_replicate] at hb
    rcases hb with (hb | ⟨-, rfl⟩ | rfl | hb) | hb
    · exact hkey hb
    · decide
    · decide
    · exact hutf8 hb
    · exact hvalue hb
  hkdf_injective master master' info h := h

/-- A key of one octet, over and over. -/
def keyOf (b : Fin 256) : VaultKey :=
  ⟨List.replicate 32 b.val, List.length_replicate, fun c hc => by rw [List.eq_of_mem_replicate hc]; exact b.isLt⟩

def zeroIv : Iv := ⟨List.replicate 12 0, List.length_replicate, fun c hc => by rw [List.eq_of_mem_replicate hc]; decide⟩

variable (crypto : Crypto)

/-- The tenant and the name of a vault in its data directory. -/
structure VaultId where
  tenantId : Text
  vaultName : Text
deriving DecidableEq

/-- `${tenantId}\0${vaultIdentity}`. -/
def deriveTenantVaultKey (masterKey : VaultKey) (id : VaultId) : VaultKey :=
  crypto.hkdf masterKey (utf8 (id.tenantId ++ [Char.ofNat 0] ++ id.vaultName))

/-- `${tenantId}\0${vaultName}\0${key}`, of which the octets are used. -/
def vaultAad (id : VaultId) (key : Text) : Text :=
  id.tenantId ++ [Char.ofNat 0] ++ id.vaultName ++ [Char.ofNat 0] ++ key

/-! ## Envelopes -/

def vaultEnvelopePrefix : Text := "mcp-chassis-vault:v1:".toList

def encryptVaultValue (value : Text) (key : VaultKey) (aad : Text) (iv : Iv) : Text :=
  let sealed := crypto.encipher key iv (utf8 aad) (utf8 value)
  vaultEnvelopePrefix ++ toBase64 iv.bytes ++ ['.'] ++ toBase64 sealed.1 ++ ['.'] ++ toBase64 sealed.2

def decryptVaultValue (value : Text) (key : VaultKey) (aad : Text) : Except Text Text :=
  if startsWith value vaultEnvelopePrefix = false then .error "tenant vault contains an unencrypted value".toList
  else match (value.drop vaultEnvelopePrefix.length).splitOn '.' with
    | [encodedIv, encodedTag, encodedCiphertext] =>
      if encodedIv = [] ∨ encodedTag = [] then .error "tenant vault entry is malformed".toList
      else
      let iv := fromBase64 encodedIv
      let authTag := fromBase64 encodedTag
      if iv.length ≠ 12 ∨ authTag.length ≠ 16 then .error "tenant vault entry is malformed".toList
      else match crypto.decipher key iv (utf8 aad) authTag (fromBase64 encodedCiphertext) with
        | some plaintext => .ok (decodeUtf8 plaintext)
        | none => .error "tenant vault entry could not be decrypted".toList
    | _ => .error "tenant vault entry is malformed".toList

def tryDecryptVaultValue (value : Text) (key : VaultKey) (aad : Text) : Option Text :=
  match decryptVaultValue crypto value key aad with
  | .ok plaintext => some plaintext
  | .error _ => none

variable {crypto}

theorem startsWith_envelope (value : Text) (key : VaultKey) (aad : Text) (iv : Iv) :
    startsWith (encryptVaultValue crypto value key aad iv) vaultEnvelopePrefix = true := by
  simp [startsWith, encryptVaultValue, List.append_assoc]

/-- What an envelope holds between its dots. -/
theorem envelope_fields (h : crypto.Lawful) (value : Text) (key : VaultKey) (aad : Text) (iv : Iv) :
    ((encryptVaultValue crypto value key aad iv).drop vaultEnvelopePrefix.length).splitOn '.' =
      [toBase64 iv.bytes, toBase64 (crypto.encipher key iv (utf8 aad) (utf8 value)).1,
        toBase64 (crypto.encipher key iv (utf8 aad) (utf8 value)).2] := by
  have hiv := dot_not_mem_toBase64 iv.octets
  have htag := dot_not_mem_toBase64 (h.tag_octets key iv aad value)
  have htext := dot_not_mem_toBase64 (h.ciphertext_octets key iv aad value)
  simp only [encryptVaultValue, List.append_assoc, List.drop_left, List.cons_append, List.nil_append]
  rw [List.splitOn_append_cons_self, List.splitOn_append_cons_self, List.splitOn_eq_singleton hiv,
    List.splitOn_eq_singleton htag, List.splitOn_eq_singleton htext]
  rfl

theorem toBase64_ne_nil {bs : List Nat} (hlen : 0 < bs.length) : toBase64 bs ≠ [] := by
  intro hnil
  have := length_toBase64 bs
  rw [hnil, List.length_nil] at this
  omega

/-- Reading an envelope is deciphering what it was made of. -/
theorem decrypt_envelope (h : crypto.Lawful) (value : Text) (key key' : VaultKey) (aad aad' : Text) (iv : Iv) :
    decryptVaultValue crypto (encryptVaultValue crypto value key aad iv) key' aad' =
      match crypto.decipher key' iv.bytes (utf8 aad') (crypto.encipher key iv (utf8 aad) (utf8 value)).1
        (crypto.encipher key iv (utf8 aad) (utf8 value)).2 with
      | some plaintext => .ok (decodeUtf8 plaintext)
      | none => .error "tenant vault entry could not be decrypted".toList := by
  have htag := h.tag_length key iv aad value
  have hlengths : ¬(iv.bytes.length ≠ 12 ∨ (crypto.encipher key iv (utf8 aad) (utf8 value)).1.length ≠ 16) := by
    simp [iv.length_eq, htag]
  have hfull : ¬(toBase64 iv.bytes = [] ∨ toBase64 (crypto.encipher key iv (utf8 aad) (utf8 value)).1 = []) := by
    rw [not_or]
    exact ⟨toBase64_ne_nil (by rw [iv.length_eq]; omega), toBase64_ne_nil (by rw [htag]; omega)⟩
  unfold decryptVaultValue
  rw [startsWith_envelope, if_neg (by simp), envelope_fields h]
  simp only [fromBase64_toBase64 iv.octets, fromBase64_toBase64 (h.tag_octets key iv aad value),
    fromBase64_toBase64 (h.ciphertext_octets key iv aad value), if_neg hfull, if_neg hlengths]

/-- **What was encrypted is decrypted.** -/
theorem decrypt_encrypt (h : crypto.Lawful) (value : Text) (key : VaultKey) (aad : Text) (iv : Iv) :
    decryptVaultValue crypto (encryptVaultValue crypto value key aad iv) key aad = .ok value := by
  rw [decrypt_envelope h, h.decipher_encipher]
  simp only [decodeUtf8_utf8]

/-- Another key, or other additional data, opens nothing. -/
theorem decrypt_other (h : crypto.Lawful) (value : Text) {key key' : VaultKey} {aad aad' : Text}
    (hne : ¬(key' = key ∧ aad' = aad)) (iv : Iv) :
    decryptVaultValue crypto (encryptVaultValue crypto value key aad iv) key' aad' =
      .error "tenant vault entry could not be decrypted".toList := by
  rw [decrypt_envelope h, h.other _ _ _ _ _ _ hne]

theorem deriveTenantVaultKey_ne (h : crypto.Lawful) {master master' : VaultKey} (hne : master' ≠ master) (id : VaultId) :
    deriveTenantVaultKey crypto master' id ≠ deriveTenantVaultKey crypto master id :=
  fun heq => hne (h.hkdf_injective _ _ _ heq)

end Zenod.Chassis
