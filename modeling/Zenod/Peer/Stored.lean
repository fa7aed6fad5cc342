/-
What an artifact holds once it has been written, and what is read of it.

`Tree.writeFiles_spec`: each file is found at its place, with its bytes.
`get_of_kept` and `download_of_kept`: the artifact of a put is found by the
put's reference, and its download is the files given.
-/
import Zenod.Peer.Address
import Zenod.Peer.Store

namespace Zenod.Peer

open Text Bytes PEER_SKILL_LIMITS

/-! ## Trees -/

/-- The bytes of the files of a tree. -/
def Tree.bytes (tree : Tree) : Nat := (tree.rows.map fun node => (node.content.getD []).length).sum

/-- The bytes of the stored files. -/
def Artifacts.bytes (artifacts : Artifacts) : Nat := (artifacts.rows.map (·.tree.bytes)).sum

/-- What stands in a tree stands in the other. -/
def Tree.Within (tree tree' : Tree) : Prop := ∀ path node, tree.node? path = some node → tree'.node? path = some node

namespace Tree

variable {tree tree' tree'' : Tree} {row : TreeNode} {path : List Text} {bytes : Octets}

theorem Within.refl (tree : Tree) : tree.Within tree := fun _ _ h => h

theorem Within.trans (h : tree.Within tree') (h' : tree'.Within tree'') : tree.Within tree'' :=
  fun path node hnode => h' path node (h path node hnode)

theorem insert_spec (h : tree.insert? row = some tree') :
    tree.Within tree' ∧ tree'.node? row.path = some row ∧ tree'.bytes = tree.bytes + (row.content.getD []).length := by
  obtain ⟨hfresh, hrows⟩ := Table.insert?_eq_some.1 h
  refine ⟨fun path node hnode => ?_, ?_, ?_⟩
  · have hnode : tree.rows.find? (·.path == path) = some node := hnode
    simp only [node?, hrows, List.find?_append, hnode, Option.some_or]
  · have hnone : tree.rows.find? (·.path == row.path) = none := by
      refine List.find?_eq_none.2 fun node hnode hsame => ?_
      have hclash : (node.path == row.path) = false := hfresh node hnode
      rw [hsame] at hclash
      cases hclash
    simp only [node?, hrows, List.find?_append, hnone, Option.none_or, List.find?_cons, beq_self_eq_true]
  · simp only [Tree.bytes, hrows, List.map_append, List.sum_append, List.map_cons, List.map_nil, List.sum_singleton]

theorem enter_spec (h : tree.enter path = some tree') : tree.Within tree' ∧ tree'.bytes = tree.bytes := by
  unfold enter at h
  split at h
  next =>
    obtain ⟨hwithin, -, hbytes⟩ := insert_spec h
    exact ⟨hwithin, hbytes⟩
  next node hnode =>
    split at h
    next =>
      cases h
      exact ⟨.refl _, rfl⟩
    next => cases h

theorem enterAll_spec {paths : List (List Text)} (h : paths.foldlM Tree.enter tree = some tree') :
    tree.Within tree' ∧ tree'.bytes = tree.bytes := by
  induction paths generalizing tree with
  | nil =>
    cases h
    exact ⟨.refl _, rfl⟩
  | cons path paths ih =>
    rw [List.foldlM_cons] at h
    obtain ⟨mid, hmid, h⟩ := Option.bind_eq_some_iff.1 h
    obtain ⟨hwithin, hbytes⟩ := enter_spec hmid
    obtain ⟨hwithin', hbytes'⟩ := ih h
    exact ⟨hwithin.trans hwithin', hbytes'.trans hbytes⟩

theorem write_spec (h : tree.write path bytes = some tree') :
    tree.Within tree' ∧ tree'.node? path = some { path := path, content := some bytes } ∧
      tree'.bytes = tree.bytes + bytes.length := by
  obtain ⟨mid, hmid, h⟩ := Option.bind_eq_some_iff.1 h
  obtain ⟨hwithin, hbytes⟩ := enterAll_spec hmid
  obtain ⟨hwithin', hnode, hbytes'⟩ := insert_spec h
  exact ⟨hwithin.trans hwithin', hnode, by rw [hbytes', hbytes]; rfl⟩

/-- **Each file is found at its place**, and the tree has grown by the files' bytes. -/
theorem writeFiles_spec {files : List PreparedFile} (h : tree.writeFiles files = some tree') :
    tree.Within tree' ∧
      (∀ file ∈ files, tree'.node? (targetOf file.path) = some { path := targetOf file.path, content := some file.bytes }) ∧
      tree'.bytes = tree.bytes + (files.map (·.bytes.length)).sum := by
  induction files generalizing tree with
  | nil =>
    cases h
    exact ⟨.refl _, by simp, rfl⟩
  | cons file files ih =>
    unfold writeFiles at h
    rw [List.foldlM_cons] at h
    obtain ⟨mid, hmid, h⟩ := Option.bind_eq_some_iff.1 h
    obtain ⟨hwithin, hnode, hbytes⟩ := write_spec hmid
    obtain ⟨hwithin', hnodes, hbytes'⟩ := ih h
    refine ⟨hwithin.trans hwithin', List.forall_mem_cons.2 ⟨hwithin' _ _ hnode, hnodes⟩, ?_⟩
    rw [hbytes', hbytes, List.map_cons, List.sum_cons, Nat.add_assoc]

end Tree

/-! ## References -/

theorem digestOf_artifactId (put : PreparedPut) : digestOf put.artifactId = some put.digest := by
  have hdrop : put.artifactId.drop scheme.length = put.digest.val := List.drop_left
  have hstarts : startsWith put.artifactId scheme = true := startsWith_iff.2 (List.prefix_append _ _)
  unfold digestOf
  simp only [hdrop, hstarts, if_true]
  exact dif_pos put.digest.property

theorem artifactId_injective {put put' : PreparedPut} (h : put.artifactId = put'.artifactId) :
    put.digest = put'.digest :=
  Subtype.ext (List.append_cancel_left h)

theorem utf16Length_le (t : Text) : utf16Length t ≤ 2 * t.length := by
  induction t with
  | nil => exact Nat.le_refl _
  | cons c t ih =>
    have hc : units c ≤ 2 := by unfold units; split <;> omega
    rw [utf16Length_cons, List.length_cons]
    omega

theorem default_version (put : PreparedPut) :
    ((put.artifactId.drop scheme.length).take 12).length = 12 := by
  have hdrop : put.artifactId.drop scheme.length = put.digest.val := List.drop_left
  have hlength : put.digest.val.length = 64 := by
    have hhex := put.digest.property
    simp only [isHexDigest, Bool.and_eq_true, beq_iff_eq] at hhex
    exact hhex.1
  rw [hdrop, List.length_take, hlength]
  rfl

theorem versionOf_ne_nil {declared : Option Vault.Value} {version : Option Text} (h : versionOf declared = .ok version) :
    ∀ t ∈ version, t ≠ [] := by
  have hkept : ∀ t : Text, ∀ u ∈ (if trim t = [] then none else some (trim t)), u ≠ [] := by
    intro t u hu
    split at hu
    next => cases hu
    next hne =>
      cases hu
      exact hne
  unfold versionOf at h
  split at h
  next =>
    cases h
    exact fun _ ht => nomatch ht
  next =>
    cases h
    exact hkept _
  next =>
    cases h
    exact hkept _
  next => cases h

theorem parseSkillManifest_version {yaml : PeerYaml} {bytes : Octets} {parsed : SkillManifest}
    (h : parseSkillManifest yaml bytes = .ok parsed) : ∀ t ∈ parsed.version, t ≠ [] := by
  unfold parseSkillManifest at h
  split at h
  next => cases h
  next source _ =>
  split at h
  next => cases h
  next => cases h
  next record _ =>
    unfold readManifest at h
    obtain ⟨-, h⟩ := unless_ok.1 h
    obtain ⟨-, h⟩ := unless_ok.1 h
    obtain ⟨version, hversion, h⟩ := bind_ok.1 h
    cases h
    exact versionOf_ne_nil hversion
  next => cases h

/-! ## Prepared puts -/

variable {lib : Libraries} {inputs inputs' : List PeerSkillFileInput} {put put' : PreparedPut} {artifacts : Artifacts}

/-- What is known of a put that asks for the lock. -/
structure Put (lib : Libraries) (put : PreparedPut) : Prop where
  taken : Taken lib.collation lib.sha256 put.inputs put.files
  digest : put.digest = artifactDigest lib.sha256 put.files
  manifest : ∃ file, put.files.find? (·.path = skillMd) = some file ∧
    parseSkillManifest lib.yaml file.bytes = .ok put.parsed

theorem preparePut_spec (h : preparePut lib inputs = .ok put) : Put lib put ∧ put.inputs = inputs := by
  unfold preparePut at h
  obtain ⟨files, hfiles, h⟩ := bind_ok.1 h
  split at h
  next => cases h
  next file hfile =>
    obtain ⟨parsed, hparsed, h⟩ := bind_ok.1 h
    cases h
    exact ⟨⟨prepareFiles_spec hfiles, rfl, file, hfile, hparsed⟩, rfl⟩

namespace Put

theorem totalBytes_eq (h : Put lib put) : put.totalBytes = (put.files.map (·.bytes.length)).sum := by
  unfold PreparedPut.totalBytes
  congr 1
  refine List.map_congr_left fun file hfile => ?_
  rw [h.taken.proper file hfile]
  rfl

theorem version_ne_nil (h : Put lib put) : put.version ≠ [] := by
  obtain ⟨file, -, hparsed⟩ := h.manifest
  unfold PreparedPut.version versionOfManifest
  cases hversion : put.parsed.version with
  | none =>
    have hlength := default_version put
    intro hnil
    rw [Option.getD_none] at hnil
    rw [hnil] at hlength
    cases hlength
  | some version => exact parseSkillManifest_version hparsed version hversion

/-- Puts of the same files have the same manifest, and so the same reference. -/
theorem ref_eq (h : Put lib put) (h' : Put lib put') (hfiles : put.files = put'.files) :
    put.digest = put'.digest ∧ put.ref = put'.ref := by
  obtain ⟨file, hfile, hparsed⟩ := h.manifest
  obtain ⟨file', hfile', hparsed'⟩ := h'.manifest
  have hdigest : put.digest = put'.digest := by rw [h.digest, hfiles, h'.digest]
  have hsame : put.parsed = put'.parsed := by
    rw [hfiles, hfile'] at hfile
    cases hfile
    rw [hparsed] at hparsed'
    exact Except.ok.inj hparsed'
  refine ⟨hdigest, ?_⟩
  simp only [PreparedPut.ref, PreparedPut.version, PreparedPut.artifactId, hdigest, hsame]

end Put

/-! ## Kept artifacts -/

/-- The artifact is what the put has written. -/
structure Written (put : PreparedPut) (artifact : Artifact) : Prop where
  digest : artifact.digest = put.digest
  metadata : ∃ createdAt, artifact.metadata = put.metadata createdAt
  tree : Tree.fresh.writeFiles put.files = some artifact.tree

variable {artifact : Artifact}

theorem artifact?_of_mem (h : artifact ∈ artifacts.rows) : artifacts.artifact? artifact.digest = some artifact :=
  Table.find?_of_mem (fun _ _ ha hb => beq_iff_eq.2 ((beq_iff_eq.1 ha).trans (beq_iff_eq.1 hb).symm)) h
    (beq_self_eq_true _)

namespace Written

theorem ref (h : Written put artifact) : artifact.metadata.toPeerSkillAttachmentRef = put.ref := by
  obtain ⟨createdAt, hmetadata⟩ := h.metadata
  rw [hmetadata]
  rfl

theorem bytes_eq (h : Written put artifact) (hput : Put lib put) : artifact.tree.bytes = put.totalBytes := by
  obtain ⟨-, -, hbytes⟩ := Tree.writeFiles_spec h.tree
  have hfresh : Tree.fresh.bytes = 0 := rfl
  rw [hbytes, hfresh, hput.totalBytes_eq, Nat.zero_add]

theorem totalBytes_eq (h : Written put artifact) : artifact.metadata.totalBytes = put.totalBytes := by
  obtain ⟨createdAt, hmetadata⟩ := h.metadata
  rw [hmetadata]
  rfl

/-- **An artifact is found by the reference of its put**, if the version is one that `validateRef` takes. -/
theorem get (h : Written put artifact) (hput : Put lib put) (hshort : utf16Length put.version ≤ 100)
    (hmem : artifact ∈ artifacts.rows) : Peer.get artifacts put.ref = .ok artifact.metadata := by
  have hvalid : validateRef put.ref = .ok put.digest := by
    unfold validateRef
    have hdigest : digestOf put.ref.artifactId = some put.digest := digestOf_artifactId put
    rw [hdigest]
    exact if_neg (not_or.2 ⟨hput.version_ne_nil, Nat.not_lt.2 hshort⟩)
  have hfound : artifacts.artifact? put.digest = some artifact := by rw [← h.digest, artifact?_of_mem hmem]
  have hid : artifact.metadata.artifactId = put.ref.artifactId := congrArg (·.artifactId) h.ref
  have hversion : artifact.metadata.version = put.ref.version := congrArg (·.version) h.ref
  refine bind_ok.2 ⟨_, hvalid, ?_⟩
  rw [hfound]
  exact if_neg (not_or.2 ⟨not_not.2 hid, not_not.2 hversion⟩)

/-- A file of the artifact as it is downloaded. -/
theorem downloadFile (h : Written put artifact) (hput : Put lib put) {file : PreparedFile} (hfile : file ∈ put.files) :
    Peer.downloadFile lib artifact.tree file.toPeerSkillFileMetadata =
      .ok { path := file.path, contentBase64 := toBase64Padded file.bytes } := by
  obtain ⟨-, hnodes, -⟩ := Tree.writeFiles_spec h.tree
  have hproper := hput.taken.proper file hfile
  have hsize : file.size = file.bytes.length := by rw [hproper]; rfl
  have hsha : file.sha256 = lib.sha256 file.bytes := by rw [hproper]; rfl
  refine bind_ok.2 ⟨_, hput.taken.safe file hfile, bind_ok.2 ⟨file.bytes, ?_, rfl⟩⟩
  unfold readVerified
  rw [hnodes file hfile]
  exact if_neg (not_or.2 ⟨not_not.2 hsize.symm, not_not.2 hsha.symm⟩)

end Written

theorem mapM_ok {α β ε : Type} {f : α → Except ε β} {g : α → β} {l : List α} (h : ∀ a ∈ l, f a = .ok (g a)) :
    l.mapM f = .ok (l.map g) := by
  induction l with
  | nil => rfl
  | cons a l ih =>
    obtain ⟨ha, hl⟩ := List.forall_mem_cons.1 h
    rw [List.mapM_cons, ha, ih hl]
    rfl

theorem fromBase64_toBase64Padded {bs : Octets} (h : ∀ b ∈ bs, b < 256) : fromBase64 (toBase64Padded bs) = bs := by
  have hswap : ∀ c : Char, base64Value (if c = '-' then '+' else if c = '_' then '/' else c) = base64Value c := by
    intro c
    split
    next hc => rw [hc]; decide
    next =>
    split
    next hc => rw [hc]; decide
    next => rfl
  have hpad : ∀ n, (List.replicate n '=').filterMap base64Value = [] := fun n =>
    List.filterMap_eq_nil_iff.2 fun c hc => by rw [List.eq_of_mem_replicate hc]; decide
  have hread := fromBase64_toBase64 h
  unfold fromBase64 at hread ⊢
  rw [toBase64Padded, List.filterMap_append, hpad, List.append_nil, List.filterMap_map]
  simp only [Function.comp_def, hswap]
  exact hread

/-- The path and the bytes of a downloaded file. -/
def downloaded (file : DownloadedFile) : Text × Octets := (file.path, fromBase64 file.contentBase64)

/-- **The download of an artifact is the files that were given.** -/
theorem Written.download (h : Written put artifact) (hput : Put lib put) (hshort : utf16Length put.version ≤ 100)
    (hmem : artifact ∈ artifacts.rows) :
    ∃ bundle, Peer.download lib artifacts put.ref = .ok bundle ∧
      (bundle.files.map downloaded).Perm (put.inputs.map given) := by
  obtain ⟨createdAt, hmetadata⟩ := h.metadata
  have htree : treeOf artifacts artifact.metadata = artifact.tree := by
    have hdigest : digestOf artifact.metadata.artifactId = some artifact.digest := by
      rw [hmetadata, h.digest]
      exact digestOf_artifactId put
    unfold treeOf
    rw [hdigest, Option.bind_some, artifact?_of_mem hmem]
    rfl
  have hfiles : artifact.metadata.files.mapM (Peer.downloadFile lib (treeOf artifacts artifact.metadata)) =
      .ok (put.files.map fun file => { path := file.path, contentBase64 := toBase64Padded file.bytes }) := by
    have hinventory : artifact.metadata.files = put.files.map (·.toPeerSkillFileMetadata) := by rw [hmetadata]; rfl
    rw [htree, hinventory, List.mapM_map]
    exact mapM_ok fun file hfile => h.downloadFile hput hfile
  refine ⟨_, bind_ok.2 ⟨_, h.get hput hshort hmem, bind_ok.2 ⟨_, hfiles, rfl⟩⟩, ?_⟩
  have hdecoded : (put.files.map fun file => ({ path := file.path, contentBase64 := toBase64Padded file.bytes } :
      DownloadedFile)).map downloaded = put.files.map fun file => (file.path, file.bytes) := by
    rw [List.map_map]
    refine List.map_congr_left fun file hfile => ?_
    show (file.path, fromBase64 (toBase64Padded file.bytes)) = _
    rw [fromBase64_toBase64Padded (hput.taken.lt file hfile)]
  rw [hdecoded]
  exact hput.taken.perm_given

end Zenod.Peer
