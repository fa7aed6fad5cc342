/-
What a bundle that is taken consists of, and what its digest tells.

`prepareFiles_spec`: the prepared files are the files given, in the order of
the collation. `chunks_injective`: what is hashed tells the prepared files one
by one. `sortFiles_eq_of_perm`: without ties the order in which they are given
is lost.
-/
import Zenod.Peer.Bundle

namespace Zenod.Peer

open Text Bytes PEER_SKILL_LIMITS

/-- The path and the bytes of an input. -/
def given (input : PeerSkillFileInput) : Text × Octets :=
  (input.path.getD [], match input.content with
    | some content => utf8 content
    | none => fromBase64 (input.contentBase64.getD []))

/-! ## Octets -/

theorem base64Value_lt {c : Char} {n : Nat} (h : base64Value c = some n) : n < 64 := by
  unfold base64Value at h
  simp only [] at h
  split at h
  next => cases h; omega
  next =>
  split at h
  next => cases h; omega
  next =>
  split at h
  next => cases h; omega
  next =>
  split at h
  next => cases h; omega
  next =>
  split at h
  next => cases h; omega
  next => cases h

theorem octets_lt {ds : List Nat} (h : ∀ d ∈ ds, d < 64) : ∀ b ∈ octets ds, b < 256 := by
  fun_induction octets ds with
  | case1 p q r s ds ih =>
    simp only [List.forall_mem_cons] at h ⊢
    obtain ⟨hp, hq, hr, hs, hds⟩ := h
    exact ⟨by omega, by omega, by omega, ih hds⟩
  | case2 p q r =>
    simp only [List.forall_mem_cons] at h ⊢
    obtain ⟨hp, hq, hr, hnil⟩ := h
    exact ⟨by omega, by omega, by simp⟩
  | case3 p q =>
    simp only [List.forall_mem_cons] at h ⊢
    obtain ⟨hp, hq, hnil⟩ := h
    exact ⟨by omega, by simp⟩
  | case4 => simp

theorem fromBase64_lt (t : Text) : ∀ b ∈ fromBase64 t, b < 256 := by
  refine octets_lt fun d hd => ?_
  obtain ⟨c, _, hc⟩ := List.mem_filterMap.1 hd
  exact base64Value_lt hc

theorem given_lt (input : PeerSkillFileInput) : ∀ b ∈ (given input).2, b < 256 := by
  unfold given
  simp only []
  split
  next content hcontent => exact utf8_lt content
  next hcontent => exact fromBase64_lt _

/-! ## What is hashed -/

theorem utf8_injective {s t : Text} (h : utf8 s = utf8 t) : s = t := by
  rw [← decodeUtf8_utf8 s, h, decodeUtf8_utf8]

theorem decimal_injective {m n : Nat} (h : decimal m = decimal n) : m = n := by
  have hread := congrArg (fun t : Text => Nat.ofDigitChars 10 t 0) h
  simpa only [decimal, Nat.ofDigitChars_ten_toDigits] using hread

theorem colon_not_mem_decimal (n : Nat) : 0x3a ∉ utf8 (decimal n) := by
  intro h
  obtain ⟨c, hc, hcolon⟩ := List.mem_flatMap.1 h
  have hdigit : c.isDigit = true := Nat.isDigit_of_mem_toDigits (by decide) (by decide) hc
  simp only [Char.isDigit, Bool.and_eq_true, decide_eq_true_eq] at hdigit
  have hlow : c.toNat ≤ 57 := hdigit.2
  have hsmall : utf8Char c = [c.toNat] := if_pos (by omega)
  rw [hsmall, List.mem_singleton] at hcolon
  omega

theorem append_cons_inj {x : Nat} {a b s t : Octets} (ha : x ∉ a) (hb : x ∉ b) (h : a ++ x :: s = b ++ x :: t) :
    a = b ∧ s = t := by
  have hcut : ∀ {l r : Octets}, x ∉ l → (l ++ x :: r).takeWhile (· != x) = l := by
    intro l r hl
    have hbefore : ∀ y ∈ l, (y != x) = true := fun y hy => bne_iff_ne.2 fun he => hl (by rw [← he]; exact hy)
    rw [List.takeWhile_append_of_pos hbefore, List.takeWhile_cons_of_neg (by simp), List.append_nil]
  have hab : a = b := by rw [← hcut ha, h, hcut hb]
  rw [hab] at h
  exact ⟨hab, (List.cons.inj (List.append_cancel_left h)).2⟩

/-- A number, a colon, and as many octets as it says. -/
theorem counted_append_inj {m n : Nat} {s t : Octets}
    (h : utf8 (decimal m) ++ 0x3a :: s = utf8 (decimal n) ++ 0x3a :: t) : m = n ∧ s = t := by
  obtain ⟨hcount, hrest⟩ :=
    append_cons_inj (colon_not_mem_decimal m) (colon_not_mem_decimal n) h
  exact ⟨decimal_injective (utf8_injective hcount), hrest⟩

variable {collation : Collation} {sha256 : Octets → Digest}

/-- A prepared file is made of its path and its bytes. -/
def Proper (sha256 : Octets → Digest) (file : PreparedFile) : Prop := file = preparedFile sha256 file.path file.bytes

theorem chunk_eq (path : Text) (bytes s : Octets) :
    chunk (preparedFile sha256 path bytes) ++ s =
      utf8 (decimal (utf8 path).length) ++ 0x3a :: (utf8 path ++ 0x3a :: (utf8 (decimal bytes.length) ++
        0x3a :: (bytes ++ s))) := by
  have hcolon : utf8 ":".toList = [0x3a] := by decide
  simp only [chunk, preparedFile, hcolon, List.append_assoc, List.cons_append, List.nil_append]

theorem chunk_append_inj {path path' : Text} {bytes bytes' s t : Octets}
    (h : chunk (preparedFile sha256 path bytes) ++ s = chunk (preparedFile sha256 path' bytes') ++ t) :
    path = path' ∧ bytes = bytes' ∧ s = t := by
  rw [chunk_eq, chunk_eq] at h
  obtain ⟨hlength, h⟩ := counted_append_inj h
  obtain ⟨hpath, h⟩ := List.append_inj h hlength
  obtain ⟨hsize, h⟩ := counted_append_inj (List.cons.inj h).2
  obtain ⟨hbytes, hrest⟩ := List.append_inj h hsize
  exact ⟨utf8_injective hpath, hbytes, hrest⟩

theorem chunk_ne_nil (file : PreparedFile) : chunk file ≠ [] := by
  have hcolon : utf8 ":".toList ≠ [] := by decide
  intro h
  simp only [chunk, List.append_eq_nil_iff] at h
  exact hcolon h.1.2

/-- **What is hashed tells the files**, one by one and in their order. -/
theorem chunks_injective {l m : List PreparedFile} (hl : ∀ file ∈ l, Proper sha256 file)
    (hm : ∀ file ∈ m, Proper sha256 file) (h : l.flatMap chunk = m.flatMap chunk) : l = m := by
  induction l generalizing m with
  | nil =>
    cases m with
    | nil => rfl
    | cons g m => exact absurd (List.append_eq_nil_iff.1 h.symm).1 (chunk_ne_nil g)
  | cons f l ih =>
    cases m with
    | nil => exact absurd (List.append_eq_nil_iff.1 h).1 (chunk_ne_nil f)
    | cons g m =>
      simp only [List.forall_mem_cons] at hl hm
      rw [List.flatMap_cons, List.flatMap_cons, hl.1, hm.1] at h
      obtain ⟨hpath, hbytes, hrest⟩ := chunk_append_inj h
      have hhead : f = g := by rw [hl.1, hm.1, hpath, hbytes]
      rw [hhead, ih hl.2 hm.2 hrest]

/-! ## The order of the files -/

theorem perm_sortFiles (files : List PreparedFile) : (sortFiles collation files).Perm files :=
  List.perm_insertionSort _ files

theorem sorted_sortFiles (files : List PreparedFile) :
    (sortFiles collation files).Pairwise fun f g => collation.le f.path g.path = true := by
  have : Std.Total fun f g : PreparedFile => collation.le f.path g.path = true :=
    ⟨fun f g => Bool.or_eq_true_iff.1 (collation.total f.path g.path)⟩
  have : IsTrans PreparedFile fun f g => collation.le f.path g.path = true :=
    ⟨fun f g k => collation.trans f.path g.path k.path⟩
  exact List.pairwise_insertionSort _ files

/-- **Files of which no two collate equal have one order.** -/
theorem sortFiles_eq_of_perm {l m : List PreparedFile} (h : l.Perm m)
    (hties : l.Pairwise fun f g => collation.tied f.path g.path = false) :
    sortFiles collation l = sortFiles collation m := by
  refine List.Perm.eq_of_pairwise ?_ (sorted_sortFiles l) (sorted_sortFiles m)
    ((perm_sortFiles l).trans (h.trans (perm_sortFiles m).symm))
  intro f g hf hg hfg hgf
  have hf : f ∈ l := (perm_sortFiles l).mem_iff.1 hf
  have hg : g ∈ l := h.mem_iff.2 ((perm_sortFiles m).mem_iff.1 hg)
  by_contra hne
  have : Std.Symm fun f g : PreparedFile => collation.tied f.path g.path = false := ⟨fun f g h => by
    show (collation.le g.path f.path && collation.le f.path g.path) = false
    rw [Bool.and_comm]
    exact h⟩
  have htied : (collation.le f.path g.path && collation.le g.path f.path) = false := hties.forall hf hg hne
  rw [hfg, hgf] at htied
  cases htied

/-! ## What is taken -/

theorem safeRelativePath_ok {value : Option Text} {path : Text} (h : safeRelativePath value = .ok path) :
    value = some path := by
  unfold safeRelativePath at h
  split at h
  next => cases h
  next value =>
  split at h
  next => cases h
  next =>
  split at h
  next => cases h
  next =>
  simp only [] at h
  split at h
  next => cases h
  next hsafe =>
    cases h
    exact congrArg some (Eq.symm (by simpa using fun hne => hsafe (Or.inl hne)))

theorem decodeFile_ok {input : PeerSkillFileInput} {bytes : Octets} (h : decodeFile input = .ok bytes) :
    bytes = (given input).2 := by
  unfold decodeFile at h
  split at h
  next => cases h
  next =>
  split at h
  next content hcontent _ =>
    cases h
    simp only [given, hcontent]
  next encoded hcontent hencoded =>
    split at h
    next =>
      cases h
      simp only [given, hcontent, hencoded, Option.getD_some]
    next => cases h
  next => cases h

/-- What is known of files that are prepared behind others. -/
structure Prepared (sha256 : Octets → Digest) (seen : List Text) (total : Nat) (inputs : List PeerSkillFileInput)
    (files : List PreparedFile) : Prop where
  files_eq : files = inputs.map fun input => preparedFile sha256 (given input).1 (given input).2
  safe : ∀ file ∈ files, safeRelativePath (some file.path) = .ok file.path
  nodup : (files.map (·.path)).Nodup
  fresh : ∀ file ∈ files, file.path ∉ seen
  small : ∀ file ∈ files, file.bytes.length ≤ maxFileBytes
  bounded : total + (files.map (·.bytes.length)).sum ≤ maxBundleBytes

theorem prepareEach_spec {seen : List Text} {total : Nat} {inputs : List PeerSkillFileInput} {files : List PreparedFile}
    (htotal : total ≤ maxBundleBytes) (h : prepareEach sha256 seen total inputs = .ok files) :
    Prepared sha256 seen total inputs files := by
  induction inputs generalizing seen total files with
  | nil =>
    cases h
    exact ⟨rfl, by simp, List.nodup_nil, by simp, by simp, htotal⟩
  | cons input inputs ih =>
    rw [prepareEach] at h
    obtain ⟨path, hpath, h⟩ := bind_ok.1 h
    obtain ⟨hseen, h⟩ := unless_ok.1 h
    obtain ⟨bytes, hbytes, h⟩ := bind_ok.1 h
    obtain ⟨hsmall, h⟩ := unless_ok.1 h
    obtain ⟨hbounded, h⟩ := unless_ok.1 h
    obtain ⟨rest, hrest, h⟩ := bind_ok.1 h
    cases h
    have hin := safeRelativePath_ok hpath
    have hrest := ih (by omega) hrest
    have hgiven : given input = (path, bytes) := by
      rw [decodeFile_ok hbytes, given, hin]
      rfl
    refine ⟨?_, ?_, ?_, ?_, ?_, ?_⟩
    · rw [List.map_cons, hgiven, ← hrest.files_eq]
    · refine List.forall_mem_cons.2 ⟨?_, hrest.safe⟩
      show safeRelativePath (some path) = .ok path
      rw [← hin, hpath]
    · refine List.nodup_cons.2 ⟨fun hmem => ?_, hrest.nodup⟩
      obtain ⟨file, hfile, hsame⟩ := List.mem_map.1 hmem
      exact hrest.fresh file hfile (by rw [hsame]; exact List.mem_cons_self)
    · exact List.forall_mem_cons.2 ⟨hseen, fun file hfile hmem => hrest.fresh file hfile (List.mem_cons_of_mem _ hmem)⟩
    · exact List.forall_mem_cons.2 ⟨Nat.le_of_not_lt hsmall, hrest.small⟩
    · have hsum := hrest.bounded
      rw [List.map_cons, List.sum_cons]
      show total + (bytes.length + _) ≤ maxBundleBytes
      omega

/-- The files of a bundle that is taken. -/
structure Taken (collation : Collation) (sha256 : Octets → Digest) (inputs : List PeerSkillFileInput)
    (files : List PreparedFile) : Prop where
  sorted : files = sortFiles collation (inputs.map fun input => preparedFile sha256 (given input).1 (given input).2)
  safe : ∀ file ∈ files, safeRelativePath (some file.path) = .ok file.path
  nodup : (files.map (·.path)).Nodup
  bounded : (files.map (·.bytes.length)).sum ≤ maxBundleBytes

theorem prepareFiles_spec {inputs : List PeerSkillFileInput} {files : List PreparedFile}
    (h : prepareFiles collation sha256 inputs = .ok files) : Taken collation sha256 inputs files := by
  unfold prepareFiles at h
  obtain ⟨-, h⟩ := unless_ok.1 h
  obtain ⟨-, h⟩ := unless_ok.1 h
  obtain ⟨unsorted, hunsorted, h⟩ := bind_ok.1 h
  obtain ⟨-, h⟩ := unless_ok.1 h
  cases h
  have hspec := prepareEach_spec (Nat.zero_le _) hunsorted
  have hperm := (perm_sortFiles unsorted : (sortFiles collation unsorted).Perm unsorted)
  refine ⟨by rw [← hspec.files_eq], ?_, ?_, ?_⟩
  · exact fun file hfile => hspec.safe file (hperm.mem_iff.1 hfile)
  · exact (hperm.map _).nodup_iff.2 hspec.nodup
  · rw [(hperm.map _).sum_nat]
    have hbounded := hspec.bounded
    omega

namespace Taken

variable {inputs inputs' : List PeerSkillFileInput} {files files' : List PreparedFile}

theorem perm (h : Taken collation sha256 inputs files) :
    files.Perm (inputs.map fun input => preparedFile sha256 (given input).1 (given input).2) := by
  rw [h.sorted]
  exact perm_sortFiles _

theorem proper (h : Taken collation sha256 inputs files) : ∀ file ∈ files, Proper sha256 file := by
  intro file hfile
  obtain ⟨input, _, hinput⟩ := List.mem_map.1 (h.perm.mem_iff.1 hfile)
  rw [← hinput]
  rfl

/-- Paths and bytes, as they are given. -/
theorem perm_given (h : Taken collation sha256 inputs files) :
    (files.map fun file => (file.path, file.bytes)).Perm (inputs.map given) := by
  have hmap := h.perm.map fun file => (file.path, file.bytes)
  rw [List.map_map] at hmap
  exact hmap

/-- The octets of a file are octets. -/
theorem lt (h : Taken collation sha256 inputs files) : ∀ file ∈ files, ∀ b ∈ file.bytes, b < 256 := by
  intro file hfile
  obtain ⟨input, _, hinput⟩ := List.mem_map.1 (h.perm.mem_iff.1 hfile)
  rw [← hinput]
  exact given_lt input

/-- **The files tell the set of what is given, and without ties that tells the files.** -/
theorem eq_iff (h : Taken collation sha256 inputs files) (h' : Taken collation sha256 inputs' files')
    (hties : (inputs.map given).Pairwise fun f g => collation.tied f.1 g.1 = false) :
    files = files' ↔ ∀ entry, entry ∈ inputs.map given ↔ entry ∈ inputs'.map given := by
  constructor
  · intro heq entry
    rw [← h.perm_given.mem_iff, heq, h'.perm_given.mem_iff]
  · intro hsame
    have hnodup : ∀ {l : List PreparedFile}, (l.map (·.path)).Nodup → (l.map fun file => (file.path, file.bytes)).Nodup :=
      fun {l} hl => List.Nodup.of_map Prod.fst (by rw [List.map_map]; exact hl)
    have hperm : (inputs.map given).Perm (inputs'.map given) :=
      (List.perm_ext_iff_of_nodup (h.perm_given.nodup_iff.1 (hnodup h.nodup))
        (h'.perm_given.nodup_iff.1 (hnodup h'.nodup))).2 hsame
    rw [h.sorted, h'.sorted]
    have hprepared := hperm.map fun entry : Text × Octets => preparedFile sha256 entry.1 entry.2
    rw [List.map_map, List.map_map] at hprepared
    refine sortFiles_eq_of_perm hprepared ?_
    rw [List.pairwise_map] at hties ⊢
    exact hties

end Taken

end Zenod.Peer
