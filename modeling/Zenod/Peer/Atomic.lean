/-
Skill artifacts are addressed by their content, and a put is all or nothing.

`Sound` is the invariant: every artifact is what some put has written, the
limits are kept, and the put that holds the lock has changed nothing until it
publishes. `content_addressed`: after every run whose bundles declare no long
version and have no paths that collate equal, and in which nothing fails
behind a rename, the puts that are over have done what they answered.
-/
import Zenod.Lib.Course
import Zenod.Peer.Stored

namespace Zenod.Peer

open Text Bytes PEER_SKILL_LIMITS

/-! ## What puts promise -/

/-- Two bundles of the same paths and bytes, in whatever order. -/
def SameFiles (inputs inputs' : List PeerSkillFileInput) : Prop :=
  ∀ entry, entry ∈ inputs.map given ↔ entry ∈ inputs'.map given

/-- The later of two puts that are over has changed nothing, if it has the artifact of the earlier one. -/
def Again (earlier later : Finished) : Prop :=
  ∀ m n, earlier.outcome = .ok m → later.outcome = .ok n → m.artifactId = n.artifactId → later.after = later.before

structure ContentAddressed (lib : Libraries) (s : Store) : Prop where
  faithful : ∀ f ∈ s.finished, ∀ m, f.outcome = .ok m → ∃ bundle,
    download lib s.artifacts m.toPeerSkillAttachmentRef = .ok bundle ∧ (bundle.files.map downloaded).Perm (f.inputs.map given)
  unchanged : ∀ f ∈ s.finished, ∀ error, f.outcome = .error error → f.after = f.before
  address : ∀ f ∈ s.finished, ∀ g ∈ s.finished, ∀ m n, f.outcome = .ok m → g.outcome = .ok n →
    (m.artifactId = n.artifactId ↔ SameFiles f.inputs g.inputs)
  again : s.finished.Pairwise Again
  count : s.artifacts.rows.length ≤ maxArtifactsPerTenant
  bytes : s.artifacts.bytes ≤ maxTenantBytes

/-- No two bundles of the calls have one digest by chance. -/
def NoCollision (lib : Libraries) (ops : List Op) : Prop :=
  ∀ inputs inputs', Op.put inputs ∈ ops → Op.put inputs' ∈ ops → ∀ put put', preparePut lib inputs = .ok put →
    preparePut lib inputs' = .ok put' → lib.sha256 (put.files.flatMap chunk) = lib.sha256 (put'.files.flatMap chunk) →
    put.files.flatMap chunk = put'.files.flatMap chunk

/-- The manifest declares no version of more than 100 units. -/
def DeclaresShort (yaml : PeerYaml) (inputs : List PeerSkillFileInput) : Prop :=
  ∀ entry ∈ inputs.map given, entry.1 = skillMd →
    (parseSkillManifest yaml entry.2).toOption.all (fun parsed => parsed.version.all (utf16Length · ≤ 100)) = true

/-- No two paths of a bundle collate equal. -/
def Untied (collation : Collation) (inputs : List PeerSkillFileInput) : Prop :=
  (inputs.map given).Pairwise fun f g => collation.tied f.1 g.1 = false

/-- What has been renamed into place is read back without a failure. -/
def ReadsBack (s : Store) : Op → Prop
  | .advance conditions => ∀ holder ∈ s.holder, holder.stage = .readBack → conditions.fails = false
  | _ => True

/-- A run that is kept off what the store does not bear. -/
structure Mild (lib : Libraries) (ops : List Op) : Prop where
  short : ∀ inputs, Op.put inputs ∈ ops → DeclaresShort lib.yaml inputs
  untied : ∀ inputs, Op.put inputs ∈ ops → Untied lib.collation inputs
  readBack : Along (exec lib) ReadsBack ops {}

/-! ## The invariant -/

section

variable {lib : Libraries} {asked : List PeerSkillFileInput → Prop} {s : Store} {holder : Holder}
  {artifacts artifacts' : Artifacts} {put put' : PreparedPut} {f : Finished}

/-- What is known of the bundles that are put. -/
structure Bearable (lib : Libraries) (asked : List PeerSkillFileInput → Prop) : Prop where
  short : ∀ inputs, asked inputs → DeclaresShort lib.yaml inputs
  collision : ∀ inputs inputs', asked inputs → asked inputs' → ∀ put put', preparePut lib inputs = .ok put →
    preparePut lib inputs' = .ok put' → lib.sha256 (put.files.flatMap chunk) = lib.sha256 (put'.files.flatMap chunk) →
    put.files.flatMap chunk = put'.files.flatMap chunk

/-- A put of the run. -/
def IsPut (lib : Libraries) (asked : List PeerSkillFileInput → Prop) (put : PreparedPut) : Prop :=
  asked put.inputs ∧ preparePut lib put.inputs = .ok put

theorem IsPut.spec (h : IsPut lib asked put) : Put lib put := (preparePut_spec h.2).1

theorem IsPut.short (h : IsPut lib asked put) (hasked : Bearable lib asked) : utf16Length put.version ≤ 100 := by
  obtain ⟨file, hfile, hparsed⟩ := h.spec.manifest
  have hgiven : (file.path, file.bytes) ∈ put.inputs.map given :=
    h.spec.taken.perm_given.mem_iff.1 (List.mem_map_of_mem (List.mem_of_find?_eq_some hfile))
  have hpath : file.path = skillMd := by simpa using List.find?_some hfile
  have hshort := hasked.short _ h.1 _ hgiven hpath
  rw [hparsed] at hshort
  unfold PreparedPut.version versionOfManifest
  cases hversion : put.parsed.version with
  | none =>
    have hle := utf16Length_le ((put.artifactId.drop scheme.length).take 12)
    rw [default_version] at hle
    rw [Option.getD_none]
    omega
  | some version =>
    simp only [Except.toOption, Option.all_some, hversion, decide_eq_true_eq] at hshort
    exact hshort

/-- Puts of one digest have the same files. -/
theorem IsPut.files_eq (h : IsPut lib asked put) (h' : IsPut lib asked put') (hasked : Bearable lib asked)
    (hdigest : put.digest = put'.digest) : put.files = put'.files := by
  rw [h.spec.digest, h'.spec.digest] at hdigest
  exact chunks_injective h.spec.taken.proper h'.spec.taken.proper
    (hasked.collision _ _ h.1 h'.1 _ _ h.2 h'.2 hdigest)

def Absent (artifacts : Artifacts) (digest : Digest) : Prop := ∀ artifact ∈ artifacts.rows, artifact.digest ≠ digest

def Present (artifacts : Artifacts) (digest : Digest) : Prop := ∃ artifact ∈ artifacts.rows, artifact.digest = digest

/-- The quota leaves room for the put. -/
def Room (artifacts : Artifacts) (put : PreparedPut) : Prop :=
  artifacts.rows.length < maxArtifactsPerTenant ∧ artifacts.bytes + put.totalBytes ≤ maxTenantBytes

/-- How the artifacts stand when the put that holds the lock has come this far. -/
def Progress (artifacts : Artifacts) (holder : Holder) : Prop :=
  match holder.stage with
  | .lookup => holder.before = artifacts
  | .quota => holder.before = artifacts ∧ Absent artifacts holder.put.digest
  | .writing => holder.before = artifacts ∧ Absent artifacts holder.put.digest ∧ Room artifacts holder.put
  | .publish metadata tree => holder.before = artifacts ∧ Absent artifacts holder.put.digest ∧ Room artifacts holder.put ∧
      Written holder.put { digest := holder.put.digest, metadata := metadata, tree := tree }
  | .readBack => Absent holder.before holder.put.digest ∧ ∃ artifact ∈ artifacts.rows, Written holder.put artifact

/-- A put that is over, as it stands to the artifacts: it has changed nothing, or its artifact is there. -/
structure Ended (lib : Libraries) (asked : List PeerSkillFileInput → Prop) (artifacts : Artifacts) (f : Finished) : Prop where
  unchanged : ∀ error, f.outcome = .error error → f.after = f.before
  present : ∀ m, f.outcome = .ok m → ∃ put, IsPut lib asked put ∧ f.inputs = put.inputs ∧
    m.toPeerSkillAttachmentRef = put.ref ∧ Present artifacts put.digest

theorem Ended.mono (h : Ended lib asked artifacts f) (hrows : ∀ a ∈ artifacts.rows, a ∈ artifacts'.rows) :
    Ended lib asked artifacts' f where
  unchanged := h.unchanged
  present m hm := by
    obtain ⟨put, hput, hinputs, href, artifact, hartifact, hdigest⟩ := h.present m hm
    exact ⟨put, hput, hinputs, href, artifact, hrows artifact hartifact, hdigest⟩

/-- What holds whoever has the lock. -/
structure Steady (lib : Libraries) (asked : List PeerSkillFileInput → Prop) (s : Store) : Prop where
  kept : ∀ artifact ∈ s.artifacts.rows, ∃ put, IsPut lib asked put ∧ Written put artifact
  count : s.artifacts.rows.length ≤ maxArtifactsPerTenant
  bytes : s.artifacts.bytes ≤ maxTenantBytes
  waiting : ∀ put ∈ s.waiting, IsPut lib asked put
  finished : ∀ f ∈ s.finished, Ended lib asked s.artifacts f
  again : s.finished.Pairwise Again

/-- The put that holds the lock, its stage, and what was over when it was given the lock. -/
structure Holds (lib : Libraries) (asked : List PeerSkillFileInput → Prop) (s : Store) (holder : Holder) : Prop where
  isPut : IsPut lib asked holder.put
  progress : Progress s.artifacts holder
  earlier : ∀ f ∈ s.finished, Ended lib asked holder.before f

structure Sound (lib : Libraries) (asked : List PeerSkillFileInput → Prop) (s : Store) : Prop
    extends Steady lib asked s where
  holder : ∀ holder ∈ s.holder, Holds lib asked s holder

theorem Steady.grant (h : Steady lib asked s) : Sound lib asked s.grant := by
  unfold Store.grant
  split
  next => exact ⟨⟨h.kept, h.count, h.bytes, h.waiting, h.finished, h.again⟩, nofun⟩
  next put waiting hwaiting =>
    have hput := h.waiting
    rw [hwaiting] at hput
    obtain ⟨hfirst, hrest⟩ := List.forall_mem_cons.1 hput
    refine ⟨⟨h.kept, h.count, h.bytes, hrest, h.finished, h.again⟩, fun holder hholder => ?_⟩
    cases hholder
    exact ⟨hfirst, rfl, h.finished⟩

/-- A put is over, and the lock goes on. -/
theorem Steady.finish (h : Steady lib asked s) {outcome : Except SkillError PeerSkillArtifactMetadata}
    (hended : Ended lib asked s.artifacts
      { inputs := holder.put.inputs, outcome := outcome, before := holder.before, after := s.artifacts })
    (hagain : ∀ f ∈ s.finished, Again f
      { inputs := holder.put.inputs, outcome := outcome, before := holder.before, after := s.artifacts }) :
    Sound lib asked (s.finish holder outcome) := by
  refine Steady.grant ⟨h.kept, h.count, h.bytes, h.waiting, ?_, ?_⟩
  · intro f hf
    rcases List.mem_append.1 hf with hf | hf
    · exact h.finished f hf
    · rw [List.mem_singleton.1 hf]
      exact hended
  · refine List.pairwise_append.2 ⟨h.again, List.pairwise_singleton _ _, fun f hf g hg => ?_⟩
    rw [List.mem_singleton.1 hg]
    exact hagain f hf

theorem Steady.refuse (h : Steady lib asked s) (hsame : holder.before = s.artifacts) (error : SkillError) :
    Sound lib asked (s.finish holder (.error error)) :=
  h.finish ⟨fun _ _ => hsame.symm, nofun⟩ fun _ _ _ _ _ hn => nomatch hn

theorem Progress.unpublished {artifacts : Artifacts} (h : Progress artifacts holder) (hstage : holder.stage ≠ .readBack) :
    holder.before = artifacts := by
  unfold Progress at h
  split at h
  next => exact h
  next => exact h.1
  next => exact h.1
  next => exact h.1
  next hreadBack => exact absurd hreadBack hstage

/-! ## The steps of a put -/

theorem get_ok {ref : PeerSkillAttachmentRef} {m : PeerSkillArtifactMetadata} (h : get artifacts ref = .ok m) :
    m.toPeerSkillAttachmentRef = ref ∧ ∃ artifact ∈ artifacts.rows, digestOf ref.artifactId = some artifact.digest := by
  unfold get at h
  obtain ⟨digest, hdigest, h⟩ := bind_ok.1 h
  split at h
  next => cases h
  next artifact hartifact =>
  split at h
  next => cases h
  next hsame =>
    cases h
    simp only [not_or, not_not] at hsame
    refine ⟨?_, artifact, List.mem_of_find?_eq_some hartifact, ?_⟩
    · cases ref
      exact congrArg₂ PeerSkillAttachmentRef.mk hsame.1 hsame.2
    · unfold validateRef at hdigest
      split at hdigest
      next => cases hdigest
      next found hfound =>
      split at hdigest
      next => cases hdigest
      next =>
        cases hdigest
        have hnamed : artifact.digest = digest := by
          unfold Artifacts.artifact? at hartifact
          exact Subtype.ext (by simpa using List.find?_some hartifact)
        rw [hfound, hnamed]

/-- What the lookup does not find is not there. -/
theorem absent_of_get (h : Steady lib asked s) (hasked : Bearable lib asked) (hput : IsPut lib asked put)
    {error : SkillError} (hget : get s.artifacts put.ref = .error error) : Absent s.artifacts put.digest := by
  intro artifact hartifact hdigest
  obtain ⟨put', hput', hwritten⟩ := h.kept artifact hartifact
  have hfiles : put.files = put'.files := hput.files_eq hput' hasked (by rw [← hdigest, hwritten.digest])
  obtain ⟨-, href⟩ := hput.spec.ref_eq hput'.spec hfiles
  have hfound := hwritten.get hput'.spec (hput'.short hasked) hartifact
  rw [← href, hget] at hfound
  cases hfound

theorem room_of_quota (h : Steady lib asked s) {unreadable : List Digest}
    (hquota : enforceTenantQuota s.artifacts unreadable put.totalBytes = .ok ()) : Room s.artifacts put := by
  unfold enforceTenantQuota at hquota
  split at hquota
  next => cases hquota
  next hcount =>
  split at hquota
  next => cases hquota
  next hbytes =>
    -- Each artifact counts for at least the bytes of its files.
    have hle : s.artifacts.bytes ≤ (s.artifacts.rows.map (countedBytes unreadable)).sum := by
      refine List.sum_le_sum fun artifact hartifact => ?_
      obtain ⟨put', hput', hwritten⟩ := h.kept artifact hartifact
      have hbounded := hput'.spec.taken.bounded
      rw [← hput'.spec.totalBytes_eq] at hbounded
      unfold countedBytes
      rw [hwritten.bytes_eq hput'.spec, hwritten.totalBytes_eq]
      split
      next => exact hbounded
      next => exact Nat.le_refl _
    exact ⟨Nat.lt_of_not_le hcount, by omega⟩

theorem sound_lookup (h : Sound lib asked s) (hasked : Bearable lib asked) (hholds : Holds lib asked s holder)
    (hsame : holder.before = s.artifacts) :
    Sound lib asked (match get s.artifacts holder.put.ref with
      | .ok metadata => s.finish holder (.ok metadata)
      | .error error => if error = .notFound then s.goOn holder .quota else s.finish holder (.error error)) := by
  split
  next metadata hget =>
    obtain ⟨href, artifact, hartifact, hdigest⟩ := get_ok hget
    have hid : digestOf holder.put.ref.artifactId = some holder.put.digest := digestOf_artifactId holder.put
    refine h.finish ⟨nofun, fun m hm => ?_⟩ fun _ _ _ _ _ _ _ => hsame.symm
    cases hm
    exact ⟨holder.put, hholds.isPut, rfl, href, artifact, hartifact, Option.some.inj (hdigest.symm.trans hid)⟩
  next error hget =>
    split
    next =>
      have habsent := absent_of_get h.toSteady hasked hholds.isPut hget
      refine ⟨⟨h.kept, h.count, h.bytes, h.waiting, h.finished, h.again⟩, fun next hnext => ?_⟩
      cases hnext
      exact ⟨hholds.isPut, ⟨hsame, habsent⟩, hholds.earlier⟩
    next => exact h.refuse hsame error

theorem sound_publish (h : Sound lib asked s) (hholds : Holds lib asked s holder) {artifact : Artifact}
    (hsame : holder.before = s.artifacts) (habsent : Absent s.artifacts holder.put.digest)
    (hroom : Room s.artifacts holder.put) (hwritten : Written holder.put artifact)
    (hinsert : s.artifacts.insert? artifact = some artifacts') :
    Sound lib asked (({ s with artifacts := artifacts' } : Store).goOn holder .readBack) := by
  obtain ⟨-, hrows⟩ := Table.insert?_eq_some.1 hinsert
  have hmore : ∀ a ∈ s.artifacts.rows, a ∈ artifacts'.rows := fun a ha => by
    rw [hrows]
    exact List.mem_append_left _ ha
  refine ⟨⟨?_, ?_, ?_, h.waiting, fun f hf => (h.finished f hf).mono hmore, h.again⟩, fun next hnext => ?_⟩
  · intro a ha
    have ha : a ∈ artifacts'.rows := ha
    rw [hrows] at ha
    rcases List.mem_append.1 ha with ha | ha
    · exact h.kept a ha
    · rw [List.mem_singleton.1 ha]
      exact ⟨holder.put, hholds.isPut, hwritten⟩
  · show artifacts'.rows.length ≤ maxArtifactsPerTenant
    rw [hrows, List.length_append]
    exact hroom.1
  · show artifacts'.bytes ≤ maxTenantBytes
    unfold Artifacts.bytes
    rw [hrows, List.map_append, List.sum_append, List.map_singleton, List.sum_singleton,
      hwritten.bytes_eq hholds.isPut.spec]
    exact hroom.2
  · cases hnext
    refine ⟨hholds.isPut, ⟨by rw [hsame]; exact habsent, artifact, ?_, hwritten⟩, hholds.earlier⟩
    show artifact ∈ artifacts'.rows
    rw [hrows]
    exact List.mem_append_right _ (List.mem_singleton_self _)

theorem sound_readBack (h : Sound lib asked s) (hasked : Bearable lib asked) (hholds : Holds lib asked s holder)
    (habsent : Absent holder.before holder.put.digest) {artifact : Artifact} (hartifact : artifact ∈ s.artifacts.rows)
    (hwritten : Written holder.put artifact) :
    Sound lib asked (s.finish holder (get s.artifacts holder.put.ref)) := by
  rw [hwritten.get hholds.isPut.spec (hholds.isPut.short hasked) hartifact]
  refine h.finish ⟨nofun, fun m hm => ?_⟩ fun f hf m n hm hn hid => ?_
  · cases hm
    exact ⟨holder.put, hholds.isPut, rfl, hwritten.ref, artifact, hartifact, hwritten.digest⟩
  · -- An earlier put of the same artifact would have left it there.
    obtain ⟨put, hput, -, href, old, hold, hdigest⟩ := (hholds.earlier f hf).present m hm
    cases hn
    have hsame : put.artifactId = holder.put.artifactId := by
      have hleft : m.artifactId = put.ref.artifactId := congrArg (·.artifactId) href
      have hright : artifact.metadata.artifactId = holder.put.ref.artifactId := congrArg (·.artifactId) hwritten.ref
      exact hleft.symm.trans (hid.trans hright)
    exact absurd (hdigest.trans (artifactId_injective hsame)) (habsent old hold)

/-- **A step of the put that holds the lock keeps the invariant.** -/
theorem sound_work (h : Sound lib asked s) (hasked : Bearable lib asked) (hholder : s.holder = some holder)
    {conditions : Conditions} (hreads : holder.stage = .readBack → conditions.fails = false) :
    Sound lib asked (s.work holder conditions) := by
  have hholds := h.holder holder hholder
  unfold Store.work
  split
  next hfails =>
    exact h.refuse (hholds.progress.unpublished fun hstage => by rw [hreads hstage] at hfails; cases hfails) _
  next =>
  have hprogress := hholds.progress
  unfold Progress at hprogress
  split
  next hstage =>
    rw [hstage] at hprogress
    exact sound_lookup h hasked hholds hprogress
  next hstage =>
    rw [hstage] at hprogress
    obtain ⟨hsame, habsent⟩ := hprogress
    split
    next error _ => exact h.refuse hsame error
    next hquota =>
      have hroom := room_of_quota h.toSteady hquota
      refine ⟨⟨h.kept, h.count, h.bytes, h.waiting, h.finished, h.again⟩, fun next hnext => ?_⟩
      cases hnext
      exact ⟨hholds.isPut, ⟨hsame, habsent, hroom⟩, hholds.earlier⟩
  next hstage =>
    rw [hstage] at hprogress
    obtain ⟨hsame, habsent, hroom⟩ := hprogress
    split
    next => exact h.refuse hsame _
    next tree htree =>
      refine ⟨⟨h.kept, h.count, h.bytes, h.waiting, h.finished, h.again⟩, fun next hnext => ?_⟩
      cases hnext
      exact ⟨hholds.isPut, ⟨hsame, habsent, hroom, rfl, ⟨conditions.now, rfl⟩, htree⟩, hholds.earlier⟩
  next metadata tree hstage =>
    rw [hstage] at hprogress
    obtain ⟨hsame, habsent, hroom, hwritten⟩ := hprogress
    split
    next => exact h.refuse hsame _
    next artifacts' hinsert => exact sound_publish h hholds hsame habsent hroom hwritten hinsert
  next hstage =>
    rw [hstage] at hprogress
    obtain ⟨habsent, artifact, hartifact, hwritten⟩ := hprogress
    exact sound_readBack h hasked hholds habsent hartifact hwritten

theorem sound_put (h : Sound lib asked s) {inputs : List PeerSkillFileInput} (hasks : asked inputs) :
    Sound lib asked (s.put lib inputs) := by
  unfold Store.put
  split
  next error _ =>
    have hended : ∀ artifacts, Ended lib asked artifacts
        { inputs := inputs, outcome := .error error, before := s.artifacts, after := s.artifacts } :=
      fun _ => ⟨fun _ _ => rfl, nofun⟩
    refine ⟨⟨h.kept, h.count, h.bytes, h.waiting, fun f hf => ?_, ?_⟩, fun holder hholder => ?_⟩
    · rcases List.mem_append.1 hf with hf | hf
      · exact h.finished f hf
      · rw [List.mem_singleton.1 hf]
        exact hended _
    · refine List.pairwise_append.2 ⟨h.again, List.pairwise_singleton _ _, fun f _ g hg => ?_⟩
      rw [List.mem_singleton.1 hg]
      exact fun _ _ _ hn => nomatch hn
    · have hholds := h.holder holder hholder
      refine ⟨hholds.isPut, hholds.progress, fun f hf => ?_⟩
      rcases List.mem_append.1 hf with hf | hf
      · exact hholds.earlier f hf
      · rw [List.mem_singleton.1 hf]
        exact hended _
  next put hput =>
    have hisPut : IsPut lib asked put := by
      unfold IsPut
      rw [(preparePut_spec hput).2]
      exact ⟨hasks, hput⟩
    have hwaiting : ∀ p ∈ s.waiting ++ [put], IsPut lib asked p := by
      intro p hp
      rcases List.mem_append.1 hp with hp | hp
      · exact h.waiting p hp
      · rw [List.mem_singleton.1 hp]
        exact hisPut
    have hsteady : Steady lib asked { s with waiting := s.waiting ++ [put] } :=
      ⟨h.kept, h.count, h.bytes, hwaiting, h.finished, h.again⟩
    simp only []
    split
    next => exact hsteady.grant
    next => exact ⟨hsteady, fun holder hholder => ⟨(h.holder holder hholder).isPut, (h.holder holder hholder).progress,
      (h.holder holder hholder).earlier⟩⟩

theorem sound_exec (h : Sound lib asked s) (hasked : Bearable lib asked) {op : Op}
    (hop : ∀ inputs, op = .put inputs → asked inputs) (hreads : ReadsBack s op) : Sound lib asked (exec lib s op) := by
  cases op with
  | put inputs => exact sound_put h (hop inputs rfl)
  | advance conditions =>
    simp only [exec]
    split
    next => exact h
    next holder hholder => exact sound_work h hasked hholder (hreads holder hholder)
  | get ref | download ref | load ref => exact h

theorem sound_start : Sound lib asked {} :=
  ⟨⟨nofun, Nat.zero_le _, Nat.zero_le _, nofun, nofun, .nil⟩, nofun⟩

end

/-! ## Every run -/

section

variable {lib : Libraries} {ops : List Op}

theorem bearable_of_mild (hcollision : NoCollision lib ops) (h : Mild lib ops) :
    Bearable lib fun inputs => Op.put inputs ∈ ops :=
  ⟨h.short, hcollision⟩

theorem sound_run (hcollision : NoCollision lib ops) (h : Mild lib ops) :
    Sound lib (fun inputs => Op.put inputs ∈ ops) (run lib ops) := by
  have hasked := bearable_of_mild hcollision h
  have hmem : Along (exec lib) (fun _ op => op ∈ ops) ops {} := Along.of_mem fun op hop _ => hop
  refine Along.invariant ?_ (hmem.both h.readBack) sound_start
  intro s op hop hs
  exact sound_exec hs hasked (fun inputs hput => hput ▸ hop.1) hop.2

/-- **After every such run the store is addressed by content**: what a put answered is what its reference gives, one
that threw has changed nothing, artifacts and sets of files are one to one, and the limits are kept. -/
theorem content_addressed (hcollision : NoCollision lib ops) (h : Mild lib ops) :
    ContentAddressed lib (run lib ops) := by
  have hs := sound_run hcollision h
  have hasked := bearable_of_mild hcollision h
  refine ⟨?_, fun f hf => (hs.finished f hf).unchanged, ?_, hs.again, hs.count, hs.bytes⟩
  · intro f hf m hm
    obtain ⟨put, hput, hinputs, href, artifact, hartifact, hdigest⟩ := (hs.finished f hf).present m hm
    obtain ⟨put', hput', hwritten⟩ := hs.kept artifact hartifact
    have hfiles : put.files = put'.files := hput.files_eq hput' hasked (by rw [← hdigest, hwritten.digest])
    obtain ⟨-, hsame⟩ := hput.spec.ref_eq hput'.spec hfiles
    obtain ⟨bundle, hbundle, hperm⟩ := hwritten.download hput'.spec (hput'.short hasked) hartifact
    refine ⟨bundle, by rw [href, hsame, hbundle], hperm.trans ?_⟩
    rw [hinputs]
    exact hput'.spec.taken.perm_given.symm.trans (hfiles ▸ hput.spec.taken.perm_given)
  · intro f hf g hg m n hm hn
    obtain ⟨put, hput, hinputs, href, -⟩ := (hs.finished f hf).present m hm
    obtain ⟨put', hput', hinputs', href', -⟩ := (hs.finished g hg).present n hn
    have hleft : m.artifactId = put.artifactId := congrArg (·.artifactId) href
    have hright : n.artifactId = put'.artifactId := congrArg (·.artifactId) href'
    rw [hleft, hright, hinputs, hinputs']
    have hiff := hput.spec.taken.eq_iff hput'.spec.taken (h.untied _ hput.1)
    refine Iff.trans ⟨fun hid => hput.files_eq hput' hasked (artifactId_injective hid), fun hfiles => ?_⟩ hiff
    unfold PreparedPut.artifactId
    rw [(hput.spec.ref_eq hput'.spec hfiles).1]

end

/-! ## Bundles of one skill -/

def hexDigest (t : Text) (h : isHexDigest t = true := by decide) : Digest := ⟨t, h⟩

def skillText : Text := "---\nname: A\ndescription: B\n---\n".toList

/-- A version of 101 units. -/
def longVersion : Text := List.replicate 101 'v'

def longText : Text := "---\nname: A\ndescription: B\nversion: ".toList ++ longVersion ++ "\n---\n".toList

/-- SHA-256, of what is hashed below. -/
def sha256Of (bytes : Octets) : Digest :=
  if bytes = utf8 skillText then
    hexDigest "231ce9a5aea327bd40b15789e66c9e41446bb95db56e616b7e6ef5f985bb720c".toList
  else if bytes = utf8 "hi".toList then
    hexDigest "8f434346648f6b96df89dda901c5176b10a6d83961dd3c1ac88b59b2dc327aa4".toList
  else if bytes = utf8 ("8:SKILL.md:31:".toList ++ skillText ++ "8:USAGE.md:2:hi".toList) then
    hexDigest "8bf3837e96a1862668f452a47381c1bc0a30986c59d49ad547a1af5e42fbc4cf".toList
  else if bytes = utf8 longText then
    hexDigest "8690ca5c8569616b5b0f986a5d4f923bed0e71a4cb7aabfd89a2e75883050655".toList
  else hexDigest "4e21d5f8a635604682dba87cedb09bf45cd7c41cc7cceb21971f864308c475f3".toList

/-- The frontmatter of either text. -/
def recordOf (source : Text) : Vault.Frontmatter :=
  [("name".toList, .str "A".toList), ("description".toList, .str "B".toList)] ++
    if source = "name: A\ndescription: B".toList then [] else [("version".toList, .str longVersion)]

/-- The libraries, on the texts below. -/
def libraries : Libraries where
  collation := { le := Text.le, total := fun s t => Bool.or_eq_true_iff.2 (Text.le_total s t), trans := fun _ _ _ => Text.le_trans }
  sha256 := sha256Of
  yaml := { parseDocument := fun source => .ok (.ok (.map (recordOf source))) }

def skillFile (text : Text) : PeerSkillFileInput := { path := some skillMd, content := some text }

def usageFile : PeerSkillFileInput := { path := some "USAGE.md".toList, contentBase64 := some "aGk=".toList }

/-- One bundle put twice, the files in either order, the second time while the first holds the lock. -/
def reordered : List Op :=
  [.put [usageFile, skillFile skillText], .put [skillFile skillText, usageFile]] ++ List.replicate 6 (.advance {})

theorem noCollision_reordered : NoCollision libraries reordered := by
  have hone : ∀ inputs, Op.put inputs ∈ reordered → ∀ put, preparePut libraries inputs = .ok put →
      put.files.flatMap chunk = utf8 ("8:SKILL.md:31:".toList ++ skillText ++ "8:USAGE.md:2:hi".toList) := by
    intro inputs hmem put hput
    have hprepared : ∀ inputs ∈ [[usageFile, skillFile skillText], [skillFile skillText, usageFile]],
        (preparePut libraries inputs).toOption.map (fun put => put.files.flatMap chunk) =
          some (utf8 ("8:SKILL.md:31:".toList ++ skillText ++ "8:USAGE.md:2:hi".toList)) := by
      decide +kernel
    simp only [reordered, List.mem_append, List.mem_cons, List.not_mem_nil, or_false, List.mem_replicate,
      Op.put.injEq, reduceCtorEq, and_false] at hmem
    have hchunks := hprepared inputs (by simpa using hmem)
    rw [hput] at hchunks
    exact Option.some.inj hchunks
  intro inputs inputs' hinputs hinputs' put put' hput hput' _
  rw [hone inputs hinputs put hput, hone inputs' hinputs' put' hput']

theorem mild_reordered : Mild libraries reordered where
  short inputs hmem := by
    simp only [reordered, List.mem_append, List.mem_cons, List.not_mem_nil, or_false, List.mem_replicate,
      Op.put.injEq, reduceCtorEq, and_false] at hmem
    rcases hmem with rfl | rfl
    · unfold DeclaresShort
      decide +kernel
    · unfold DeclaresShort
      decide +kernel
  untied inputs hmem := by
    simp only [reordered, List.mem_append, List.mem_cons, List.not_mem_nil, or_false, List.mem_replicate,
      Op.put.injEq, reduceCtorEq, and_false] at hmem
    rcases hmem with rfl | rfl
    · unfold Untied
      decide +kernel
    · unfold Untied
      decide +kernel
  readBack := by
    refine Along.of_mem fun op hop s => ?_
    simp only [reordered, List.mem_append, List.mem_cons, List.not_mem_nil, or_false, List.mem_replicate] at hop
    rcases hop with (rfl | rfl) | ⟨-, rfl⟩
    · trivial
    · trivial
    · exact fun _ _ _ => rfl

theorem stored_once : ContentAddressed libraries (run libraries reordered) ∧
    (run libraries reordered).finished.map (fun f => f.outcome.toOption.isSome) = [true, true] ∧
    (run libraries reordered).artifacts.rows.length = 1 :=
  ⟨content_addressed noCollision_reordered mild_reordered, by decide +kernel, by decide +kernel⟩

/-- A version too long for a reference: the put throws, and has stored its artifact. -/
theorem stored_by_a_put_that_threw :
    ¬∀ (lib : Libraries) (ops : List Op), NoCollision lib ops → ContentAddressed lib (run lib ops) := by
  intro h
  have hcollision : NoCollision libraries (.put [skillFile longText] :: List.replicate 5 (.advance {})) := by
    intro inputs inputs' hinputs hinputs' put put' hput hput' _
    simp only [List.mem_cons, List.mem_replicate, Op.put.injEq, reduceCtorEq, and_false, or_false] at hinputs hinputs'
    rw [hinputs] at hput
    rw [hinputs', hput] at hput'
    rw [Except.ok.inj hput']
  have hrun := (h libraries _ hcollision).unchanged
  have hfailed : (run libraries (.put [skillFile longText] :: List.replicate 5 (.advance {}))).finished.any
      (fun f => decide (f.outcome.toOption = none ∧ f.after ≠ f.before)) = true := by
    decide +kernel
  obtain ⟨f, hf, hthrew⟩ := List.any_eq_true.1 hfailed
  obtain ⟨hnone, hchanged⟩ := of_decide_eq_true hthrew
  cases houtcome : f.outcome with
  | error error => exact hchanged (hrun f hf error houtcome)
  | ok m =>
    rw [houtcome] at hnone
    cases hnone

end Zenod.Peer
