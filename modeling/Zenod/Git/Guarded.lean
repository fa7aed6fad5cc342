/-
What guarded publication publishes.

The diff that is compared with the plan leaves out the source of a rename
(`mem_nameOnly`), so it shows every change exactly when nothing is taken for a
rename. `guarded_publication_iff`: a call that returns has published exactly its
plan, and a call whose plan is the pending changes returns, if and only if git
sees no rename between the base and the commit.
-/
import Zenod.Git.Pending
import Zenod.Git.Publish

namespace Zenod.Git

open Evidence (FileChange Tree)
open Text

variable {hash : Text → String} {lib : StatusLibrary} {diff : DiffLibrary} {guard : Guard} {env : Environment}
  {clone : Clone}

/-! ## What the diff lists -/

theorem FileTree.mem_paths {a b : FileTree} {p : Text} (h : a.text p ≠ b.text p) : p ∈ a.paths ++ b.paths := by
  by_contra hp
  rw [List.mem_append, not_or] at hp
  exact h (by rw [a.supported p hp.1, b.supported p hp.2])

theorem mem_nameOnly {a b : FileTree} {p : Text} :
    p ∈ nameOnly diff a b ↔ a.text p ≠ b.text p ∧ diff.isSource a b p = false := by
  simp only [nameOnly, List.mem_filter, List.mem_dedup, decide_eq_true_eq]
  constructor
  · intro h
    exact h.2
  · intro h
    exact ⟨FileTree.mem_paths h.1, h⟩

theorem nameOnly_nodup (a b : FileTree) : (nameOnly diff a b).Nodup := (List.nodup_dedup _).filter _

/-- A rename's source changes, and the diff does not list it. -/
theorem source_differs {a b : FileTree} {r : Text × Text} (hr : r ∈ diff.renames a b) :
    a.text r.1 ≠ b.text r.1 ∧ r.1 ∉ nameOnly diff a b := by
  obtain ⟨hsome, hnone, -, -⟩ := diff.renames_ok a b r hr
  constructor
  · intro h
    rw [h, hnone] at hsome
    cases hsome
  · intro h
    have hsource : diff.isSource a b r.1 = true := List.any_eq_true.2 ⟨r, hr, decide_eq_true rfl⟩
    have hfalse := (mem_nameOnly.1 h).2
    rw [hsource] at hfalse
    cases hfalse

/-- **The diff lists every change** exactly when nothing is taken for a rename. -/
theorem nameOnly_all_iff {a b : FileTree} :
    (∀ p, a.text p ≠ b.text p ↔ p ∈ nameOnly diff a b) ↔ diff.renames a b = [] := by
  constructor
  · intro h
    rw [List.eq_nil_iff_forall_not_mem]
    intro r hr
    obtain ⟨hne, hnot⟩ := source_differs hr
    exact hnot ((h r.1).1 hne)
  · intro h p
    have hsource : diff.isSource a b p = false := by rw [DiffLibrary.isSource, h]; rfl
    rw [mem_nameOnly, hsource]
    simp

/-! ## What matches the plan -/

theorem Guard.mem_keys_of_expected {p : Text} {h : Option String} (he : guard.expected p = some h) :
    p ∈ guard.keys := by
  obtain ⟨e, hfind, -⟩ := Option.map_eq_some_iff.1 he
  have hp : e.1 = p := by simpa using List.find?_some hfind
  rw [← hp]
  exact List.mem_map_of_mem (List.mem_of_find?_eq_some hfind)

/-- The receipt has a hash in the plan. -/
def Guard.HasReceipt (guard : Guard) : Prop := ∃ h, guard.expected guard.receiptPath = some (some h) ∧ h ≠ ""

theorem Guard.HasReceipt.mem_keys (h : guard.HasReceipt) : guard.receiptPath ∈ guard.keys := by
  obtain ⟨_, hexp, -⟩ := h
  exact Guard.mem_keys_of_expected hexp

theorem filesMatch_iff {changes : List FileChange} : filesMatch hash changes guard = true ↔
    guard.HasReceipt ∧ join (sort guard.keys) = join (sort (changes.map (·.path))) ∧
      ∀ change ∈ changes, guard.expected change.path = some (publicationContentHash hash change.after) ∧
        (change.path = guard.receiptPath → change.before ≠ change.after) := by
  have hreceipt : (guard.expected guard.receiptPath).join.any (· != "") = true ↔ guard.HasReceipt := by
    simp only [Guard.HasReceipt, Option.any_eq_true, Option.join_eq_some_iff, bne_iff_ne]
  simp only [filesMatch, Bool.and_eq_true, List.contains_iff_mem, beq_iff_eq, List.all_eq_true,
    Bool.not_eq_true', Bool.and_eq_false_iff, beq_eq_false_iff_ne, and_assoc]
  constructor
  · intro h
    obtain ⟨-, hr, hjoin, hall⟩ := h
    refine ⟨hreceipt.1 hr, hjoin, fun change hc => ⟨(hall change hc).1, fun hp => ?_⟩⟩
    exact (hall change hc).2.resolve_left (fun hne => hne hp)
  · intro h
    obtain ⟨hr, hjoin, hall⟩ := h
    refine ⟨hr.mem_keys, hreceipt.2 hr, hjoin, fun change hc => ⟨(hall change hc).1, ?_⟩⟩
    by_cases hp : change.path = guard.receiptPath
    · exact Or.inr ((hall change hc).2 hp)
    · exact Or.inl hp

/-- Distinct changes that match a plan are on the paths of the plan, unless the plan is the empty path alone. -/
theorem filesMatch_perm {changes : List FileChange} (h : filesMatch hash changes guard = true)
    (hnodup : (changes.map (·.path)).Nodup) (hkeys : guard.keys ≠ [[]]) :
    (changes.map (·.path)).Perm guard.keys := by
  obtain ⟨hreceipt, hjoin, hall⟩ := filesMatch_iff.1 h
  have hsub : ∀ p ∈ changes.map (·.path), p ∈ guard.keys := by
    intro p hp
    obtain ⟨change, hc, rfl⟩ := List.mem_map.1 hp
    exact Guard.mem_keys_of_expected (hall change hc).1
  by_cases hne : changes.map (·.path) = []
  · -- The keys join to nothing, and there is one.
    exfalso
    have hsort : sort (changes.map (·.path)) = [] := by rw [hne]; rfl
    have hknil : sort guard.keys ≠ [] := by
      intro hnil
      have hmem := (sort_perm guard.keys).mem_iff.2 hreceipt.mem_keys
      rw [hnil] at hmem
      cases hmem
    have hlen := congrArg List.length (join_append_newline hknil)
    rw [hjoin, hsort] at hlen
    apply hkeys
    have hperm := sort_perm guard.keys
    generalize sort guard.keys = ks at hknil hlen hperm
    cases ks with
    | nil => exact absurd rfl hknil
    | cons k ks =>
      have hone : (join [] ++ ['\n']).length = 1 := rfl
      rw [hone, terminated_cons, List.length_append, List.length_cons] at hlen
      have hk : k = [] := List.length_eq_zero_iff.1 (by omega)
      have hks : ks = [] := by
        cases ks with
        | nil => rfl
        | cons l ls =>
          rw [terminated_cons, List.length_append, List.length_cons] at hlen
          omega
      rw [hk, hks] at hperm
      exact (List.perm_singleton.1 hperm.symm)
  · exact perm_of_join_eq hnodup hsub hne hjoin.symm

/-- Changes on the paths of a plan, with its hashes, match it. -/
theorem filesMatch_of_perm {changes : List FileChange} (hreceipt : guard.HasReceipt)
    (hperm : (changes.map (·.path)).Perm guard.keys)
    (hall : ∀ change ∈ changes, guard.expected change.path = some (publicationContentHash hash change.after) ∧
      (change.path = guard.receiptPath → change.before ≠ change.after)) :
    filesMatch hash changes guard = true :=
  filesMatch_iff.2 ⟨hreceipt, by rw [sort_eq_of_perm hperm], hall⟩

theorem revisionChanges_paths (base target : FileTree) :
    (revisionChanges diff base target).map (·.path) = nameOnly diff base target := by
  simp [revisionChanges, Function.comp_def]

theorem mem_revisionChanges {base target : FileTree} {change : FileChange} :
    change ∈ revisionChanges diff base target ↔ ∃ p ∈ nameOnly diff base target,
      (⟨p, base.text p, target.text p⟩ : FileChange) = change := by
  simp [revisionChanges]

/-- The tree differs from the base exactly on the plan, with the plan's contents. -/
def MatchesPlan (hash : Text → String) (guard : Guard) (base target : FileTree) : Prop :=
  (∀ p, base.text p ≠ target.text p ↔ p ∈ guard.keys) ∧
    ∀ p ∈ guard.keys, guard.expected p = some (publicationContentHash hash (target.text p))

/-- **A diff that matches the plan is the plan**, unless something was taken for a rename. -/
theorem matchesPlan_iff {base target : FileTree}
    (h : filesMatch hash (revisionChanges diff base target) guard = true) :
    MatchesPlan hash guard base target ↔ diff.renames base target = [] ∧ guard.keys ≠ [[]] := by
  constructor
  · intro hplan
    have hkeys : guard.keys ≠ [[]] := by
      intro hnil
      have hmem : [] ∈ guard.keys := by rw [hnil]; exact List.mem_cons_self
      have hdiffers := (hplan.1 []).2 hmem
      exact hdiffers (by rw [base.supported _ base.named, target.supported _ target.named])
    have hperm := filesMatch_perm h (by rw [revisionChanges_paths]; exact nameOnly_nodup base target) hkeys
    rw [revisionChanges_paths] at hperm
    refine ⟨nameOnly_all_iff.1 fun p => ?_, hkeys⟩
    rw [hplan.1 p]
    exact hperm.mem_iff.symm
  · intro hfree
    obtain ⟨hfree, hkeys⟩ := hfree
    have hperm := filesMatch_perm h (by rw [revisionChanges_paths]; exact nameOnly_nodup base target) hkeys
    rw [revisionChanges_paths] at hperm
    have hall := (filesMatch_iff.1 h).2.2
    refine ⟨fun p => ?_, fun p hp => ?_⟩
    · rw [nameOnly_all_iff.2 hfree p]
      exact hperm.mem_iff
    · exact (hall _ (mem_revisionChanges.2 ⟨p, hperm.mem_iff.2 hp, rfl⟩)).1

/-! ## Calls that return -/

/-- The tree the call is to publish: the working tree when something is pending, else the prepared commit's. -/
def Clone.planned (clone : Clone) (lib : StatusLibrary) : Option FileTree :=
  if pendingChanges clone.copy lib = [] then clone.commits[clone.head]?.map (·.tree) else some clone.workTree

theorem prepare_ok {commits : List Commit} {head : Nat}
    (h : prepare hash lib guard env clone = .ok (commits, head)) :
    (pendingChanges clone.copy lib = [] ∧ (commits, head) = (clone.commits, clone.head)) ∨
    (pendingChanges clone.copy lib ≠ [] ∧ guard.expectedRevision = ⟨.github, env.published⟩ ∧
      clone.head = guard.expectedRevision.id ∧ filesMatch hash (pendingChanges clone.copy lib) guard = true ∧
      (commits, head) = clone.commit) := by
  simp only [prepare] at h
  split at h
  next hnil =>
    cases h
    exact Or.inl ⟨hnil, rfl⟩
  next hne =>
    split at h
    · cases h
    next hrev =>
    split at h
    · cases h
    next hhead =>
    split at h
    · cases h
    next hmatch =>
    split at h
    · cases h
    · injection h with h
      exact Or.inr ⟨hne, not_not.1 hrev, not_not.1 hhead, by simpa using hmatch, h.symm⟩

theorem publish_ok {commits : List Commit} {head : Nat} {result : Publication}
    (h : publish hash diff guard env commits head = .ok result) :
    ∃ c base, commits[head]? = some c ∧ commits[guard.expectedRevision.id]? = some base ∧
      c.parents = [guard.expectedRevision.id] ∧
      filesMatch hash (revisionChanges diff base.tree c.tree) guard = true ∧
      result.commits = commits ++ env.others ∧ result.head = head ∧
      Dag.reaches (·.parents) result.commits result.head result.last = true ∧
      (result.pushed = true → env.published = guard.expectedRevision.id) := by
  simp only [publish] at h
  split at h
  next c base hc hbase =>
    split at h
    · cases h
    next hparents =>
    split at h
    · cases h
    next hmatch =>
    split at h
    · cases h
    next hpub =>
    split at h
    · cases h
    next hactive =>
    split at h
    · cases h
    next hlast =>
    cases h
    refine ⟨c, base, hc, hbase, not_not.1 hparents, by simpa using hmatch, rfl, rfl, by simpa using hlast, ?_⟩
    intro hpushed
    simp only [Bool.and_eq_true, Bool.not_eq_true'] at hpushed
    by_contra hne
    exact hpub ⟨hne, hpushed.1.1⟩
  next => cases h

theorem Clone.parent_lt {c : Commit} {head p : Nat} (hc : clone.commits[head]? = some c) (hp : p ∈ c.parents) :
    p < head := clone.acyclic p head ⟨c, hc, hp⟩

/-- The commit that is published has the planned tree, over the base the clone has. -/
theorem published_planned {commits : List Commit} {head : Nat} {c base : Commit}
    (hprep : prepare hash lib guard env clone = .ok (commits, head)) (hc : commits[head]? = some c)
    (hbase : commits[guard.expectedRevision.id]? = some base) (hparents : c.parents = [guard.expectedRevision.id]) :
    clone.planned lib = some c.tree ∧ clone.commits[guard.expectedRevision.id]? = some base := by
  rcases prepare_ok hprep with ⟨hnil, heq⟩ | ⟨hne, -, hhead, -, heq⟩
  · cases heq
    rw [Clone.planned, if_pos hnil, hc]
    exact ⟨rfl, hbase⟩
  · simp only [Clone.commit] at heq
    split at heq
    · -- Nothing was committed, so the head would be its own parent.
      exfalso
      cases heq
      rw [hhead] at hc
      have hlt := clone.parent_lt hc (p := guard.expectedRevision.id) (by rw [hparents]; exact List.mem_cons_self)
      omega
    · cases heq
      rw [List.getElem?_append_right (Nat.le_refl _), Nat.sub_self, List.getElem?_cons_zero, Option.some.injEq] at hc
      subst hc
      rw [Clone.planned, if_neg hne]
      refine ⟨rfl, ?_⟩
      obtain ⟨b, hb, -⟩ := clone.head_ok
      have hlt : guard.expectedRevision.id < clone.commits.length := by
        rw [← hhead]
        exact (List.getElem?_eq_some_iff.1 hb).1
      rwa [List.getElem?_append_left hlt] at hbase

/-- What a call that returns is to have published. -/
structure Published (hash : Text → String) (guard : Guard) (env : Environment) (result : Publication) : Prop where
  exact_ : ∃ c base, result.commits[result.head]? = some c ∧
    result.commits[guard.expectedRevision.id]? = some base ∧ c.parents = [guard.expectedRevision.id] ∧
    MatchesPlan hash guard base.tree c.tree
  /-- The branch contains the commit. -/
  contained : Dag.Reachable (·.parents) result.commits result.head result.last
  /-- What a push sends besides the commit was published when the call began. -/
  alone : result.pushed = true → ∀ n, Dag.Reachable (·.parents) result.commits n result.head →
    n = result.head ∨ Dag.Reachable (·.parents) result.commits n env.published

/-- Nothing between the base and the planned tree is taken for a rename. -/
def RenameFree (lib : StatusLibrary) (diff : DiffLibrary) (guard : Guard) (clone : Clone) : Prop :=
  ∀ base target, clone.commits[guard.expectedRevision.id]? = some base → clone.planned lib = some target →
    diff.renames base.tree target = []

theorem published_iff {result : Publication}
    (h : publishGuardedFiling hash lib diff guard env clone = .ok result) :
    Published hash guard env result ↔ RenameFree lib diff guard clone ∧ guard.keys ≠ [[]] := by
  simp only [publishGuardedFiling, bind, Except.bind] at h
  split at h
  · cases h
  next prepared hprep =>
  obtain ⟨commits, head⟩ := prepared
  obtain ⟨c, base, hc, hbase, hparents, hmatch, hcommits, hhead, hreach, hpub⟩ := publish_ok h
  obtain ⟨hplanned, hcbase⟩ := published_planned hprep hc hbase hparents
  have hlook : ∀ {n : Nat} {x : Commit}, commits[n]? = some x → result.commits[n]? = some x := by
    intro n x hx
    rw [hcommits, List.getElem?_append_left (List.getElem?_eq_some_iff.1 hx).1, hx]
  have hexact : MatchesPlan hash guard base.tree c.tree ↔ RenameFree lib diff guard clone ∧ guard.keys ≠ [[]] := by
    rw [matchesPlan_iff hmatch]
    refine and_congr_left fun _ => ⟨fun hfree b t hb ht => ?_, fun hfree => hfree base c.tree hcbase hplanned⟩
    rw [hcbase] at hb
    rw [hplanned] at ht
    cases hb
    cases ht
    exact hfree
  rw [← hexact]
  constructor
  · intro hpublished
    obtain ⟨c', base', hc', hbase', -, hplan⟩ := hpublished.exact_
    rw [hhead, hlook hc] at hc'
    rw [hlook hbase] at hbase'
    cases hc'
    cases hbase'
    exact hplan
  · intro hplan
    refine ⟨⟨c, base, by rw [hhead]; exact hlook hc, hlook hbase, hparents, hplan⟩, Dag.reachesIn_sound hreach, ?_⟩
    intro hpushed n hn
    rcases Dag.reachable_iff.1 hn with heq | ⟨p, ⟨x, hx, hp⟩, hnp⟩
    · exact Or.inl heq
    · rw [hhead, hlook hc] at hx
      cases hx
      have hp' : p ∈ c.parents := hp
      rw [hparents] at hp'
      obtain rfl := List.mem_singleton.1 hp'
      exact Or.inr (by rw [hpub hpushed]; exact hnp)

/-! ## Calls whose plan is pending -/

/-- The plan is what the working copy changes, on the published revision, and no one else publishes. -/
structure Ready (hash : Text → String) (guard : Guard) (env : Environment) (clone : Clone) : Prop where
  revision : guard.expectedRevision = ⟨.github, env.published⟩
  head : clone.head = guard.expectedRevision.id
  plan : ∀ p, clone.copy.head p ≠ clone.copy.commit p ↔ p ∈ guard.keys
  hashes : ∀ p ∈ guard.keys, guard.expected p = some (publicationContentHash hash (clone.copy.commit p))
  receipt : guard.HasReceipt
  active : env.firstActive = true ∧ env.secondActive = true
  alone : env.others = [] ∧ env.atPush = env.published ∧ env.arrives = true ∧ env.after = id

theorem Ready.keys_ne (h : Ready hash guard env clone) : guard.keys ≠ [[]] := by
  intro hnil
  have hmem : [] ∈ guard.keys := by rw [hnil]; exact List.mem_cons_self
  exact (h.plan []).2 hmem (by
    obtain ⟨hhead, -, hwork⟩ := clone.copy.supported [] clone.named
    rw [hhead, WorkingCopy.commit, hwork])

/-- What the working copy changes is the plan, as a pair of trees. -/
theorem Ready.matchesPlan (h : Ready hash guard env clone) {base : FileTree}
    (hbase : base.text = clone.copy.head) : MatchesPlan hash guard base clone.workTree := by
  refine ⟨fun p => ?_, h.hashes⟩
  rw [hbase]
  exact h.plan p

theorem Ready.commit_eq (h : Ready hash guard env clone) : clone.commit =
    (clone.commits ++ [{ parents := [clone.head], tree := clone.workTree }], clone.commits.length) := by
  have hdiffers := (h.plan guard.receiptPath).2 h.receipt.mem_keys
  have hnot : ¬(clone.copy.paths.all fun p => clone.copy.head p = clone.copy.work p) = true := by
    intro hall
    have heq := List.all_eq_true.1 hall _ (WorkingCopy.mem_paths hdiffers)
    exact hdiffers (of_decide_eq_true heq)
  rw [Clone.commit, if_neg hnot]

/-- The commit of a ready clone is pushed and found on the branch. -/
theorem Ready.publish_isOk (h : Ready hash guard env clone)
    (hfree : ∀ base, clone.commits[guard.expectedRevision.id]? = some base →
      diff.renames base.tree clone.workTree = []) :
    ∃ result, publish hash diff guard env
      (clone.commits ++ [{ parents := [clone.head], tree := clone.workTree }]) clone.commits.length = .ok result := by
  obtain ⟨base, hbase, htext⟩ := clone.head_ok
  have hpub : env.published = guard.expectedRevision.id := by rw [h.revision]
  rw [h.head] at hbase
  have hlt : guard.expectedRevision.id < clone.commits.length := (List.getElem?_eq_some_iff.1 hbase).1
  generalize hnodes : clone.commits ++ [({ parents := [clone.head], tree := clone.workTree } : Commit)] = commits
  have hc : commits[clone.commits.length]? = some { parents := [clone.head], tree := clone.workTree } := by
    rw [← hnodes, List.getElem?_append_right (Nat.le_refl _), Nat.sub_self]
    rfl
  have hb : commits[guard.expectedRevision.id]? = some base := by
    rw [← hnodes, List.getElem?_append_left hlt, hbase]
  have hacyclic : Dag.Acyclic (·.parents) commits := by
    rw [← hnodes]
    refine clone.acyclic.concat fun p hp => ?_
    obtain rfl := List.mem_singleton.1 hp
    rw [h.head]
    exact hlt
  -- The diff of the commit lists the plan.
  have hplan := h.matchesPlan htext
  have hmatch : filesMatch hash (revisionChanges diff base.tree clone.workTree) guard = true := by
    have hlists : ∀ p, p ∈ nameOnly diff base.tree clone.workTree ↔ p ∈ guard.keys := by
      intro p
      rw [← nameOnly_all_iff.2 (hfree base hbase) p, hplan.1 p]
    refine filesMatch_of_perm h.receipt ?_ ?_
    · rw [revisionChanges_paths]
      exact (List.perm_ext_iff_of_nodup (nameOnly_nodup _ _) guard.keys_nodup).2 hlists
    · intro change hchange
      obtain ⟨p, hp, rfl⟩ := mem_revisionChanges.1 hchange
      exact ⟨hplan.2 p ((hlists p).1 hp), fun _ => (mem_nameOnly.1 hp).1⟩
  have hnew : Dag.reaches (·.parents) commits clone.commits.length guard.expectedRevision.id = false := by
    rw [Bool.eq_false_iff]
    intro hreach
    have hle := Dag.Reachable.le hacyclic (Dag.reachesIn_sound hreach)
    omega
  have hff : Dag.reaches (·.parents) commits guard.expectedRevision.id clone.commits.length = true := by
    rw [Dag.reaches_iff hacyclic, Dag.reachable_iff]
    refine Or.inr ⟨guard.expectedRevision.id, ⟨_, hc, ?_⟩, Relation.ReflTransGen.refl⟩
    rw [h.head]
    exact List.mem_cons_self
  obtain ⟨hothers, hatPush, harrives, hafter⟩ := h.alone
  refine ⟨{ commits := commits, head := clone.commits.length, last := clone.commits.length, pushed := true }, ?_⟩
  simp only [publish, hc, hb, h.head, hmatch, hnew, hothers, hatPush, harrives, hafter, h.active.2, hff, hpub,
    List.append_nil, ne_eq, not_true_eq_false, false_and, if_false, Bool.true_eq_false, and_false, Bool.not_false,
    Bool.and_self, id_eq, cond_true, Dag.reaches_self]
  rfl

/-- **A ready call returns** exactly when the pending changes match its plan and nothing in them is a rename. -/
theorem Ready.returns_iff (h : Ready hash guard env clone) :
    (∃ result, publishGuardedFiling hash lib diff guard env clone = .ok result) ↔
      filesMatch hash (pendingChanges clone.copy lib) guard = true ∧ RenameFree lib diff guard clone := by
  obtain ⟨base, hbase, htext⟩ := clone.head_ok
  rw [h.head] at hbase
  constructor
  · intro hok
    obtain ⟨result, hok⟩ := hok
    have hpublished := (published_iff hok).2
    simp only [publishGuardedFiling, bind, Except.bind] at hok
    split at hok
    · cases hok
    next prepared hprep =>
    obtain ⟨commits, head⟩ := prepared
    obtain ⟨c, b, hc, hb, hparents, hmatch, -⟩ := publish_ok hok
    obtain ⟨hplanned, hcbase⟩ := published_planned hprep hc hb hparents
    rw [hbase] at hcbase
    cases hcbase
    rcases prepare_ok hprep with ⟨-, heq⟩ | ⟨hne, -, -, hpending, -⟩
    · -- A prepared commit on the base would be the base.
      exfalso
      cases heq
      rw [h.head] at hc
      have hlt := clone.parent_lt hc (p := guard.expectedRevision.id) (by rw [hparents]; exact List.mem_cons_self)
      omega
    · refine ⟨hpending, fun b' target hb' htarget => ?_⟩
      rw [hbase] at hb'
      cases hb'
      rw [Clone.planned, if_neg hne] at htarget hplanned
      cases htarget
      have htree : clone.workTree = c.tree := Option.some.inj hplanned
      rw [← htree] at hmatch
      exact ((matchesPlan_iff hmatch).1 (h.matchesPlan htext)).1
  · intro hcond
    obtain ⟨hpending, hfree⟩ := hcond
    have hne : pendingChanges clone.copy lib ≠ [] := by
      intro hnil
      rw [hnil] at hpending
      have hperm := filesMatch_perm hpending List.nodup_nil h.keys_ne
      have hmem := hperm.mem_iff.2 h.receipt.mem_keys
      cases hmem
    have hprep : prepare hash lib guard env clone = .ok clone.commit := by
      simp only [prepare, if_neg hne, h.revision, h.head, hpending, h.active.1, ne_eq, not_true_eq_false, if_false,
        Bool.true_eq_false]
      rfl
    have hall : ∀ b, clone.commits[guard.expectedRevision.id]? = some b →
        diff.renames b.tree clone.workTree = [] := by
      intro b hb
      refine hfree b clone.workTree hb ?_
      rw [Clone.planned, if_neg hne]
    obtain ⟨result, hresult⟩ := h.publish_isOk hall
    refine ⟨result, ?_⟩
    rw [publishGuardedFiling, hprep, h.commit_eq]
    exact hresult

/-- **Main result.** For every clone, remote, plan and run of the call: if it returns, it has published a
commit on the expected revision that changes exactly the plan, and nothing else, if and only if git takes
nothing between the base and the published tree for a rename (and the plan is not the empty path alone); and
when the plan is what the working copy changes, on the published revision with no one else publishing, the
call returns if and only if status lists the plan and git takes nothing for a rename. -/
theorem guarded_publication_iff (hash : Text → String) (lib : StatusLibrary) (diff : DiffLibrary) (guard : Guard)
    (env : Environment) (clone : Clone) :
    (∀ result, publishGuardedFiling hash lib diff guard env clone = .ok result →
      (Published hash guard env result ↔ RenameFree lib diff guard clone ∧ guard.keys ≠ [[]])) ∧
    (Ready hash guard env clone →
      ((∃ result, publishGuardedFiling hash lib diff guard env clone = .ok result) ↔
        filesMatch hash (pendingChanges clone.copy lib) guard = true ∧ RenameFree lib diff guard clone)) :=
  ⟨fun _ h => published_iff h, fun h => h.returns_iff⟩

/-! ## A plan that deletes one file and creates one like it -/

def filesOf (files : List (Text × Text)) : Tree := fun p => (files.find? (·.1 = p)).map (·.2)

theorem filesOf_none {files : List (Text × Text)} {p : Text} (h : p ∉ files.map (·.1)) : filesOf files p = none := by
  rw [filesOf, Option.map_eq_none_iff, List.find?_eq_none]
  intro e he heq
  exact h (List.mem_map.2 ⟨e, he, of_decide_eq_true heq⟩)

/-- Renames without an edit: a deleted file and a created one of the same text. -/
def exactRenames : DiffLibrary where
  renames a b := a.paths.filterMap fun p =>
    if (a.text p).isSome ∧ b.text p = none then
      (b.paths.find? fun q => a.text q = none ∧ b.text q = a.text p).map fun q => (p, q)
    else none
  renames_ok := by
    intro a b r hr
    obtain ⟨p, -, hp⟩ := List.mem_filterMap.1 hr
    split at hp
    next hdeleted =>
      obtain ⟨q, hq, rfl⟩ := Option.map_eq_some_iff.1 hp
      have hfound : a.text q = none ∧ b.text q = a.text p := by simpa using List.find?_some hq
      exact ⟨hdeleted.1, hdeleted.2, hfound.1, by rw [hfound.2]; exact hdeleted.1⟩
    next => cases hp

def notePath : Text := "Notes/A.md".toList
def movedPath : Text := "Notes/B.md".toList
def receiptPath : Text := "Inbox/filing-1.json".toList

def baseFiles : List (Text × Text) := [(notePath, "a".toList)]
def movedFiles : List (Text × Text) := [(movedPath, "a".toList), (receiptPath, "r".toList)]

def sampleTree (files : List (Text × Text)) (h : [] ∉ files.map (·.1)) : FileTree where
  paths := files.map (·.1)
  text := filesOf files
  supported _ hp := filesOf_none hp
  named := h

/-- Nothing staged: the note was deleted, its like and the receipt are untracked. -/
def movedCopy : WorkingCopy where
  paths := [notePath, movedPath, receiptPath]
  head := filesOf baseFiles
  index := filesOf baseFiles
  work := filesOf movedFiles
  renames := []
  nodup := by decide
  supported := by
    intro p hp
    simp only [List.mem_cons, List.not_mem_nil, or_false, not_or] at hp
    have hbase : p ∉ baseFiles.map (·.1) := by simp [baseFiles, hp.1]
    have hmoved : p ∉ movedFiles.map (·.1) := by simp [movedFiles, hp.2.1, hp.2.2]
    rw [filesOf_none hbase, filesOf_none hmoved]
    exact ⟨rfl, rfl, rfl⟩
  renames_ok := by intro r hr; cases hr

def movedClone : Clone where
  commits := [{ parents := [], tree := sampleTree baseFiles (by decide) }]
  head := 0
  copy := movedCopy
  acyclic := by
    intro a b hab
    obtain ⟨c, hc, ha⟩ := hab
    obtain rfl := List.mem_singleton.1 (List.mem_of_getElem? hc)
    cases ha
  head_ok := ⟨_, rfl, rfl⟩
  named := by decide

def sampleHash (content : Text) : String := String.ofList ('#' :: content)

def movedGuard : Guard where
  expectedRevision := ⟨.github, 0⟩
  receiptPath := receiptPath
  expectedFiles := [(notePath, none), (movedPath, some "#a"), (receiptPath, some "#r")]
  keys_nodup := by decide

def aloneOn (published : Nat) : Environment where
  published := published
  atPush := published

theorem movedClone_ready : Ready sampleHash movedGuard (aloneOn 0) movedClone where
  revision := rfl
  head := rfl
  plan := by
    intro p
    have hkeys : movedGuard.keys = [notePath, movedPath, receiptPath] := rfl
    rw [hkeys]
    by_cases hp : p ∈ [notePath, movedPath, receiptPath]
    · refine ⟨fun _ => hp, fun _ => ?_⟩
      simp only [List.mem_cons, List.not_mem_nil, or_false] at hp
      rcases hp with rfl | rfl | rfl <;> decide
    · refine ⟨fun h => absurd (WorkingCopy.mem_paths h) hp, fun h => absurd h hp⟩
  hashes := by decide
  receipt := ⟨"#r", by decide, by decide⟩
  active := ⟨rfl, rfl⟩
  alone := ⟨rfl, rfl, rfl, rfl⟩

/-- The commit that moves the note, already prepared, and a plan that does not mention the note. -/
def preparedClone : Clone where
  commits := [{ parents := [], tree := sampleTree baseFiles (by decide) },
    { parents := [0], tree := sampleTree movedFiles (by decide) }]
  head := 1
  copy :=
    { paths := movedFiles.map (·.1), head := filesOf movedFiles, index := filesOf movedFiles,
      work := filesOf movedFiles, renames := [], nodup := by decide,
      supported := fun p hp => by rw [filesOf_none hp]; exact ⟨rfl, rfl, rfl⟩,
      renames_ok := by intro r hr; cases hr }
  acyclic := by
    intro a b hab
    obtain ⟨c, hc, ha⟩ := hab
    match b, hc with
    | 0, hc =>
      cases hc
      cases ha
    | 1, hc =>
      cases hc
      obtain rfl := List.mem_singleton.1 ha
      decide
  head_ok := ⟨_, rfl, rfl⟩
  named := by decide

def partialGuard : Guard where
  expectedRevision := ⟨.github, 0⟩
  receiptPath := receiptPath
  expectedFiles := [(movedPath, some "#a"), (receiptPath, some "#r")]
  keys_nodup := by decide

def editedFiles : List (Text × Text) := [(notePath, "b".toList), (receiptPath, "r".toList)]

/-- The note edited and the receipt written, nothing staged. -/
def editedClone : Clone where
  commits := movedClone.commits
  head := 0
  copy :=
    { paths := [notePath, receiptPath], head := filesOf baseFiles, index := filesOf baseFiles,
      work := filesOf editedFiles, renames := [], nodup := by decide,
      supported := by
        intro p hp
        simp only [List.mem_cons, List.not_mem_nil, or_false, not_or] at hp
        have hbase : p ∉ baseFiles.map (·.1) := by simp [baseFiles, hp.1]
        have hedited : p ∉ editedFiles.map (·.1) := by simp [editedFiles, hp.1, hp.2]
        rw [filesOf_none hbase, filesOf_none hedited]
        exact ⟨rfl, rfl, rfl⟩
      renames_ok := by intro r hr; cases hr }
  acyclic := movedClone.acyclic
  head_ok := ⟨_, rfl, rfl⟩
  named := by decide

def editedGuard : Guard where
  expectedRevision := ⟨.github, 0⟩
  receiptPath := receiptPath
  expectedFiles := [(notePath, some "#b"), (receiptPath, some "#r")]
  keys_nodup := by decide

theorem editedClone_ready : Ready sampleHash editedGuard (aloneOn 0) editedClone where
  revision := rfl
  head := rfl
  plan := by
    intro p
    have hkeys : editedGuard.keys = [notePath, receiptPath] := rfl
    rw [hkeys]
    by_cases hp : p ∈ [notePath, receiptPath]
    · refine ⟨fun _ => hp, fun _ => ?_⟩
      simp only [List.mem_cons, List.not_mem_nil, or_false] at hp
      rcases hp with rfl | rfl <;> decide
    · refine ⟨fun h => absurd (WorkingCopy.mem_paths h) hp, fun h => absurd h hp⟩
  hashes := by decide
  receipt := ⟨"#r", by decide, by decide⟩
  active := ⟨rfl, rfl⟩
  alone := ⟨rfl, rfl, rfl, rfl⟩

theorem guarded_publication_edit : ∃ result,
    publishGuardedFiling sampleHash simpleGit exactRenames editedGuard (aloneOn 0) editedClone = .ok result ∧
      Published sampleHash editedGuard (aloneOn 0) result := by
  have hfree : RenameFree simpleGit exactRenames editedGuard editedClone := by
    intro base target hbase htarget
    cases hbase
    cases htarget
    decide
  have h := guarded_publication_iff sampleHash simpleGit exactRenames editedGuard (aloneOn 0) editedClone
  obtain ⟨result, hresult⟩ := (h.2 editedClone_ready).2 ⟨by decide, hfree⟩
  exact ⟨result, hresult, (h.1 result hresult).2 ⟨hfree, by decide⟩⟩

/-- **Neither half holds of a rename.** The plan that deletes a note and creates its like is pending, and the
call refuses it after the commit; the plan that leaves the deletion out is published with the deletion. -/
theorem rename_defeats_plan :
    (Ready sampleHash movedGuard (aloneOn 0) movedClone ∧
      publishGuardedFiling sampleHash simpleGit exactRenames movedGuard (aloneOn 0) movedClone = .error .conflict) ∧
    ∃ result, publishGuardedFiling sampleHash simpleGit exactRenames partialGuard (aloneOn 0) preparedClone =
        .ok result ∧ ¬Published sampleHash partialGuard (aloneOn 0) result := by
  refine ⟨⟨movedClone_ready, rfl⟩, _, rfl, fun h => ?_⟩
  have hreturns : publishGuardedFiling sampleHash simpleGit exactRenames partialGuard (aloneOn 0) preparedClone =
      .ok _ := rfl
  obtain ⟨hfree, -⟩ := (published_iff hreturns).1 h
  exact absurd (hfree _ _ rfl rfl) (by decide)

end Zenod.Git
