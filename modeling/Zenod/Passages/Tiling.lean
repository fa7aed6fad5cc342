/-
The windows of a source (`sourceWindows`) against the source itself.

`passagesFrom_cut`: the passages of the segments tile the range.
`addPassage_grouped`: groups keep all passages in order and stay short.
`sourceWindows_spec`: the windows tile the range, each one's own passages tile
the window, and only the passages beside it are added.
-/
import Zenod.Passages.Windows

namespace Zenod.Passages

open Zenod.Units

variable {content digest : Units}

/-! ## Passages -/

/-- What a passage covers. -/
def SourcePassage.extent (p : SourcePassage) : Int × Int := (p.start, p.stop)

/-- A passage ends before another starts, and both cover something. -/
def Ahead (p q : SourcePassage) : Prop := p.start < p.stop ∧ p.stop ≤ q.start ∧ q.start < q.stop

theorem passageId_inj {start stop start' stop' : Nat} (h : passageId digest start stop = passageId digest start' stop') :
    start = start' := by
  unfold passageId at h
  simp only [List.append_assoc] at h
  have htail := List.append_cancel_left (List.append_cancel_left (List.append_cancel_left h))
  -- No numeral has a hyphen, so the first one ends the first numeral.
  have hcut : ∀ n (rest : Units), (base36 n ++ ([0x2d] ++ rest)).takeWhile (· ≠ 0x2d) = base36 n := fun n rest => by
    rw [List.takeWhile_append_of_pos]
    · simp
    · intro u hu
      have hne : u ≠ 0x2d := fun heq => hyphen_not_mem_base36 n (heq ▸ hu)
      simpa using hne
  have htaken := congrArg (List.takeWhile (· ≠ 0x2d)) htail
  rw [hcut, hcut] at htaken
  exact base36_inj htaken

/-- What holds of each passage of a source: its text stands at its offsets, and its id names them. -/
structure Genuine (content digest : Units) (p : SourcePassage) : Prop where
  start_nonneg : 0 ≤ p.start
  inside : p.stop ≤ content.length
  text : p.text = slice content p.start.toNat p.stop.toNat
  id : p.id = passageId digest p.start.toNat p.stop.toNat
  size : p.stop - p.start ≤ passageChars

/-- **The passages of consecutive texts tile what the texts cover.** -/
theorem passagesFrom_tiles (digest : Units) (offset : Nat) (texts : List Units) :
    Tiles offset (offset + texts.flatten.length : Nat) ((passagesFrom digest offset texts).map (·.extent)) := by
  induction texts generalizing offset with
  | nil => rfl
  | cons text texts ih =>
    have hrest := ih (offset + text.length)
    rw [Nat.add_assoc, ← List.length_append] at hrest
    refine ⟨rfl, ?_, hrest⟩
    simp only [SourcePassage.extent]
    omega

theorem passagesFrom_genuine {offset : Nat} {texts : List Units} (hsize : ∀ text ∈ texts, text.length ≤ passageChars)
    (hcontent : ∃ a b, content = a ++ (texts.flatten ++ b) ∧ a.length = offset) :
    ∀ p ∈ passagesFrom digest offset texts, Genuine content digest p := by
  induction texts generalizing offset with
  | nil => simp [passagesFrom]
  | cons text texts ih =>
    obtain ⟨a, b, rfl, rfl⟩ := hcontent
    intro p hp
    rcases List.mem_cons.1 hp with rfl | hp
    · have htext : slice (a ++ ((text :: texts).flatten ++ b)) a.length (a.length + text.length) = text := by
        rw [List.flatten_cons, List.append_assoc, slice_parts]
      have hlength := hsize text List.mem_cons_self
      refine ⟨Int.natCast_nonneg _, ?_, htext.symm, rfl, ?_⟩
      · simp only [List.flatten_cons, List.length_append]
        omega
      · simp only
        omega
    · have hrest : ∃ a' b', a ++ ((text :: texts).flatten ++ b) = a' ++ (texts.flatten ++ b') ∧
          a'.length = a.length + text.length :=
        ⟨a ++ text, b, by simp, by simp⟩
      exact ih (fun t ht => hsize t (List.mem_cons_of_mem _ ht)) hrest p hp

theorem passagesFrom_proper {offset : Nat} {texts : List Units} (hnonempty : ∀ text ∈ texts, text ≠ []) :
    ∀ p ∈ passagesFrom digest offset texts, p.start < p.stop := by
  induction texts generalizing offset with
  | nil => simp [passagesFrom]
  | cons text texts ih =>
    intro p hp
    rcases List.mem_cons.1 hp with rfl | hp
    · have hpos := List.length_pos_iff.2 (hnonempty text List.mem_cons_self)
      simp only
      omega
    · exact ih (fun t ht => hnonempty t (List.mem_cons_of_mem _ ht)) p hp

/-- Passages of one range, cut out of the source. -/
structure Cut (content digest : Units) (start stop : Int) (passages : List SourcePassage) : Prop where
  nonempty : passages ≠ []
  tiles : Tiles start stop (passages.map (·.extent))
  genuine : ∀ p ∈ passages, Genuine content digest p
  ahead : passages.Pairwise Ahead

theorem ahead_of_tiles {start stop : Int} {passages : List SourcePassage} (htiles : Tiles start stop (passages.map (·.extent)))
    (hproper : ∀ p ∈ passages, p.start < p.stop) : passages.Pairwise Ahead := by
  have hpairs := List.pairwise_map.1 htiles.pairwise
  exact List.Pairwise.imp_of_mem (fun hp hq hle => ⟨hproper _ hp, hle, hproper _ hq⟩) hpairs

theorem segment_length {t s : Units} (hs : s ∈ segmentLongMemoryContent t passageChars (by decide)) : s.length ≤ passageChars := by
  by_cases ht : t = []
  · rw [segmentLongMemoryContent, if_pos (.inl ht), List.mem_singleton] at hs
    rw [hs, ht]
    exact Nat.zero_le _
  · exact (segments_spec ht (by decide)).size s hs

theorem segments_flatten (t : Units) : (segmentLongMemoryContent t passageChars (by decide)).flatten = t := by
  by_cases ht : t = []
  · rw [segmentLongMemoryContent, if_pos (.inl ht)]
    simp
  · exact (segments_spec ht (by decide)).flatten

/-- **The passages of a range.** -/
theorem passagesFrom_cut {i j : Nat} (hij : i ≤ j) (hj : j ≤ content.length) :
    Cut content digest i j (passagesFrom digest i (segmentLongMemoryContent (slice content i j) passageChars (by decide))) := by
  have hflatten := segments_flatten (slice content i j)
  obtain ⟨hparts, hfront, hmiddle⟩ := split_slice hij hj
  have hparts' : ∃ a b, content =
      a ++ ((segmentLongMemoryContent (slice content i j) passageChars (by decide)).flatten ++ b) ∧ a.length = i :=
    ⟨content.take i, content.drop j, by rw [hflatten]; exact hparts, hfront⟩
  have htiles := passagesFrom_tiles digest i (segmentLongMemoryContent (slice content i j) passageChars (by decide))
  rw [hflatten, hmiddle, Nat.add_sub_cancel' hij] at htiles
  refine ⟨?_, htiles, passagesFrom_genuine (fun _ => segment_length) hparts', ?_⟩
  · intro hnil
    cases hsegments : segmentLongMemoryContent (slice content i j) passageChars (by decide) with
    | nil =>
      unfold segmentLongMemoryContent at hsegments
      split at hsegments
      next => cases hsegments
      next hlong =>
        have hempty := @flatten_segmentsFrom (slice content i j) passageChars (by decide) 0
        rw [hsegments, List.drop_zero] at hempty
        exact hlong (.inl hempty.symm)
    | cons s segments =>
      rw [hsegments] at hnil
      cases hnil
  · by_cases hblank : slice content i j = []
    · rw [segmentLongMemoryContent, if_pos (.inl hblank)]
      exact List.pairwise_singleton _ _
    · exact ahead_of_tiles htiles (passagesFrom_proper (segments_spec hblank (by decide)).nonempty)

theorem semanticBounds_order {semanticRange : Option Range} {bounds : Range} (h : semanticBounds content semanticRange = some bounds) :
    0 ≤ bounds.start ∧ bounds.start ≤ bounds.stop ∧ bounds.stop ≤ content.length := by
  unfold semanticBounds at h
  simp only at h
  split at h
  next => cases h
  next hvalid =>
    rw [← Option.some.inj h]
    simp only [not_or] at hvalid
    omega

/-! ## Groups -/

/-- Groups of passages, none of them empty or too long. -/
structure Grouped (passages : List SourcePassage) (groups : List (List SourcePassage)) : Prop where
  flatten : groups.flatten = passages
  nonempty : ∀ group ∈ groups, group ≠ []
  size : ∀ group ∈ groups, stopOf group - startOf group ≤ longMemorySegmentChars

variable {passages : List SourcePassage} {groups : List (List SourcePassage)} {passage : SourcePassage}

/-- **One passage more.** -/
theorem addPassage_grouped (h : Grouped passages groups) (hsize : passage.stop - passage.start ≤ passageChars) :
    Grouped (passages ++ [passage]) (addPassage groups passage) := by
  have hsingle : Grouped (passages ++ [passage]) (groups ++ [[passage]]) := by
    refine ⟨by rw [List.flatten_append, h.flatten]; rfl, ?_, ?_⟩
    · intro group hgroup
      rcases List.mem_append.1 hgroup with hgroup | hgroup
      · exact h.nonempty group hgroup
      · rw [List.mem_singleton.1 hgroup]
        exact List.cons_ne_nil _ _
    · intro group hgroup
      rcases List.mem_append.1 hgroup with hgroup | hgroup
      · exact h.size group hgroup
      · rw [List.mem_singleton.1 hgroup]
        simp only [stopOf, startOf, List.getLast?_singleton, List.head?_cons, Option.map_some, Option.getD_some, passageChars,
          longMemorySegmentChars] at hsize ⊢
        omega
  unfold addPassage
  split
  next => exact hsingle
  next last hlast =>
    split
    next => exact hsingle
    next hfits =>
      obtain ⟨front, rfl⟩ := List.getLast?_eq_some_iff.1 hlast
      have hne := h.nonempty last (by simp)
      rw [List.dropLast_concat]
      refine ⟨?_, ?_, ?_⟩
      · rw [← h.flatten]
        simp
      · intro group hgroup
        rcases List.mem_append.1 hgroup with hgroup | hgroup
        · exact h.nonempty group (List.mem_append_left _ hgroup)
        · rw [List.mem_singleton.1 hgroup]
          simp
      · intro group hgroup
        rcases List.mem_append.1 hgroup with hgroup | hgroup
        · exact h.size group (List.mem_append_left _ hgroup)
        · rw [List.mem_singleton.1 hgroup]
          have hstart : startOf (last ++ [passage]) = startOf last := by
            unfold startOf
            rw [List.head?_append_of_ne_nil _ hne]
          have hstop : stopOf (last ++ [passage]) = passage.stop := by simp [stopOf]
          rw [hstart, hstop]
          omega

theorem grouped_foldl (hsize : ∀ p ∈ passages, p.stop - p.start ≤ passageChars) {done : List SourcePassage}
    (h : Grouped done groups) : Grouped (done ++ passages) (passages.foldl addPassage groups) := by
  induction passages generalizing done groups with
  | nil => simpa using h
  | cons p rest ih =>
    have hnext := ih (fun q hq => hsize q (List.mem_cons_of_mem _ hq)) (addPassage_grouped h (hsize p List.mem_cons_self))
    rwa [List.append_assoc] at hnext

/-- A group runs from where its first passage starts to where its last one stops. -/
theorem group_ends {start stop : Int} {group : List SourcePassage} (hne : group ≠ []) (h : Tiles start stop (group.map (·.extent))) :
    startOf group = start ∧ stopOf group = stop := by
  constructor
  · cases group with
    | nil => exact absurd rfl hne
    | cons p rest => exact h.1
  · rw [← List.dropLast_concat_getLast hne, List.map_append] at h
    obtain ⟨middle, -, hlast⟩ := h.split
    rw [stopOf, List.getLast?_eq_some_getLast hne]
    exact hlast.2.2

theorem groups_tile {start stop : Int} (hne : ∀ group ∈ groups, group ≠ [])
    (h : Tiles start stop (groups.flatten.map (·.extent))) :
    Tiles start stop (groups.map fun group => (startOf group, stopOf group)) ∧
      ∀ group ∈ groups, Tiles (startOf group) (stopOf group) (group.map (·.extent)) := by
  induction groups generalizing start with
  | nil => exact ⟨h, by simp⟩
  | cons group groups ih =>
    rw [List.flatten_cons, List.map_append] at h
    obtain ⟨middle, hfirst, hrest⟩ := h.split
    obtain ⟨hstart, hstop⟩ := group_ends (hne group List.mem_cons_self) hfirst
    obtain ⟨htiles, hgroups⟩ := ih (fun g hg => hne g (List.mem_cons_of_mem _ hg)) hrest
    rw [← hstart, ← hstop] at hfirst
    rw [← hstop] at htiles
    refine ⟨⟨hstart, hfirst.le, htiles⟩, fun g hg => ?_⟩
    rcases List.mem_cons.1 hg with rfl | hg
    · exact hfirst
    · exact hgroups g hg

/-! ## Windows -/

/-- `p.start >= range.start && p.end <= range.end`. -/
def inRange (range : Range) (p : SourcePassage) : Bool := range.start ≤ p.start && p.stop ≤ range.stop

/-- The passages of a window that are its own, not those beside it. -/
def owned (w : SourceWindow) : List SourcePassage := w.passages.filter (inRange w.range)

/-- The last passage in front of a window, and the first one behind it. -/
def lastBefore (windows : List SourceWindow) (i : Nat) : Option SourcePassage :=
  if i = 0 then none else windows[i - 1]?.bind fun w => (owned w).getLast?

def firstBehind (windows : List SourceWindow) (i : Nat) : Option SourcePassage :=
  windows[i + 1]?.bind fun w => (owned w).head?

theorem toList_getLast?_sublist (group : List SourcePassage) : List.Sublist group.getLast?.toList group := by
  rcases List.eq_nil_or_concat group with rfl | ⟨front, p, rfl⟩
  · exact List.Sublist.refl _
  · rw [List.concat_eq_append, List.getLast?_concat]
    exact List.sublist_append_right front [p]

theorem toList_head?_sublist (group : List SourcePassage) : List.Sublist group.head?.toList group := by
  cases group with
  | nil => exact List.Sublist.refl _
  | cons p rest => exact List.Sublist.cons_cons p (List.nil_sublist rest)

/-- A group with the passages next to it stands in the passages in order. -/
theorem beside_sublist {i : Nat} {group : List SourcePassage} (hi : groups[i]? = some group) :
    List.Sublist ((before groups i).toList ++ (group ++ (behind groups i).toList)) groups.flatten := by
  obtain ⟨hlt, hgroup⟩ := List.getElem?_eq_some_iff.1 hi
  have hsplit : groups = groups.take i ++ (group :: groups.drop (i + 1)) := by
    rw [← hgroup, List.getElem_cons_drop, List.take_append_drop]
  have hbefore : List.Sublist (before groups i).toList (groups.take i).flatten := by
    unfold before
    split
    next => exact List.nil_sublist _
    next hpos =>
      cases hprev : groups[i - 1]? with
      | none => exact List.nil_sublist _
      | some prev =>
        have hmem : prev ∈ groups.take i := List.mem_of_getElem? (i := i - 1) (by rwa [List.getElem?_take_of_lt (by omega)])
        exact (toList_getLast?_sublist prev).trans (List.sublist_flatten_of_mem hmem)
  have hbehind : List.Sublist (behind groups i).toList (groups.drop (i + 1)).flatten := by
    unfold behind
    cases hnext : groups[i + 1]? with
    | none => exact List.nil_sublist _
    | some next =>
      have hmem : next ∈ groups.drop (i + 1) := List.mem_of_getElem? (i := 0) (by rw [List.getElem?_drop]; exact hnext)
      exact (toList_head?_sublist next).trans (List.sublist_flatten_of_mem hmem)
  conv => rhs; rw [hsplit, List.flatten_append, List.flatten_cons]
  exact hbefore.append ((List.Sublist.refl group).append hbehind)

variable {start stop : Int}

/-- **A window's passages are its own with those beside it, in order.** -/
theorem windowOf_passages (hcut : Cut content digest start stop passages) (hgroups : Grouped passages groups) {i : Nat}
    {group : List SourcePassage} (hi : groups[i]? = some group) :
    (windowOf content groups group i).passages = (before groups i).toList ++ (group ++ (behind groups i).toList) := by
  have hsublist := beside_sublist hi
  rw [hgroups.flatten] at hsublist
  have hahead := hcut.ahead.sublist hsublist
  have hperm : (windowOf content groups group i).passages.Perm
      ((before groups i).toList ++ (group ++ (behind groups i).toList)) :=
    (List.perm_insertionSort _ _).trans (List.perm_append_comm_assoc _ _ _)
  have hstarts : (List.map SourcePassage.start ((before groups i).toList ++ (group ++ (behind groups i).toList))).Nodup :=
    List.pairwise_map.2 (hahead.imp fun hpq => by have := hpq.1; have := hpq.2.1; omega)
  -- No two passages start together, so there is one order.
  refine @List.Perm.eq_of_pairwise _ (fun p q => p.start ≤ q.start) _ _ ?_ (List.pairwise_insertionSort _ _)
    (hahead.imp fun hpq => by have := hpq.1; have := hpq.2.1; omega) hperm
  intro p q hp hq hle hge
  exact List.inj_on_of_nodup_map hstarts (hperm.mem_iff.1 hp) hq (le_antisymm hle hge)

/-- The window's range keeps the group's passages and no others. -/
theorem owned_windowOf (hcut : Cut content digest start stop passages) (hgroups : Grouped passages groups) {i : Nat}
    {group : List SourcePassage} (hi : groups[i]? = some group) : owned (windowOf content groups group i) = group := by
  have hsublist := beside_sublist hi
  rw [hgroups.flatten] at hsublist
  have hahead := hcut.ahead.sublist hsublist
  have htiles : ∀ g ∈ groups, Tiles (startOf g) (stopOf g) (g.map (·.extent)) :=
    (groups_tile hgroups.nonempty (by rw [hgroups.flatten]; exact hcut.tiles)).2
  have hgroup := List.mem_of_getElem? hi
  have hbounds := (htiles group hgroup).bounds
  have hne := hgroups.nonempty group hgroup
  obtain ⟨-, hrest, hfront⟩ := List.pairwise_append.1 hahead
  obtain ⟨-, -, hback⟩ := List.pairwise_append.1 hrest
  have hbefore : (before groups i).toList.filter (inRange ⟨startOf group, stopOf group⟩) = [] := by
    refine List.filter_eq_nil_iff.2 fun p hp hin => ?_
    simp only [inRange, Bool.and_eq_true, decide_eq_true_eq] at hin
    have hp' := hfront p hp (group.head hne) (List.mem_append_left _ (List.head_mem hne))
    have hstart : startOf group = (group.head hne).start := by rw [startOf, List.head?_eq_some_head hne]; rfl
    unfold Ahead at hp'
    omega
  have hbehind : (behind groups i).toList.filter (inRange ⟨startOf group, stopOf group⟩) = [] := by
    refine List.filter_eq_nil_iff.2 fun p hp hin => ?_
    simp only [inRange, Bool.and_eq_true, decide_eq_true_eq] at hin
    have hp' := hback (group.getLast hne) (List.getLast_mem hne) p hp
    have hstop : stopOf group = (group.getLast hne).stop := by rw [stopOf, List.getLast?_eq_some_getLast hne]; rfl
    unfold Ahead at hp'
    omega
  have hown : group.filter (inRange ⟨startOf group, stopOf group⟩) = group := by
    refine List.filter_eq_self.2 fun p hp => ?_
    have hinside := hbounds p.extent (List.mem_map_of_mem hp)
    simp only [inRange, Bool.and_eq_true, decide_eq_true_eq]
    exact ⟨hinside.1, hinside.2.2⟩
  rw [owned, windowOf_passages hcut hgroups hi, List.filter_append, List.filter_append]
  have hrange : (windowOf content groups group i).range = ⟨startOf group, stopOf group⟩ := rfl
  rw [hrange, hbefore, hbehind, hown, List.nil_append, List.append_nil]

/-- No two passages have one id. -/
theorem cut_ids (hcut : Cut content digest start stop passages) : (passages.map (·.id)).Nodup := by
  refine List.pairwise_map.2 (List.Pairwise.imp_of_mem ?_ hcut.ahead)
  intro p q hp hq hahead heq
  have hgenuine := hcut.genuine p hp
  have hgenuine' := hcut.genuine q hq
  rw [hgenuine.id, hgenuine'.id] at heq
  have hstarts := passageId_inj heq
  have hp0 := hgenuine.start_nonneg
  have hq0 := hgenuine'.start_nonneg
  unfold Ahead at hahead
  omega

/-- What the windows of a range are. -/
structure WindowsOf (source : Units) (bounds : Range) (windows : List SourceWindow) : Prop where
  nonempty : windows ≠ []
  tiles : Tiles bounds.start bounds.stop (windows.map fun w => (w.range.start, w.range.stop))
  size : ∀ w ∈ windows, w.range.stop - w.range.start ≤ longMemorySegmentChars
  content : ∀ w ∈ windows, w.content = slice source w.range.start.toNat w.range.stop.toNat
  owned_tiles : ∀ w ∈ windows, Tiles w.range.start w.range.stop ((owned w).map (·.extent))
  text : ∀ w ∈ windows, ∀ p ∈ w.passages, p.text = slice source p.start.toNat p.stop.toNat
  ids : ((windows.flatMap owned).map (·.id)).Nodup
  passages : ∀ i w, windows[i]? = some w →
    w.passages = (lastBefore windows i).toList ++ (owned w ++ (firstBehind windows i).toList)
  context : ∀ i w, windows[i]? = some w →
    w.context = List.intercalate [0x0a] (((lastBefore windows i).toList ++ (firstBehind windows i).toList).map (·.text))

def windowsOf (content : Units) (groups : List (List SourcePassage)) : List SourceWindow :=
  groups.zipIdx.map fun entry => windowOf content groups entry.1 entry.2

theorem windowsOf_at (i : Nat) :
    (windowsOf content groups)[i]? = groups[i]?.map fun group => windowOf content groups group i := by
  rw [windowsOf, List.getElem?_map, List.getElem?_zipIdx]
  cases groups[i]? with
  | none => rfl
  | some group => simp

theorem windowsOf_mem {w : SourceWindow} (hw : w ∈ windowsOf content groups) :
    ∃ i group, groups[i]? = some group ∧ w = windowOf content groups group i := by
  obtain ⟨i, hi⟩ := List.getElem?_of_mem hw
  rw [windowsOf_at] at hi
  obtain ⟨group, hgroup, hw⟩ := Option.map_eq_some_iff.1 hi
  exact ⟨i, group, hgroup, hw.symm⟩

/-- Each window owns its group. -/
theorem owned_windowsOf (hcut : Cut content digest start stop passages) (hgroups : Grouped passages groups) (i : Nat) :
    (windowsOf content groups)[i]?.map owned = groups[i]? := by
  rw [windowsOf_at]
  cases hi : groups[i]? with
  | none => rfl
  | some group =>
    rw [Option.map_some, Option.map_some, owned_windowOf hcut hgroups hi]

theorem windowsOf_spec (hcut : Cut content digest start stop passages) (hgroups : Grouped passages groups) :
    WindowsOf content ⟨start, stop⟩ (windowsOf content groups) := by
  have htiles := groups_tile hgroups.nonempty (by rw [hgroups.flatten]; exact hcut.tiles)
  have howned := owned_windowsOf hcut hgroups
  have hbefore : ∀ i, lastBefore (windowsOf content groups) i = before groups i := fun i => by
    unfold lastBefore before
    rw [← howned (i - 1), Option.bind_map]
    rfl
  have hbehind : ∀ i, firstBehind (windowsOf content groups) i = behind groups i := fun i => by
    unfold firstBehind behind
    rw [← howned (i + 1), Option.bind_map]
    rfl
  have hat : ∀ i w, (windowsOf content groups)[i]? = some w → ∃ group, groups[i]? = some group ∧ w = windowOf content groups group i := by
    intro i w hw
    rw [windowsOf_at] at hw
    obtain ⟨group, hgroup, hw⟩ := Option.map_eq_some_iff.1 hw
    exact ⟨group, hgroup, hw.symm⟩
  refine ⟨?_, ?_, ?_, ?_, ?_, ?_, ?_, ?_, ?_⟩
  · intro hnil
    have hnone := howned 0
    rw [hnil] at hnone
    have hgroupsNil : groups = [] := by
      cases groups with
      | nil => rfl
      | cons g rest => cases hnone
    exact hcut.nonempty (by rw [← hgroups.flatten, hgroupsNil]; rfl)
  · have hranges : (windowsOf content groups).map (fun w => (w.range.start, w.range.stop)) =
        groups.map fun group => (startOf group, stopOf group) := by
      conv => rhs; rw [← List.zipIdx_map_fst 0 groups]
      rw [windowsOf, List.map_map, List.map_map]
      rfl
    rw [hranges]
    exact htiles.1
  · intro w hw
    obtain ⟨i, group, hi, rfl⟩ := windowsOf_mem hw
    exact hgroups.size group (List.mem_of_getElem? hi)
  · intro w hw
    obtain ⟨i, group, hi, rfl⟩ := windowsOf_mem hw
    rfl
  · intro w hw
    obtain ⟨i, group, hi, rfl⟩ := windowsOf_mem hw
    rw [owned_windowOf hcut hgroups hi]
    exact htiles.2 group (List.mem_of_getElem? hi)
  · intro w hw p hp
    obtain ⟨i, group, hi, rfl⟩ := windowsOf_mem hw
    rw [windowOf_passages hcut hgroups hi] at hp
    have hmem := (beside_sublist hi).subset hp
    rw [hgroups.flatten] at hmem
    exact (hcut.genuine p hmem).text
  · have hall : (windowsOf content groups).flatMap owned = passages := by
      rw [← hgroups.flatten, List.flatMap_def]
      congr 1
      refine List.ext_getElem? fun i => ?_
      rw [List.getElem?_map, howned]
    rw [hall]
    exact cut_ids hcut
  · intro i w hw
    obtain ⟨group, hi, rfl⟩ := hat i w hw
    rw [hbefore, hbehind, owned_windowOf hcut hgroups hi, windowOf_passages hcut hgroups hi]
  · intro i w hw
    obtain ⟨group, hi, rfl⟩ := hat i w hw
    rw [hbefore, hbehind]
    rfl

/-- **The windows of every source and valid range.** -/
theorem sourceWindows_spec {hash : Units → Units} {semanticRange : Option Range} {bounds : Range} {windows : List SourceWindow}
    (hbounds : semanticBounds content semanticRange = some bounds)
    (hwindows : sourceWindows hash content semanticRange = some windows) : WindowsOf content bounds windows := by
  rw [sourceWindows, hbounds, Option.map_some] at hwindows
  obtain ⟨hstart, horder, hstop⟩ := semanticBounds_order hbounds
  have hcut := @passagesFrom_cut content (hash content) bounds.start.toNat bounds.stop.toNat (by omega) (by omega)
  rw [Int.toNat_of_nonneg hstart, Int.toNat_of_nonneg (hstart.trans horder)] at hcut
  have hnone : Grouped [] [] := ⟨rfl, by simp, by simp⟩
  have hgroups := grouped_foldl (fun p hp => (hcut.genuine p hp).size) hnone
  rw [List.nil_append] at hgroups
  rw [← Option.some.inj hwindows]
  exact windowsOf_spec hcut hgroups

/-- **Cutting a source loses nothing.** Every source and maximum has segments that are the source again, none of them
empty, too long or with half a pair; the windows of every valid range tile it, as the passages of each do the window. -/
theorem source_kept_whole (content : Units) :
    (content ≠ [] → ∀ maxChars, (hmax : 2 ≤ maxChars) →
      Segments content maxChars (segmentLongMemoryContent content maxChars hmax)) ∧
    ∀ (digest : Units → Units) semanticRange bounds, semanticBounds content semanticRange = some bounds →
      ∃ windows, sourceWindows digest content semanticRange = some windows ∧ WindowsOf content bounds windows := by
  refine ⟨fun hcontent maxChars hmax => segments_spec hcontent hmax, fun digest semanticRange bounds hbounds => ?_⟩
  obtain ⟨windows, hwindows⟩ : ∃ windows, sourceWindows digest content semanticRange = some windows :=
    Option.isSome_iff_exists.1 (by rw [sourceWindows, Option.isSome_map, hbounds]; rfl)
  exact ⟨windows, hwindows, sourceWindows_spec hbounds hwindows⟩

theorem threeLetters_kept_whole :
    Segments [0x61, 0x20, 0x63] 2 (segmentLongMemoryContent [0x61, 0x20, 0x63] 2 (by decide)) ∧
      ∃ windows, sourceWindows (fun t => t.take 2) [0x61, 0x20, 0x63] (some ⟨1, 3⟩) = some windows ∧
        WindowsOf [0x61, 0x20, 0x63] ⟨1, 3⟩ windows :=
  ⟨(source_kept_whole [0x61, 0x20, 0x63]).1 (by decide) 2 (by decide),
    (source_kept_whole [0x61, 0x20, 0x63]).2 (fun t => t.take 2) (some ⟨1, 3⟩) ⟨1, 3⟩ (by decide)⟩

end Zenod.Passages
