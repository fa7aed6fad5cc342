/-
Following `nextCursor` from page to page while the catalog stays as it is.

`entryWalk_exact_iff`: the pages are the selection, each entry once and in
order, exactly when every page ends on an entry that its cursor finds again.
-/
import Zenod.Engine.EntryPagination

namespace Zenod.Engine

open Text Bytes

/-- Calls from a page number and a cursor on, each with the cursor of the page before, up to the last page. -/
inductive EntryWalk (host : Host) (entries : List CatalogEntry) (query : MemoryEntryQuery) (scope : Text)
    (limits : Nat → Int) : Nat → Option Text → List (List CatalogEntry) → Prop
  | last {n : Nat} {cursor : Option Text} {page : MemoryEntryPage}
    (h : paginateMemoryEntries host entries { query with limit := some (limits n) } scope cursor = .ok page)
    (hend : page.nextCursor = none) : EntryWalk host entries query scope limits n cursor [page.entries]
  | next {n : Nat} {cursor : Option Text} {page : MemoryEntryPage} {next : Text} {pages : List (List CatalogEntry)}
    (h : paginateMemoryEntries host entries { query with limit := some (limits n) } scope cursor = .ok page)
    (hnext : page.nextCursor = some next) (rest : EntryWalk host entries query scope limits (n + 1) (some next) pages) :
    EntryWalk host entries query scope limits n cursor (page.entries :: pages)

/-- Where page number `k` ends, if no page before falls back. -/
def pagesEnd (limits : Nat → Int) (k : Nat) : Nat := ∑ i ∈ Finset.range (k + 1), (limits i).toNat

/-- Each page but the last ends on an entry whose cursor is short enough, and that no selected entry before shares
its time and its reference with. -/
def EndsFound (selected : List CatalogEntry) (limits : Nat → Int) : Prop :=
  ∀ k, pagesEnd limits k < selected.length → ∀ last, selected[pagesEnd limits k - 1]? = some last →
    Fits last ∧ ∀ e ∈ selected.take (pagesEnd limits k - 1), samePosition last e = false

variable {host : Host} {entries selected : List CatalogEntry} {query : MemoryEntryQuery} {scope : Text} {j : Json}
  {limits : Nat → Int}

/-! ## Queries have a key -/

/-- What is selected by has a key. -/
theorem exists_queryJson (hselected : selectMemoryEntries host entries query = .ok selected) :
    ∃ j, queryJson host query = .ok j := by
  unfold selectMemoryEntries criteriaOf at hselected
  unfold queryJson
  cases hafter : boundTime query.capturedAfter with
  | error err => rw [hafter] at hselected; cases hselected
  | ok after =>
  cases hbefore : boundTime query.capturedBefore with
  | error err => rw [hafter, hbefore] at hselected; cases hselected
  | ok before => exact ⟨_, rfl⟩

/-! ## Pages and cursors -/

theorem writeCursor_ne_nil (b : Binding) (time : Int) (evidenceRef : Text) : writeCursor host b time evidenceRef ≠ [] :=
  List.append_ne_nil_of_right_ne_nil _ (List.cons_ne_nil _ _)

theorem pageFrom_nextCursor (b : Binding) (scanned offset limit : Nat) :
    (pageFrom host b selected scanned offset limit).nextCursor =
      if offset + ((selected.drop offset).take limit).length < selected.length then
        ((selected.drop offset).take limit).getLast?.map fun last => writeCursor host b (timeOf last) last.evidenceRef
      else none := by
  unfold pageFrom
  simp only [decide_eq_true_eq]

variable (host) in
/-- The last page. -/
theorem nextCursor_none (b : Binding) (scanned : Nat) {offset limit : Nat} (h : selected.length ≤ offset + limit) :
    (pageFrom host b selected scanned offset limit).nextCursor = none ∧
      (pageFrom host b selected scanned offset limit).entries = selected.drop offset := by
  have htake : (selected.drop offset).take limit = selected.drop offset := by
    refine List.take_of_length_le ?_
    rw [List.length_drop]
    omega
  constructor
  · rw [pageFrom_nextCursor, htake, List.length_drop, if_neg (by omega)]
  · exact htake

variable (host) in
/-- A page that others follow. -/
theorem nextCursor_some (b : Binding) (scanned : Nat) {offset limit : Nat} (hpos : 0 < limit)
    (h : offset + limit < selected.length) :
    ∃ last, ((selected.drop offset).take limit).getLast? = some last ∧ last ∈ selected ∧
      (pageFrom host b selected scanned offset limit).nextCursor =
        some (writeCursor host b (timeOf last) last.evidenceRef) := by
  have hlast := Paging.getLast?_page hpos h.le
  rw [List.getElem?_eq_getElem (show offset + limit - 1 < selected.length by omega)] at hlast
  refine ⟨_, hlast, List.getElem_mem _, ?_⟩
  have hlen : ((selected.drop offset).take limit).length = limit := by
    rw [List.length_take, List.length_drop]
    omega
  rw [pageFrom_nextCursor, hlen, hlast, if_pos h]
  rfl

theorem offsetOf_cursor (b b' : Binding) (time : Int) (evidenceRef : Text) :
    offsetOf host b' selected (some (writeCursor host b time evidenceRef)) =
      resume host b' selected (writeCursor host b time evidenceRef) := by
  have hfilter : (some (writeCursor host b time evidenceRef)).filter (· ≠ []) = some (writeCursor host b time evidenceRef) :=
    Option.filter_some_pos (decide_eq_true (writeCursor_ne_nil _ _ _))
  unfold offsetOf
  rw [hfilter]

/-- A call that answers knows its offset. -/
theorem EntryWalk.offset (hquery : queryJson host query = .ok j)
    (hselected : selectMemoryEntries host entries query = .ok selected) (hlimits : ∀ n, 1 ≤ limits n ∧ limits n ≤ 100)
    {n : Nat} {cursor : Option Text} {pages : List (List CatalogEntry)}
    (h : EntryWalk host entries query scope limits n cursor pages) :
    ∃ offset, offsetOf host (bindingOf host entries scope j) selected cursor = .ok offset := by
  have hpage : ∃ page, paginateMemoryEntries host entries { query with limit := some (limits n) } scope cursor = .ok page := by
    cases h with
    | last h => exact ⟨_, h⟩
    | next h => exact ⟨_, h⟩
  obtain ⟨page, hpage⟩ := hpage
  rw [paginate_eq hquery hselected (hlimits n)] at hpage
  cases hoffset : offsetOf host (bindingOf host entries scope j) selected cursor with
  | error err => rw [hoffset] at hpage; cases hpage
  | ok offset => exact ⟨offset, rfl⟩

theorem toOption_eq_some {ε α : Type} {x : Except ε α} {a : α} (h : x.toOption = some a) : x = .ok a := by
  cases x with
  | error err => cases h
  | ok b => rw [show b = a from Option.some.inj h]

/-- **Following the cursors is walking the selection**, each page where `resumeAt` leads. -/
theorem entryWalk_iff (hquery : queryJson host query = .ok j) (hselected : selectMemoryEntries host entries query = .ok selected)
    (hlimits : ∀ n, 1 ≤ limits n ∧ limits n ≤ 100) {n offset : Nat} {cursor : Option Text} {pages : List (List CatalogEntry)}
    (hoffset : offsetOf host (bindingOf host entries scope j) selected cursor = .ok offset) :
    EntryWalk host entries query scope limits n cursor pages ↔
      Paging.Walk selected (resumeAt selected) (fun n => (limits n).toNat) n offset pages := by
  have hpos : ∀ n, 0 < (limits n).toNat := fun n => by have := hlimits n; omega
  have hpage : ∀ {n : Nat} {cursor : Option Text} {offset : Nat},
      offsetOf host (bindingOf host entries scope j) selected cursor = .ok offset →
      paginateMemoryEntries host entries { query with limit := some (limits n) } scope cursor =
        .ok (pageFrom host (bindingOf host entries scope j) selected entries.length offset (limits n).toNat) := by
    intro n cursor offset hoffset
    rw [paginate_eq hquery hselected (hlimits n), hoffset]
    rfl
  constructor
  · intro h
    induction h generalizing offset with
    | @last n cursor page h hend =>
      rw [hpage hoffset] at h
      obtain rfl := Except.ok.inj h
      by_cases hmore : offset + (limits n).toNat < selected.length
      · obtain ⟨last, _, _, hnext⟩ := nextCursor_some host (bindingOf host entries scope j)
          entries.length (hpos n) hmore
        rw [hnext] at hend
        cases hend
      · rw [(nextCursor_none host _ _ (Nat.le_of_not_lt hmore)).2]
        exact .last (Nat.le_of_not_lt hmore)
    | @next n cursor page next pages h hnext rest ih =>
      rw [hpage hoffset] at h
      obtain rfl := Except.ok.inj h
      by_cases hmore : offset + (limits n).toNat < selected.length
      · obtain ⟨last, hlast, hmem, hcursor⟩ := nextCursor_some host (bindingOf host entries scope j)
          entries.length (hpos n) hmore
        rw [hcursor] at hnext
        obtain rfl := Option.some.inj hnext
        obtain ⟨after, hafter⟩ := rest.offset hquery hselected hlimits
        have hresume := @resume_writeCursor host entries selected query scope j hselected last hmem
        rw [← offsetOf_cursor, hafter] at hresume
        exact .next hmore hlast hresume.symm (ih hafter)
      · rw [(nextCursor_none host _ _ (Nat.le_of_not_lt hmore)).1] at hnext
        cases hnext
  · intro h
    induction h generalizing cursor with
    | @last n offset hend =>
      have hlast := nextCursor_none host (bindingOf host entries scope j) entries.length hend
      rw [← hlast.2]
      exact .last (hpage hoffset) hlast.1
    | @next n offset after a pages hlt hlast hnext rest ih =>
      obtain ⟨last, hlast', hmem, hcursor⟩ := nextCursor_some host (bindingOf host entries scope j)
          entries.length (hpos n) hlt
      obtain rfl : last = a := Option.some.inj (hlast'.symm.trans hlast)
      refine .next (hpage hoffset) hcursor (ih (toOption_eq_some ?_))
      rw [offsetOf_cursor, resume_writeCursor hselected hmem]
      exact hnext

/-! ## When the pages are the selection -/

theorem pagesEnd_eq (limits : Nat → Int) (k : Nat) : Paging.boundary (fun n => (limits n).toNat) 0 0 k = pagesEnd limits k := by
  unfold Paging.boundary pagesEnd
  rw [Nat.zero_add]
  exact Finset.sum_congr rfl fun i _ => by rw [Nat.zero_add]

theorem samePosition_self (e : CatalogEntry) : samePosition e e = true := by
  unfold samePosition
  simp

/-- A cursor never leads behind the entry it was issued for. -/
theorem resumeAt_le {i next : Nat} {e : CatalogEntry} (he : selected[i]? = some e) (h : resumeAt selected e = some next) :
    next ≤ i + 1 := by
  unfold resumeAt at h
  split at h
  next =>
    obtain ⟨m, hm, rfl⟩ := Option.map_eq_some_iff.1 h
    obtain ⟨hlt, _, hbefore⟩ := List.findIdx?_eq_some_iff_getElem.1 hm
    obtain ⟨hi, rfl⟩ := List.getElem?_eq_some_iff.1 he
    by_contra hlarge
    exact hbefore i (by omega) (samePosition_self _)
  next => cases h

theorem resumeAt_eq_iff {i : Nat} {e : CatalogEntry} (he : selected[i]? = some e) :
    resumeAt selected e = some (i + 1) ↔ Fits e ∧ ∀ a ∈ selected.take i, samePosition e a = false := by
  obtain ⟨hi, rfl⟩ := List.getElem?_eq_some_iff.1 he
  have hfirst : selected.findIdx? (samePosition selected[i]) = some i ↔
      ∀ a ∈ selected.take i, samePosition selected[i] a = false := by
    rw [List.findIdx?_eq_some_iff_getElem]
    constructor
    · rintro ⟨_, _, hbefore⟩ a ha
      obtain ⟨k, hk, rfl⟩ := List.mem_take_iff_getElem.1 ha
      exact Bool.eq_false_iff.2 (hbefore k (by omega))
    · intro h
      refine ⟨hi, samePosition_self _, fun k hk hsame => ?_⟩
      rw [h _ (List.mem_take_iff_getElem.2 ⟨k, by omega, rfl⟩)] at hsame
      cases hsame
  unfold resumeAt
  split
  next hfits =>
    rw [Option.map_eq_some_iff, ← hfirst]
    constructor
    · rintro ⟨m, hm, heq⟩
      rw [show m = i by omega] at hm
      exact ⟨hfits, hm⟩
    · exact fun h => ⟨i, h.2, rfl⟩
  next hfits => exact ⟨fun h => (by cases h), fun h => absurd h.1 hfits⟩

/-- The boundaries are found again exactly when the entries at them are. -/
theorem resumes_iff (hlimits : ∀ n, 1 ≤ limits n ∧ limits n ≤ 100) :
    Paging.Resumes selected (resumeAt selected) (fun n => (limits n).toNat) 0 0 ↔ EndsFound selected limits := by
  have hpos : ∀ k, 0 < pagesEnd limits k := by
    intro k
    have hle := Paging.limits_le_boundary (fun n => (limits n).toNat) 0 0 k
    have hone := hlimits 0
    rw [pagesEnd_eq] at hle
    omega
  unfold Paging.Resumes EndsFound
  refine forall_congr' fun k => ?_
  rw [pagesEnd_eq]
  refine imp_congr_right fun hk => forall_congr' fun e => imp_congr_right fun he => ?_
  have hiff := resumeAt_eq_iff he
  rw [Nat.sub_add_cancel (hpos k)] at hiff
  exact hiff

theorem entryWalk_exact_iff (hselected : selectMemoryEntries host entries query = .ok selected)
    (hlimits : ∀ n, 1 ≤ limits n ∧ limits n ≤ 100) :
    (∃ pages, EntryWalk host entries query scope limits 0 none pages ∧ pages.flatten = selected) ↔
      EndsFound selected limits := by
  obtain ⟨j, hquery⟩ := exists_queryJson hselected
  have hpos : ∀ n, 0 < (limits n).toNat := fun n => by have := hlimits n; omega
  rw [← resumes_iff hlimits, ← Paging.exact_iff (fun i a next => resumeAt_le) hpos]
  refine exists_congr fun pages => and_congr_left fun _ => ?_
  exact @entryWalk_iff host entries selected query scope j limits hquery hselected hlimits 0 0 none pages rfl

/-! ## Cursors of other calls -/

/-- The texts a call hashes. -/
def hashedTexts (host : Host) (entries : List CatalogEntry) (query : MemoryEntryQuery) (scope : Text) : List Text :=
  [(Json.str scope).print, (snapshotJson entries).print] ++ (queryJson host query).toOption.toList.map Json.print

theorem entryJson_inj {a b : CatalogEntry} (h : entryJson a = entryJson b) : a = b := by
  have hkeys : (["evidenceRef", "anchor", "title", "content", "source", "verbatim", "contentType", "capturedAt", "sourceId",
      "path", "url", "provider", "revisionId", "githubUrl"].map String.toList).Nodup := by decide
  have hfields := Json.object_inj h rfl hkeys
  simp only [List.cons.injEq, Prod.mk.injEq, true_and, and_true, Option.some.injEq, Json.str.injEq, Json.bool.injEq] at hfields
  obtain ⟨href, hanchor, htitle, hcontent, hsource, hverbatim, htype, htime, hid, hpath, hurl, hprovider, hrevision, hgithub⟩ :=
    hfields
  obtain ⟨⟨_, _, _, _, _, _, _, _, _, _⟩, _, _, _, _⟩ := a
  obtain ⟨⟨_, _, _, _, _, _, _, _, _, _⟩, _, _, _, _⟩ := b
  simp only at href hanchor htitle hcontent hsource hverbatim htype htime hid hpath hurl hprovider hrevision hgithub
  rw [href, hanchor, htitle, hcontent, surfaceText_inj hsource, hverbatim, map_str_inj (fun _ _ => contentTypeName_inj) htype,
    htime, map_str_inj (fun _ _ h => h) hid, hpath, hurl, providerText_inj hprovider, map_str_inj (fun _ _ h => h) hrevision,
    map_str_inj (fun _ _ h => h) hgithub]

theorem snapshotJson_inj {entries others : List CatalogEntry} (h : snapshotJson entries = snapshotJson others) :
    snapshotOf entries = snapshotOf others :=
  List.map_injective_iff.2 (fun _ _ => entryJson_inj) (Json.arr.inj h)

/-- What a page was made of. -/
theorem paginate_ok {cursor : Option Text} {page : MemoryEntryPage}
    (h : paginateMemoryEntries host entries query scope cursor = .ok page) :
    ∃ j selected offset limit, queryJson host query = .ok j ∧ selectMemoryEntries host entries query = .ok selected ∧
      offsetOf host (bindingOf host entries scope j) selected cursor = .ok offset ∧
      page = pageFrom host (bindingOf host entries scope j) selected entries.length offset limit := by
  have hlimited : paginateMemoryEntries host entries query scope cursor =
      paginateMemoryEntries host entries { query with limit := some (query.limit.getD 20) } scope cursor := rfl
  have hok := h
  unfold paginateMemoryEntries at hok
  by_cases hlimit : query.limit.getD 20 < 1 ∨ 100 < query.limit.getD 20
  · simp only [hlimit, if_true] at hok
    cases hok
  cases hquery : queryJson host query with
  | error err =>
    simp only [hlimit, hquery, if_false] at hok
    cases hok
  | ok j =>
  cases hselected : selectMemoryEntries host entries query with
  | error err =>
    simp only [hlimit, hquery, hselected, if_false] at hok
    cases hok
  | ok selected =>
    rw [hlimited, paginate_eq hquery hselected (by omega)] at h
    cases hoffset : offsetOf host (bindingOf host entries scope j) selected cursor with
    | error err => rw [hoffset] at h; cases h
    | ok offset =>
      rw [hoffset] at h
      exact ⟨j, selected, offset, _, rfl, rfl, hoffset, (Except.ok.inj h).symm⟩

/-- A cursor that leads somewhere is bound to what it is compared with. -/
theorem binding_eq_of_resume {b b' : Binding} {time : Int} {evidenceRef : Text} {offset : Nat}
    (h : resume host b' selected (writeCursor host b time evidenceRef) = .ok offset) : b' = b := by
  unfold resume at h
  by_cases hlong : 2048 < utf16Length (writeCursor host b time evidenceRef)
  · unfold decodeCursor at h
    rw [if_pos hlong] at h
    cases h
  rw [decodeCursor_writeCursor host b b' (Nat.le_of_not_lt hlong)] at h
  split at h
  next hsame =>
    have hsnapshot : isText ((cursorJson b time evidenceRef).field? "snapshot".toList) b'.snapshot =
        decide (b.snapshot = b'.snapshot) := rfl
    by_cases hsnap : b.snapshot = b'.snapshot
    · obtain ⟨_, _, _⟩ := b
      obtain ⟨_, _, _⟩ := b'
      rw [Binding.mk.injEq]
      exact ⟨hsame.1.symm, hsnap.symm, hsame.2.symm⟩
    · simp only [bind, Except.bind, hsnapshot, hsnap, decide_false, if_true] at h
      cases h
  next => cases h

/-- **A cursor is continued only under its own scope, snapshot and query**, as far as the hash tells them apart. -/
theorem accepted_same {entries' : List CatalogEntry} {query' : MemoryEntryQuery} {scope' : Text} {cursor : Option Text}
    {page page' : MemoryEntryPage} {next : Text}
    (hissued : paginateMemoryEntries host entries query scope cursor = .ok page) (hnext : page.nextCursor = some next)
    (hhash : Set.InjOn host.sha256 {t | t ∈ hashedTexts host entries query scope ++ hashedTexts host entries' query' scope'})
    (haccepted : paginateMemoryEntries host entries' query' scope' (some next) = .ok page') :
    scope' = scope ∧ snapshotOf entries' = snapshotOf entries ∧
      ∀ catalog, selectMemoryEntries host catalog query' = selectMemoryEntries host catalog query := by
  obtain ⟨j, selected, offset, limit, hquery, hselected, _, rfl⟩ := paginate_ok hissued
  obtain ⟨j', selected', offset', _, hquery', _, hoffset', _⟩ := paginate_ok haccepted
  have hmem : ∀ {t}, t ∈ hashedTexts host entries query scope ∨ t ∈ hashedTexts host entries' query' scope' →
      t ∈ {t | t ∈ hashedTexts host entries query scope ++ hashedTexts host entries' query' scope'} :=
    fun h => List.mem_append.2 h
  have hkey : j.print ∈ hashedTexts host entries query scope := by
    unfold hashedTexts
    rw [hquery]
    exact List.mem_append_right _ (List.mem_singleton.2 rfl)
  have hkey' : j'.print ∈ hashedTexts host entries' query' scope' := by
    unfold hashedTexts
    rw [hquery']
    exact List.mem_append_right _ (List.mem_singleton.2 rfl)
  -- The cursor that was issued, and what it is compared with.
  have hbinding : bindingOf host entries' scope' j' = bindingOf host entries scope j := by
    rw [pageFrom_nextCursor] at hnext
    split at hnext
    next =>
      obtain ⟨last, _, rfl⟩ := Option.map_eq_some_iff.1 hnext
      rw [offsetOf_cursor] at hoffset'
      exact binding_eq_of_resume hoffset'
    next => cases hnext
  obtain ⟨hscope, hsnapshot, hqueries⟩ := Binding.mk.inj hbinding
  have hscope := hhash (hmem (Or.inr List.mem_cons_self)) (hmem (Or.inl List.mem_cons_self)) hscope
  have hsnapshot := hhash (hmem (Or.inr (List.mem_cons_of_mem _ List.mem_cons_self)))
    (hmem (Or.inl (List.mem_cons_of_mem _ List.mem_cons_self))) hsnapshot
  have hqueries := hhash (hmem (Or.inr hkey')) (hmem (Or.inl hkey)) hqueries
  obtain rfl := Json.print_injective hqueries
  exact ⟨Json.str.inj (Json.print_injective hscope), snapshotJson_inj (Json.print_injective hsnapshot),
    select_eq_of_key host hquery' hquery⟩

/-- **Pagination.** The pages that `nextCursor` leads to are the selection, each entry once and in order, exactly when
every page but the last ends on an entry that its cursor finds again; and no cursor is continued under another scope,
snapshot or query. -/
theorem pagination_exact_iff (hselected : selectMemoryEntries host entries query = .ok selected)
    (hlimits : ∀ n, 1 ≤ limits n ∧ limits n ≤ 100) (scope : Text) :
    ((∃ pages, EntryWalk host entries query scope limits 0 none pages ∧ pages.flatten = selected) ↔
      EndsFound selected limits) ∧
    ∀ (entries' : List CatalogEntry) (query' : MemoryEntryQuery) (scope' : Text) (cursor : Option Text)
      (page page' : MemoryEntryPage) (next : Text),
      paginateMemoryEntries host entries' query' scope' cursor = .ok page → page.nextCursor = some next →
      Set.InjOn host.sha256 {t | t ∈ hashedTexts host entries' query' scope' ++ hashedTexts host entries query scope} →
      paginateMemoryEntries host entries query scope (some next) = .ok page' →
      scope = scope' ∧ snapshotOf entries = snapshotOf entries' ∧
        ∀ catalog, selectMemoryEntries host catalog query = selectMemoryEntries host catalog query' :=
  ⟨entryWalk_exact_iff hselected hlimits, fun _ _ _ _ _ _ _ hissued hnext hhash haccepted =>
    accepted_same hissued hnext hhash haccepted⟩

/-! ## Two catalogs -/

def sampleDigest (t : Text) : Nat := t.foldl (fun n c => n * 2 + c.toNat) 1

/-- A host whose digests are sums. -/
def Host.sample : Host where
  nfkc := id
  toLowerCase := List.map Char.toLower
  sha256 := fun t => (List.range 64).map fun i => Js.hexDigit (sampleDigest t / 16 ^ i % 16)
  sha256_length := fun t => by rw [List.length_map, List.length_range]
  sha256_hex := fun t c hc => by
    obtain ⟨i, _, rfl⟩ := List.mem_map.1 hc
    have hdigit : ∀ n < 16, Js.hexDigit n ∈ "0123456789abcdef".toList := by decide
    exact hdigit _ (Nat.mod_lt _ (by decide))
  hmac := fun t => (List.range 32).map fun i => sampleDigest t / 256 ^ i % 256
  hmac_length := fun t => by rw [List.length_map, List.length_range]
  hmac_octet := fun t b hb => by
    obtain ⟨i, _, rfl⟩ := List.mem_map.1 hb
    exact Nat.mod_lt _ (by decide)

def sampleEntry (anchor capturedAt : String) : CatalogEntry where
  evidenceRef := "Log/2026-01-01.md#^".toList ++ anchor.toList
  path := "Log/2026-01-01.md".toList
  anchor := anchor.toList
  title := "Tea".toList
  content := "amber".toList
  source := .mcp
  verbatim := true
  contentType := none
  capturedAt := capturedAt.toList
  sourceId := none
  url := "/t".toList
  provider := .googleDrive

/-- Three entries, of which two share their time. -/
def sampleCatalog : List CatalogEntry :=
  [sampleEntry "e-00000a" "2026-01-01T08:00:00", sampleEntry "e-00000b" "2026-01-01T10:00:00+02:00",
    sampleEntry "e-00000c" "2026-01-01T07:00"]

/-- Two entries under one reference and one time, and an older one. -/
def doubledCatalog : List CatalogEntry :=
  [sampleEntry "e-00000a" "2026-01-01T08:00:00", sampleEntry "e-00000a" "2026-01-01T10:00:00+02:00",
    sampleEntry "e-00000c" "2026-01-01T07:00"]

def sampleSelection : List CatalogEntry :=
  [sampleEntry "e-00000b" "2026-01-01T10:00:00+02:00", sampleEntry "e-00000a" "2026-01-01T08:00:00",
    sampleEntry "e-00000c" "2026-01-01T07:00"]

theorem sample_selected : selectMemoryEntries Host.sample sampleCatalog {} = .ok sampleSelection := by
  decide +kernel

theorem pagesEnd_one (k : Nat) : pagesEnd (fun _ => 1) k = k + 1 := by
  simp [pagesEnd]

/-- One entry a page. -/
theorem sample_paged : ∃ pages, EntryWalk Host.sample sampleCatalog {} "tenant-a".toList (fun _ => 1) 0 none pages ∧
    pages.flatten = sampleSelection := by
  refine (pagination_exact_iff sample_selected (fun _ => by decide) "tenant-a".toList).1.2 fun k hk last hlast => ?_
  have hall : ∀ k < 3, ∀ last ∈ sampleSelection[k]?,
      Fits last ∧ ∀ e ∈ sampleSelection.take k, samePosition last e = false := by decide +kernel
  rw [pagesEnd_one] at hk hlast ⊢
  exact hall k (Nat.lt_of_succ_lt hk) last hlast

theorem doubled_selected : selectMemoryEntries Host.sample doubledCatalog {} = .ok doubledCatalog := by
  decide +kernel

/-- **The walk never ends**: the cursor of the second entry leads back to the first. -/
theorem doubled_not_paged : ∃ selected, selectMemoryEntries Host.sample doubledCatalog {} = .ok selected ∧
    ¬∃ pages, EntryWalk Host.sample doubledCatalog {} "tenant-a".toList (fun _ => 1) 0 none pages ∧
      pages.flatten = selected := by
  refine ⟨doubledCatalog, doubled_selected, fun h => ?_⟩
  have hends := (entryWalk_exact_iff doubled_selected fun _ => by decide).1 h
  have hsecond := hends 1 (by rw [pagesEnd_one]; decide) _ (by rw [pagesEnd_one]; rfl)
  rw [pagesEnd_one] at hsecond
  have hsame := hsecond.2 (sampleEntry "e-00000a" "2026-01-01T08:00:00") List.mem_cons_self
  revert hsame
  decide +kernel

end Zenod.Engine
