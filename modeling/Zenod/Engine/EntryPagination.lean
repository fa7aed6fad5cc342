/-
Pagination of memory entries (`engine/entryPagination.ts`). A cursor is a
signed JSON text that carries the hashes of the scope, the snapshot and the
query it was issued under, and the time and reference of the last entry of its
page; the next page starts behind the first selected entry that has them.

`paginate_eq`: a page, by where its cursor leads. `walk_iff`: following the
cursors is a walk in the sense of `Paging`.
-/
import Mathlib.Data.Set.Function
import Zenod.Engine.EntrySelection
import Zenod.Lib.Bytes
import Zenod.Lib.Paging

namespace Zenod.Engine

open Text Bytes

variable (host : Host)

/-! ## Cursors -/

/-- What a cursor is bound to. -/
structure Binding where
  scope : Text
  snapshot : Text
  query : Text

def entryJson (e : CatalogEntry) : Json :=
  Json.object [
    ("evidenceRef".toList, some (.str e.evidenceRef)), ("anchor".toList, some (.str e.anchor)),
    ("title".toList, some (.str e.title)), ("content".toList, some (.str e.content)),
    ("source".toList, some (.str e.source.text)), ("verbatim".toList, some (.bool e.verbatim)),
    ("contentType".toList, e.contentType.map fun c => .str c.name), ("capturedAt".toList, some (.str e.capturedAt)),
    ("sourceId".toList, e.sourceId.map .str), ("path".toList, some (.str e.path)), ("url".toList, some (.str e.url)),
    ("provider".toList, some (.str e.provider.text)), ("revisionId".toList, e.revisionId.map .str),
    ("githubUrl".toList, e.githubUrl.map .str)]

/-- The entries in the order of their references. -/
def snapshotOf (entries : List CatalogEntry) : List CatalogEntry :=
  entries.insertionSort fun a b => le a.evidenceRef b.evidenceRef = true

def snapshotJson (entries : List CatalogEntry) : Json := .arr ((snapshotOf entries).map entryJson)

def hash (v : Json) : Text := host.sha256 v.print

/-- `after` of a cursor. -/
def positionJson (time : Int) (evidenceRef : Text) : Json := .arr [.num (.ofInt time), .str evidenceRef]

def cursorJson (b : Binding) (time : Int) (evidenceRef : Text) : Json :=
  .obj [("v".toList, .num (.ofInt 1)), ("scope".toList, .str b.scope), ("snapshot".toList, .str b.snapshot),
    ("query".toList, .str b.query), ("after".toList, positionJson time evidenceRef)]

def writeCursor (b : Binding) (time : Int) (evidenceRef : Text) : Text :=
  let payload := toBase64 (utf8 (cursorJson b time evidenceRef).print)
  payload ++ '.' :: toBase64 (host.hmac payload)

/-- `v === text`. -/
def isText (v : Option Json) (t : Text) : Bool :=
  match v with
  | some (.str s) => s = t
  | _ => false

/-- `v === n`. -/
def isNumber (v : Option Json) (n : Int) : Bool :=
  match v with
  | some (.num m) => m.value = n
  | _ => false

/-- `v[i]`, for a list. -/
def item (v : Json) (i : Nat) : Option Json :=
  match v with
  | .arr items => items[i]?
  | _ => none

/-- The cursor, if it is signed and bound to this scope and query. -/
def decodeCursor (b : Binding) (cursor : Text) : Except EntryError Json :=
  if 2048 < utf16Length cursor then throw .invalidCursor
  else
    match cursor.splitOn '.' with
    | [payload, signature] =>
      if (fromBase64 signature).length ≠ 32 ∨ fromBase64 signature ≠ host.hmac payload then throw .invalidCursor
      else
        match Json.parse (decodeUtf8 (fromBase64 payload)) with
        | some decoded =>
          if isNumber (decoded.field? "v".toList) 1 && isText (decoded.field? "scope".toList) b.scope &&
              isText (decoded.field? "query".toList) b.query then return decoded
          else throw .invalidCursor
        | none => throw .invalidCursor
    | _ => throw .invalidCursor

/-- The entry stands at the position of a cursor. -/
def isAt (after : Json) (e : CatalogEntry) : Bool :=
  isText (item after 1) e.evidenceRef && (timestampOf e.capturedAt).any fun time => isNumber (item after 0) time

/-- The offset a cursor leads to. -/
def resume (b : Binding) (selected : List CatalogEntry) (cursor : Text) : Except EntryError Nat := do
  let decoded ← decodeCursor host b cursor
  if isText (decoded.field? "snapshot".toList) b.snapshot = false then throw .snapshotChanged
  match selected, decoded.field? "after".toList with
  | [], _ => throw .positionMissing
  | _, none | _, some .null => throw .typeError
  | _, some after =>
    match selected.findIdx? (isAt after) with
    | some i => return i + 1
    | none => throw .positionMissing

/-! ## Pages -/

structure MemoryEntryPage where
  entries : List CatalogEntry
  hasMore : Bool
  nextCursor : Option Text
  snapshot : Text
  matchedEntries : Nat
  scannedEntries : Nat
deriving DecidableEq

/-- The offset of the page behind a cursor, or of the first page. -/
def offsetOf (b : Binding) (selected : List CatalogEntry) (cursor : Option Text) : Except EntryError Nat :=
  match cursor.filter (· ≠ []) with
  | some cursor => resume host b selected cursor
  | none => .ok 0

/-- The cursor behind the last entry of a page. -/
def nextCursorOf (b : Binding) (last : CatalogEntry) : Except EntryError Text := do
  let time ← memoryTimestamp last.capturedAt
  return writeCursor host b time last.evidenceRef

def paginateMemoryEntries (entries : List CatalogEntry) (query : MemoryEntryQuery) (scope : Text) (cursor : Option Text) :
    Except EntryError MemoryEntryPage := do
  let limit := query.limit.getD 20
  if limit < 1 ∨ 100 < limit then throw .invalidLimit
  let snapshot := hash host (snapshotJson entries)
  let b : Binding := {
    scope := hash host (.str scope), snapshot := snapshot, query := hash host (← queryJson host query) }
  let selected ← selectMemoryEntries host entries query
  let offset ← offsetOf host b selected cursor
  let page := (selected.drop offset).take limit.toNat
  let hasMore := decide (offset + page.length < selected.length)
  let nextCursor ← match page.getLast? with
    | some last => if hasMore then some <$> nextCursorOf host b last else pure none
    | none => pure none
  return {
    entries := page, hasMore := hasMore, nextCursor := nextCursor, snapshot := snapshot
    matchedEntries := selected.length, scannedEntries := entries.length }

/-! ## A cursor is read back -/

theorem toBase64_ascii {bs : List Nat} (h : ∀ b ∈ bs, b < 256) : ∀ c ∈ toBase64 bs, c.toNat < 0x10000 := by
  intro c hc
  obtain ⟨n, hn, rfl⟩ := List.mem_map.1 hc
  have hdigit : ∀ n < 64, (base64Digit n).toNat < 0x10000 := by decide
  exact hdigit n (sextets_lt h n hn)

theorem utf16Length_eq_length {t : Text} (h : ∀ c ∈ t, c.toNat < 0x10000) : utf16Length t = t.length := by
  induction t with
  | nil => rfl
  | cons c t ih =>
    obtain ⟨hc, ht⟩ := List.forall_mem_cons.1 h
    have hlen := ih ht
    unfold utf16Length at hlen ⊢
    rw [List.map_cons, List.sum_cons, hlen, if_pos hc, List.length_cons, Nat.add_comm]

/-- The octets of a cursor's text. -/
def cursorOctets (b : Binding) (time : Int) (evidenceRef : Text) : Nat := (utf8 (cursorJson b time evidenceRef).print).length

theorem length_writeCursor (b : Binding) (time : Int) (evidenceRef : Text) :
    utf16Length (writeCursor host b time evidenceRef) = (4 * cursorOctets b time evidenceRef + 2) / 3 + 44 := by
  have hascii : ∀ c ∈ writeCursor host b time evidenceRef, c.toNat < 0x10000 := by
    intro c hc
    rcases List.mem_append.1 hc with hc | hc
    · exact toBase64_ascii (utf8_lt _) c hc
    · rcases List.mem_cons.1 hc with rfl | hc
      · decide
      · exact toBase64_ascii (host.hmac_octet _) c hc
  rw [utf16Length_eq_length hascii]
  unfold writeCursor
  simp only [List.length_append, List.length_cons, length_toBase64, host.hmac_length]
  rfl

theorem grammatical_cursorJson (b : Binding) (time : Int) (evidenceRef : Text) :
    (cursorJson b time evidenceRef).Grammatical :=
  ⟨isNumberText_decimal 1, trivial, trivial, trivial, ⟨isNumberText_decimal time, trivial, trivial⟩, trivial⟩

/-- **A cursor that is not too long is accepted** exactly under the scope and the query it is bound to. -/
theorem decodeCursor_writeCursor (b b' : Binding) {time : Int} {evidenceRef : Text}
    (hlen : utf16Length (writeCursor host b time evidenceRef) ≤ 2048) :
    decodeCursor host b' (writeCursor host b time evidenceRef) =
      if b.scope = b'.scope ∧ b.query = b'.query then .ok (cursorJson b time evidenceRef) else .error .invalidCursor := by
  have hpayload : '.' ∉ toBase64 (utf8 (cursorJson b time evidenceRef).print) := dot_not_mem_toBase64 (utf8_lt _)
  have hsplit : (writeCursor host b time evidenceRef).splitOn '.' =
      [toBase64 (utf8 (cursorJson b time evidenceRef).print),
        toBase64 (host.hmac (toBase64 (utf8 (cursorJson b time evidenceRef).print)))] := by
    unfold writeCursor
    rw [List.splitOn_append_cons_self, List.splitOn_eq_singleton hpayload,
      List.splitOn_eq_singleton (dot_not_mem_toBase64 (host.hmac_octet _))]
    rfl
  unfold decodeCursor
  rw [if_neg (by omega), hsplit]
  simp only [fromBase64_toBase64 (host.hmac_octet _), fromBase64_toBase64 (utf8_lt _), host.hmac_length, decodeUtf8_utf8,
    Json.parse_print (grammatical_cursorJson b time evidenceRef)]
  have hone : isNumber ((cursorJson b time evidenceRef).field? "v".toList) 1 = true := by
    show decide ((JsonNumber.ofInt 1).value = (1 : Int)) = true
    rw [JsonNumber.value_ofInt]
    exact decide_eq_true rfl
  have hscope : isText ((cursorJson b time evidenceRef).field? "scope".toList) b'.scope = decide (b.scope = b'.scope) := rfl
  have hquery : isText ((cursorJson b time evidenceRef).field? "query".toList) b'.query = decide (b.query = b'.query) := rfl
  rw [if_neg (by simp), hone, hscope, hquery]
  by_cases h : b.scope = b'.scope ∧ b.query = b'.query
  · rw [if_pos h, if_pos (by simp [h])]
    rfl
  · rw [if_neg h, if_neg (by simpa using h)]
    rfl

/-- A digest, as it is written. -/
def IsDigest (t : Text) : Prop := t.length = 64 ∧ ∀ c ∈ t, c ∈ "0123456789abcdef".toList

theorem isDigest_hash (v : Json) : IsDigest (hash host v) := ⟨host.sha256_length _, host.sha256_hex _⟩

theorem utf8_quote_digest {t : Text} (h : IsDigest t) : (utf8 (Js.quote (String.ofList t))).length = 66 := by
  have hchar : ∀ c ∈ "0123456789abcdef".toList, (utf8 (Js.escape c)).length = 1 :=
    forall_of_all (by decide)
  have hbody : ∀ s : Text, (∀ c ∈ s, c ∈ "0123456789abcdef".toList) → (utf8 (s.flatMap Js.escape)).length = s.length := by
    intro s hs
    induction s with
    | nil => rfl
    | cons c s ih =>
      obtain ⟨hc, hs⟩ := List.forall_mem_cons.1 hs
      rw [List.flatMap_cons, utf8_append, List.length_append, ih hs, hchar c hc, List.length_cons, Nat.add_comm]
  have hquote := Json.quote_eq t []
  rw [List.append_nil] at hquote
  have hsplit : '"' :: (t.flatMap Js.escape ++ [Char.ofNat 0x22]) = ['"'] ++ (t.flatMap Js.escape ++ [Char.ofNat 0x22]) := rfl
  have hone : (utf8 ['"']).length = 1 := by decide
  rw [hquote, hsplit, utf8_append, utf8_append, List.length_append, List.length_append, hbody t h.2, h.1, hone]

/-- The octets of `after`. -/
def positionOctets (time : Int) (evidenceRef : Text) : Nat := (utf8 (positionJson time evidenceRef).print).length

theorem cursorOctets_eq {b : Binding} (hscope : IsDigest b.scope) (hsnapshot : IsDigest b.snapshot) (hquery : IsDigest b.query)
    (time : Int) (evidenceRef : Text) : cursorOctets b time evidenceRef = positionOctets time evidenceRef + 244 := by
  have hprint : (cursorJson b time evidenceRef).print =
      "\x7b\"v\":1,\"scope\":".toList ++ (Js.quote (String.ofList b.scope) ++ (",\"snapshot\":".toList ++
        (Js.quote (String.ofList b.snapshot) ++ (",\"query\":".toList ++ (Js.quote (String.ofList b.query) ++
          (",\"after\":".toList ++ ((positionJson time evidenceRef).print ++ "\x7d".toList))))))) := by
    unfold cursorJson
    simp only [Json.print, Json.printEntries, Json.printMoreEntries]
    generalize Js.quote (String.ofList b.scope) = scope
    generalize Js.quote (String.ofList b.snapshot) = snapshot
    generalize Js.quote (String.ofList b.query) = query
    generalize (positionJson time evidenceRef).print = after
    simp only [List.append_assoc, List.cons_append, List.append_nil]
    rfl
  have h1 : (utf8 "\x7b\"v\":1,\"scope\":".toList).length = 15 := by decide
  have h2 : (utf8 ",\"snapshot\":".toList).length = 12 := by decide
  have h3 : (utf8 ",\"query\":".toList).length = 9 := by decide
  have h4 : (utf8 ",\"after\":".toList).length = 9 := by decide
  have h5 : (utf8 "\x7d".toList).length = 1 := by decide
  unfold cursorOctets positionOctets
  rw [hprint]
  simp only [utf8_append, List.length_append, h1, h2, h3, h4, h5, utf8_quote_digest hscope, utf8_quote_digest hsnapshot,
    utf8_quote_digest hquery]
  omega

/-! ## Where a cursor leads -/

/-- The time of an entry that has one. -/
def timeOf (e : CatalogEntry) : Int := (timestampOf e.capturedAt).getD 0

theorem timestampOf_eq {e : CatalogEntry} (h : ∃ time, memoryTimestamp e.capturedAt = .ok time) :
    timestampOf e.capturedAt = some (timeOf e) := by
  obtain ⟨time, h⟩ := h
  unfold memoryTimestamp at h
  unfold timeOf
  split at h
  next t ht => rw [ht]; rfl
  next => cases h

theorem memoryTimestamp_eq {e : CatalogEntry} (h : ∃ time, memoryTimestamp e.capturedAt = .ok time) :
    memoryTimestamp e.capturedAt = .ok (timeOf e) := by
  unfold memoryTimestamp
  rw [timestampOf_eq h]
  rfl

/-- The two entries have one time and one reference. -/
def samePosition (a e : CatalogEntry) : Bool := e.evidenceRef = a.evidenceRef && timeOf e = timeOf a

theorem isAt_position {a e : CatalogEntry} (he : ∃ time, memoryTimestamp e.capturedAt = .ok time) :
    isAt (positionJson (timeOf a) a.evidenceRef) e = samePosition a e := by
  have href : isText (item (positionJson (timeOf a) a.evidenceRef) 1) e.evidenceRef =
      decide (a.evidenceRef = e.evidenceRef) := rfl
  have htime : ∀ t : Int, isNumber (item (positionJson (timeOf a) a.evidenceRef) 0) t = decide (timeOf a = t) := by
    intro t
    show decide ((JsonNumber.ofInt (timeOf a)).value = (t : Int)) = _
    rw [JsonNumber.value_ofInt]
    exact decide_eq_decide.2 Int.cast_inj
  unfold isAt samePosition
  rw [href, timestampOf_eq he, Option.any_some, htime, decide_eq_decide.2 eq_comm, decide_eq_decide.2 (eq_comm (a := timeOf a))]

variable {host}
variable {entries selected : List CatalogEntry} {query : MemoryEntryQuery} {scope : Text} {j : Json}

/-- What the cursors of a call are bound to. -/
def bindingOf (host : Host) (entries : List CatalogEntry) (scope : Text) (j : Json) : Binding where
  scope := hash host (.str scope)
  snapshot := hash host (snapshotJson entries)
  query := hash host j

/-- The cursor behind an entry is accepted: it is short enough. -/
def Fits (e : CatalogEntry) : Prop := positionOctets (timeOf e) e.evidenceRef ≤ 1259

instance (e : CatalogEntry) : Decidable (Fits e) := inferInstanceAs (Decidable (_ ≤ _))

theorem fits_iff (e : CatalogEntry) :
    utf16Length (writeCursor host (bindingOf host entries scope j) (timeOf e) e.evidenceRef) ≤ 2048 ↔ Fits e := by
  rw [length_writeCursor, cursorOctets_eq (isDigest_hash host _) (isDigest_hash host _) (isDigest_hash host _)]
  unfold Fits
  omega

/-- Where the walk goes on behind an entry. -/
def resumeAt (selected : List CatalogEntry) (e : CatalogEntry) : Option Nat :=
  if Fits e then (selected.findIdx? (samePosition e)).map (· + 1) else none

theorem findIdx?_congr {α : Type} {p q : α → Bool} {l : List α} (h : ∀ a ∈ l, p a = q a) : l.findIdx? p = l.findIdx? q := by
  induction l with
  | nil => rfl
  | cons a l ih =>
    obtain ⟨ha, hl⟩ := List.forall_mem_cons.1 h
    rw [List.findIdx?_cons, List.findIdx?_cons, ha, ih hl]

theorem resume_writeCursor (hselected : selectMemoryEntries host entries query = .ok selected) {e : CatalogEntry}
    (he : e ∈ selected) :
    (resume host (bindingOf host entries scope j) selected
      (writeCursor host (bindingOf host entries scope j) (timeOf e) e.evidenceRef)).toOption = resumeAt selected e := by
  unfold resume resumeAt
  by_cases hfits : Fits e
  · rw [decodeCursor_writeCursor host _ _ ((fits_iff e).2 hfits), if_pos ⟨rfl, rfl⟩, if_pos hfits]
    have hsnapshot : isText ((cursorJson (bindingOf host entries scope j) (timeOf e) e.evidenceRef).field? "snapshot".toList)
        (bindingOf host entries scope j).snapshot = true := decide_eq_true rfl
    have hafter : (cursorJson (bindingOf host entries scope j) (timeOf e) e.evidenceRef).field? "after".toList =
        some (positionJson (timeOf e) e.evidenceRef) := rfl
    have hfind : selected.findIdx? (isAt (positionJson (timeOf e) e.evidenceRef)) = selected.findIdx? (samePosition e) := by
      refine findIdx?_congr fun a ha => isAt_position ?_
      exact (select_mem host hselected a ha).2
    simp only [bind, Except.bind, hsnapshot, hafter, Bool.true_eq_false, if_false]
    cases selected with
    | nil => cases he
    | cons a rest =>
      simp only [positionJson] at hfind ⊢
      rw [hfind]
      cases (a :: rest).findIdx? (samePosition e) <;> rfl
  · have hlong : 2048 < utf16Length (writeCursor host (bindingOf host entries scope j) (timeOf e) e.evidenceRef) := by
      rw [← not_le, fits_iff]
      exact hfits
    unfold decodeCursor
    rw [if_neg hfits, if_pos hlong]
    rfl

/-! ## A page, by its offset -/

def pageFrom (host : Host) (b : Binding) (selected : List CatalogEntry) (scanned offset limit : Nat) : MemoryEntryPage :=
  let page := (selected.drop offset).take limit
  let hasMore := decide (offset + page.length < selected.length)
  { entries := page, hasMore := hasMore
    nextCursor := if hasMore then page.getLast?.map fun last => writeCursor host b (timeOf last) last.evidenceRef else none
    snapshot := b.snapshot, matchedEntries := selected.length, scannedEntries := scanned }

/-- **A page is what stands at its offset.** -/
theorem paginate_eq (hquery : queryJson host query = .ok j) (hselected : selectMemoryEntries host entries query = .ok selected)
    {limit : Int} (hlimit : 1 ≤ limit ∧ limit ≤ 100) (cursor : Option Text) :
    paginateMemoryEntries host entries { query with limit := some limit } scope cursor =
      (offsetOf host (bindingOf host entries scope j) selected cursor).map fun offset =>
        pageFrom host (bindingOf host entries scope j) selected entries.length offset limit.toNat := by
  have hquery' : queryJson host { query with limit := some limit } = .ok j := hquery
  have hselected' : selectMemoryEntries host entries { query with limit := some limit } = .ok selected := hselected
  unfold paginateMemoryEntries
  simp only [Option.getD_some, hquery', hselected', bind, Except.bind, pure, Except.pure]
  rw [if_neg (by omega)]
  have hbinding : ({ scope := hash host (.str scope), snapshot := hash host (snapshotJson entries), query := hash host j } :
      Binding) = bindingOf host entries scope j := rfl
  rw [hbinding]
  cases offsetOf host (bindingOf host entries scope j) selected cursor with
  | error err => rfl
  | ok offset =>
    show _ = Except.ok (pageFrom host (bindingOf host entries scope j) selected entries.length offset limit.toNat)
    unfold pageFrom
    cases hlast : ((selected.drop offset).take limit.toNat).getLast? with
    | none =>
      simp only [Option.map_none, ite_self, hlast]
      rfl
    | some last =>
      have hmem : last ∈ selected := List.mem_of_mem_drop (List.mem_of_mem_take (List.mem_of_getLast? hlast))
      have hnext : some <$> nextCursorOf host (bindingOf host entries scope j) last =
          .ok (some (writeCursor host (bindingOf host entries scope j) (timeOf last) last.evidenceRef)) := by
        unfold nextCursorOf
        rw [memoryTimestamp_eq (select_mem host hselected last hmem).2]
        rfl
      simp only [hlast, hnext, Option.map_some]
      split
      next => rfl
      next => rfl

end Zenod.Engine
