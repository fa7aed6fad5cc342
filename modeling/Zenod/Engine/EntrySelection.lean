/-
Selecting memory entries (`engine/evidence.ts`): capture times, the filter of a
query, and the order of what it selects. `normalize`, `toLowerCase` and the
hashes of the host are parameters (`Host`).

`select_mem`: what is selected is in the catalog and has a capture time.
`select_eq_of_key`: queries with one key select the same.
-/
import Zenod.Engine.Facts
import Zenod.Lib.JsonRead

namespace Zenod.Engine

open Text
open Evidence (MemoryEntry Surface MemoryContentType)

/-- What is thrown. -/
inductive EntryError
  | invalidTimestamp (value : Text)
  | rangeReversed
  | invalidLimit
  | invalidCursor
  | snapshotChanged
  | positionMissing
  /-- A property of something that has none. -/
  | typeError
deriving DecidableEq

def EntryError.message : EntryError → Text
  | .invalidTimestamp value => "Invalid capture timestamp: ".toList ++ value
  | .rangeReversed => "capturedAfter must not exceed capturedBefore".toList
  | .invalidLimit => "Entry page limit must be 1–100".toList
  | .invalidCursor => "Invalid entry cursor or changed query/vault/process; restart without cursor".toList
  | .snapshotChanged => "Entry snapshot changed; restart without cursor and discard prior pages".toList
  | .positionMissing => "Entry cursor position missing; restart without cursor".toList
  | .typeError => "Cannot read properties of undefined".toList

/-! ## Capture times -/

/-- The days of the years before one, counted from the year 0. -/
def daysBeforeYear (year : Nat) : Nat := 365 * year + (year + 3) / 4 - (year + 99) / 100 + (year + 399) / 400

def daysBeforeMonth (year month : Nat) : Nat := ((List.range (month - 1)).map fun m => daysInMonth year (m + 1)).sum

/-- `Date.parse(day + "T00:00:00Z")`, for a real day. -/
def dayTime (day : Text) : Int :=
  let year := number (day.take 4)
  let days := daysBeforeYear year + daysBeforeMonth year (number ((day.drop 5).take 2)) + number (day.drop 8) - 1
  ((days : Int) - 719528) * 86400000

/-- Two digits, of a number below a bound. -/
def readTwo (bound : Nat) : Text → Option (Nat × Text)
  | a :: b :: t => if a.isDigit && b.isDigit && number [a, b] < bound then some (number [a, b], t) else none
  | _ => none

/-- `:` and two digits below 60. -/
def readSixtieth : Text → Option (Nat × Text)
  | ':' :: t => readTwo 60 t
  | _ => none

/-- The milliseconds of `.` and its digits; those behind the third do not count. -/
def readFraction : Text → Option (Nat × Text)
  | '.' :: t =>
    let digits := t.takeWhile Char.isDigit
    if digits = [] then none
    else some (number ((digits ++ "00".toList).take 3), t.dropWhile Char.isDigit)
  | t => some (0, t)

/-- The offset of a zone, in minutes; none is UTC. -/
def readZone : Text → Option Int
  | [] | ['Z'] => some 0
  | sign :: t => do
    let (hours, t) ← readTwo 24 t
    let (minutes, t) ← readSixtieth t
    let offset : Int := 60 * hours + minutes
    if t ≠ [] then none
    else if sign = '+' then some offset
    else if sign = '-' then some (-offset)
    else none

/-- The milliseconds of `T…` since the midnight of its day in UTC. -/
def clockTime (t : Text) : Option Int := do
  let (hours, t) ← readTwo 24 t
  let (minutes, t) ← readSixtieth t
  let (seconds, millis, t) ← match readSixtieth t with
    | some (seconds, t) => (readFraction t).map fun r => (seconds, r)
    | none => some (0, 0, t)
  let offset ← readZone t
  return ((60 * hours + minutes : Int) - offset) * 60000 + 1000 * seconds + millis

/-- `Date.parse` of a day and what stands behind it. -/
def timestampOf (value : Text) : Option Int :=
  if validFactDate (value.take 10) = false then none
  else match value.drop 10 with
    | [] => some (dayTime (value.take 10))
    | 'T' :: t => (clockTime t).map (dayTime (value.take 10) + ·)
    | _ => none

def memoryTimestamp (value : Text) : Except EntryError Int :=
  match timestampOf value with
  | some time => return time
  | none => throw (.invalidTimestamp value)

/-! ## The catalog -/

inductive VaultProvider | github | googleDrive
deriving DecidableEq

def VaultProvider.text : VaultProvider → Text
  | .github => "github".toList
  | .googleDrive => "google_drive".toList

/-- A memory entry with where its source is found. -/
structure CatalogEntry extends MemoryEntry where
  url : Text
  provider : VaultProvider
  revisionId : Option Text := none
  githubUrl : Option Text := none
deriving DecidableEq

inductive EntryOrder | newest | oldest
deriving DecidableEq

def EntryOrder.text : EntryOrder → Text
  | .newest => "newest".toList
  | .oldest => "oldest".toList

structure MemoryEntryQuery where
  query : Option Text := none
  source : Option Surface := none
  contentType : Option MemoryContentType := none
  sourceId : Option Text := none
  capturedAfter : Option Text := none
  capturedBefore : Option Text := none
  order : Option EntryOrder := none
  limit : Option Int := none
deriving DecidableEq

/-- What the host computes: Unicode, and the digests the cursors rest on. -/
structure Host where
  nfkc : Text → Text
  toLowerCase : Text → Text
  /-- SHA-256 as hexadecimal digits. -/
  sha256 : Text → Text
  sha256_length : ∀ t, (sha256 t).length = 64
  sha256_hex : ∀ t, ∀ c ∈ sha256 t, c ∈ "0123456789abcdef".toList
  /-- HMAC-SHA-256 under the key of the process. -/
  hmac : Text → List Nat
  hmac_length : ∀ t, (hmac t).length = 32
  hmac_octet : ∀ t, ∀ b ∈ hmac t, b < 256

variable (host : Host)

/-- `t.normalize("NFKC").toLowerCase()`. -/
def fold (t : Text) : Text := host.toLowerCase (host.nfkc t)

/-- The time of a bound that is given and not empty. -/
def boundTime (bound : Option Text) : Except EntryError (Option Int) :=
  match bound.filter (· ≠ []) with
  | some value => some <$> memoryTimestamp value
  | none => return none

/-- An entry with its time. -/
def stamp (entry : CatalogEntry) : Except EntryError (Int × CatalogEntry) := do
  let time ← memoryTimestamp entry.capturedAt
  return (time, entry)

/-- What a query asks of an entry. -/
structure Criteria where
  source : Option Surface
  contentType : Option MemoryContentType
  sourceId : Option Text
  after : Option Int
  before : Option Int
  terms : List Text

def Criteria.admits (q : Criteria) (e : Int × CatalogEntry) : Bool :=
  let text := fold host (e.2.title ++ '\n' :: e.2.content)
  q.source.all (· = e.2.source) && q.contentType.all (some · = e.2.contentType) &&
    (q.sourceId.filter (· ≠ [])).all (some · = e.2.sourceId) &&
    q.after.all (· ≤ e.1) && q.before.all (e.1 ≤ ·) && q.terms.all (includes text ·)

/-- `left` does not come behind `right`: by the time, then by the reference. -/
def comesFirst (order : EntryOrder) (left right : Int × CatalogEntry) : Bool :=
  match order with
  | .oldest => left.1 < right.1 || (left.1 = right.1 && le left.2.evidenceRef right.2.evidenceRef)
  | .newest => right.1 < left.1 || (left.1 = right.1 && le right.2.evidenceRef left.2.evidenceRef)

def criteriaOf (query : MemoryEntryQuery) : Except EntryError Criteria := do
  let after ← boundTime query.capturedAfter
  let before ← boundTime query.capturedBefore
  if (after.bind fun a => before.map fun b => decide (b < a)).getD false then throw .rangeReversed
  return {
    source := query.source, contentType := query.contentType, sourceId := query.sourceId
    after := after, before := before, terms := (query.query.map fun t => words (fold host t)).getD [] }

def selectMemoryEntries (entries : List CatalogEntry) (query : MemoryEntryQuery) : Except EntryError (List CatalogEntry) := do
  let criteria ← criteriaOf host query
  let stamped ← entries.mapM stamp
  let order := query.order.getD .newest
  return ((stamped.filter (criteria.admits host)).insertionSort fun l r => comesFirst order l r = true).map (·.2)

/-- `t.split(/\s+/)` of a trimmed text. -/
def queryWords (t : Text) : List Text := if words t = [] then [[]] else words t

def timeJson (time : Option Int) : Json := (time.map fun t => Json.num (.ofInt t)).getD .null

/-- What the hash of a query is taken of. -/
def queryJson (query : MemoryEntryQuery) : Except EntryError Json := do
  let after ← boundTime query.capturedAfter
  let before ← boundTime query.capturedBefore
  return Json.object [
    ("query".toList, query.query.map fun t => .arr ((queryWords (fold host t)).map .str)),
    ("source".toList, query.source.map fun s => .str s.text),
    ("contentType".toList, query.contentType.map fun c => .str c.name),
    ("sourceId".toList, query.sourceId.map .str),
    ("after".toList, some (timeJson after)),
    ("before".toList, some (timeJson before)),
    ("order".toList, some (.str (query.order.getD .newest).text))]

/-! ## What is selected -/

theorem stamp_ok {e : CatalogEntry} {p : Int × CatalogEntry} (h : stamp e = .ok p) :
    p.2 = e ∧ memoryTimestamp e.capturedAt = .ok p.1 := by
  unfold stamp at h
  cases htime : memoryTimestamp e.capturedAt with
  | error err => rw [htime] at h; cases h
  | ok time =>
    rw [htime] at h
    cases h
    exact ⟨rfl, rfl⟩

theorem mapM_stamp {entries : List CatalogEntry} {stamped : List (Int × CatalogEntry)} (h : entries.mapM stamp = .ok stamped) :
    ∀ p ∈ stamped, p.2 ∈ entries ∧ memoryTimestamp p.2.capturedAt = .ok p.1 := by
  induction entries generalizing stamped with
  | nil =>
    cases h
    exact fun p hp => by cases hp
  | cons e entries ih =>
    rw [List.mapM_cons] at h
    cases he : stamp e with
    | error err => rw [he] at h; cases h
    | ok first =>
      cases hrest : entries.mapM stamp with
      | error err => rw [he, hrest] at h; cases h
      | ok rest =>
        rw [he, hrest] at h
        cases h
        obtain ⟨rfl, htime⟩ := stamp_ok he
        intro p hp
        rcases List.mem_cons.1 hp with rfl | hp
        · exact ⟨List.mem_cons_self, htime⟩
        · obtain ⟨hmem, hp⟩ := ih hrest p hp
          exact ⟨List.mem_cons_of_mem _ hmem, hp⟩

/-- **What is selected** is in the catalog and has a time. -/
theorem select_mem {entries selected : List CatalogEntry} {query : MemoryEntryQuery}
    (h : selectMemoryEntries host entries query = .ok selected) :
    ∀ e ∈ selected, e ∈ entries ∧ ∃ time, memoryTimestamp e.capturedAt = .ok time := by
  unfold selectMemoryEntries at h
  cases hcriteria : criteriaOf host query with
  | error err => rw [hcriteria] at h; cases h
  | ok criteria =>
  cases hstamped : entries.mapM stamp with
  | error err => rw [hcriteria, hstamped] at h; cases h
  | ok stamped =>
    rw [hcriteria, hstamped] at h
    cases h
    intro e he
    obtain ⟨p, hp, rfl⟩ := List.mem_map.1 he
    have hp := (List.mem_filter.1 ((List.mem_insertionSort _).1 hp)).1
    obtain ⟨hmem, htime⟩ := mapM_stamp hstamped p hp
    exact ⟨hmem, p.1, htime⟩

/-! ## Queries with one key -/

theorem queryWords_filter (t : Text) : (queryWords t).filter (· ≠ []) = words t := by
  have hwords : (words t).filter (· ≠ []) = words t := by
    unfold words
    rw [List.filter_filter]
    simp only [Bool.and_self]
  unfold queryWords
  split
  next h => rw [h]; rfl
  next => exact hwords

theorem timeJson_inj {s t : Option Int} (h : timeJson s = timeJson t) : s = t := by
  cases s with
  | none => cases t with
    | none => rfl
    | some t => cases h
  | some s => cases t with
    | none => cases h
    | some t => rw [Json.ofInt_inj h]

theorem surfaceText_inj {s t : Surface} (h : s.text = t.text) : s = t := by
  cases s <;> cases t <;> first | rfl | exact absurd h (by decide)

theorem contentTypeName_inj {c d : MemoryContentType} (h : c.name = d.name) : c = d := by
  cases c <;> cases d <;> first | rfl | exact absurd h (by decide)

theorem orderText_inj {o p : EntryOrder} (h : o.text = p.text) : o = p := by
  cases o <;> cases p <;> first | rfl | exact absurd h (by decide)

theorem providerText_inj {o p : VaultProvider} (h : o.text = p.text) : o = p := by
  cases o <;> cases p <;> first | rfl | exact absurd h (by decide)

theorem map_str_inj {α : Type} {f : α → Text} (hf : ∀ a b, f a = f b → a = b) {o p : Option α}
    (h : o.map (fun a => Json.str (f a)) = p.map fun a => Json.str (f a)) : o = p :=
  Option.map_injective (fun a b hab => hf a b (Json.str.inj hab)) h

/-- **Queries with one key select the same**, whatever the catalog. -/
theorem select_eq_of_key {q r : MemoryEntryQuery} {j : Json} (hq : queryJson host q = .ok j) (hr : queryJson host r = .ok j)
    (entries : List CatalogEntry) : selectMemoryEntries host entries q = selectMemoryEntries host entries r := by
  unfold queryJson at hq hr
  cases hqa : boundTime q.capturedAfter with
  | error err => rw [hqa] at hq; cases hq
  | ok after =>
  cases hqb : boundTime q.capturedBefore with
  | error err => rw [hqa, hqb] at hq; cases hq
  | ok before =>
  cases hra : boundTime r.capturedAfter with
  | error err => rw [hra] at hr; cases hr
  | ok after' =>
  cases hrb : boundTime r.capturedBefore with
  | error err => rw [hra, hrb] at hr; cases hr
  | ok before' =>
  rw [hqa, hqb] at hq
  rw [hra, hrb] at hr
  have hobject := (Except.ok.inj hq).trans (Except.ok.inj hr).symm
  have hkeys : (["query", "source", "contentType", "sourceId", "after", "before", "order"].map String.toList).Nodup := by
    decide
  have hfields := Json.object_inj hobject rfl hkeys
  simp only [List.cons.injEq, Prod.mk.injEq, true_and, and_true, Option.some.injEq, Json.str.injEq] at hfields
  obtain ⟨hquery, hsource, htype, hid, hafter, hbefore, horder⟩ := hfields
  have hwords : q.query.map (fun t => queryWords (fold host t)) = r.query.map fun t => queryWords (fold host t) := by
    refine Option.map_injective (f := fun ws : List Text => Json.arr (ws.map .str)) (fun a b hab => ?_) ?_
    · exact List.map_injective_iff.2 (fun a b => Json.str.inj) (Json.arr.inj hab)
    · rw [Option.map_map, Option.map_map]
      exact hquery
  have hterms : q.query.map (fun t => words (fold host t)) = r.query.map fun t => words (fold host t) := by
    have hfiltered := congrArg (Option.map fun ws : List Text => ws.filter (· ≠ [])) hwords
    rw [Option.map_map, Option.map_map] at hfiltered
    simpa only [Function.comp_def, queryWords_filter] using hfiltered
  have hcriteria : criteriaOf host q = criteriaOf host r := by
    unfold criteriaOf
    rw [hqa, hqb, hra, hrb, timeJson_inj hafter, timeJson_inj hbefore, hterms, map_str_inj (fun _ _ => surfaceText_inj) hsource,
      map_str_inj (fun _ _ => contentTypeName_inj) htype, map_str_inj (fun _ _ h => h) hid]
  unfold selectMemoryEntries
  rw [hcriteria, orderText_inj horder]

end Zenod.Engine
