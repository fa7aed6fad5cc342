/-
Topic filing receipts (`engine/filingReceipt.ts`): the plan that is kept on an
inbox page, sealed with a digest, and how it is read back. A receipt is an
object of JavaScript; SHA-256 is a parameter.

`body_page`: the fenced block of a page is what was put there.
`filing_receipts_iff`: when receipts survive the page, and what the digest
tells apart.
-/
import Mathlib.Data.List.Chain
import Mathlib.Data.Set.Function
import Zenod.Engine.EntryWalk
import Zenod.Lib.JsonValue
import Zenod.Vault.Note

namespace Zenod.Engine

open Text

variable (sha256 : Text → Text)

/-! ## The receipt -/

def digestOf (v : Json) : Text := sha256 v.stringify

/-- A receipt with the digest of what it is made of. -/
def sealFilingReceipt (receipt : List (Text × Json)) : Json :=
  .obj (Json.ofAssignments (receipt ++ [("filingRevision".toList, .str (digestOf sha256 (.obj receipt)))]))

/-- Every topic of the list was filed; a topic that is `null` has no status to look at. -/
def everyFiled : List Json → Option Bool
  | [] => some true
  | .null :: _ => none
  | topic :: rest => if isText (topic.field? "status".toList) "filed".toList then everyFiled rest else some false

def isResolved (receipt : Json) : Option Bool :=
  if isText (receipt.field? "phase".toList) "ready".toList then
    match receipt.field? "outcomes".toList with
    | some (.arr []) => some false
    | some (.arr outcomes) => everyFiled outcomes
    | _ => none
  else some false

/-- Three backticks. -/
def fence : Text := List.replicate 3 (Char.ofNat 0x60)

/-- The page up to its fenced block. -/
def pageHead (resolved : Bool) (evidence : Text) : Text :=
  join ["---".toList, "status: ".toList ++ (if resolved then "filing-resolved".toList else "filing-record".toList),
    "evidence: ".toList ++ evidence, "---".toList, [], "# Topic filing receipt".toList, [],
    "This plan is durable only when its containing revision is verified at the vault provider.".toList, []]

def renderFilingReceipt (receipt : Json) : Option Text := do
  let resolved ← isResolved receipt
  let evidence := ((receipt.field? "evidenceRef".toList).map Json.stringify).getD "undefined".toList
  return join [pageHead resolved evidence, fence ++ "json".toList, receipt.stringifyIndented, fence, []]

/-! ## Reading -/

def openingFence : Text := '\n' :: (fence ++ "json\n".toList)

def closingFence : Text := '\n' :: fence

/-- What a text is without the closing fence it ends with. -/
def unclosed (t : Text) : Option Text :=
  if (closingFence ++ ['\n']).isSuffixOf t then some (t.rdrop (closingFence.length + 1))
  else if closingFence.isSuffixOf t then some (t.rdrop closingFence.length)
  else none

/-- The fenced block a page ends with. Where the first opening fence has no closing one behind it, no later one has. -/
def body? (content : Text) : Option Text := (cut openingFence content).bind fun r => unclosed r.2

/-- The value a page carries. -/
def embedded (content : Text) : Option Json := ((body? content).filter (· ≠ [])).bind Json.read

def isString : Option Json → Bool
  | some (.str _) => true
  | _ => false

def safeFilingPath (path : Text) : Bool :=
  path ≠ [] && !startsWith path ['/'] && !path.contains '\\' &&
    !(Vault.segments path).any (fun part => part = "..".toList || part = ['.'] || part = []) &&
    ((Vault.meaningFolders.map (·.1)).contains ((Vault.segments path).headD []) ||
      Vault.objectNames.contains ((Vault.segments path).headD [])) &&
    ".md".toList.isSuffixOf path

/-- The id of a topic, unless it is empty. -/
def ideaId? (topic : Json) : Option Text :=
  match topic.field? "ideaId".toList with
  | some (.str id) => if id = [] then none else some id
  | _ => none

/-- The topics have ids, and no two the same. -/
def distinctIdeas (topics : List Json) : Bool :=
  match topics.mapM ideaId? with
  | some ids => decide ids.Nodup
  | none => false

/-- A path and the bytes that are to stand there. -/
def preparedFile (file : Text × Json) : Bool :=
  safeFilingPath file.1 &&
    match file.2.field? "after".toList with
    | some (.str after) => isText (file.2.field? "afterHash".toList) (sha256 after)
    | _ => false

/-- What is looked at of a receipt besides its digest. -/
def sound (receipt : Json) : Bool :=
  isNumber (receipt.field? "version".toList) 1 && isString (receipt.field? "evidenceRef".toList) &&
    isString (receipt.field? "inputFingerprint".toList) &&
    (isText (receipt.field? "phase".toList) "prepared".toList || isText (receipt.field? "phase".toList) "ready".toList) &&
    (match (receipt.field? "classification".toList).bind (Json.field? · "topics".toList) with
    | some (.arr topics) => distinctIdeas topics
    | _ => false) &&
    (match receipt.field? "outcomes".toList with
    | some (.arr _) => true
    | _ => false) &&
    match receipt.field? "files".toList with
    | some (.obj files) => files.all (preparedFile sha256)
    | some (.arr files) => files.isEmpty
    | _ => false

/-- The plan: what the digest is taken of. -/
def payload : Json → Json
  | .obj entries => .obj (entries.filter fun e => e.1 ≠ "filingRevision".toList)
  | v => v

def accepts (receipt : Json) : Bool :=
  sound sha256 receipt && isText (receipt.field? "filingRevision".toList) (digestOf sha256 (payload receipt))

def parseFilingReceiptEnvelope (content : Text) : Option Json := (embedded content).filter (accepts sha256 ·)

/-! ## The fenced block -/

/-- The first mark, where no two characters in front of it are those it begins with. -/
theorem cut_of_isChain {x y : Char} {ms a : Text} (h : (a ++ [x]).IsChain fun c d => ¬(c = x ∧ d = y)) (b : Text) :
    cut (x :: y :: ms) (a ++ x :: y :: ms ++ b) = some (a, b) := by
  induction a with
  | nil => exact cut_append_self (x :: y :: ms) b
  | cons c a ih =>
    have hnot : ¬x :: y :: ms <+: c :: (a ++ x :: y :: ms ++ b) := by
      rintro ⟨rest, hrest⟩
      cases a with
      | nil =>
        simp only [List.nil_append, List.cons_append, List.cons.injEq] at hrest
        exact List.rel_of_isChain_cons_cons h ⟨hrest.1.symm, hrest.2.1.symm⟩
      | cons d a =>
        simp only [List.cons_append, List.cons.injEq] at hrest
        exact List.rel_of_isChain_cons_cons h ⟨hrest.1.symm, hrest.2.1.symm⟩
    have htail := ih (List.isChain_of_isChain_cons h)
    simp only [List.cons_append, List.append_assoc] at htail hnot ⊢
    rw [cut_cons_of_not_start hnot, htail]
    rfl

theorem newline_not_mem_escape (c : Char) : '\n' ∉ Js.escape c := by
  have hhex : ∀ n < 16, Js.hexDigit n ≠ '\n' := by decide
  have hplain : c.toNat ≠ 0x0a → '\n' ≠ c := fun h hc => h (by rw [← hc]; rfl)
  unfold Js.escape
  simp only []
  split
  next h =>
    simp only [List.mem_cons, List.not_mem_nil, or_false, not_or]
    exact ⟨by decide, hplain (by omega)⟩
  next =>
  split
  next => decide
  next =>
  split
  next => decide
  next =>
  split
  next => decide
  next hnewline =>
  split
  next => decide
  next =>
  split
  next => decide
  next =>
  split
  next h =>
    have hhigh := hhex (c.toNat / 16) (by omega)
    have hlow := hhex (c.toNat % 16) (by omega)
    simp only [List.mem_cons, List.not_mem_nil, or_false, not_or]
    exact ⟨by decide, by decide, by decide, by decide, hhigh.symm, hlow.symm⟩
  next => simpa using hplain hnewline

theorem newline_not_mem_quote (t : Text) : '\n' ∉ Js.quote (String.ofList t) := by
  have hquote := Json.quote_eq t []
  rw [List.append_nil] at hquote
  rw [hquote]
  simp only [List.mem_cons, List.mem_append, List.mem_flatMap, List.not_mem_nil, or_false, not_or, not_exists, not_and]
  exact ⟨by decide, fun c _ => newline_not_mem_escape c, by decide⟩

theorem isChain_of_not_mem {x y : Char} {t : Text} (h : x ∉ t) : t.IsChain fun c d => ¬(c = x ∧ d = y) := by
  refine List.Pairwise.isChain (List.pairwise_of_forall_mem_list fun c hc d _ hboth => h ?_)
  exact hboth.1 ▸ hc

/-- Two characters that do not open a fence. -/
abbrev Unfenced (c d : Char) : Prop := ¬(c = '\n' ∧ d = Char.ofNat 0x60)

/-- What stands around the evidence in the head of a page. -/
theorem pageHead_parts (resolved : Bool) (evidence : Text) : ∃ a b, pageHead resolved evidence = a ++ (evidence ++ b) ∧
    a.IsChain Unfenced ∧ (∀ c ∈ a.getLast?, c ≠ '\n') ∧ (b ++ ['\n']).IsChain Unfenced := by
  refine ⟨"---\nstatus: ".toList ++ ((if resolved then "filing-resolved".toList else "filing-record".toList) ++
      "\nevidence: ".toList), "\n---\n\n# Topic filing receipt\n\n".toList ++
      ("This plan is durable only when its containing revision is verified at the vault provider.".toList ++ ['\n']),
    ?_, by cases resolved <;> decide, by cases resolved <;> simp, by decide +kernel⟩
  unfold pageHead
  simp only [join_cons_cons, List.append_assoc]
  cases resolved <;> rfl

/-- **The fenced block of a page** is what was put there. -/
theorem body_page (resolved : Bool) {evidence : Text} (h : '\n' ∉ evidence) (text : Text) :
    body? (join [pageHead resolved evidence, fence ++ "json".toList, text, fence, []]) = some text := by
  have hpage : join [pageHead resolved evidence, fence ++ "json".toList, text, fence, []] =
      pageHead resolved evidence ++ openingFence ++ (text ++ (closingFence ++ ['\n'])) := by
    simp only [join_cons_cons, openingFence, closingFence, List.append_assoc, List.cons_append]
    rfl
  have hchain : (pageHead resolved evidence ++ ['\n']).IsChain Unfenced := by
    obtain ⟨a, b, hparts, ha, hlast, hb⟩ := pageHead_parts resolved evidence
    rw [hparts, List.append_assoc, List.append_assoc, List.isChain_append, List.isChain_append]
    refine ⟨ha, ⟨isChain_of_not_mem h, hb, fun c hc d _ hboth => ?_⟩, fun c hc d _ hboth => hlast c hc hboth.1⟩
    exact h (hboth.1 ▸ List.mem_of_mem_getLast? hc)
  have hclosed : unclosed (text ++ (closingFence ++ ['\n'])) = some text := by
    unfold unclosed
    have hlength : (closingFence ++ ['\n']).length = closingFence.length + 1 := List.length_append
    rw [if_pos (List.isSuffixOf_iff_suffix.2 (List.suffix_append _ _)), ← hlength, List.rdrop_append_length]
  unfold body?
  rw [hpage]
  have hcut := @cut_of_isChain _ _ (fence.tail ++ "json\n".toList) _ hchain (text ++ (closingFence ++ ['\n']))
  rw [show openingFence = '\n' :: Char.ofNat 0x60 :: (fence.tail ++ "json\n".toList) from rfl, hcut]
  exact hclosed

/-! ## What is rendered -/

/-- No topic that is `null` stands behind topics that were all filed, on a receipt that is ready. -/
def Renderable (receipt : Json) : Prop :=
  isText (receipt.field? "phase".toList) "ready".toList = true →
    ∀ a b, receipt.field? "outcomes".toList = some (.arr (a ++ .null :: b)) →
      ∃ topic ∈ a, isText (topic.field? "status".toList) "filed".toList = false

theorem everyFiled_cons {topic : Json} (h : topic ≠ .null) (rest : List Json) : everyFiled (topic :: rest) =
    if isText (topic.field? "status".toList) "filed".toList then everyFiled rest else some false := by
  cases topic <;> first | rfl | exact absurd rfl h

theorem everyFiled_isSome {topics : List Json} : (everyFiled topics).isSome = true ↔
    ∀ a b, topics = a ++ .null :: b → ∃ topic ∈ a, isText (topic.field? "status".toList) "filed".toList = false := by
  induction topics with
  | nil => exact iff_of_true rfl fun a b h => absurd h.symm (List.append_ne_nil_of_right_ne_nil _ (List.cons_ne_nil _ _))
  | cons topic rest ih =>
    by_cases hnull : topic = .null
    · subst hnull
      refine iff_of_false Bool.false_ne_true fun h => ?_
      obtain ⟨_, hmem, _⟩ := h [] rest rfl
      cases hmem
    rw [everyFiled_cons hnull]
    cases hfiled : isText (topic.field? "status".toList) "filed".toList with
    | false =>
      refine iff_of_true rfl fun a b h => ?_
      cases a with
      | nil => exact absurd (List.cons.inj h).1 hnull
      | cons first a => exact ⟨first, List.mem_cons_self, (List.cons.inj h).1 ▸ hfiled⟩
    | true =>
      rw [if_pos rfl, ih]
      constructor
      · intro h a b heq
        cases a with
        | nil => exact absurd (List.cons.inj heq).1 hnull
        | cons first a =>
          obtain ⟨t, ht, hunfiled⟩ := h a b (List.cons.inj heq).2
          exact ⟨t, List.mem_cons_of_mem first ht, hunfiled⟩
      · intro h a b heq
        obtain ⟨t, ht, hunfiled⟩ := h (topic :: a) b (by rw [heq]; rfl)
        rcases List.mem_cons.1 ht with rfl | ht
        · rw [hfiled] at hunfiled
          cases hunfiled
        · exact ⟨t, ht, hunfiled⟩

variable {sha256} {receipt : Json}

theorem outcomes_of_sound (h : sound sha256 receipt = true) :
    ∃ topics, receipt.field? "outcomes".toList = some (.arr topics) := by
  unfold sound at h
  simp only [Bool.and_eq_true] at h
  have houtcomes := h.1.2
  split at houtcomes
  next topics heq => exact ⟨topics, heq⟩
  next => cases houtcomes

theorem evidence_of_sound (h : sound sha256 receipt = true) :
    ∃ evidence, receipt.field? "evidenceRef".toList = some (.str evidence) := by
  unfold sound at h
  simp only [Bool.and_eq_true] at h
  have hevidence := h.1.1.1.1.1.2
  unfold isString at hevidence
  split at hevidence
  next evidence heq => exact ⟨evidence, heq⟩
  next => cases hevidence

theorem isResolved_isSome (h : sound sha256 receipt = true) : (isResolved receipt).isSome = true ↔ Renderable receipt := by
  obtain ⟨topics, htopics⟩ := outcomes_of_sound h
  unfold isResolved Renderable
  rw [htopics]
  split
  next hready =>
    simp only [hready, forall_const, Option.some.injEq, Json.arr.injEq]
    cases topics with
    | nil => exact iff_of_true rfl fun a b h => absurd h.symm (List.append_ne_nil_of_right_ne_nil _ (List.cons_ne_nil _ _))
    | cons topic rest => exact everyFiled_isSome
  next hready => exact iff_of_true rfl fun h => absurd h hready

/-- **The value a rendered receipt carries** is what was written of it. -/
theorem embedded_render (hvalue : receipt.IsValue) (h : sound sha256 receipt = true) {page : Text}
    (hpage : renderFilingReceipt receipt = some page) : embedded page = some receipt.written := by
  obtain ⟨evidence, hevidence⟩ := evidence_of_sound h
  unfold renderFilingReceipt at hpage
  cases hresolved : isResolved receipt with
  | none => rw [hresolved] at hpage; cases hpage
  | some resolved =>
    rw [hresolved, hevidence] at hpage
    cases hpage
    have hnewline : '\n' ∉ (((some (Json.str evidence)).map Json.stringify).getD "undefined".toList) :=
      newline_not_mem_quote evidence
    have htext : receipt.stringifyIndented ≠ [] :=
      List.ne_nil_of_length_pos (Json.lay_length_pos .indented 0 receipt.written)
    have hbody : (some receipt.stringifyIndented).filter (· ≠ []) = some receipt.stringifyIndented :=
      Option.filter_some_pos (decide_eq_true htext)
    unfold embedded
    rw [body_page resolved hnewline, hbody, Option.bind_some, Json.read_stringifyIndented hvalue]

theorem render_isSome (h : sound sha256 receipt = true) :
    (∃ page, renderFilingReceipt receipt = some page) ↔ Renderable receipt := by
  rw [← isResolved_isSome h]
  unfold renderFilingReceipt
  cases isResolved receipt with
  | none => exact iff_of_false (fun ⟨_, hpage⟩ => by cases hpage) (by decide)
  | some resolved => exact iff_of_true ⟨_, rfl⟩ rfl

theorem parse_iff {content : Text} : parseFilingReceiptEnvelope sha256 content = some receipt ↔
    embedded content = some receipt ∧ accepts sha256 receipt = true := by
  unfold parseFilingReceiptEnvelope
  rw [Option.filter_eq_some_iff]

theorem isValue_of_embedded {content : Text} (h : embedded content = some receipt) : receipt.IsValue := by
  obtain ⟨body, _, hread⟩ := Option.bind_eq_some_iff.1 h
  exact Json.isValue_of_read hread

/-- **A receipt that is accepted survives its page** exactly when it is rendered and its numbers are finite. -/
theorem survives_iff (hvalue : receipt.IsValue) (h : accepts sha256 receipt = true) :
    (∃ page, renderFilingReceipt receipt = some page ∧ parseFilingReceiptEnvelope sha256 page = some receipt) ↔
      Renderable receipt ∧ receipt.Finite := by
  have hsound : sound sha256 receipt = true := (Bool.and_eq_true_iff.1 h).1
  rw [← render_isSome hsound, ← Json.written_eq_iff]
  constructor
  · rintro ⟨page, hpage, hparse⟩
    refine ⟨⟨page, hpage⟩, ?_⟩
    have hembedded := embedded_render hvalue hsound hpage
    exact Option.some.inj (hembedded.symm.trans (parse_iff.1 hparse).1)
  · rintro ⟨⟨page, hpage⟩, hwritten⟩
    refine ⟨page, hpage, parse_iff.2 ⟨?_, h⟩⟩
    rw [embedded_render hvalue hsound hpage, hwritten]

/-! ## Sealing -/

section
variable {entries : List (Text × Json)} {key other : Text} {v : Json}

theorem field?_append_other (h : other ≠ key) :
    (Json.obj (entries ++ [(other, v)])).field? key = (Json.obj entries).field? key := by
  simp only [Json.field?]
  rw [List.reverse_append, List.reverse_singleton, List.singleton_append, List.find?_cons_of_neg]
  simpa using h

theorem field?_append_self : (Json.obj (entries ++ [(key, v)])).field? key = some v := by
  simp only [Json.field?]
  rw [List.reverse_append, List.reverse_singleton, List.singleton_append, List.find?_cons]
  simp only [decide_true, Option.map_some]

theorem haveFinite_append_str {t : Text} : Json.HaveFinite (entries ++ [(key, .str t)]) ↔ Json.HaveFinite entries := by
  induction entries with
  | nil => exact iff_of_true ⟨trivial, trivial⟩ trivial
  | cons e rest ih =>
    obtain ⟨k, w⟩ := e
    rw [List.cons_append, Json.HaveFinite, Json.HaveFinite, ih]

theorem haveValues_append_str {t : Text} (h : Json.HaveValues entries) : Json.HaveValues (entries ++ [(key, .str t)]) := by
  rw [Json.haveValues_iff] at h ⊢
  intro e he
  rcases List.mem_append.1 he with he | he
  · exact h e he
  · rw [List.mem_singleton.1 he]
    trivial

theorem keysOrdered_append (h : Json.KeysOrdered (entries.map (·.1))) (hnew : key ∉ entries.map (·.1))
    (hlast : Json.rank key = 4294967295) : Json.KeysOrdered ((entries ++ [(key, v)]).map (·.1)) := by
  rw [List.map_append, List.map_singleton]
  constructor
  · refine List.nodup_append.2 ⟨h.1, List.nodup_singleton _, fun a ha b hb hab => hnew ?_⟩
    have hkey : a = key := hab.trans (List.mem_singleton.1 hb)
    exact hkey ▸ ha
  · rw [List.map_append, List.map_singleton, List.pairwise_append]
    refine ⟨h.2, List.pairwise_singleton _ _, fun a ha b hb => ?_⟩
    obtain ⟨k, _, rfl⟩ := List.mem_map.1 ha
    rw [List.mem_singleton.1 hb, hlast]
    exact Json.rank_le k

end

/-- What is sealed: an object of JavaScript that is not sealed yet, as a receipt is typed, with the ideas and files that
a receipt is to have. -/
structure Sealable (sha256 : Text → Text) (entries : List (Text × Json)) : Prop where
  value : (Json.obj entries).IsValue
  unsealed : "filingRevision".toList ∉ entries.map (·.1)
  sound : sound sha256 (.obj entries) = true
  outcomes : ∀ topics, (Json.obj entries).field? "outcomes".toList = some (.arr topics) → .null ∉ topics

section
variable {entries : List (Text × Json)}

theorem Sealable.seal_eq (h : Sealable sha256 entries) : sealFilingReceipt sha256 entries =
    .obj (entries ++ [("filingRevision".toList, .str (digestOf sha256 (.obj entries)))]) := by
  unfold sealFilingReceipt
  rw [Json.ofAssignments_eq (keysOrdered_append h.value.1 h.unsealed (by decide))]

theorem filter_append_new {key : Text} (h : key ∉ entries.map (·.1)) (d : Json) :
    (entries ++ [(key, d)]).filter (fun e => e.1 ≠ key) = entries := by
  have hkeep : ∀ e ∈ entries, decide (e.1 ≠ key) = true :=
    fun e he => decide_eq_true fun heq => h (heq ▸ List.mem_map_of_mem he)
  rw [List.filter_append, List.filter_eq_self.2 hkeep]
  simp

theorem payload_append (h : "filingRevision".toList ∉ entries.map (·.1)) (d : Json) :
    payload (.obj (entries ++ [("filingRevision".toList, d)])) = .obj entries :=
  congrArg Json.obj (filter_append_new h d)

theorem Sealable.accepted (h : Sealable sha256 entries) : accepts sha256 (sealFilingReceipt sha256 entries) = true := by
  have hfield : ∀ key, "filingRevision".toList ≠ key →
      (sealFilingReceipt sha256 entries).field? key = (Json.obj entries).field? key := by
    intro key hkey
    rw [h.seal_eq, field?_append_other hkey]
  have hsound : Engine.sound sha256 (sealFilingReceipt sha256 entries) = Engine.sound sha256 (.obj entries) := by
    unfold Engine.sound
    rw [hfield _ (by decide), hfield _ (by decide), hfield _ (by decide), hfield _ (by decide), hfield _ (by decide),
      hfield _ (by decide), hfield _ (by decide)]
  unfold accepts
  rw [hsound, h.sound, h.seal_eq, field?_append_self, payload_append h.unsealed _]
  exact decide_eq_true rfl

/-- **A sealed receipt survives its page** exactly when its numbers are finite. -/
theorem Sealable.survives_iff (h : Sealable sha256 entries) :
    (∃ page, renderFilingReceipt (sealFilingReceipt sha256 entries) = some page ∧
      parseFilingReceiptEnvelope sha256 page = some (sealFilingReceipt sha256 entries)) ↔ (Json.obj entries).Finite := by
  have hvalue : (sealFilingReceipt sha256 entries).IsValue := by
    rw [h.seal_eq]
    exact ⟨keysOrdered_append h.value.1 h.unsealed (by decide), haveValues_append_str h.value.2⟩
  have hrenderable : Renderable (sealFilingReceipt sha256 entries) := by
    intro _ a b houtcomes
    rw [h.seal_eq, field?_append_other (by decide)] at houtcomes
    exact absurd (List.mem_append_right a List.mem_cons_self) (h.outcomes _ houtcomes)
  rw [Engine.survives_iff hvalue h.accepted, and_iff_right hrenderable, h.seal_eq, Json.Finite, Json.Finite,
    haveFinite_append_str]

end

/-! ## What the digest tells apart -/

/-- **A plan that was changed is rejected** under the digest of another, unless nothing of the change is written. -/
theorem accepted_iff_same_plan {v w : Json} {content other : Text}
    (hparse : parseFilingReceiptEnvelope sha256 content = some v) (hother : embedded other = some w)
    (hrevision : w.field? "filingRevision".toList = v.field? "filingRevision".toList)
    (hhash : Set.InjOn sha256 {(payload v).stringify, (payload w).stringify}) :
    parseFilingReceiptEnvelope sha256 other = some w ↔
      sound sha256 w = true ∧ (payload w).written = (payload v).written := by
  have haccepted := (Bool.and_eq_true_iff.1 (parse_iff.1 hparse).2).2
  have hv : v.field? "filingRevision".toList = some (.str (digestOf sha256 (payload v))) := by
    unfold isText at haccepted
    split at haccepted
    next s heq => rw [heq, of_decide_eq_true haccepted]
    next => cases haccepted
  rw [parse_iff, and_iff_right hother]
  unfold accepts
  rw [Bool.and_eq_true, hrevision, hv]
  refine and_congr_right fun _ => ?_
  show decide (digestOf sha256 (payload v) = digestOf sha256 (payload w)) = true ↔ _
  rw [decide_eq_true_eq]
  constructor
  · intro heq
    exact (Json.stringify_inj (hhash (Or.inl rfl) (Or.inr rfl) heq)).symm
  · intro hsame
    unfold digestOf Json.stringify
    rw [hsame]

/-- **Filing receipts.** A sealed receipt survives its page exactly when its numbers are finite; a receipt that was
accepted exactly when, besides, it can be rendered; and under the digest of an accepted receipt another plan is
rejected, unless it is written the same. -/
theorem filing_receipts_iff (sha256 : Text → Text) :
    (∀ entries, Sealable sha256 entries →
      ((∃ page, renderFilingReceipt (sealFilingReceipt sha256 entries) = some page ∧
        parseFilingReceiptEnvelope sha256 page = some (sealFilingReceipt sha256 entries)) ↔ (Json.obj entries).Finite)) ∧
    (∀ content v, parseFilingReceiptEnvelope sha256 content = some v →
      ((∃ page, renderFilingReceipt v = some page ∧ parseFilingReceiptEnvelope sha256 page = some v) ↔
        Renderable v ∧ v.Finite)) ∧
    ∀ content other v w, parseFilingReceiptEnvelope sha256 content = some v → embedded other = some w →
      w.field? "filingRevision".toList = v.field? "filingRevision".toList →
      Set.InjOn sha256 {(payload v).stringify, (payload w).stringify} →
      (parseFilingReceiptEnvelope sha256 other = some w ↔
        sound sha256 w = true ∧ (payload w).written = (payload v).written) := by
  refine ⟨fun entries h => h.survives_iff, fun content v h => ?_, fun content other v w => accepted_iff_same_plan⟩
  obtain ⟨hembedded, haccepted⟩ := parse_iff.1 h
  exact survives_iff (isValue_of_embedded hembedded) haccepted

/-! ## Two receipts -/

/-- The parts of a receipt, with one topic and one file. -/
def sampleParts (outcomes : List Json) (after : Text) : List (Text × Json) := [
  ("version".toList, .num (.ofInt 1)), ("evidenceRef".toList, .str "Log/2026-01-01.md#^e-00000a".toList),
  ("inputFingerprint".toList, .str "f".toList), ("phase".toList, .str "ready".toList),
  ("classification".toList, .obj [("topics".toList, .arr [.obj [("ideaId".toList, .str "idea-1".toList)]])]),
  ("outcomes".toList, .arr outcomes),
  ("files".toList, .obj [("Notes/A.md".toList,
    .obj [("after".toList, .str after), ("afterHash".toList, .str (Host.sample.sha256 after))])])]

/-- A file whose bytes close a fence of their own. -/
def sampleReceipt : List (Text × Json) :=
  sampleParts [.obj [("status".toList, .str "filed".toList)]] ('\n' :: (fence ++ "\n---\n".toList))

theorem sealable_sample : Sealable Host.sample.sha256 sampleReceipt where
  value := by
    refine ⟨⟨by decide, by decide⟩, Or.inl (by decide +kernel), trivial, trivial, trivial, ?_, ?_, ?_, trivial⟩
    · exact ⟨⟨by decide, by decide⟩, ⟨⟨⟨by decide, by decide⟩, trivial, trivial⟩, trivial⟩, trivial⟩
    · exact ⟨⟨⟨by decide, by decide⟩, trivial, trivial⟩, trivial⟩
    · exact ⟨⟨by decide, by decide⟩, ⟨⟨by decide, by decide⟩, trivial, trivial, trivial⟩, trivial⟩
  unsealed := by decide
  sound := by decide +kernel
  outcomes := by
    intro topics htopics
    cases htopics
    exact fun hnull => absurd (List.mem_singleton.1 hnull) (by simp)

theorem sample_survives :
    ∃ page, renderFilingReceipt (sealFilingReceipt Host.sample.sha256 sampleReceipt) = some page ∧
      parseFilingReceiptEnvelope Host.sample.sha256 page = some (sealFilingReceipt Host.sample.sha256 sampleReceipt) := by
  refine ((filing_receipts_iff Host.sample.sha256).1 sampleReceipt sealable_sample).2 ?_
  have hversion : (JsonNumber.ofInt 1).isFinite = true := by decide +kernel
  refine ⟨hversion, trivial, trivial, trivial, ?_, ?_, ?_, trivial⟩
  · exact ⟨⟨⟨trivial, trivial⟩, trivial⟩, trivial⟩
  · exact ⟨⟨trivial, trivial⟩, trivial⟩
  · exact ⟨⟨trivial, trivial, trivial⟩, trivial⟩

/-- The page of a receipt one of whose outcomes is `null`. -/
def nullPage : Text :=
  openingFence ++ (sealFilingReceipt Host.sample.sha256 (sampleParts [.null] [])).stringify ++ closingFence

/-- **A receipt is accepted that cannot be rendered.** -/
theorem accepted_unrendered : ¬∀ content v, parseFilingReceiptEnvelope Host.sample.sha256 content = some v →
    ∃ page, renderFilingReceipt v = some page ∧ parseFilingReceiptEnvelope Host.sample.sha256 page = some v := by
  intro h
  have haccepted : (parseFilingReceiptEnvelope Host.sample.sha256 nullPage).any
      (fun v => (renderFilingReceipt v).isNone) = true := by decide +kernel
  obtain ⟨v, hparse, hnone⟩ := (Option.any_eq_true _ _).1 haccepted
  obtain ⟨page, hpage, _⟩ := h nullPage v hparse
  rw [hpage] at hnone
  cases hnone

end Zenod.Engine
