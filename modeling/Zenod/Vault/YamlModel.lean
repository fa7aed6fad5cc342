/-
A YAML library that does what `Yaml.Lawful` asks: values are printed in a code
of letters that no other value has, but for a few that are printed as YAML
does. Among these is a text that ends in empty lines, printed as a block
scalar: without them it is read back with one newline at its end.
-/
import Zenod.Vault.Note

namespace Zenod.Vault

open Text

/-! ## A code for values -/

def codeText : Text → Text
  | [] => ['.']
  | c :: t => 'c' :: (List.replicate c.toNat 'x' ++ codeText t)

mutual

def codeValue : Value → Text
  | .null => ['n']
  | .bool b => ['b', if b then 't' else 'f']
  | .num t => 'd' :: codeText t
  | .str t => 's' :: codeText t
  | .list items => 'l' :: codeItems items
  | .map entries => 'm' :: codeEntries entries

def codeItems : List Value → Text
  | [] => ['.']
  | v :: rest => ',' :: (codeValue v ++ codeItems rest)

def codeEntries : List (Text × Value) → Text
  | [] => ['.']
  | (key, v) :: rest => ',' :: (codeText key ++ (codeValue v ++ codeEntries rest))

end

theorem replicate_append_inj {m n : Nat} {s t : Text} (hs : s.head? ≠ some 'x') (ht : t.head? ≠ some 'x')
    (h : List.replicate m 'x' ++ s = List.replicate n 'x' ++ t) : m = n ∧ s = t := by
  induction m generalizing n with
  | zero =>
    cases n with
    | zero => exact ⟨rfl, h⟩
    | succ n =>
      rw [List.replicate_zero, List.nil_append] at h
      exact absurd (by rw [h]; rfl) hs
  | succ m ih =>
    cases n with
    | zero =>
      rw [List.replicate_zero, List.nil_append] at h
      exact absurd (by rw [← h]; rfl) ht
    | succ n =>
      rw [List.replicate_succ, List.replicate_succ, List.cons_append, List.cons_append] at h
      obtain ⟨hmn, hst⟩ := ih (List.cons_eq_cons.1 h).2
      exact ⟨congrArg Nat.succ hmn, hst⟩

theorem codeText_head (t s : Text) : (codeText t ++ s).head? ≠ some 'x' := by
  cases t with
  | nil => simp [codeText]
  | cons c t => simp [codeText]

theorem codeText_inj {a b s t : Text} (h : codeText a ++ s = codeText b ++ t) : a = b ∧ s = t := by
  induction a generalizing b with
  | nil =>
    cases b with
    | nil => exact ⟨rfl, (List.cons_eq_cons.1 h).2⟩
    | cons d b => cases h
  | cons c a ih =>
    cases b with
    | nil => cases h
    | cons d b =>
      rw [codeText, codeText, List.cons_append, List.cons_append, List.append_assoc, List.append_assoc] at h
      obtain ⟨hcd, hrest⟩ := replicate_append_inj (codeText_head a s) (codeText_head b t) (List.cons_eq_cons.1 h).2
      obtain ⟨rfl, hst⟩ := ih hrest
      exact ⟨by rw [Char.toNat_inj.1 hcd], hst⟩

mutual

/-- **A value's code ends where it ends**, and tells the value. -/
theorem codeValue_inj {v w : Value} {s t : Text} (h : codeValue v ++ s = codeValue w ++ t) : v = w ∧ s = t := by
  cases v with
  | null =>
    cases w with
    | null => exact ⟨rfl, (List.cons_eq_cons.1 h).2⟩
    | _ => cases h
  | bool b =>
    cases w with
    | bool d =>
      obtain ⟨hbd, hst⟩ := List.cons_eq_cons.1 (List.cons_eq_cons.1 h).2
      refine ⟨?_, hst⟩
      cases b <;> cases d <;> first | rfl | (exact absurd hbd (by decide))
    | _ => cases h
  | num a =>
    cases w with
    | num b =>
      obtain ⟨rfl, hst⟩ := codeText_inj (List.cons_eq_cons.1 h).2
      exact ⟨rfl, hst⟩
    | _ => cases h
  | str a =>
    cases w with
    | str b =>
      obtain ⟨rfl, hst⟩ := codeText_inj (List.cons_eq_cons.1 h).2
      exact ⟨rfl, hst⟩
    | _ => cases h
  | list items =>
    cases w with
    | list others =>
      obtain ⟨rfl, hst⟩ := codeItems_inj (List.cons_eq_cons.1 h).2
      exact ⟨rfl, hst⟩
    | _ => cases h
  | map entries =>
    cases w with
    | map others =>
      obtain ⟨rfl, hst⟩ := codeEntries_inj (List.cons_eq_cons.1 h).2
      exact ⟨rfl, hst⟩
    | _ => cases h

theorem codeItems_inj {vs ws : List Value} {s t : Text} (h : codeItems vs ++ s = codeItems ws ++ t) : vs = ws ∧ s = t := by
  cases vs with
  | nil =>
    cases ws with
    | nil => exact ⟨rfl, (List.cons_eq_cons.1 h).2⟩
    | cons w ws => cases h
  | cons v vs =>
    cases ws with
    | nil => cases h
    | cons w ws =>
      rw [codeItems, codeItems, List.cons_append, List.cons_append, List.append_assoc, List.append_assoc] at h
      obtain ⟨rfl, hrest⟩ := codeValue_inj (List.cons_eq_cons.1 h).2
      obtain ⟨rfl, hst⟩ := codeItems_inj hrest
      exact ⟨rfl, hst⟩

theorem codeEntries_inj {es fs : List (Text × Value)} {s t : Text} (h : codeEntries es ++ s = codeEntries fs ++ t) :
    es = fs ∧ s = t := by
  cases es with
  | nil =>
    cases fs with
    | nil => exact ⟨rfl, (List.cons_eq_cons.1 h).2⟩
    | cons f fs => cases h
  | cons e es =>
    cases fs with
    | nil => cases h
    | cons f fs =>
      obtain ⟨key, v⟩ := e
      obtain ⟨other, w⟩ := f
      rw [codeEntries, codeEntries, List.cons_append, List.cons_append, List.append_assoc, List.append_assoc,
        List.append_assoc, List.append_assoc] at h
      obtain ⟨rfl, hvalues⟩ := codeText_inj (List.cons_eq_cons.1 h).2
      obtain ⟨rfl, hentries⟩ := codeValue_inj hvalues
      obtain ⟨rfl, hst⟩ := codeEntries_inj hentries
      exact ⟨rfl, hst⟩

end

/-- The characters of a code. -/
def codeChars : Text := "nbtfdslmcx.,".toList

theorem codeText_chars (t : Text) : ∀ c ∈ codeText t, c ∈ codeChars := by
  induction t with
  | nil =>
    intro c hc
    rw [codeText, List.mem_singleton] at hc
    rw [hc]
    decide
  | cons d t ih =>
    intro c hc
    rw [codeText, List.mem_cons, List.mem_append] at hc
    rcases hc with rfl | hc | hc
    · decide
    · rw [List.eq_of_mem_replicate hc]
      decide
    · exact ih c hc

mutual

theorem codeValue_chars (v : Value) : ∀ c ∈ codeValue v, c ∈ codeChars := by
  intro c hc
  cases v with
  | null =>
    rw [codeValue, List.mem_singleton] at hc
    rw [hc]
    decide
  | bool b =>
    rw [codeValue, List.mem_cons, List.mem_singleton] at hc
    cases b <;> rcases hc with rfl | rfl <;> decide
  | num a =>
    rw [codeValue, List.mem_cons] at hc
    rcases hc with rfl | hc
    · decide
    · exact codeText_chars a c hc
  | str a =>
    rw [codeValue, List.mem_cons] at hc
    rcases hc with rfl | hc
    · decide
    · exact codeText_chars a c hc
  | list items =>
    rw [codeValue, List.mem_cons] at hc
    rcases hc with rfl | hc
    · decide
    · exact codeItems_chars items c hc
  | map entries =>
    rw [codeValue, List.mem_cons] at hc
    rcases hc with rfl | hc
    · decide
    · exact codeEntries_chars entries c hc

theorem codeItems_chars (vs : List Value) : ∀ c ∈ codeItems vs, c ∈ codeChars := by
  intro c hc
  cases vs with
  | nil =>
    rw [codeItems, List.mem_singleton] at hc
    rw [hc]
    decide
  | cons v vs =>
    rw [codeItems, List.mem_cons, List.mem_append] at hc
    rcases hc with rfl | hc | hc
    · decide
    · exact codeValue_chars v c hc
    · exact codeItems_chars vs c hc

theorem codeEntries_chars (es : List (Text × Value)) : ∀ c ∈ codeEntries es, c ∈ codeChars := by
  intro c hc
  cases es with
  | nil =>
    rw [codeEntries, List.mem_singleton] at hc
    rw [hc]
    decide
  | cons e es =>
    obtain ⟨key, v⟩ := e
    rw [codeEntries, List.mem_cons, List.mem_append, List.mem_append] at hc
    rcases hc with rfl | hc | hc | hc
    · decide
    · exact codeText_chars key c hc
    · exact codeValue_chars v c hc
    · exact codeEntries_chars es c hc

end

/-! ## The library -/

/-- A text that ends in two newlines loses one with the white space behind it. -/
def lastRead : Value → Value
  | .str t => if t = "x\n\n".toList then .str "x\n".toList else .str t
  | v => v

/-- What YAML prints for a few values. -/
def printed : Value → Option Text
  | .map [(key, .str t)] =>
    if key = "note".toList ∧ t = "x\n\n".toList then some "note: |+\n  x\n\n".toList
    else if key = "note".toList ∧ t = "x\n".toList then some "note: |\n  x\n".toList
    else if key = "title".toList ∧ t = "A".toList then some "title: A\n".toList
    else none
  | _ => none

/-- What YAML reads in a few texts. -/
def readable (t : Text) : Option Frontmatter :=
  if t = "note: |+\n  x\n\n".toList then some [("note".toList, .str "x\n\n".toList)]
  else if t = "note: |+\n  x\n".toList ∨ t = "note: |\n  x\n".toList then some [("note".toList, .str "x\n".toList)]
  else if t = "title: A\n".toList then some [("title".toList, .str "A".toList)]
  else none

/-- The code that is printed for other values: a mapping's last value as it is read back. -/
def coded : Value → Text
  | .map f => codeValue (.map (Frontmatter.mapLast lastRead f))
  | v => codeValue v

open Classical in
noncomputable def decoded (t : Text) : Option Frontmatter :=
  if h : ∃ f : Frontmatter, (f.map (·.1)).Nodup ∧ codeValue (.map f) ++ ['\n'] = t then some h.choose else none

/-- A YAML library that prints and reads a few documents as YAML does, and all others in a code. -/
noncomputable def modelYaml : Yaml where
  stringify v := (printed v).getD (coded v)
  parse t := ((readable t).or (decoded t)).map .map

theorem decoded_code {f : Frontmatter} (h : (f.map (·.1)).Nodup) : decoded (codeValue (.map f) ++ ['\n']) = some f := by
  have hex : ∃ g : Frontmatter, (g.map (·.1)).Nodup ∧ codeValue (.map g) ++ ['\n'] = codeValue (.map f) ++ ['\n'] := ⟨f, h, rfl⟩
  rw [decoded, dif_pos hex]
  have heq := (codeValue_inj hex.choose_spec.2).1
  rw [Value.map.injEq] at heq
  rw [heq]

theorem closed_of_chars {t : Text} (h : ∀ c ∈ t, c ∈ codeChars) : Closed t := by
  rintro ⟨a, b, hab⟩
  have hmem : '-' ∈ '\n' :: t := by
    rw [← hab]
    exact List.mem_append_left b (List.mem_append_right a (by decide))
  rcases List.mem_cons.1 hmem with h' | h'
  · exact absurd h' (by decide)
  · exact absurd (h '-' h') (by decide)

theorem trimEnd_of_chars {t : Text} (h : ∀ c ∈ t, c ∈ codeChars) : trimEnd t = t := by
  have hspace : ∀ c ∈ codeChars, Js.isSpace c = false := forall_of_all (by decide)
  rw [trimEnd, List.rdropWhile_eq_self_iff]
  intro hne
  rw [hspace _ (h _ (List.getLast_mem hne))]
  exact Bool.false_ne_true

theorem coded_chars (v : Value) : ∀ c ∈ coded v, c ∈ codeChars := by
  cases v <;> exact codeValue_chars _

theorem printed_cases {v : Value} {t : Text} (h : printed v = some t) :
    (v = .map [("note".toList, .str "x\n\n".toList)] ∧ t = "note: |+\n  x\n\n".toList) ∨
    (v = .map [("note".toList, .str "x\n".toList)] ∧ t = "note: |\n  x\n".toList) ∨
    (v = .map [("title".toList, .str "A".toList)] ∧ t = "title: A\n".toList) := by
  unfold printed at h
  split at h
  next key text =>
    split at h
    next hkey =>
      obtain ⟨rfl, rfl⟩ := hkey
      cases h
      exact Or.inl ⟨rfl, rfl⟩
    next =>
      split at h
      next hkey =>
        obtain ⟨rfl, rfl⟩ := hkey
        cases h
        exact Or.inr (Or.inl ⟨rfl, rfl⟩)
      next =>
        split at h
        next hkey =>
          obtain ⟨rfl, rfl⟩ := hkey
          cases h
          exact Or.inr (Or.inr ⟨rfl, rfl⟩)
        next => cases h
  next => cases h

theorem readable_code {v : Value} (hv : ∃ f, v = .map f) : readable (codeValue v ++ ['\n']) = none := by
  obtain ⟨f, rfl⟩ := hv
  have hne : ∀ t : Text, t.head? ≠ some 'm' → codeValue (.map f) ++ ['\n'] ≠ t := by
    rintro t ht rfl
    exact ht rfl
  unfold readable
  rw [if_neg (hne _ (by decide)), if_neg (not_or.2 ⟨hne _ (by decide), hne _ (by decide)⟩), if_neg (hne _ (by decide))]

/-- **The library is lawful.** -/
theorem modelYaml_lawful : modelYaml.Lawful lastRead where
  closed v := by
    show Closed (trimEnd ((printed v).getD (coded v)))
    cases hp : printed v with
    | none =>
      rw [Option.getD_none, trimEnd_of_chars (coded_chars v)]
      exact closed_of_chars (coded_chars v)
    | some t =>
      rw [Option.getD_some]
      rcases printed_cases hp with ⟨-, rfl⟩ | ⟨-, rfl⟩ | ⟨-, rfl⟩
      · show ¬closing <:+: _
        decide
      · show ¬closing <:+: _
        decide
      · show ¬closing <:+: _
        decide
  keys t f h := by
    obtain ⟨g, hg, heq⟩ := Option.map_eq_some_iff.1 h
    rw [Value.map.injEq] at heq
    subst heq
    rcases Option.or_eq_some_iff.1 hg with hg | ⟨-, hg⟩
    · unfold readable at hg
      repeat' split at hg
      all_goals first | (cases hg; exact List.nodup_singleton _) | cases hg
    · unfold decoded at hg
      split at hg
      next hex =>
        cases hg
        exact hex.choose_spec.1
      next => cases hg
  reads f hf := by
    show ((readable (trimEnd ((printed (.map f)).getD (coded (.map f))) ++ ['\n'])).or
      (decoded (trimEnd ((printed (.map f)).getD (coded (.map f))) ++ ['\n']))).map Value.map = some (.map (f.mapLast lastRead))
    cases hp : printed (.map f) with
    | none =>
      have hkeys : ((f.mapLast lastRead).map (·.1)).Nodup := by
        rw [Frontmatter.mapLast_keys]
        exact hf
      rw [Option.getD_none, trimEnd_of_chars (coded_chars (.map f)), coded, readable_code ⟨_, rfl⟩, Option.none_or,
        decoded_code hkeys]
      rfl
    | some t =>
      rw [Option.getD_some]
      rcases printed_cases hp with ⟨hv, rfl⟩ | ⟨hv, rfl⟩ | ⟨hv, rfl⟩
      · rw [Value.map.inj hv]
        rfl
      · rw [Value.map.inj hv]
        rfl
      · rw [Value.map.inj hv]
        rfl

/-! ## Pages -/

/-- Documents, each with the text YAML prints for it. -/
structure Pages (pages : List (Frontmatter × Text)) : Prop where
  closed : ∀ p ∈ pages, Closed (trimEnd p.2)
  keys : ∀ p ∈ pages, (p.1.map (·.1)).Nodup
  last : ∀ p ∈ pages, p.1.mapLast lastRead = p.1
  head : ∀ p ∈ pages, (trimEnd p.2 ++ ['\n']).head? ≠ some 'm'
  texts : (pages.map fun p => trimEnd p.2 ++ ['\n']).Nodup

open Classical in
/-- A YAML library that prints and reads some documents as YAML does, and all others in a code. -/
noncomputable def pageYaml (pages : List (Frontmatter × Text)) : Yaml where
  stringify v := ((pages.find? fun p => Value.map p.1 = v).map (·.2)).getD (coded v)
  parse t := (((pages.find? fun p => trimEnd p.2 ++ ['\n'] = t).map (·.1)).or (decoded t)).map .map

variable {pages : List (Frontmatter × Text)}

theorem pageYaml_stringify (pages : List (Frontmatter × Text)) (v : Value) :
    (∃ p ∈ pages, Value.map p.1 = v ∧ (pageYaml pages).stringify v = p.2) ∨ (pageYaml pages).stringify v = coded v := by
  classical
  cases hp : pages.find? fun p => decide (Value.map p.1 = v) with
  | none =>
    refine Or.inr ?_
    show ((pages.find? _).map (·.2)).getD (coded v) = coded v
    rw [Option.map_eq_none_iff.2 (by convert hp), Option.getD_none]
  | some p =>
    have hv : Value.map p.1 = v := by simpa using List.find?_some hp
    refine Or.inl ⟨p, List.mem_of_find?_eq_some hp, hv, ?_⟩
    show ((pages.find? _).map (·.2)).getD (coded v) = p.2
    rw [Option.map_eq_some_iff.2 ⟨p, by convert hp, rfl⟩, Option.getD_some]

theorem pageYaml_parse_page (h : Pages pages) {p : Frontmatter × Text} (hp : p ∈ pages) :
    (pageYaml pages).parse (trimEnd p.2 ++ ['\n']) = some (.map p.1) := by
  obtain ⟨q, hq⟩ : ∃ q, pages.find? (fun q => decide (trimEnd q.2 ++ ['\n'] = trimEnd p.2 ++ ['\n'])) = some q := by
    rw [← Option.isSome_iff_exists, List.find?_isSome]
    exact ⟨p, hp, decide_eq_true rfl⟩
  have htext : trimEnd q.2 ++ ['\n'] = trimEnd p.2 ++ ['\n'] := by
    have hfound := List.find?_some hq
    rwa [decide_eq_true_eq] at hfound
  obtain rfl : q = p := List.inj_on_of_nodup_map h.texts (List.mem_of_find?_eq_some hq) hp htext
  show (((pages.find? _).map (·.1)).or _).map Value.map = _
  rw [hq, Option.map_some, Option.some_or, Option.map_some]

theorem pageYaml_parse_coded (h : Pages pages) {f : Frontmatter} (hf : (f.map (·.1)).Nodup) :
    (pageYaml pages).parse (coded (.map f) ++ ['\n']) = some (.map (f.mapLast lastRead)) := by
  have hkeys : ((f.mapLast lastRead).map (·.1)).Nodup := by
    rw [Frontmatter.mapLast_keys]
    exact hf
  have hread : pages.find? (fun p => decide (trimEnd p.2 ++ ['\n'] = coded (.map f) ++ ['\n'])) = none := by
    rw [List.find?_eq_none]
    intro p hmem heq
    refine h.head p hmem ?_
    rw [of_decide_eq_true heq]
    rfl
  show (((pages.find? _).map (·.1)).or _).map Value.map = _
  rw [hread, Option.map_none, Option.none_or, coded, decoded_code hkeys, Option.map_some]

theorem pageYaml_lawful (h : Pages pages) : (pageYaml pages).Lawful lastRead where
  closed v := by
    rcases pageYaml_stringify pages v with ⟨p, hp, -, htext⟩ | htext
    · rw [htext]
      exact h.closed p hp
    · rw [htext, trimEnd_of_chars (coded_chars v)]
      exact closed_of_chars (coded_chars v)
  keys t f hf := by
    obtain ⟨g, hg, heq⟩ := Option.map_eq_some_iff.1 hf
    obtain rfl := Value.map.inj heq
    rcases Option.or_eq_some_iff.1 hg with hg | ⟨-, hg⟩
    · obtain ⟨p, hp, rfl⟩ := Option.map_eq_some_iff.1 hg
      exact h.keys p (List.mem_of_find?_eq_some hp)
    · unfold decoded at hg
      split at hg
      next hex =>
        cases hg
        exact hex.choose_spec.1
      next => cases hg
  reads f hf := by
    rcases pageYaml_stringify pages (.map f) with ⟨p, hp, hpf, htext⟩ | htext
    · obtain rfl := Value.map.inj hpf
      rw [htext, pageYaml_parse_page h hp, h.last p hp]
    · rw [htext, trimEnd_of_chars (coded_chars (.map f)), pageYaml_parse_coded h hf]

end Zenod.Vault
