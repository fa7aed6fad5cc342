/-
Running totals: tables with one entry for a key, to which amounts are added
(INSERT ... ON CONFLICT DO UPDATE, and GROUP BY with a sum).

Two lists of amounts are `Same` when they have the same keys and add up to the
same over every set of keys. `group_same`: a table that amounts are added to is
the same as the amounts; `perm_of_same`: lists that are the same, with no key
twice, have the same members.
-/
import Mathlib.Algebra.BigOperators.Group.List.Basic
import Mathlib.Data.List.Nodup
import Mathlib.Tactic.Abel
import Zenod.Lib.Table

namespace Zenod

universe u

open Keyed

/-- An amount under a key. -/
structure Amount (K M : Type u) where
  key : K
  value : M
deriving DecidableEq

instance {K M : Type u} [DecidableEq K] : Keyed (Amount K M) where
  clash a b := decide (a.key = b.key)
  clash_symm a b := by rw [decide_eq_decide]; exact eq_comm

abbrev Rollup (K M : Type u) [DecidableEq K] := Table (Amount K M)

namespace Rollup

variable {K L M : Type u} [AddCommMonoid M]

/-- What the keys of a kind add up to. -/
def sumOn (p : K → Bool) (as : List (Amount K M)) : M := (as.map fun a => if p a.key then a.value else 0).sum

/-- The amounts under other keys. -/
def rekey (f : K → L) (as : List (Amount K M)) : List (Amount L M) := as.map fun a => ⟨f a.key, a.value⟩

/-- Lists of amounts with the same keys and the same sums. -/
structure Same (as bs : List (Amount K M)) : Prop where
  sum : ∀ p, sumOn p as = sumOn p bs
  keys : ∀ k, (∃ a ∈ as, a.key = k) ↔ ∃ b ∈ bs, b.key = k

variable {as bs cs ds : List (Amount K M)} {a : Amount K M} {p : K → Bool}

/-! ## Sums -/

@[simp] theorem sumOn_nil (p : K → Bool) : sumOn p ([] : List (Amount K M)) = 0 := rfl

@[simp] theorem sumOn_cons (p : K → Bool) (a : Amount K M) (as : List (Amount K M)) :
    sumOn p (a :: as) = (if p a.key then a.value else 0) + sumOn p as := by
  unfold sumOn
  rw [List.map_cons, List.sum_cons]

@[simp] theorem sumOn_append (p : K → Bool) (as bs : List (Amount K M)) :
    sumOn p (as ++ bs) = sumOn p as + sumOn p bs := by
  unfold sumOn
  rw [List.map_append, List.sum_append]

theorem sumOn_perm (h : as.Perm bs) (p : K → Bool) : sumOn p as = sumOn p bs := (h.map _).sum_eq

theorem sumOn_filter (p q : K → Bool) (as : List (Amount K M)) :
    sumOn p (as.filter fun a => q a.key) = sumOn (fun k => q k && p k) as := by
  induction as with
  | nil => rfl
  | cons a as ih =>
    rw [List.filter_cons, sumOn_cons, ← ih]
    by_cases hq : q a.key = true
    · rw [if_pos hq, sumOn_cons]
      simp only [hq, Bool.true_and]
    · rw [if_neg hq]
      simp [hq]

theorem sumOn_rekey (f : K → L) (p : L → Bool) (as : List (Amount K M)) : sumOn p (rekey f as) = sumOn (fun k => p (f k)) as := by
  unfold sumOn rekey
  rw [List.map_map]
  rfl

/-- A key that is not there adds nothing. -/
theorem sumOn_eq_zero (h : ∀ a ∈ as, p a.key = false) : sumOn p as = 0 := by
  unfold sumOn
  refine List.sum_eq_zero fun x hx => ?_
  obtain ⟨a, ha, rfl⟩ := List.mem_map.1 hx
  rw [h a ha]
  rfl

/-! ## Same amounts -/

theorem Same.refl (as : List (Amount K M)) : Same as as := ⟨fun _ => rfl, fun _ => Iff.rfl⟩

theorem Same.symm (h : Same as bs) : Same bs as := ⟨fun p => (h.sum p).symm, fun k => (h.keys k).symm⟩

theorem Same.trans (h : Same as bs) (h' : Same bs cs) : Same as cs :=
  ⟨fun p => (h.sum p).trans (h'.sum p), fun k => (h.keys k).trans (h'.keys k)⟩

theorem Same.of_perm (h : as.Perm bs) : Same as bs :=
  ⟨sumOn_perm h, fun _ => ⟨fun ⟨a, ha, hk⟩ => ⟨a, h.mem_iff.1 ha, hk⟩, fun ⟨a, ha, hk⟩ => ⟨a, h.mem_iff.2 ha, hk⟩⟩⟩

theorem Same.append (h : Same as bs) (h' : Same cs ds) : Same (as ++ cs) (bs ++ ds) where
  sum p := by rw [sumOn_append, sumOn_append, h.sum, h'.sum]
  keys k := by
    simp only [List.mem_append, or_and_right, exists_or]
    rw [h.keys, h'.keys]

theorem Same.filter (h : Same as bs) (q : K → Bool) :
    Same (as.filter fun a => q a.key) (bs.filter fun a => q a.key) where
  sum p := by rw [sumOn_filter, sumOn_filter, h.sum]
  keys k := by
    have hfilter : ∀ cs : List (Amount K M), (∃ c ∈ cs.filter fun a => q a.key, c.key = k) ↔ q k = true ∧ ∃ c ∈ cs, c.key = k := by
      intro cs
      simp only [List.mem_filter]
      constructor
      · rintro ⟨c, ⟨hc, hq⟩, rfl⟩
        exact ⟨hq, c, hc, rfl⟩
      · rintro ⟨hq, c, hc, rfl⟩
        exact ⟨c, ⟨hc, hq⟩, rfl⟩
    rw [hfilter, hfilter, h.keys]

theorem Same.rekey (h : Same as bs) (f : K → L) : Same (Rollup.rekey f as) (Rollup.rekey f bs) where
  sum p := by rw [sumOn_rekey, sumOn_rekey, h.sum]
  keys l := by
    have hmap : ∀ cs : List (Amount K M), (∃ c ∈ Rollup.rekey f cs, c.key = l) ↔ ∃ k, f k = l ∧ ∃ c ∈ cs, c.key = k := by
      intro cs
      unfold Rollup.rekey
      constructor
      · rintro ⟨c, hc, rfl⟩
        obtain ⟨b, hb, rfl⟩ := List.mem_map.1 hc
        exact ⟨b.key, rfl, b, hb, rfl⟩
      · rintro ⟨k, rfl, b, hb, rfl⟩
        exact ⟨_, List.mem_map_of_mem hb, rfl⟩
    rw [hmap, hmap]
    simp only [h.keys]

/-! ## Tables -/

variable [DecidableEq K]

/-- The amount is added to that of its key, or put in. -/
def add (t : Rollup K M) (a : Amount K M) : Rollup K M :=
  (t.insert? a).getD (t.update (fun e => decide (e.key = a.key)) (fun e => { e with value := e.value + a.value }) fun _ _ => rfl)

def addAll (t : Rollup K M) (as : List (Amount K M)) : Rollup K M := as.foldl add t

/-- GROUP BY the key, with the sum of the values. -/
def group (as : List (Amount K M)) : Rollup K M := addAll .empty as

/-- **Adding an amount** is the same as having it beside the others. -/
theorem add_same (t : Rollup K M) (a : Amount K M) : Same (t.add a).rows (t.rows ++ [a]) := by
  unfold add
  cases h : t.insert? a with
  | some t' =>
    rw [Option.getD_some, (Table.insert?_eq_some.1 h).2]
    exact .refl _
  | none =>
    rw [Option.getD_none, Table.rows_update]
    -- the key is there already
    have hclash : ∃ b ∈ t.rows, b.key = a.key := by
      by_contra hnone
      obtain ⟨t', ht', -⟩ := @Table.insert?_isSome _ _ t a fun b hb =>
        decide_eq_false fun hkey => hnone ⟨b, hb, hkey⟩
      rw [h] at ht'
      cases ht'
    obtain ⟨rows, hunique⟩ := t
    simp only [] at hclash ⊢
    clear h
    constructor
    · intro p
      rw [sumOn_append, sumOn_cons, sumOn_nil, add_zero]
      induction rows with
      | nil =>
        obtain ⟨b, hb, -⟩ := hclash
        cases hb
      | cons b rows ih =>
        rw [List.pairwise_cons] at hunique
        rw [List.map_cons, sumOn_cons, sumOn_cons]
        by_cases hkey : b.key = a.key
        · have hothers : rows.map (fun e => if decide (e.key = a.key) then { e with value := e.value + a.value } else e) = rows := by
            refine (List.map_congr_left fun e he => ?_).trans (List.map_id rows)
            rw [if_neg]
            · rfl
            · rw [decide_eq_true_eq]
              intro hsame
              have hfalse : decide (b.key = e.key) = false := hunique.1 e he
              rw [hkey, hsame] at hfalse
              simp at hfalse
          rw [hothers]
          simp only [hkey, decide_true, if_true]
          by_cases hp : p a.key = true
          · rw [if_pos hp, if_pos hp, if_pos hp]
            abel
          · rw [if_neg hp, if_neg hp, if_neg hp]
            abel
        · obtain ⟨c, hc, hckey⟩ := hclash
          have hrest : c ∈ rows := by
            rcases List.mem_cons.1 hc with rfl | hc
            · exact absurd hckey hkey
            · exact hc
          rw [ih hunique.2 ⟨c, hrest, hckey⟩]
          simp only [hkey, decide_false, Bool.false_eq_true, if_false]
          abel
    · intro k
      have hkeys : ∀ e : Amount K M, (if decide (e.key = a.key) then { e with value := e.value + a.value } else e).key = e.key := by
        intro e
        split <;> rfl
      constructor
      · rintro ⟨c, hc, rfl⟩
        obtain ⟨e, he, rfl⟩ := List.mem_map.1 hc
        exact ⟨e, List.mem_append_left _ he, (hkeys e).symm⟩
      · rintro ⟨c, hc, rfl⟩
        rcases List.mem_append.1 hc with hc | hc
        · exact ⟨_, List.mem_map_of_mem hc, hkeys c⟩
        · obtain rfl := List.mem_singleton.1 hc
          obtain ⟨b, hb, hkey⟩ := hclash
          exact ⟨_, List.mem_map_of_mem hb, (hkeys b).trans hkey⟩

theorem addAll_same (t : Rollup K M) (as : List (Amount K M)) : Same (t.addAll as).rows (t.rows ++ as) := by
  induction as generalizing t with
  | nil =>
    rw [List.append_nil]
    exact .refl _
  | cons a as ih =>
    refine (ih (t.add a)).trans ?_
    rw [show t.rows ++ a :: as = (t.rows ++ [a]) ++ as by rw [List.append_assoc]; rfl]
    exact (add_same t a).append (.refl as)

/-- **A table that amounts are grouped in is the same as the amounts.** -/
theorem group_same (as : List (Amount K M)) : Same (group as).rows as := addAll_same .empty as

omit [AddCommMonoid M] in
theorem nodup_keys (t : Rollup K M) : (t.rows.map (·.key)).Nodup := by
  rw [List.nodup_iff_pairwise_ne, List.pairwise_map]
  exact t.unique.imp fun {a b} h => of_decide_eq_false h

/-- Where no key stands twice, an amount is what its key adds up to. -/
theorem sumOn_key (hnodup : (as.map (·.key)).Nodup) (ha : a ∈ as) : sumOn (fun k => decide (k = a.key)) as = a.value := by
  induction as with
  | nil => cases ha
  | cons b as ih =>
    rw [List.map_cons, List.nodup_cons] at hnodup
    rw [sumOn_cons]
    rcases List.mem_cons.1 ha with rfl | ha
    · rw [sumOn_eq_zero fun c hc => ?_, add_zero, if_pos (decide_eq_true rfl)]
      rw [decide_eq_false_iff_not]
      exact fun hsame => hnodup.1 (List.mem_map.2 ⟨c, hc, hsame⟩)
    · have hne : b.key ≠ a.key := fun hsame => hnodup.1 (List.mem_map.2 ⟨a, ha, hsame.symm⟩)
      rw [decide_eq_false hne, if_neg Bool.false_ne_true, zero_add, ih hnodup.2 ha]

theorem mem_of_same (h : Same as bs) (has : (as.map (·.key)).Nodup) (hbs : (bs.map (·.key)).Nodup) (ha : a ∈ as) : a ∈ bs := by
  obtain ⟨b, hb, hkey⟩ := (h.keys a.key).1 ⟨a, ha, rfl⟩
  have hvalue := h.sum fun k => decide (k = a.key)
  rw [sumOn_key has ha, ← hkey, sumOn_key hbs hb] at hvalue
  have hsame : a = b := by
    cases a
    cases b
    simp only [] at hkey hvalue
    rw [hkey, hvalue]
  rwa [hsame]

/-- **Lists that are the same, with no key twice**, have the same members. -/
theorem perm_of_same (h : Same as bs) (has : (as.map (·.key)).Nodup) (hbs : (bs.map (·.key)).Nodup) : as.Perm bs :=
  (List.perm_ext_iff_of_nodup (List.Nodup.of_map _ has) (List.Nodup.of_map _ hbs)).2 fun _ =>
    ⟨mem_of_same h has hbs, mem_of_same h.symm hbs has⟩

end Rollup

end Zenod
