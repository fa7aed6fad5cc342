/-
Things that are good for one use: they are made, lie there, and are taken away
when they are spent. As long as only what still lies there is spent, nothing
is spent twice.
-/
import Mathlib.Data.Multiset.UnionInter
import Mathlib.Data.Set.Defs

namespace Zenod

universe u

/-- What was ever made, what lies there, and what was spent. -/
structure OneTime {Key : Type u} (made present : Set Key) (spent : Multiset Key) : Prop where
  once : spent.Nodup
  gone : ∀ k ∈ spent, k ∉ present
  made_present : ∀ k ∈ present, k ∈ made
  made_spent : ∀ k ∈ spent, k ∈ made

namespace OneTime

variable {Key : Type u} {made present made' present' : Set Key} {spent spent' : Multiset Key} {k : Key}

theorem start (made : Set Key) : OneTime made made 0 :=
  ⟨Multiset.nodup_zero, fun _ h => absurd h (Multiset.notMem_zero _), fun _ h => h, fun _ h => absurd h (Multiset.notMem_zero _)⟩

/-- Something new is made. -/
theorem make (h : OneTime made present spent) (hk : k ∉ made) (hmade : ∀ x ∈ made, x ∈ made') (hnew : k ∈ made')
    (hpresent : ∀ x ∈ present', x ∈ present ∨ x = k) : OneTime made' present' spent where
  once := h.once
  gone x hx hmem := by
    rcases hpresent x hmem with hmem | rfl
    · exact h.gone x hx hmem
    · exact hk (h.made_spent x hx)
  made_present x hx := by
    rcases hpresent x hx with hx | rfl
    · exact hmade x (h.made_present x hx)
    · exact hnew
  made_spent x hx := hmade x (h.made_spent x hx)

/-- Something is taken away, and perhaps a use is dropped. -/
theorem mono (h : OneTime made present spent) (hpresent : ∀ k ∈ present', k ∈ present) (hspent : spent' ≤ spent) :
    OneTime made present' spent' where
  once := Multiset.nodup_of_le hspent h.once
  gone x hx hmem := h.gone x (Multiset.mem_of_le hspent hx) (hpresent x hmem)
  made_present x hx := h.made_present x (hpresent x hx)
  made_spent x hx := h.made_spent x (Multiset.mem_of_le hspent hx)

/-- **What lies there is spent**, and taken away. -/
theorem spend (h : OneTime made present spent) (hk : k ∈ present) (hpresent : ∀ x ∈ present', x ∈ present ∧ x ≠ k) :
    OneTime made present' (k ::ₘ spent) where
  once := Multiset.nodup_cons.2 ⟨fun hmem => h.gone k hmem hk, h.once⟩
  gone x hx hmem := by
    rcases Multiset.mem_cons.1 hx with rfl | hx
    · exact (hpresent x hmem).2 rfl
    · exact h.gone x hx (hpresent x hmem).1
  made_present x hx := h.made_present x (hpresent x hx).1
  made_spent x hx := by
    rcases Multiset.mem_cons.1 hx with rfl | hx
    · exact h.made_present x hk
    · exact h.made_spent x hx

end OneTime

end Zenod
