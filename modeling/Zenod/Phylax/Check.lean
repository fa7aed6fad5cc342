/-
What the input checks let through: `required` a trimmed text that is not
blank nor too long, `timestamp` and `units` a safe integer of the right sign.
A text that passed once passes again unchanged, and so does a UUID.
-/
import Zenod.Lib.Outcome
import Zenod.Phylax.Operation

namespace Zenod.Phylax

/-- A text as `required` leaves it. -/
def Normalized (max : Nat) (s : String) : Prop := Js.trim s = s ∧ s ≠ "" ∧ Js.length s ≤ max

theorem required_ok {value field : String} {max : Nat} {s : String} :
    required value field max = .ok s ↔ Js.trim value = s ∧ s ≠ "" ∧ Js.length s ≤ max := by
  simp only [required]
  split
  · next h => simp only [reduceCtorEq, false_iff, not_and]; exact fun he hne => absurd (he ▸ h) hne
  split
  · next h => simp only [reduceCtorEq, false_iff, not_and]; intro he _; rw [← he]; omega
  · next h₁ h₂ =>
    simp only [Except.ok.injEq]
    exact ⟨fun he => he ▸ ⟨rfl, h₁, by omega⟩, fun he => he.1⟩

theorem required_normalized {value field : String} {max : Nat} {s : String}
    (h : required value field max = .ok s) : Normalized max s := by
  obtain ⟨rfl, hne, hle⟩ := required_ok.1 h
  exact ⟨Js.trim_idem value, hne, hle⟩

theorem Normalized.required {max : Nat} {s : String} (h : Normalized max s) (field : String) :
    required s field max = .ok s :=
  required_ok.2 h

/-- A time as `timestamp` accepts it. -/
def ValidTime (t : Int) : Prop := 0 ≤ t ∧ t ≤ Js.maxSafeInteger

instance (t : Int) : Decidable (ValidTime t) := by
  unfold ValidTime
  infer_instance

theorem isSafeInteger_iff {n : Int} :
    Js.isSafeInteger n = true ↔ -Js.maxSafeInteger ≤ n ∧ n ≤ Js.maxSafeInteger := by
  simp [Js.isSafeInteger]

theorem timestamp_ok {value : Int} {field : String} {t : Int} :
    timestamp value field = .ok t ↔ value = t ∧ ValidTime t := by
  have hmax : (0 : Int) ≤ Js.maxSafeInteger := by decide
  unfold timestamp
  split
  · next h =>
    simp only [reduceCtorEq, false_iff, not_and]
    rintro rfl ⟨h0, h1⟩
    have hs : Js.isSafeInteger value = true := isSafeInteger_iff.2 ⟨by omega, h1⟩
    simp only [hs, Bool.not_true, Bool.false_or, decide_eq_true_eq] at h
    omega
  · next h =>
    simp only [Bool.or_eq_true, Bool.not_eq_true', decide_eq_true_eq, not_or, not_lt,
      Bool.not_eq_false] at h
    simp only [Except.ok.injEq]
    exact ⟨fun he => he ▸ ⟨rfl, h.2, (isSafeInteger_iff.1 h.1).2⟩, fun he => he.1⟩

theorem ValidTime.timestamp {t : Int} (h : ValidTime t) (field : String) : timestamp t field = .ok t :=
  timestamp_ok.2 ⟨rfl, h⟩

theorem units_ok {value : Int} {field : String} {options : UnitsOptions} {n : Int} :
    units value field options = .ok n ↔ value = n ∧ Js.isSafeInteger n = true ∧
      (options.positive = true → 0 < n) ∧ (options.nonNegative = true → 0 ≤ n) := by
  simp only [units]
  split
  · next h => simp only [reduceCtorEq, false_iff, not_and]; rintro rfl hs; simp [hs] at h
  split
  · next h =>
    simp only [reduceCtorEq, false_iff, not_and]
    rintro rfl _ hp
    simp only [Bool.and_eq_true, decide_eq_true_eq] at h
    have := hp h.1
    omega
  split
  · next h =>
    simp only [reduceCtorEq, false_iff, not_and]
    rintro rfl _ _ hn
    simp only [Bool.and_eq_true, decide_eq_true_eq] at h
    have := hn h.1
    omega
  · next h₁ h₂ h₃ =>
    simp only [Bool.and_eq_true, decide_eq_true_eq, not_and, not_le, not_lt] at h₂ h₃
    simp only [Except.ok.injEq]
    exact ⟨fun he => he ▸ ⟨rfl, by simpa using h₁, h₂, h₃⟩, fun he => he.1⟩

theorem isSpace_eq_false_of_isUuidChar {c : Char} (h : isUuidChar c = true) : Js.isSpace c = false := by
  have hall : ("0123456789abcdef-".toList.all fun c => !Js.isSpace c) = true := by decide
  simp only [isUuidChar, List.contains_eq_mem, decide_eq_true_eq] at h
  simpa using List.all_eq_true.1 hall c h

theorem trimChars_eq_self {cs : List Char} (h : ∀ c ∈ cs, Js.isSpace c = false) : Js.trimChars cs = cs := by
  have drop : ∀ ds : List Char, (∀ c ∈ ds, Js.isSpace c = false) → ds.dropWhile Js.isSpace = ds := by
    intro ds hds
    cases ds with
    | nil => rfl
    | cons d ds => simp [hds d (by simp)]
  simp only [Js.trimChars]
  rw [drop cs h, drop cs.reverse (fun c hc => h c (by simpa using hc)), List.reverse_reverse]

/-- A UUID passes the ledger's own checks unchanged. -/
theorem Uuid.normalized (u : Uuid) : Normalized 512 u.text := by
  obtain ⟨s, hlen, hchars⟩ := u
  simp only [List.all_eq_true] at hchars
  refine ⟨?_, ?_, ?_⟩
  · rw [Js.trim, trimChars_eq_self fun c hc => isSpace_eq_false_of_isUuidChar (hchars c hc), String.ofList_toList]
  · rintro rfl; simp at hlen
  · have : (s.toList.map fun c => if c.toNat < 0x10000 then 1 else 2).sum ≤ 2 * s.toList.length := by
      induction s.toList with
      | nil => simp
      | cons c cs ih => simp only [List.map_cons, List.sum_cons, List.length_cons]; split <;> omega
    simp only [Js.length]
    omega

end Zenod.Phylax
