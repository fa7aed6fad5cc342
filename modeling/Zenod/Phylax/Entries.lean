/-
The entries are append-only. `newEntries` is what a call appended; a sweep
appends expiry entries only, and a settlement at most one usage entry.
-/
import Zenod.Phylax.Invariant

namespace Zenod.Phylax

variable {B : Backend} {u : Option Draw}

/-- The entries a call appended. -/
def newEntries (before after : Db) : List EntryRow := after.entries.rows.drop before.entries.rows.length

/-- The entries of one database are those of another and then some, each with the property. -/
def Appends (P : EntryRow → Prop) (db db' : Db) : Prop :=
  ∃ new, db'.entries.rows = db.entries.rows ++ new ∧ ∀ e ∈ new, P e

theorem Appends.rows {P : EntryRow → Prop} {db db' : Db} (h : Appends P db db') :
    db'.entries.rows = db.entries.rows ++ newEntries db db' ∧ ∀ e ∈ newEntries db db', P e := by
  obtain ⟨new, hrows, hP⟩ := h
  have : newEntries db db' = new := by rw [newEntries, hrows, List.drop_left]
  rw [this]
  exact ⟨hrows, hP⟩

theorem Appends.refl {P : EntryRow → Prop} {db db' : Db} (h : db'.entries = db.entries) : Appends P db db' :=
  ⟨[], by simp [h], by simp⟩

theorem Appends.trans {P : EntryRow → Prop} {db db₁ db₂ : Db} (h₁ : Appends P db db₁) (h₂ : Appends P db₁ db₂) :
    Appends P db db₂ := by
  obtain ⟨new₁, hrows₁, hP₁⟩ := h₁
  obtain ⟨new₂, hrows₂, hP₂⟩ := h₂
  refine ⟨new₁ ++ new₂, by rw [hrows₂, hrows₁, List.append_assoc], fun e he => ?_⟩
  rcases List.mem_append.1 he with he | he
  · exact hP₁ e he
  · exact hP₂ e he

theorem Appends.mono {P Q : EntryRow → Prop} {db db' : Db} (h : Appends P db db') (hPQ : ∀ e, P e → Q e) :
    Appends Q db db' := by
  obtain ⟨new, hrows, hP⟩ := h
  exact ⟨new, hrows, fun e he => hPQ e (hP e he)⟩

theorem newEntries_trans {db db₁ db₂ : Db} (h₁ : Appends (fun _ => True) db db₁)
    (h₂ : Appends (fun _ => True) db₁ db₂) : newEntries db db₂ = newEntries db db₁ ++ newEntries db₁ db₂ := by
  have hrows := h₂.rows.1
  rw [h₁.rows.1, List.append_assoc] at hrows
  rw [newEntries, hrows, List.drop_left]

theorem newEntries_of_eq {db db' : Db} (h : db'.entries = db.entries) : newEntries db db' = [] := by
  rw [newEntries, h, List.drop_length]

theorem insertEntry_rows {db db' : Db} {input : EntryInput} {row : EntryRow}
    (h : insertEntry db input = .ok (row, db')) : db'.entries.rows = db.entries.rows ++ [row] := by
  obtain ⟨-, entries, hins, rfl⟩ := insertEntry_ok.1 h
  exact (Table.insert?_eq_some.1 hins).2

theorem newEntries_insertEntry {db db' : Db} {input : EntryInput} {row : EntryRow}
    (h : insertEntry db input = .ok (row, db')) : newEntries db db' = [row] := by
  rw [newEntries, insertEntry_rows h, List.drop_left]

theorem appends_insertEntry {P : EntryRow → Prop} {db db' : Db} {input : EntryInput} {row : EntryRow}
    (h : insertEntry db input = .ok (row, db')) (hP : P row) : Appends P db db' :=
  ⟨[row], insertEntry_rows h, by simpa using hP⟩

/-- An entry the sweep booked. -/
structure EntryRow.IsExpiry (e : EntryRow) : Prop where
  kind : e.kind = .expiry
  key : ∃ periodId anchor, e.idempotencyKey = expiryKey periodId anchor

/-- The sweep appends expiry entries. -/
theorem sweep_appends {now : Int} {n : Nat} {db db' : Db}
    (h : reconcileExpiredPeriodsInTransaction B now db = .ok (n, db')) : Appends EntryRow.IsExpiry db db' := by
  refine sweep_preserves (Appends EntryRow.IsExpiry db) (fun p k m d d' h₁ hd => ?_) h (.refl rfl)
  rcases expirePeriod_cases h₁ with rfl | ⟨row, -, hins⟩
  · exact hd.trans (.refl rfl)
  · have hrow : row.IsExpiry := by
      rw [(insertEntry_ok.1 hins).1]
      exact ⟨rfl, p.periodId, _, rfl⟩
    exact (hd.trans (.refl rfl : Appends _ d (pauseEnded now d p))).trans (appends_insertEntry hins hrow)

theorem Write.appends {db db' : Db} (h : Write B u db db') : Appends (fun _ => True) db db' := by
  cases h with
  | book input row _ _ hins => exact appends_insertEntry hins trivial
  | capture row work db₁ now _ _ hdb => subst hdb; exact .refl rfl
  | period _ _ _ _ _ _ | pause _ _ _ _ | move _ _ _ _ _ => exact .refl rfl

/-- A settlement appends the usage it books, or nothing. -/
theorem Charge.appends {owned : Int} {w : PaidWorkRow} {db db' : Db} {e : EntryRow} (h : Charge B owned w db e db') :
    Appends (· = e) db db' := by
  cases h with
  | replay _ _ => exact .refl rfl
  | book input _ _ _ _ _ _ _ hins => exact appends_insertEntry hins rfl

theorem Settle.appends {db db' : Db} {w : PaidWorkRow} {via : Via} (h : Settle B w db via db') :
    Appends (fun _ => True) db db' := by
  cases h with
  | lease _ _ _ _ e db₁ _ _ _ _ hc => exact (hc.appends.mono fun _ _ => trivial).trans (.refl rfl)
  | receipt _ _ _ e db₁ _ _ hc => exact (hc.appends.mono fun _ _ => trivial).trans (.refl rfl)

end Zenod.Phylax
