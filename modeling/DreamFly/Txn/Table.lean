import Mathlib.Algebra.BigOperators.Group.List.Basic
import Mathlib.Algebra.Order.BigOperators.Group.List
import Mathlib.Data.List.AList
import Mathlib.Algebra.Ring.Int.Defs

/-!
# Tables

A table is a finite map from primary keys to rows (Mathlib's `AList`). Beside
the map there is the list of rows a scan returns and the sum of a quantity over
all rows; `total_insert` and `total_erase` say how one row changes a sum, and
`total_congr` that a sum depends only on the rows that contribute to it.
-/

namespace Txn

/-- A table: at most one row for each primary key. -/
abbrev Table (κ ρ : Type) := AList (fun _ : κ => ρ)

namespace Table

variable {κ ρ : Type} {f g : κ → ρ → ℤ} {p : κ → ρ → Bool} {t t' : Table κ ρ} {k : κ} {r : ρ}

/-- The rows of a table with their keys, in scan order. -/
def rows (t : Table κ ρ) : List (κ × ρ) :=
  t.entries.map fun e => (e.1, e.2)

/-- The rows that satisfy `p`, in scan order. -/
def only (p : κ → ρ → Bool) (t : Table κ ρ) : List (κ × ρ) :=
  t.rows.filter fun e => p e.1 e.2

/-- How many rows satisfy `p`. -/
def count (p : κ → ρ → Bool) (t : Table κ ρ) : ℕ :=
  (only p t).length

/-- The sum of `f` over all rows. -/
def total (f : κ → ρ → ℤ) (t : Table κ ρ) : ℤ :=
  (t.rows.map fun e => f e.1 e.2).sum

/-- The table with row `r` under `k`, unless there is one already. -/
def putNew [DecidableEq κ] (t : Table κ ρ) (k : κ) (r : ρ) : Table κ ρ :=
  if (t.lookup k).isSome then t else t.insert k r

/-- The table with row `k` changed by `f`, if it is there. -/
def modify [DecidableEq κ] (t : Table κ ρ) (k : κ) (f : ρ → ρ) : Table κ ρ :=
  match t.lookup k with
  | none => t
  | some r => t.insert k (f r)

theorem keys_rows (t : Table κ ρ) : t.rows.map Prod.fst = t.keys := by
  simp [rows, AList.keys, List.keys]

theorem rows_nodup (t : Table κ ρ) : t.rows.Nodup :=
  List.Nodup.of_map Prod.fst (by rw [keys_rows]; exact t.keys_nodup)

theorem only_nodup (p : κ → ρ → Bool) (t : Table κ ρ) : (only p t).Nodup :=
  (rows_nodup t).filter _

theorem only_keys_nodup (p : κ → ρ → Bool) (t : Table κ ρ) : ((only p t).map Prod.fst).Nodup := by
  have h : ((only p t).map Prod.fst).Sublist (t.rows.map Prod.fst) := List.filter_sublist.map _
  exact h.nodup (by rw [keys_rows]; exact t.keys_nodup)

theorem total_add (f g : κ → ρ → ℤ) (t : Table κ ρ) :
    total (fun k r => f k r + g k r) t = total f t + total g t := by
  simp [total, List.sum_map_add]

theorem total_eq_sum_only (t : Table κ ρ) (h : ∀ k r, p k r = false → f k r = 0) :
    total f t = ((only p t).map fun e => f e.1 e.2).sum := by
  unfold total only
  induction t.rows with
  | nil => rfl
  | cons e l ih =>
    rw [List.map_cons, List.sum_cons, ih, List.filter_cons]
    by_cases hp : p e.1 e.2 = true
    · simp [hp]
    · simp [hp, h e.1 e.2 (by simpa using hp)]

theorem count_eq_total (p : κ → ρ → Bool) (t : Table κ ρ) :
    (count p t : ℤ) = total (fun k r => if p k r then 1 else 0) t := by
  rw [total_eq_sum_only (p := p) t (fun k r h => by simp [h])]
  have h1 : ∀ e ∈ only p t, (if p e.1 e.2 = true then (1 : ℤ) else 0) = 1 := by
    intro e he
    rw [if_pos (List.mem_filter.1 he).2]
  rw [List.map_congr_left h1]
  simp [count]

variable [DecidableEq κ]

theorem mem_rows : (k, r) ∈ t.rows ↔ t.lookup k = some r := by
  rw [← Option.mem_def, AList.mem_lookup_iff]
  simp [rows, Sigma.exists]

theorem mem_only : (k, r) ∈ only p t ↔ t.lookup k = some r ∧ p k r = true := by
  simp [only, mem_rows]

theorem lookup_modify (t : Table κ ρ) (k k' : κ) (f : ρ → ρ) :
    (t.modify k f).lookup k' = if k' = k then (t.lookup k).map f else t.lookup k' := by
  unfold modify
  split
  · next hnone =>
    split
    · next hk => rw [hk, hnone, Option.map_none]
    · rfl
  · next r hsome =>
    split
    · next hk => rw [hk, AList.lookup_insert, hsome, Option.map_some]
    · next hk => exact AList.lookup_insert_ne hk

/-- What row `k` contributes to a sum: nothing when there is no such row. -/
def share (f : κ → ρ → ℤ) (t : Table κ ρ) (k : κ) : ℤ :=
  match t.lookup k with
  | none => 0
  | some r => f k r

theorem share_none (h : t.lookup k = none) : share f t k = 0 := by
  simp [share, h]

theorem share_some (h : t.lookup k = some r) : share f t k = f k r := by
  simp [share, h]

/-- Erasing a row takes its share off the sum. -/
theorem total_erase (f : κ → ρ → ℤ) (t : Table κ ρ) (k : κ) :
    total f (t.erase k) = total f t - share f t k := by
  by_cases hk : k ∈ t
  · obtain ⟨r, l₁, l₂, -, hl, hke⟩ := List.exists_of_kerase (AList.mem_keys.1 hk)
    have hr : t.lookup k = some r := by
      rw [← Option.mem_def, AList.mem_lookup_iff, hl]; simp
    have he : (t.erase k).entries = l₁ ++ l₂ := hke
    rw [share_some hr]
    simp only [total, rows, he, hl, List.map_append, List.map_cons, List.sum_append, List.sum_cons]
    omega
  · have he : (t.erase k).entries = t.entries := List.kerase_of_notMem_keys hk
    rw [share_none (AList.lookup_eq_none.2 hk)]
    simp only [total, rows, he, sub_zero]

/-- Writing a row replaces its share of the sum. -/
theorem total_insert (f : κ → ρ → ℤ) (t : Table κ ρ) (k : κ) (r : ρ) :
    total f (t.insert k r) = total f t - share f t k + f k r := by
  have he : (t.insert k r).entries = ⟨k, r⟩ :: (t.erase k).entries := AList.entries_insert
  have hs : total f (t.insert k r) = f k r + total f (t.erase k) := by
    simp only [total, rows, he, List.map_cons, List.sum_cons]
  rw [hs, total_erase]
  omega

theorem total_nonneg (h : ∀ k r, t.lookup k = some r → 0 ≤ f k r) : 0 ≤ total f t := by
  refine List.sum_nonneg fun x hx => ?_
  obtain ⟨⟨k, r⟩, hm, rfl⟩ := List.mem_map.1 hx
  exact h k r (mem_rows.1 hm)

/-- Equal terms, equal sums: only the rows the table has are compared. -/
theorem total_ext (h : ∀ k r, t.lookup k = some r → f k r = g k r) : total f t = total g t := by
  unfold total
  congr 1
  exact List.map_congr_left fun e he => h e.1 e.2 (mem_rows.1 he)

theorem total_eq_zero (h : ∀ k r, t.lookup k = some r → f k r = 0) : total f t = 0 := by
  rw [total_ext h]; simp [total]

/-- If every row that satisfies `p` here has its key satisfy `p'` there, there are at
least as many there. -/
theorem count_le {p' : κ → ρ → Bool}
    (h : ∀ k r, t.lookup k = some r → p k r = true → ∃ r', t'.lookup k = some r' ∧ p' k r' = true) :
    count p t ≤ count p' t' := by
  have hs : (only p t).map Prod.fst ⊆ (only p' t').map Prod.fst := by
    intro k hk
    obtain ⟨⟨k', r⟩, hm, rfl⟩ := List.mem_map.1 hk
    obtain ⟨hl, hp⟩ := mem_only.1 hm
    obtain ⟨r', hl', hp'⟩ := h k' r hl hp
    exact List.mem_map.2 ⟨(k', r'), mem_only.2 ⟨hl', hp'⟩, rfl⟩
  simpa [count] using List.Nodup.length_le_of_subset (only_keys_nodup p t) hs

/-- Two tables with the same rows satisfying `p` list them in some order. -/
theorem only_perm (h : ∀ k r, p k r = true → (t.lookup k = some r ↔ t'.lookup k = some r)) :
    (only p t).Perm (only p t') := by
  refine (List.perm_ext_iff_of_nodup (only_nodup p t) (only_nodup p t')).2 fun ⟨k, r⟩ => ?_
  simp only [mem_only]
  exact ⟨fun ⟨hl, hp⟩ => ⟨(h k r hp).1 hl, hp⟩, fun ⟨hl, hp⟩ => ⟨(h k r hp).2 hl, hp⟩⟩

/-- A sum depends only on the rows that contribute to it. -/
theorem total_congr (hf : ∀ k r, p k r = false → f k r = 0)
    (h : ∀ k r, p k r = true → (t.lookup k = some r ↔ t'.lookup k = some r)) :
    total f t = total f t' := by
  rw [total_eq_sum_only t hf, total_eq_sum_only t' hf]
  exact ((only_perm h).map _).sum_eq

end Table

end Txn
