import Mathlib.Data.List.Pairwise
import Mathlib.Order.Defs.LinearOrder
import Mathlib.Order.Nat
import Mathlib.Data.Nat.Notation
import Mathlib.Order.Lattice

/-!
# Binary search

A search of a list by key, as a standard library does it on an array: the window that
may hold the key is halved until one element is left. On a list that ascends by key it finds
what a search from the front finds (`search_eq_find`).
-/

namespace Lists

variable {α κ : Type*} [LinearOrder κ]

/-- Halve the window of `size` elements from `base` on, until at most one is left. -/
def narrow (key : α → κ) (k : κ) (l : List α) (base size : ℕ) : ℕ :=
  if size ≤ 1 then base
  else
    let mid := base + size / 2
    let base' := if l[mid]?.any (k < key ·) then base else mid
    narrow key k l base' (size - size / 2)
termination_by size

/-- The element with key `k`. -/
def search (key : α → κ) (k : κ) (l : List α) : Option α :=
  (l[narrow key k l 0 l.length]?).filter (key · = k)

variable {key : α → κ} {k : κ} {l : List α} {base size i : ℕ} {a b : α}

theorem search_some (h : search key k l = some a) : a ∈ l ∧ key a = k := by
  obtain ⟨hm, hk⟩ := Option.filter_eq_some_iff.1 h
  exact ⟨List.mem_of_getElem? hm, by simpa using hk⟩

/-- Keys ascend with the positions. -/
theorem key_lt (hs : l.Pairwise fun a b => key a < key b) (ha : l[i]? = some a) {j : ℕ}
    (hb : l[j]? = some b) (hij : i < j) :
    key a < key b := by
  obtain ⟨hi, rfl⟩ := List.getElem?_eq_some_iff.1 ha
  obtain ⟨hj, rfl⟩ := List.getElem?_eq_some_iff.1 hb
  exact List.pairwise_iff_getElem.1 hs i j hi hj hij

/-- An element that is in the window stays in it. -/
theorem narrow_eq (hs : l.Pairwise fun a b => key a < key b) (ha : l[i]? = some a)
    (hk : key a = k) :
    base + size ≤ l.length → base ≤ i → i < base + size → narrow key k l base size = i := by
  induction base, size using narrow.induct key k l with
  | case1 base size h =>
    intro _ h1 h2
    rw [narrow, if_pos h]
    omega
  | case2 base size h mid base' ih =>
    intro hlen h1 h2
    rw [narrow, if_neg h]
    have hmid : mid = base + size / 2 := rfl
    obtain ⟨x, hx⟩ : ∃ x, l[mid]? = some x := ⟨l[mid], List.getElem?_eq_getElem (by omega)⟩
    have hbase : base' = if k < key x then base else mid := by
      show (if l[mid]?.any (k < key ·) then base else mid) = _
      rw [hx]
      simp
    -- the middle element tells which half the key is in
    have hside : base' + (size - size / 2) ≤ l.length ∧ base' ≤ i ∧
        i < base' + (size - size / 2) := by
      rw [hbase]
      rcases lt_trichotomy i mid with him | him | him
      · have hlt : k < key x := hk ▸ key_lt hs ha hx him
        rw [if_pos hlt]
        omega
      · rw [him, hx] at ha
        cases ha
        rw [if_neg (by rw [hk]; exact lt_irrefl k)]
        omega
      · have hlt : key x < k := hk ▸ key_lt hs hx ha him
        rw [if_neg hlt.not_gt]
        omega
    exact ih hside.1 hside.2.1 hside.2.2

/-- **On an ascending list it finds what is there.** -/
theorem search_eq_find (hs : l.Pairwise fun a b => key a < key b) :
    search key k l = l.find? (key · = k) := by
  cases hf : l.find? (key · = k) with
  | none =>
    cases h : search key k l with
    | none => rfl
    | some a =>
      obtain ⟨hm, hk⟩ := search_some h
      exact absurd (List.find?_eq_none.1 hf a hm) (by simp [hk])
  | some a =>
    have hk : key a = k := by simpa using List.find?_some hf
    obtain ⟨i, hi⟩ := List.mem_iff_getElem?.1 (List.mem_of_find?_eq_some hf)
    have hlt : i < l.length := (List.getElem?_eq_some_iff.1 hi).1
    rw [search, narrow_eq hs hi hk (by omega) (Nat.zero_le i) (by omega), hi, Option.filter_some,
      if_pos (by simpa using hk)]

end Lists
