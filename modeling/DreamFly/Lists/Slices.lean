import Mathlib.Data.Int.Notation
import Mathlib.Data.List.Sort

/-!
# Slices of an ordered list

`LIMIT limit OFFSET offset` over the rows of a query, and the sort before it.

* `flatten_slices`: consecutive slices of one size are a prefix of the list.
* `slice_disjoint`: they share no row.
* `sorted_perm`: under a total order the rows come out the same, whatever order they are
  read in.
-/

namespace Lists

variable {α : Type*} {r : α → α → Prop} {l l' : List α} {a : α} {limit offset offset' n : ℕ}

/-! ## One slice -/

/-- At most `limit` rows, from position `offset` on. -/
def slice (limit offset : ℕ) (l : List α) : List α := (l.drop offset).take limit

theorem getElem?_slice (k : ℕ) :
    (slice limit offset l)[k]? = if k < limit then l[offset + k]? else none := by
  rw [slice, List.getElem?_take]
  split
  · rw [List.getElem?_drop]
  · rfl

/-- A row of a slice has its position in the list. -/
theorem mem_slice : a ∈ slice limit offset l ↔ ∃ k, offset ≤ k ∧ k < offset + limit ∧
    l[k]? = some a := by
  constructor
  · intro h
    obtain ⟨k, hk⟩ := List.mem_iff_getElem?.1 h
    rw [getElem?_slice] at hk
    split at hk
    · exact ⟨offset + k, by omega, by omega, hk⟩
    · cases hk
  · rintro ⟨k, hle, hlt, hk⟩
    refine List.mem_iff_getElem?.2 ⟨k - offset, ?_⟩
    rw [getElem?_slice, if_pos (by omega), Nat.add_sub_cancel' hle]
    exact hk

/-- Past the end there is nothing. -/
theorem slice_past (h : l.length ≤ offset) : slice limit offset l = [] := by
  rw [slice, List.drop_eq_nil_of_le h, List.take_nil]

theorem take_append_slice : l.take offset ++ slice limit offset l = l.take (offset + limit) :=
    List.take_add.symm

/-! ## Consecutive slices -/

/-- The first `n` slices of `limit` rows each. -/
def slices (limit n : ℕ) (l : List α) : List (List α) := (List.range n).map fun i =>
    slice limit (i * limit) l

/-- **Consecutive slices, one after the other, are a prefix of the list.** -/
theorem flatten_slices (limit n : ℕ) (l : List α) :
    (slices limit n l).flatten = l.take (n * limit) := by
  induction n with
  | zero =>
    rw [Nat.zero_mul, List.take_zero]
    rfl
  | succ n ih =>
    unfold slices at ih ⊢
    rw [List.range_succ, List.map_append, List.flatten_append, ih, Nat.succ_mul,
      ← take_append_slice]
    simp only [List.map_cons, List.map_nil, List.flatten_cons, List.flatten_nil, List.append_nil]

/-- With enough of them, all of it. -/
theorem flatten_slices_all (h : l.length ≤ n * limit) : (slices limit n l).flatten = l := by
  rw [flatten_slices, List.take_of_length_le h]

/-- **Slices that do not overlap share no row**, in a list without repetition. -/
theorem slice_disjoint (hl : l.Nodup) (h : offset + limit ≤ offset') :
    (slice limit offset l).Disjoint (slice limit offset' l) := by
  intro a h1 h2
  obtain ⟨k, -, hk, hka⟩ := mem_slice.1 h1
  obtain ⟨k', hk', -, hka'⟩ := mem_slice.1 h2
  have hlen : k < l.length := (List.getElem?_eq_some_iff.1 hka).1
  have : k = k' := (List.getElem?_inj hlen hl).1 (hka.trans hka'.symm)
  omega

/-! ## The order -/

section Order

variable [DecidableRel r] [Std.Total r] [IsTrans α r]

/-- **An order that is total on its rows fixes the listing**, whatever order the rows are
read in. -/
theorem sorted_perm (hanti : ∀ a ∈ l, ∀ b ∈ l, r a b → r b a → a = b) (h : l.Perm l') :
    l.insertionSort r = l'.insertionSort r := by
  have hsort := List.perm_insertionSort r l
  have hsort' := List.perm_insertionSort r l'
  refine ((hsort.trans h).trans hsort'.symm).eq_of_pairwise (fun a b ha hb => ?_)
    (List.pairwise_insertionSort r l) (List.pairwise_insertionSort r l')
  exact hanti a (hsort.subset ha) b (h.symm.subset (hsort'.subset hb))

end Order

end Lists
