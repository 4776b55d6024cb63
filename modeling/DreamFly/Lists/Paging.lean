import DreamFly.Base
import DreamFly.Lists.Slices
import Mathlib.Order.Defs.LinearOrder
import Mathlib.Algebra.Group.Nat.Defs

/-!
# Pages of the list endpoints

* `pages_tile`: the row offset of a request is the exact one, and no arithmetic wraps,
  just where that offset is below 2³²; the pages up to there tile the list.
* `page_wraps`: past it a request gets rows of an early page again.
-/

namespace DreamFly

open Lists

/-! ## Requests -/

/-- The query string of a list endpoint. -/
structure PaginationParams where
  page : UInt32
  perPage : UInt32
deriving DecidableEq, Repr

/-- The envelope of a list response. -/
structure PageMeta where
  total : ℤ
  page : UInt32
  perPage : UInt32
deriving DecidableEq, Repr

def defaultPage : UInt32 := 1

def defaultPerPage : UInt32 := 20

/-- `saturating_sub` on `u32`. -/
def saturatingSub (a b : UInt32) : UInt32 := if a < b then 0 else a - b

/-- `*` on `u32`, where it does not wrap. -/
def checkedMulU32 (a b : UInt32) : Option UInt32 := if a.toNat * b.toNat < 2 ^ 32 then
    some (a * b) else none

namespace PaginationParams

def default : PaginationParams := ⟨defaultPage, defaultPerPage⟩

/-- `per_page.clamp(1, 100)` -/
def limit (p : PaginationParams) : UInt32 := if p.perPage < 1 then 1 else if p.perPage > 100 then
    100 else p.perPage

/-- `page.max(1)` -/
def number (p : PaginationParams) : UInt32 := if p.page < 1 then 1 else p.page

/-- The product is taken in `u32`: a release build wraps. -/
def offset (p : PaginationParams) : UInt32 := saturatingSub p.number 1 * p.limit

/-- The same in a build with overflow checks, where a wrap is a panic. -/
def offsetChecked (p : PaginationParams) : Option UInt32 :=
  checkedMulU32 (saturatingSub p.number 1) p.limit

def toMeta (p : PaginationParams) (total : ℤ) : PageMeta := ⟨total, p.number, p.limit⟩

end PaginationParams

variable {α : Type*} {r : α → α → Prop} [DecidableRel r] {p : PaginationParams} {rows scan : List α}
  {perPage : UInt32} {n i j : ℕ}

/-- The rows of a list query for one request: ordered by `r`, then LIMIT and OFFSET. -/
def page (r : α → α → Prop) [DecidableRel r] (p : PaginationParams) (rows : List α) : List α :=
  slice p.limit.toNat p.offset.toNat (rows.insertionSort r)

/-! ## Limits and offsets -/

namespace PaginationParams

theorem limit_eq : p.limit.toNat = max 1 (min p.perPage.toNat 100) := by
  have hone : (1 : UInt32).toNat = 1 := rfl
  have hmost : (100 : UInt32).toNat = 100 := rfl
  unfold limit
  by_cases h : p.perPage < 1
  · rw [if_pos h]
    rw [UInt32.lt_iff_toNat_lt] at h
    omega
  · rw [if_neg h]
    rw [UInt32.lt_iff_toNat_lt] at h
    by_cases h' : p.perPage > 100
    · rw [if_pos h']
      rw [gt_iff_lt, UInt32.lt_iff_toNat_lt] at h'
      omega
    · rw [if_neg h']
      rw [gt_iff_lt, UInt32.lt_iff_toNat_lt] at h'
      omega

theorem limit_pos : 1 ≤ p.limit.toNat := by
  rw [limit_eq]
  exact le_max_left _ _

theorem limit_le : p.limit.toNat ≤ 100 := by
  rw [limit_eq]
  omega

/-- How many pages come before the one asked for. -/
theorem before_eq : (saturatingSub p.number 1).toNat = max p.page.toNat 1 - 1 := by
  have hone : (1 : UInt32).toNat = 1 := rfl
  unfold saturatingSub number
  by_cases h : p.page < 1
  · rw [if_pos h, if_neg (by decide), UInt32.toNat_sub_of_le _ _ (by decide)]
    rw [UInt32.lt_iff_toNat_lt] at h
    omega
  · rw [if_neg h, if_neg h]
    rw [UInt32.lt_iff_toNat_lt] at h
    rw [UInt32.toNat_sub_of_le _ _ (by rw [UInt32.le_iff_toNat_le]; omega)]
    omega

/-- The row offset that a request asks for. -/
def exactOffset (p : PaginationParams) : ℕ := (max p.page.toNat 1 - 1) * p.limit.toNat

theorem offset_eq : p.offset.toNat = p.exactOffset % 2 ^ 32 := by
  rw [offset, UInt32.toNat_mul, before_eq, exactOffset]

/-- What a list endpoint makes of a request as it should: a limit in 1..=100, the exact
offset, and no arithmetic that wraps. -/
structure Exact (p : PaginationParams) : Prop where
  limit_pos : 1 ≤ p.limit.toNat
  limit_le : p.limit.toNat ≤ 100
  offset : p.offset.toNat = (max p.page.toNat 1 - 1) * p.limit.toNat
  checked : p.offsetChecked = some p.offset

theorem offsetChecked_eq : p.offsetChecked = if p.exactOffset < 2 ^ 32 then some p.offset else
    none := by
  rw [offsetChecked, checkedMulU32, before_eq, exactOffset, offset]

/-- **A request is served as it should be just where its exact offset is a `u32`.** -/
theorem exact_iff : p.Exact ↔ p.exactOffset < 2 ^ 32 := by
  constructor
  · intro h
    by_contra hwrap
    have := h.checked
    rw [offsetChecked_eq, if_neg hwrap] at this
    cases this
  · intro h
    refine ⟨limit_pos, limit_le, ?_, by rw [offsetChecked_eq, if_pos h]⟩
    rw [offset_eq, Nat.mod_eq_of_lt h, exactOffset]

end PaginationParams

/-! ## Tiling -/

/-- The request for page `i + 1`. -/
def request (perPage : UInt32) (i : ℕ) : PaginationParams := ⟨UInt32.ofNat (i + 1), perPage⟩

/-- The answers to the requests for the pages `1, …, n`, each with the rows in the order
that its own query happens to read them in. -/
def pages (r : α → α → Prop) [DecidableRel r] (perPage : UInt32) (scan : ℕ → List α) (n : ℕ) :
    List (List α) :=
  (List.range n).map fun i => page r (request perPage i) (scan i)

/-- The limit of every request for this page size. -/
def limitOf (perPage : UInt32) : ℕ := (request perPage 0).limit.toNat

theorem request_offset (hi : i + 1 < 2 ^ 32) :
    (request perPage i).exactOffset = i * limitOf perPage := by
  have hpage : (request perPage i).page.toNat = i + 1 := UInt32.toNat_ofNat_of_lt' hi
  have hbefore : max (i + 1) 1 - 1 = i := by omega
  rw [PaginationParams.exactOffset, hpage, hbefore]
  rfl

section Order

variable [Std.Total r] [IsTrans α r] [Std.Antisymm r]

/-- A page asked for with an exact offset, from whatever scan. -/
theorem page_eq_slice (hi : i + 1 < 2 ^ 32) (h : i * limitOf perPage < 2 ^ 32)
    (hs : scan.Perm rows) :
    page r (request perPage i) scan = slice (limitOf perPage) (i * limitOf perPage)
    (rows.insertionSort r) := by
  rw [page, ← sorted_perm (fun _ _ _ _ => antisymm) hs.symm, PaginationParams.offset_eq,
    request_offset hi, Nat.mod_eq_of_lt h]
  rfl

theorem pages_eq_slices {scan : ℕ → List α} (hn : n < 2 ^ 32)
    (h : (n - 1) * limitOf perPage < 2 ^ 32)
    (hs : ∀ i, (scan i).Perm rows) : pages r perPage scan n =
    slices (limitOf perPage) n (rows.insertionSort r) := by
  refine List.map_congr_left fun i hi => ?_
  have hin : i < n := List.mem_range.1 hi
  have hle : i * limitOf perPage ≤ (n - 1) * limitOf perPage := Nat.mul_le_mul_right _ (by omega)
  exact page_eq_slice (by omega) (by omega) (hs i)

/-- **Pages tile a list as far as their exact offsets are `u32`.** A request is served with
a limit in 1..=100, the exact offset and no arithmetic that wraps just where that offset
is below 2³². For every page size and every list under a total order, the pages up to
there are consecutive slices of the ordered list:

* one after the other they are its first rows, and all of it once there are enough;
* no two of them share a row;
* past the end they are empty. -/
theorem pages_tile :
    (∀ p : PaginationParams, p.Exact ↔ (max p.page.toNat 1 - 1) * p.limit.toNat < 2 ^ 32) ∧
    ∀ (perPage : UInt32) (rows : List α) (scan : ℕ → List α) (n : ℕ), (∀ i, (scan i).Perm rows) →
      n < 2 ^ 32 →
      (n - 1) * limitOf perPage < 2 ^ 32 →
      (pages r perPage scan n).flatten = (rows.insertionSort r).take (n * limitOf perPage) ∧
      (rows.length ≤ n * limitOf perPage → (pages r perPage scan n).flatten =
        rows.insertionSort r) ∧
      (rows.Nodup → (pages r perPage scan n).Pairwise List.Disjoint) ∧
      ∀ i < n, rows.length ≤ i * limitOf perPage → page r (request perPage i) (scan i) = [] := by
  refine ⟨fun p => PaginationParams.exact_iff, fun perPage rows scan n hs hn hfit => ?_⟩
  have hlen : (rows.insertionSort r).length = rows.length := List.length_insertionSort r rows
  rw [pages_eq_slices hn hfit hs]
  refine ⟨flatten_slices _ _ _, fun hall => flatten_slices_all (by omega), fun hnodup => ?_,
    fun i hi hpast => ?_⟩
  · have hsorted : (rows.insertionSort r).Nodup :=
      (List.perm_insertionSort r rows).nodup_iff.2 hnodup
    unfold slices
    refine List.pairwise_map.2 (List.pairwise_lt_range.imp
      fun {i j} hij => slice_disjoint hsorted ?_)
    -- the next page starts where this one ends
    calc i * limitOf perPage + limitOf perPage = (i + 1) * limitOf perPage :=
      (Nat.succ_mul _ _).symm
      _ ≤ j * limitOf perPage := Nat.mul_le_mul_right _ hij
  · have hle : i * limitOf perPage ≤ (n - 1) * limitOf perPage := Nat.mul_le_mul_right _ (by omega)
    rw [page_eq_slice (by omega) (by omega) (hs i)]
    exact slice_past (by omega)

end Order

/-- Three pages of two rows, over five rows in any order. -/
theorem pages_tile_five : (pages (· ≤ ·) 2 (fun _ => [5, 3, 1, 4, 2]) 3).flatten =
    [1, 2, 3, 4, 5] :=
  ((pages_tile.2 2 [5, 3, 1, 4, 2] _ 3 (fun _ => .refl _) (by decide) (by decide)).2.1
    (by decide)).trans (by decide)

/-- **A page far past the end of a list of ten** serves six of its rows: its offset wraps
to 4. -/
theorem page_wraps :
    (¬ ∀ p : PaginationParams, p.Exact) ∧ page (· ≤ ·) ⟨42949674, 100⟩
      (List.range 10) = [4, 5, 6, 7, 8, 9] := by
  refine ⟨fun h => ?_, by decide⟩
  have hoffset : (⟨42949674, 100⟩ : PaginationParams).offset = 4 := by decide
  have hexact := (h ⟨42949674, 100⟩).offset
  rw [hoffset] at hexact
  exact absurd hexact (by decide)

end DreamFly
