import Mathlib.Data.List.Basic

/-!
# Row locks

The four row-lock strengths of PostgreSQL and their conflict table, and the
list of locks a transaction holds. `Compat.not_holds` is how locks are used: two
transactions that run at the same time never hold conflicting modes on one
resource.
-/

namespace Txn

/-- Row-lock strengths, weakest first. -/
inductive Mode
  | keyShare
  | share
  | noKeyUpdate
  | update
deriving DecidableEq, Repr

namespace Mode

/-- Position in the order of strengths. -/
def level : Mode → ℕ
  | keyShare => 0
  | share => 1
  | noKeyUpdate => 2
  | update => 3

/-- The conflict table: `keyShare` only excludes `update`, `share` excludes the
two writing modes, and the writing modes exclude each other. -/
def conflicts (m n : Mode) : Bool :=
  3 ≤ m.level + n.level

theorem conflicts_update : conflicts .update .update = true := rfl

theorem conflicts_comm (m n : Mode) : m.conflicts n = n.conflicts m := by
  simp only [conflicts, Nat.add_comm]

/-- Stronger modes conflict with more. -/
theorem conflicts_mono {m m' n n' : Mode} (hm : m.level ≤ m'.level) (hn : n.level ≤ n'.level)
    (h : m.conflicts n = true) : m'.conflicts n' = true := by
  simp only [conflicts, decide_eq_true_eq] at h ⊢
  omega

end Mode

/-- The locks a transaction holds on resources `R`. -/
abbrev Locks (R : Type) := List (R × Mode)

variable {R : Type} {L L' L₁ : Locks R} {r : R} {m m' : Mode}

/-- `L` holds `r` at least as strongly as `m`. -/
def Holds (L : Locks R) (r : R) (m : Mode) : Prop :=
  ∃ m', (r, m') ∈ L ∧ m.level ≤ m'.level

instance [DecidableEq R] : Decidable (Holds L r m) :=
  decidable_of_iff (∃ x ∈ L, x.1 = r ∧ m.level ≤ x.2.level) <| by
    constructor
    · rintro ⟨⟨_, m'⟩, hx, rfl, hm⟩; exact ⟨m', hx, hm⟩
    · rintro ⟨m', hx, hm⟩; exact ⟨(r, m'), hx, rfl, hm⟩

theorem Holds.mono (h : Holds L r m) (hs : L ⊆ L') : Holds L' r m :=
  let ⟨m', hm, hle⟩ := h
  ⟨m', hs hm, hle⟩

theorem Holds.weaken (h : Holds L r m) (hm : m'.level ≤ m.level) : Holds L r m' :=
  let ⟨n, hn, hle⟩ := h
  ⟨n, hn, Nat.le_trans hm hle⟩

theorem Holds.of_mem (h : (r, m) ∈ L) : Holds L r m :=
  ⟨m, h, Nat.le_refl _⟩

theorem holds_cons_self (L : Locks R) (r : R) (m : Mode) : Holds ((r, m) :: L) r m :=
  .of_mem List.mem_cons_self

/-- The locks after asking for `r` in mode `m`: nothing new when they already
cover it. -/
def acquire [DecidableEq R] (L : Locks R) (r : R) (m : Mode) : Locks R :=
  if Holds L r m then L else (r, m) :: L

section acquire
variable [DecidableEq R]

theorem acquire_of_holds (h : Holds L r m) : acquire L r m = L := if_pos h

theorem subset_acquire (L : Locks R) (r : R) (m : Mode) : L ⊆ acquire L r m := by
  unfold acquire
  split
  · exact List.Subset.refl L
  · exact List.subset_cons_self _ L

theorem holds_acquire (L : Locks R) (r : R) (m : Mode) : Holds (acquire L r m) r m := by
  unfold acquire
  split
  · next h => exact h
  · exact holds_cons_self L r m

theorem mem_acquire {x : R × Mode} (h : x ∈ acquire L r m) : x = (r, m) ∨ x ∈ L := by
  unfold acquire at h
  split at h
  · exact .inr h
  · exact List.mem_cons.1 h

end acquire

/-- Locks two transactions can hold at the same time. -/
def Compat (L L' : Locks R) : Prop :=
  ∀ r m m', (r, m) ∈ L → (r, m') ∈ L' → m.conflicts m' = false

theorem Compat.symm (h : Compat L L') : Compat L' L := by
  intro r m m' hm hm'
  rw [Mode.conflicts_comm]
  exact h r m' m hm' hm

theorem compat_nil (L : Locks R) : Compat [] L :=
  fun _ _ _ h _ => absurd h (by simp)

/-- **A held lock keeps the conflicting modes of its resource from everyone
else.** -/
theorem Compat.not_holds (h : Compat L L') (hL : Holds L r m) (hc : m.conflicts m' = true) :
    ¬ Holds L' r m' := by
  rintro ⟨n', hn', hle'⟩
  obtain ⟨n, hn, hle⟩ := hL
  have h1 := h r n n' hn hn'
  rw [Mode.conflicts_mono hle hle' hc] at h1
  exact absurd h1 (by decide)

end Txn
