import Mathlib.Algebra.BigOperators.Group.List.Basic
import Mathlib.Data.List.Nodup
import Mathlib.Order.Lattice

/-!
# Grouped sums

Sums of a list taken group by group, and lists of computations that may fail.
-/

namespace Lists

variable {α β κ ε M : Type}

section sums
variable [AddCommMonoid M]

/-- What is left out counts for nothing. -/
theorem sum_map_filterMap (f : α → Option β) (g : β → M) (l : List α) :
    ((l.filterMap f).map g).sum = (l.map fun a => (f a).elim 0 g).sum := by
  induction l with
  | nil => rfl
  | cons a l ih => cases h : f a <;> simp [h, ih]

/-- Two sums over lists can be taken in either order. -/
theorem sum_swap (l : List α) (l' : List β) (f : α → β → M) :
    (l.map fun a => (l'.map fun b => f a b).sum).sum =
    (l'.map fun b => (l.map fun a => f a b).sum).sum := by
  induction l with
  | nil => simp
  | cons a l ih => simp only [List.map_cons, List.sum_cons, ih, List.sum_map_add]

/-- A sum in which one key at most counts. -/
theorem sum_of_key [DecidableEq κ] {keys : List κ} (hd : keys.Nodup) (k : κ) (x : M) :
    (keys.map fun key => if k = key then x else 0).sum = if k ∈ keys then x else 0 := by
  induction keys with
  | nil => rfl
  | cons key keys ih =>
    obtain ⟨hnot, hd⟩ := List.nodup_cons.1 hd
    rw [List.map_cons, List.sum_cons, ih hd]
    by_cases he : k = key
    · rw [if_pos he, if_neg (he ▸ hnot), if_pos (he ▸ List.mem_cons_self), add_zero]
    · rw [if_neg he, zero_add]
      simp [he]

theorem sum_filter (p : α → Bool) (f : α → M) (l : List α) :
    ((l.filter p).map f).sum = (l.map fun a => if p a then f a else 0).sum := by
  induction l with
  | nil => rfl
  | cons a l ih =>
    rw [List.filter_cons, List.map_cons, List.sum_cons, ← ih]
    cases p a <;> simp

/-- **The groups of a list add up to the members that belong to one of them.** -/
theorem sum_groups [DecidableEq κ] {keys : List κ} (hd : keys.Nodup) (group : α → κ) (f : α → M)
    {p : α → Bool}
    (hp : ∀ a, p a = true ↔ group a ∈ keys) (l : List α) :
    (keys.map fun key => ((l.filter fun a => group a = key).map f).sum).sum =
    ((l.filter p).map f).sum := by
  simp only [sum_filter, decide_eq_true_eq, hp]
  rw [sum_swap]
  congr 1
  exact List.map_congr_left fun a _ => sum_of_key hd (group a) (f a)

end sums

/-! ## Computations that may fail -/

/-- All of them succeed just if each one does. -/
theorem mapM_ok {f : α → Except ε β} {l : List α} {bs : List β} :
    l.mapM f = .ok bs ↔ List.Forall₂ (fun a b => f a = .ok b) l bs := by
  induction l generalizing bs with
  | nil =>
    constructor
    · intro h
      cases h
      exact .nil
    · rintro ⟨⟩
      rfl
  | cons a l ih =>
    rw [List.mapM_cons]
    constructor
    · intro h
      cases ha : f a with
      | error e => rw [ha] at h; cases h
      | ok b =>
        cases hl : l.mapM f with
        | error e => rw [ha, hl] at h; cases h
        | ok bs' =>
          rw [ha, hl] at h
          cases h
          exact .cons ha (ih.1 hl)
    · rintro (_ | ⟨ha, hl⟩)
      rw [ha, ih.2 hl]
      rfl

/-- The same where the one result of each is known. -/
theorem mapM_ok_iff {f : α → Except ε β} {g : α → β} {P : α → Prop} (h : ∀ a b, f a = .ok b ↔
    b = g a ∧ P a) {l : List α} {bs : List β} :
    l.mapM f = .ok bs ↔ bs = l.map g ∧ ∀ a ∈ l, P a := by
  rw [mapM_ok]
  simp only [h]
  induction l generalizing bs with
  | nil => simp
  | cons a l ih =>
    simp only [List.forall₂_cons_left_iff, ih, List.map_cons, List.forall_mem_cons]
    constructor
    · rintro ⟨b, bs', ⟨rfl, ha⟩, ⟨rfl, hl⟩, rfl⟩
      exact ⟨rfl, ha, hl⟩
    · rintro ⟨rfl, ha, hl⟩
      exact ⟨_, _, ⟨rfl, ha⟩, ⟨rfl, hl⟩, rfl⟩

theorem mapM_map {f : α → Except ε β} {g : α → β} {l : List α} (h : ∀ a ∈ l, f a = .ok (g a)) :
    l.mapM f = .ok (l.map g) := by
  rw [mapM_ok, List.forall₂_map_right_iff, List.forall₂_same]
  exact h

/-- The results of a loop that succeeds. -/
theorem mem_mapM {f : α → Except ε β} {l : List α} {bs : List β} (h : l.mapM f = .ok bs) {b : β} :
    b ∈ bs ↔ ∃ a ∈ l, f a = .ok b := by
  have hall := mapM_ok.1 h
  clear h
  induction hall with
  | nil => simp
  | cons ha _ ih => simp [ih, ha, eq_comm]

/-- A loop that fails has failed at one of the elements. -/
theorem mapM_error {f : α → Except ε β} {l : List α} {e : ε} (h : l.mapM f = .error e) :
    ∃ a ∈ l, f a = .error e := by
  induction l with
  | nil => cases h
  | cons a l ih =>
    rw [List.mapM_cons] at h
    cases ha : f a with
    | error e' =>
      rw [ha] at h
      cases h
      exact ⟨a, List.mem_cons_self, ha⟩
    | ok b =>
      cases hl : l.mapM f with
      | error e' =>
        rw [ha, hl] at h
        cases h
        obtain ⟨a', ha', he⟩ := ih hl
        exact ⟨a', List.mem_cons_of_mem a ha', he⟩
      | ok bs =>
        rw [ha, hl] at h
        cases h

/-- A loop that succeeds has succeeded at each element. -/
theorem ok_of_mapM {f : α → Except ε β} {l : List α} {bs : List β} (h : l.mapM f = .ok bs) :
    ∀ a ∈ l, ∃ b, f a = .ok b := by
  have hall := mapM_ok.1 h
  clear h
  induction hall with
  | nil => exact fun a ha => nomatch ha
  | cons ha _ ih => exact List.forall_mem_cons.2 ⟨⟨_, ha⟩, ih⟩

/-- A loop that fails has failed at the first element that fails. -/
theorem mapM_first_error {f : α → Except ε β} {l : List α} {e : ε} (h : l.mapM f = .error e) :
    ∃ done a rest, l = done ++ a :: rest ∧ (∀ x ∈ done, ∃ b, f x = .ok b) ∧ f a = .error e := by
  induction l with
  | nil => cases h
  | cons x l ih =>
    rw [List.mapM_cons] at h
    cases hx : f x with
    | error e' =>
      rw [hx] at h
      cases h
      exact ⟨[], x, l, rfl, by simp, hx⟩
    | ok b =>
      cases hl : l.mapM f with
      | ok bs => rw [hx, hl] at h; cases h
      | error e' =>
        rw [hx, hl] at h
        cases h
        obtain ⟨done, a, rest, rfl, hd, ha⟩ := ih hl
        exact ⟨x :: done, a, rest, rfl, List.forall_mem_cons.2 ⟨⟨b, hx⟩, hd⟩, ha⟩

/-- A loop over checks is a loop whose results nobody needs. -/
theorem forM_eq_mapM {f : α → Except ε PUnit} {l : List α} :
    l.forM f = (l.mapM f).map fun _ => ⟨⟩ := by
  induction l with
  | nil => rfl
  | cons a l ih =>
    have hcons : (a :: l).forM f = f a >>= fun _ => l.forM f := rfl
    rw [hcons, ih, List.mapM_cons]
    cases f a with
    | error e => rfl
    | ok b => cases l.mapM f <;> rfl

/-- In an ascending list the first element that fails is the least one. -/
theorem least_of_first [LinearOrder κ] {key : α → κ} {f : α → Except ε β} {l done rest : List α}
    {a b : α} {e : ε}
    (hs : l.Pairwise fun a b => key a ≤ key b) (hl : l = done ++ a :: rest)
    (hd : ∀ x ∈ done, ∃ b, f x = .ok b) (hb : b ∈ l)
    (he : f b = .error e) : key a ≤ key b := by
  subst hl
  obtain ⟨-, hs, -⟩ := List.pairwise_append.1 hs
  rcases List.mem_append.1 hb with hb | hb
  · obtain ⟨c, hc⟩ := hd b hb
    rw [he] at hc
    cases hc
  · rcases List.mem_cons.1 hb with rfl | hb
    · exact le_refl _
    · exact List.rel_of_pairwise_cons hs hb

end Lists
