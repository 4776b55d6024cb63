import Mathlib.Data.List.Induction
import Mathlib.Data.List.Nodup
import Mathlib.Data.List.Sort
import Mathlib.Order.Lattice

/-!
# Stretches of equal keys

A list cut into stretches of elements with the same key, one pass from the left: an element
joins the last stretch if it has its key, and begins a new one otherwise. A list in the order
of the keys is cut into its groups.
-/

namespace Lists

variable {α κ : Type} [LinearOrder κ] {key : α → κ} {l : List α} {a : α}
  {groups : List (κ × List α)}

def push (key : α → κ) (groups : List (κ × List α)) (a : α) : List (κ × List α) :=
  match groups.getLast?.filter fun g => g.1 = key a with
  | some g => groups.dropLast ++ [(g.1, g.2 ++ [a])]
  | none => groups ++ [(key a, [a])]

def stretches (key : α → κ) (l : List α) : List (κ × List α) := l.foldl (push key) []

/-- A list cut into non-empty stretches, each with its key. -/
structure Cut (key : α → κ) (l : List α) (groups : List (κ × List α)) : Prop where
  flat : groups.flatMap Prod.snd = l
  full : ∀ g ∈ groups, g.2 ≠ []
  keyed : ∀ g ∈ groups, ∀ a ∈ g.2, key a = g.1

theorem push_cases (key : α → κ) (groups : List (κ × List α)) (a : α) :
    (∃ init g, groups = init ++ [g] ∧ g.1 = key a ∧
      push key groups a = init ++ [(g.1, g.2 ++ [a])]) ∨
    ((∀ init g, groups = init ++ [g] → g.1 ≠ key a) ∧
      push key groups a = groups ++ [(key a, [a])]) := by
  rcases List.eq_nil_or_concat groups with rfl | ⟨init, g, rfl⟩
  · right
    refine ⟨fun init g h => ?_, rfl⟩
    have hlen := congrArg List.length h
    simp at hlen
  · rw [List.concat_eq_append]
    by_cases hg : g.1 = key a
    · left
      have hlast : ((init ++ [g]).getLast?.filter fun g => g.1 = key a) = some g := by
        simp [List.getLast?_append, Option.filter, hg]
      exact ⟨init, g, rfl, hg, by rw [push, hlast, List.dropLast_concat]⟩
    · right
      have hlast : ((init ++ [g]).getLast?.filter fun g => g.1 = key a) = none := by
        simp [List.getLast?_append, Option.filter, hg]
      refine ⟨fun init' g' h => ?_, by rw [push, hlast]⟩
      obtain ⟨-, hs⟩ := List.append_inj' h rfl
      cases hs
      exact hg

theorem Cut.pushed (h : Cut key l groups) (a : α) : Cut key (l ++ [a]) (push key groups a) := by
  rcases push_cases key groups a with ⟨init, g, rfl, hg, he⟩ | ⟨-, he⟩
  · rw [he]
    have hflat := h.flat
    rw [List.flatMap_append, List.flatMap_singleton] at hflat
    refine ⟨?_, fun g' hg' => ?_, fun g' hg' b hb => ?_⟩
    · rw [List.flatMap_append, List.flatMap_singleton, ← List.append_assoc, hflat]
    · rcases List.mem_append.1 hg' with hg' | hg'
      · exact h.full g' (List.mem_append_left _ hg')
      · rw [List.mem_singleton.1 hg']
        simp
    · rcases List.mem_append.1 hg' with hg' | hg'
      · exact h.keyed g' (List.mem_append_left _ hg') b hb
      · rw [List.mem_singleton.1 hg'] at hb ⊢
        rcases List.mem_append.1 hb with hb | hb
        · exact h.keyed g (by simp) b hb
        · rw [List.mem_singleton.1 hb, hg]
  · rw [he]
    refine ⟨?_, fun g' hg' => ?_, fun g' hg' b hb => ?_⟩
    · rw [List.flatMap_append, h.flat, List.flatMap_singleton]
    · rcases List.mem_append.1 hg' with hg' | hg'
      · exact h.full g' hg'
      · rw [List.mem_singleton.1 hg']
        simp
    · rcases List.mem_append.1 hg' with hg' | hg'
      · exact h.keyed g' hg' b hb
      · rw [List.mem_singleton.1 hg'] at hb ⊢
        rw [List.mem_singleton.1 hb]

/-- An element with the largest key so far keeps the keys of the stretches in order. -/
theorem Cut.sorted (h : Cut key l groups) (hs : groups.Pairwise fun g g' => g.1 < g'.1)
    (ha : ∀ b ∈ l, key b ≤ key a) :
    (push key groups a).Pairwise fun g g' => g.1 < g'.1 := by
  rcases push_cases key groups a with ⟨init, g, rfl, -, he⟩ | ⟨hlast, he⟩
  · rw [he]
    rw [List.pairwise_append] at hs ⊢
    refine ⟨hs.1, List.pairwise_singleton _ _, fun x hx y hy => ?_⟩
    rw [List.mem_singleton.1 hy]
    exact hs.2.2 x hx g List.mem_cons_self
  · rw [he, List.pairwise_append]
    refine ⟨hs, List.pairwise_singleton _ _, fun x hx y hy => ?_⟩
    rw [List.mem_singleton.1 hy]
    -- the key of a stretch is the key of an element of it
    have hle : ∀ g ∈ groups, g.1 ≤ key a := by
      intro g hg
      obtain ⟨b, hb⟩ := List.exists_mem_of_ne_nil _ (h.full g hg)
      rw [← h.keyed g hg b hb]
      exact ha b (h.flat ▸ List.mem_flatMap.2 ⟨g, hg, hb⟩)
    rcases List.eq_nil_or_concat groups with rfl | ⟨init, g, rfl⟩
    · cases hx
    · rw [List.concat_eq_append] at hx hs hle hlast
      have hg : g.1 < key a := lt_of_le_of_ne (hle g (by simp)) (hlast init g rfl)
      rcases List.mem_append.1 hx with hx | hx
      · exact lt_trans ((List.pairwise_append.1 hs).2.2 x hx g List.mem_cons_self) hg
      · rw [List.mem_singleton.1 hx]
        exact hg

/-- **A list is cut into stretches.** -/
theorem stretches_cut (key : α → κ) (l : List α) : Cut key l (stretches key l) := by
  induction l using List.reverseRecOn with
  | nil => exact ⟨rfl, fun g hg => (by cases hg), fun g hg => (by cases hg)⟩
  | append_singleton l a ih =>
    unfold stretches at ih ⊢
    rw [List.foldl_append]
    exact ih.pushed a

/-- In the order of the keys, every key has one stretch. -/
theorem stretches_sorted (h : l.Pairwise fun a b => key a ≤ key b) :
    (stretches key l).Pairwise fun g g' => g.1 < g'.1 := by
  induction l using List.reverseRecOn with
  | nil => exact List.Pairwise.nil
  | append_singleton l a ih =>
    rw [List.pairwise_append] at h
    have hs := ih h.1
    have hc := stretches_cut key l
    unfold stretches at hs hc ⊢
    rw [List.foldl_append]
    exact hc.sorted hs fun b hb => h.2.2 b hb a List.mem_cons_self

/-- **The stretch of a key is the group of that key**, if no two stretches have it. -/
theorem Cut.group (h : Cut key l groups) (hs : groups.Pairwise fun g g' => g.1 < g'.1)
    {g : κ × List α} (hg : g ∈ groups) :
    g.2 = l.filter fun a => key a = g.1 := by
  rw [← h.flat]
  have hkeyed := h.keyed
  clear h
  induction groups with
  | nil => cases hg
  | cons g₀ groups ih =>
    rw [List.pairwise_cons] at hs
    rw [List.flatMap_cons, List.filter_append]
    have hrest : ∀ g' ∈ groups, ∀ a ∈ g'.2, key a = g'.1 :=
      fun g' hg' => hkeyed g' (List.mem_cons_of_mem _ hg')
    -- keys rise from group to group, so no other group has the key
    rcases List.mem_cons.1 hg with rfl | hg
    · have h1 : (g.2.filter fun a => key a = g.1) = g.2 :=
        List.filter_eq_self.2 fun a ha => by simpa using hkeyed g List.mem_cons_self a ha
      have h2 : ((groups.flatMap Prod.snd).filter fun a => key a = g.1) = [] := by
        rw [List.filter_eq_nil_iff]
        intro a ha
        obtain ⟨g', hg', hag⟩ := List.mem_flatMap.1 ha
        have hlt := hs.1 g' hg'
        rw [← hrest g' hg' a hag] at hlt
        simpa using hlt.ne'
      rw [h1, h2, List.append_nil]
    · have h1 : (g₀.2.filter fun a => key a = g.1) = [] := by
        rw [List.filter_eq_nil_iff]
        intro a ha
        have hlt := hs.1 g hg
        rw [← hkeyed g₀ List.mem_cons_self a ha] at hlt
        simpa using hlt.ne
      rw [h1, List.nil_append]
      exact ih hs.2 hg hrest

end Lists
