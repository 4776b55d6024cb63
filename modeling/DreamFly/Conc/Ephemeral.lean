import DreamFly.Conc.Machine
import Mathlib.Logic.Function.Basic

/-!
# Short-lived state

A key-value store with a lifetime on every entry, as the services use it: texts and
counters, five commands, a clock. An entry whose time is over is not seen any more.
Any command may fail (`exec`): before it is carried out, or after it, when only the
answer is lost. Between commands time passes, and an entry may be lost early or seen
for longer than its lifetime (`change`); which of these a result allows is its own
condition on runs.

For each command one lemma says what it answers and leaves behind; `look_change` says
what the store does by itself.
-/

namespace Conc

/-- A stored value: a counter, or a text whose form is its owner's business. -/
inductive Val (V : Type)
  | count (n : ℤ)
  | text (v : V)
deriving DecidableEq, Repr

structure Entry (V : Type) where
  val : Val V
  expires : ℕ
deriving DecidableEq, Repr

/-- The store and its clock, in seconds. -/
structure Ephemeral (K V : Type) where
  now : ℕ
  entries : K → Option (Entry V)

inductive StoreCmd (K V : Type)
  | incrWithTtl (k : K) (ttl : ℕ)
  | get (k : K)
  | setEx (k : K) (v : V) (ttl : ℕ)
  | del (k : K)
  | getdel (k : K)
deriving DecidableEq

inductive StoreError
  | unavailable
  /-- INCR of a text. -/
  | notInteger
deriving DecidableEq, Repr

/-- What happens to the store between two commands. -/
inductive StoreEnv (K : Type)
  | tick (n : ℕ)
  /-- An entry is lost. -/
  | evict (k : K)
  /-- An entry is seen for another `n` seconds. -/
  | linger (k : K) (n : ℕ)
deriving DecidableEq, Repr

/-- What a command answers with, when it does not fail. -/
@[reducible] def StoreCmd.Answer {K V : Type} : StoreCmd K V → Type
  | .incrWithTtl _ _ => ℤ
  | .get _ => Option (Val V)
  | .setEx _ _ _ => Unit
  | .del _ => Unit
  | .getdel _ => Option (Val V)

/-- The key a command is about. -/
def StoreCmd.key {K V : Type} : StoreCmd K V → K
  | .incrWithTtl k _ | .get k | .setEx k _ _ | .del k | .getdel k => k

namespace Ephemeral

variable {K V : Type}

/-- No entries. -/
def empty (now : ℕ) : Ephemeral K V := ⟨now, fun _ => none⟩

/-- The entry under `k`, if its time is not over. -/
def look (s : Ephemeral K V) (k : K) : Option (Entry V) := (s.entries k).filter fun e =>
    s.now < e.expires

def value (s : Ephemeral K V) (k : K) : Option (Val V) := (s.look k).map Entry.val

/-- Time passes. -/
def tick (s : Ephemeral K V) (n : ℕ) : Ephemeral K V := { s with now := s.now + n }

section
variable {s : Ephemeral K V} {k : K} {e : Entry V} {n : ℕ}

theorem look_eq_some : s.look k = some e ↔ s.entries k = some e ∧ s.now < e.expires := by
  simp [look, Option.filter_eq_some_iff]

theorem value_eq_some {v : Val V} : s.value k = some v ↔ ∃ e, s.look k = some e ∧ e.val = v :=
    Option.map_eq_some_iff

theorem live_of_look (h : s.look k = some e) : s.now < e.expires := (look_eq_some.1 h).2

@[simp] theorem tick_now (s : Ephemeral K V) (n : ℕ) : (s.tick n).now = s.now + n := rfl

/-- Passing time takes entries away and changes nothing else. -/
theorem look_tick (s : Ephemeral K V) (n : ℕ) (k : K) :
    (s.tick n).look k = (s.look k).filter fun e => s.now + n < e.expires := by
  unfold look tick
  cases h : s.entries k with
  | none => rfl
  | some e =>
    by_cases h1 : s.now + n < e.expires
    · have h2 : s.now < e.expires := by omega
      simp [Option.filter, h1, h2]
    · by_cases h2 : s.now < e.expires <;> simp [Option.filter, h1, h2]

theorem look_tick_some (h : (s.tick n).look k = some e) : s.look k = some e := by
  rw [look_tick, Option.filter_eq_some_iff] at h
  exact h.1

/-- The count in an entry, zero when there is none. -/
def counted : Option (Entry V) → ℤ
  | some ⟨.count n, _⟩ => n
  | _ => 0

theorem counted_congr {e e' : Entry V} (h : e'.val = e.val) :
    counted (some e') = counted (some e) := by
  obtain ⟨v, x⟩ := e
  obtain ⟨v', x'⟩ := e'
  cases h
  cases v <;> rfl

/-- What INCR finds. -/
def counter (s : Ephemeral K V) (k : K) : ℤ := counted (s.look k)

theorem counter_eq {m : ℤ} {expires : ℕ} (h : s.look k = some ⟨.count m, expires⟩) :
    s.counter k = m := by
  simp only [counter, h, counted]

theorem counter_none (h : s.look k = none) : s.counter k = 0 := by
  simp only [counter, h, counted]

end

variable [DecidableEq K]

def put (s : Ephemeral K V) (k : K) (e : Option (Entry V)) : Ephemeral K V :=
  { s with entries := Function.update s.entries k e }

/-- A change from outside. -/
def change (s : Ephemeral K V) : StoreEnv K → Ephemeral K V
  | .tick n => s.tick n
  | .evict k => s.put k none
  | .linger k n =>
    match s.look k with
    | none => s
    | some e => s.put k (some { e with expires := e.expires + n })

/-- INCR, and EXPIRE for a counter that becomes 1. -/
def incr (s : Ephemeral K V) (k : K) (ttl : ℕ) : Except StoreError ℤ × Ephemeral K V :=
  match s.look k with
  | none => (.ok 1, s.put k (some ⟨.count 1, s.now + ttl⟩))
  | some ⟨.count n, expires⟩ =>
    (.ok (n + 1), s.put k (some ⟨.count (n + 1), if n + 1 = 1 then s.now + ttl else expires⟩))
  | some ⟨.text _, _⟩ => (.error .notInteger, s)

/-- One command. -/
def run (s : Ephemeral K V) : (c : StoreCmd K V) → Except StoreError c.Answer × Ephemeral K V
  | .incrWithTtl k ttl => s.incr k ttl
  | .get k => (.ok (s.value k), s)
  | .setEx k v ttl => (.ok (), s.put k (some ⟨.text v, s.now + ttl⟩))
  | .del k => (.ok (), s.put k none)
  | .getdel k => (.ok (s.value k), s.put k none)

/-- One command with its outcome: it may fail before or after it is carried out. -/
def exec (s : Ephemeral K V) (c : StoreCmd K V) (n : ℕ) :
    Except StoreError c.Answer × Ephemeral K V :=
  match n with
  | 1 => (.error .unavailable, s)
  | 2 => (.error .unavailable, (s.run c).2)
  | _ => s.run c

variable {s s' : Ephemeral K V} {k k' : K} {e : Entry V} {n ttl : ℕ}

/-! ## Entries -/

@[simp] theorem put_now (s : Ephemeral K V) (k : K) (e : Option (Entry V)) : (s.put k e).now =
    s.now := rfl

theorem look_put_self (h : s.now < e.expires) : (s.put k (some e)).look k = some e := by
  simp [look, put, h]

@[simp] theorem look_put_none (s : Ephemeral K V) (k : K) : (s.put k none).look k = none := by
  simp [look, put]

theorem look_put_ne (h : k' ≠ k) (e : Option (Entry V)) : (s.put k e).look k' = s.look k' := by
  have hk : (s.put k e).entries k' = s.entries k' := Function.update_of_ne h _ _
  unfold look
  rw [hk, put_now]

/-- Nothing appears by itself: what is there was there before, for no longer than it
is now. -/
theorem look_change {v : StoreEnv K} (h : (s.change v).look k = some e) :
    ∃ e', s.look k = some e' ∧ e'.val = e.val ∧ e'.expires ≤ e.expires := by
  cases v with
  | tick n => exact ⟨e, look_tick_some h, rfl, le_refl _⟩
  | evict k' =>
    change (s.put k' none).look k = some e at h
    by_cases hk : k = k'
    · subst hk
      rw [look_put_none] at h
      cases h
    · rw [look_put_ne hk] at h
      exact ⟨e, h, rfl, le_refl _⟩
  | linger k' n =>
    unfold change at h
    dsimp only at h
    split at h
    · exact ⟨e, h, rfl, le_refl _⟩
    · next e₁ h1 =>
      have hlive := live_of_look h1
      by_cases hk : k = k'
      · subst hk
        rw [look_put_self (by dsimp only; omega)] at h
        cases h
        exact ⟨e₁, h1, rfl, Nat.le_add_right _ _⟩
      · rw [look_put_ne hk] at h
        exact ⟨e, h, rfl, le_refl _⟩

theorem look_change_none {v : StoreEnv K} (h : s.look k = none) : (s.change v).look k = none := by
  rw [Option.eq_none_iff_forall_ne_some]
  intro e he
  obtain ⟨e', he', -⟩ := look_change he
  rw [h] at he'
  cases he'

/-- Only its own lingering prolongs an entry. -/
theorem look_change_of {v : StoreEnv K} (hv : ∀ n, v ≠ .linger k n)
    (h : (s.change v).look k = some e) :
    s.look k = some e := by
  cases v with
  | tick n => exact look_tick_some h
  | evict k' =>
    change (s.put k' none).look k = some e at h
    by_cases hk : k = k'
    · subst hk
      rw [look_put_none] at h
      cases h
    · rwa [look_put_ne hk] at h
  | linger k' n =>
    have hk : k ≠ k' := fun he => hv n (by rw [he])
    unfold change at h
    dsimp only at h
    split at h
    · exact h
    · rwa [look_put_ne hk] at h

/-- An entry that is not lost early is there until its time is over. -/
theorem look_change_live {v : StoreEnv K} (hv : v ≠ .evict k) (h : s.look k = some e)
    (hn : (s.change v).now < e.expires) :
    ∃ e', (s.change v).look k = some e' ∧ e'.val = e.val ∧ e.expires ≤ e'.expires := by
  cases v with
  | tick n =>
    change (s.tick n).now < _ at hn
    rw [tick_now] at hn
    refine ⟨e, ?_, rfl, le_refl _⟩
    change (s.tick n).look k = some e
    rw [look_tick, h]
    simp [Option.filter, hn]
  | evict k' =>
    have hk : k ≠ k' := fun he => hv (by rw [he])
    refine ⟨e, ?_, rfl, le_refl _⟩
    change (s.put k' none).look k = some e
    rw [look_put_ne hk, h]
  | linger k' n =>
    unfold change
    dsimp only
    split
    · exact ⟨e, h, rfl, le_refl _⟩
    · next e₁ h1 =>
      -- lingering only ever puts the expiry off
      have hlive := live_of_look h1
      by_cases hk : k = k'
      · subst hk
        rw [h] at h1
        cases h1
        exact ⟨_, look_put_self (by dsimp only; omega), rfl, Nat.le_add_right _ _⟩
      · exact ⟨e, by rw [look_put_ne hk, h], rfl, le_refl _⟩

theorem now_le_change (s : Ephemeral K V) (v : StoreEnv K) : s.now ≤ (s.change v).now := by
  cases v with
  | tick n => exact Nat.le_add_right _ _
  | evict k => exact le_refl _
  | linger k n =>
    unfold change
    dsimp only
    split <;> exact le_refl _

/-! ## Commands -/

section commands
variable {c : StoreCmd K V}

theorem incr_now (s : Ephemeral K V) (k : K) (ttl : ℕ) : (s.incr k ttl).2.now = s.now := by
  unfold incr
  split <;> rfl

theorem incr_other (s : Ephemeral K V) {k k' : K} (h : k' ≠ k) (ttl : ℕ) :
    (s.incr k ttl).2.look k' = s.look k' := by
  unfold incr
  split
  · exact look_put_ne h _
  · exact look_put_ne h _
  · rfl

theorem exec_now (s : Ephemeral K V) (c : StoreCmd K V) (n : ℕ) : (s.exec c n).2.now = s.now := by
  have hrun : (s.run c).2.now = s.now := by
    cases c with
    | incrWithTtl k ttl => exact incr_now s k ttl
    | _ => rfl
  unfold exec
  split
  · rfl
  · exact hrun
  · exact hrun

/-- A command leaves the other keys alone. -/
theorem exec_other (s : Ephemeral K V) (h : k ≠ c.key) (n : ℕ) :
    (s.exec c n).2.look k = s.look k := by
  have hrun : (s.run c).2.look k = s.look k := by
    cases c with
    | incrWithTtl k' ttl => exact incr_other s h ttl
    | get k' => rfl
    | setEx k' v ttl => exact look_put_ne h _
    | del k' => exact look_put_ne h _
    | getdel k' => exact look_put_ne h _
  unfold exec
  split
  · rfl
  · exact hrun
  · exact hrun

theorem value_change {v : StoreEnv K} {a : Val V} (h : (s.change v).value k = some a) :
    s.value k = some a := by
  obtain ⟨e, he, rfl⟩ := value_eq_some.1 h
  obtain ⟨e', he', hval, -⟩ := look_change he
  exact value_eq_some.2 ⟨e', he', hval⟩

theorem value_put {a : Val V} (h : (s.put k' (some e)).value k = some a) : k = k' ∧ a = e.val ∨
    s.value k = some a := by
  obtain ⟨e', he', rfl⟩ := value_eq_some.1 h
  by_cases hk : k = k'
  · subst hk
    obtain ⟨h1, -⟩ := look_eq_some.1 he'
    have h2 : Function.update s.entries k (some e) k = some e' := h1
    rw [Function.update_self] at h2
    cases h2
    exact .inl ⟨rfl, rfl⟩
  · rw [look_put_ne hk] at he'
    exact .inr (value_eq_some.2 ⟨e', he', rfl⟩)

theorem look_of_put_none (h : (s.put k' none).look k = some e) : s.look k = some e := by
  by_cases hk : k = k'
  · subst hk
    rw [look_put_none] at h
    cases h
  · rwa [look_put_ne hk] at h

theorem value_put_none {a : Val V} (h : (s.put k' none).value k = some a) : s.value k = some a := by
  obtain ⟨e', he', rfl⟩ := value_eq_some.1 h
  exact value_eq_some.2 ⟨e', look_of_put_none he', rfl⟩

/-- A command that does not fail. -/
theorem exec_ok (s : Ephemeral K V) (c : StoreCmd K V) (h1 : n ≠ 1) (h2 : n ≠ 2) :
    s.exec c n = s.run c := by
  unfold exec
  split
  · exact absurd rfl h1
  · exact absurd rfl h2
  · rfl

theorem exec_get (s : Ephemeral K V) (k : K) (n : ℕ) :
    (s.exec (.get k) n).2 = s ∧ ∀ a, (s.exec (.get k) n).1 = .ok a → a = s.value k := by
  unfold exec
  split
  · exact ⟨rfl, fun a h => by cases h⟩
  · exact ⟨rfl, fun a h => by cases h⟩
  · exact ⟨rfl, fun a h => by cases h; rfl⟩

theorem exec_del (s : Ephemeral K V) (k : K) (n : ℕ) :
    ((s.exec (.del k) n).2 = s ∧ (s.exec (.del k) n).1 = .error .unavailable) ∨
    (s.exec (.del k) n).2 = s.put k none := by
  unfold exec
  split
  · exact .inl ⟨rfl, rfl⟩
  · exact .inr rfl
  · exact .inr rfl

/-- The value is taken away with the answer: nobody else gets it. -/
theorem exec_getdel (s : Ephemeral K V) (k : K) (n : ℕ) :
    ((s.exec (.getdel k) n).2 = s ∧ (s.exec (.getdel k) n).1 = .error .unavailable) ∨
      ((s.exec (.getdel k) n).2 = s.put k none ∧ ∀ a, (s.exec (.getdel k) n).1 = .ok a →
        a = s.value k) := by
  unfold exec
  split
  · exact .inl ⟨rfl, rfl⟩
  · exact .inr ⟨rfl, fun a h => by cases h⟩
  · exact .inr ⟨rfl, fun a h => by cases h; rfl⟩

/-- What INCR leaves behind and answers: the counter one higher, alive at least as long
as before; a new one for `ttl` seconds. -/
structure Counted (s : Ephemeral K V) (k : K) (ttl : ℕ) (r : Except StoreError ℤ)
    (s' : Ephemeral K V) (expires : ℕ) : Prop where
  state : s' = s.put k (some ⟨.count (s.counter k + 1), expires⟩)
  answer : ∀ a, r = .ok a → a = s.counter k + 1
  lifetime : expires = s.now + ttl ∨ ∃ e, s.look k = some e ∧ expires = e.expires
  fresh : s.look k = none → expires = s.now + ttl

/-- INCR fails and does nothing, or counts. -/
theorem incr_cases (s : Ephemeral K V) (k : K) (ttl : ℕ) :
    ((s.incr k ttl).2 = s ∧ ∃ x, (s.incr k ttl).1 = .error x) ∨
      ∃ expires, Counted s k ttl (s.incr k ttl).1 (s.incr k ttl).2 expires := by
  -- a key that has run out counts from zero, with a new expiry
  cases h : s.look k with
  | none =>
    have hi : s.incr k ttl = (.ok 1, s.put k (some ⟨.count 1, s.now + ttl⟩)) := by
      simp only [incr, h]
    have h0 := counter_none h
    rw [hi]
    refine .inr ⟨s.now + ttl, by rw [h0]; rfl, fun a ha => ?_, .inl rfl, fun _ => rfl⟩
    cases ha
    omega
  | some e =>
    obtain ⟨v, expires⟩ := e
    cases v with
    | text v =>
      have hi : s.incr k ttl = (.error .notInteger, s) := by simp only [incr, h]
      rw [hi]
      exact .inl ⟨rfl, .notInteger, rfl⟩
    | count m =>
      have hi : s.incr k ttl = (.ok (m + 1),
          s.put k (some ⟨.count (m + 1), if m + 1 = 1 then s.now + ttl else expires⟩)) := by
        simp only [incr, h]
      have hm := counter_eq h
      rw [hi]
      refine .inr ⟨if m + 1 = 1 then s.now + ttl else expires, by rw [hm], fun a ha => ?_, ?_,
        fun hn => ?_⟩
      · cases ha
        omega
      · split
        · exact .inl rfl
        · exact .inr ⟨_, h, rfl⟩
      · rw [h] at hn
        cases hn

/-- INCR of anything but a text counts. -/
theorem incr_counts (h : ∀ v, s.value k ≠ some (.text v)) (ttl : ℕ) :
    ∃ expires, Counted s k ttl (s.incr k ttl).1 (s.incr k ttl).2 expires := by
  rcases incr_cases s k ttl with ⟨-, x, hx⟩ | hc
  · exfalso
    unfold incr at hx
    split at hx
    · cases hx
    · cases hx
    · next v expires hl => exact h v (value_eq_some.2 ⟨_, hl, rfl⟩)
  · exact hc

/-- The counter after it. -/
theorem Counted.look {r : Except StoreError ℤ} {expires : ℕ} (h : Counted s k ttl r s' expires)
    (hpos : 0 < ttl) :
    s'.look k = some ⟨.count (s.counter k + 1), expires⟩ := by
  have hlater : s.now < expires := by
    rcases h.lifetime with rfl | ⟨e, he, rfl⟩
    · exact Nat.lt_add_of_pos_right hpos
    · exact live_of_look he
  rw [h.state]
  exact look_put_self hlater

theorem exec_incr (s : Ephemeral K V) (k : K) (ttl n : ℕ) :
    ((s.exec (.incrWithTtl k ttl) n).2 = s ∧ ∃ x, (s.exec (.incrWithTtl k ttl) n).1 = .error x) ∨
      ∃ expires, Counted s k ttl (s.exec (.incrWithTtl k ttl) n).1
        (s.exec (.incrWithTtl k ttl) n).2 expires := by
  unfold exec
  split
  · exact .inl ⟨rfl, .unavailable, rfl⟩
  · rcases incr_cases s k ttl with ⟨h1, -⟩ | ⟨expires, h⟩
    · exact .inl ⟨h1, .unavailable, rfl⟩
    · exact .inr ⟨expires, h.state, fun a ha => (nomatch ha), h.lifetime, h.fresh⟩
  · exact incr_cases s k ttl

/-- A deletion brings nothing. -/
theorem look_del (h : (s.exec (.del k') n).2.look k = some e) : s.look k = some e := by
  rcases exec_del s k' n with ⟨hs, -⟩ | hs
  · rwa [hs] at h
  · rw [hs] at h
    exact look_of_put_none h

theorem look_getdel (h : (s.exec (.getdel k') n).2.look k = some e) : s.look k = some e := by
  rcases exec_getdel s k' n with ⟨hs, -⟩ | ⟨hs, -⟩
  · rwa [hs] at h
  · rw [hs] at h
    exact look_of_put_none h

/-- **Where a value comes from**: it was there, or the command has put it there. -/
theorem value_exec {a : Val V} (h : (s.exec c n).2.value k = some a) :
    s.value k = some a ∨ (n ≠ 1 ∧ ∃ v ttl, c = .setEx k v ttl ∧ a = .text v) ∨
      ∃ m ttl, c = .incrWithTtl k ttl ∧ a = .count m := by
  -- a value is there before, or the command has set or counted it
  cases c with
  | incrWithTtl k' ttl =>
    rcases exec_incr s k' ttl n with ⟨hs, -⟩ | ⟨x, hc⟩
    · rw [hs] at h
      exact .inl h
    · rw [hc.state] at h
      rcases value_put h with ⟨rfl, he⟩ | h
      · exact .inr (.inr ⟨_, ttl, rfl, he⟩)
      · exact .inl h
  | get k' =>
    rw [(exec_get s k' n).1] at h
    exact .inl h
  | setEx k' v ttl =>
    by_cases h1 : n = 1
    · subst h1
      exact .inl h
    · have hs : (s.exec (.setEx k' v ttl) n).2 = s.put k' (some ⟨.text v, s.now + ttl⟩) := by
        unfold exec
        split
        · exact absurd rfl h1
        · rfl
        · rfl
      rw [hs] at h
      rcases value_put h with ⟨rfl, he⟩ | h
      · exact .inr (.inl ⟨h1, v, ttl, rfl, he⟩)
      · exact .inl h
  | del k' =>
    rcases exec_del s k' n with ⟨hs, -⟩ | hs
    · rw [hs] at h
      exact .inl h
    · rw [hs] at h
      exact .inl (value_put_none h)
  | getdel k' =>
    rcases exec_getdel s k' n with ⟨hs, -⟩ | ⟨hs, -⟩
    · rw [hs] at h
      exact .inl h
    · rw [hs] at h
      exact .inl (value_put_none h)

end commands

end Ephemeral

/-! ## A machine with such a store -/

/-- The commands of the store beside those of another machine. -/
inductive WithCmd (K V C : Type)
  | store (c : StoreCmd K V)
  | other (c : C)
deriving DecidableEq

/-- The store beside another machine. -/
@[reducible] def Machine.withStore (K V : Type) [DecidableEq K] (M : Machine) : Machine where
  State := Ephemeral K V × M.State
  Cmd := WithCmd K V M.Cmd
  Reply
    | .store c => Except StoreError c.Answer
    | .other c => M.Reply c
  Env := StoreEnv K ⊕ M.Env
  exec t c n x :=
    match c with
    | .store c => some ((x.1.exec c n).1, ((x.1.exec c n).2, x.2))
    | .other c => (M.exec t c n x.2).map fun r => (r.1, (x.1, r.2))
  env
    | .inl v, x => (x.1.change v, x.2)
    | .inr v, x => (x.1, M.env v x.2)

section
variable {K V : Type} [DecidableEq K] {M : Machine} {t n : ℕ} {x y : (M.withStore K V).State}

theorem Machine.exec_store {c : StoreCmd K V} {r : Except StoreError c.Answer}
    (h : (M.withStore K V).exec t (WithCmd.store c) n x = some (r, y)) :
    r = (x.1.exec c n).1 ∧ y.1 = (x.1.exec c n).2 ∧ y.2 = x.2 := by
  cases h
  exact ⟨rfl, rfl, rfl⟩

/-- The other machine leaves the store alone. -/
theorem Machine.exec_other {c : M.Cmd} {r : M.Reply c}
    (h : (M.withStore K V).exec t (WithCmd.other c) n x = some (r, y)) :
    y.1 = x.1 ∧ M.exec t c n x.2 = some (r, y.2) := by
  obtain ⟨⟨r', d⟩, hd, heq⟩ := Option.map_eq_some_iff.1 h
  cases heq
  exact ⟨rfl, hd⟩

end

namespace Code

variable {K V : Type} [DecidableEq K] {M : Machine} {E α : Type}

/-- A command of the store, its failure left to the caller. -/
def tryStore (c : StoreCmd K V) : Code (M.withStore K V) E (Except StoreError c.Answer) :=
  .call (WithCmd.store c) .ret

/-- A command of the store, whose failure ends the call. -/
def store (e : E) (c : StoreCmd K V) : Code (M.withStore K V) E c.Answer := do
  match ← tryStore c with
  | .ok a => return a
  | .error _ => throw e

/-- A command of the other machine. -/
def other (c : M.Cmd) : Code (M.withStore K V) E (M.Reply c) := .call (WithCmd.other c) .ret

variable {t n : ℕ} {x : (M.withStore K V).State} {e : E}

@[simp] theorem next_tryStore (c : StoreCmd K V) (f : Except StoreError c.Answer →
    Code (M.withStore K V) E α) :
    (tryStore c >>= f).next = some (WithCmd.store c) := rfl

@[simp] theorem next_store (c : StoreCmd K V) (f : c.Answer → Code (M.withStore K V) E α) :
    (store e c >>= f).next = some (WithCmd.store c) := rfl

@[simp] theorem next_other (c : M.Cmd) (f : M.Reply c → Code (M.withStore K V) E α) :
    (other c >>= f).next = some (WithCmd.other c) := rfl

end Code

end Conc
