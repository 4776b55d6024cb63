import DreamFly.Shop.Clock
import Mathlib.Algebra.Order.Ring.Int

/-!
# The stages of a session, proved

* `derive_before`, `derive_after`, `derive_unresolved`: what a session's stage is, by which
  of its two times name an instant.
* `session_status`: the stage moves only forward, and the two guards go by it.
-/

namespace DreamFly

open SessionStatus

variable {z : Zone} {date start stop time : ℤ} {s e t t₁ t₂ : Instant} {noun : String}
  {err : AppError}

/-! ## Dates and instants -/

/-- The instant of a local time shows its date. -/
theorem Zone.today_toUtc (h : z.toUtc date time = some t) : z.today t = date := by
  have hwall : z.withTimezone t = (date, time) := ((z.toUtc_eq_some date time t).1 h t).2 rfl
  rw [Zone.today, hwall]

theorem Zone.today_mono (h : t₁ ≤ t₂) : z.today t₁ ≤ z.today t₂ := z.date_mono t₁ t₂ h

/-- From its instant on, a local time's date is not ahead. -/
theorem Zone.date_le_today (h : z.toUtc date time = some t₁) (ht : t₁ ≤ t₂) :
    date ≤ z.today t₂ := by
  rw [← z.today_toUtc h]
  exact z.today_mono ht

/-! ## The stage -/

/-- Before its start a session is upcoming. -/
theorem derive_before (hs : z.toUtc date start = some s) (ht : t < s) :
    derive z t date start stop = .upcoming := by
  have hstarted : hasStarted z.toUtc t date start = some false := by
    rw [hasStarted, hs]
    simpa using ht
  unfold derive
  rw [hstarted]

/-- After its start it is under way up to its end, or to the end of the day where its end
names no instant. -/
theorem derive_after (hs : z.toUtc date start = some s) (ht : s ≤ t) : derive z t date start stop =
    match z.toUtc date stop with
    | some e => if e ≤ t then .done else .ongoing
    | none => if date < z.today t then .done else .ongoing := by
  have hstarted : hasStarted z.toUtc t date start = some true := by
    rw [hasStarted, hs]
    simpa using ht
  have hdate : ¬ date > z.today t := not_lt.2 (z.date_le_today hs ht)
  unfold derive hasEnded
  rw [hstarted]
  cases z.toUtc date stop with
  | none =>
    simp only [Option.map_none]
    rw [if_neg hdate]
    rfl
  | some e =>
    simp only [Option.map_some]
    by_cases he : e ≤ t
    · simp [he]
    · simp [he]

/-- Where its start names no instant it is upcoming up to the end of the day. -/
theorem derive_unresolved (hs : z.toUtc date start = none) : derive z t date start stop =
    if date < z.today t then .done else .upcoming := by
  have hstarted : hasStarted z.toUtc t date start = none := by
    rw [hasStarted, hs]
    rfl
  unfold derive
  rw [hstarted]
  simp

/-- **The stage moves only forward.** -/
theorem derive_mono (h : t₁ ≤ t₂) : derive z t₁ date start stop ≤ derive z t₂ date start stop := by
  have hday : z.today t₁ ≤ z.today t₂ := z.today_mono h
  show (derive z t₁ date start stop).stage ≤ (derive z t₂ date start stop).stage
  cases hs : z.toUtc date start with
  | none =>
    rw [derive_unresolved hs, derive_unresolved hs]
    by_cases hd : date < z.today t₁
    · rw [if_pos hd, if_pos (lt_of_lt_of_le hd hday)]
    · rw [if_neg hd]
      exact Nat.zero_le _
  | some s =>
    by_cases hs₁ : t₁ < s
    · rw [derive_before hs hs₁]
      exact Nat.zero_le _
    · have hs₁ : s ≤ t₁ := not_lt.1 hs₁
      rw [derive_after hs hs₁, derive_after hs (hs₁.trans h)]
      -- past the start only the end is left to pass
      cases z.toUtc date stop with
      | none =>
        by_cases hd : date < z.today t₁
        · simp only [if_pos hd, if_pos (lt_of_lt_of_le hd hday), le_refl]
        · simp only [if_neg hd]
          split <;> decide
      | some e =>
        by_cases he : e ≤ t₁
        · simp only [if_pos he, if_pos (he.trans h), le_refl]
        · simp only [if_neg he]
          split <;> decide

theorem derive_upcoming_iff (hs : z.toUtc date start = some s) :
    derive z t date start stop = .upcoming ↔ t < s := by
  by_cases ht : t < s
  · simp [derive_before hs ht, ht]
  · rw [derive_after hs (not_lt.1 ht)]
    refine ⟨fun h => ?_, fun h => absurd h ht⟩
    split at h
    · split at h <;> cases h
    · split at h <;> cases h

theorem derive_done_iff (hs : z.toUtc date start = some s) (he : z.toUtc date stop = some e) :
    derive z t date start stop = .done ↔ max s e ≤ t := by
  rw [max_le_iff]
  by_cases ht : t < s
  · rw [derive_before hs ht]
    exact ⟨nofun, fun h => absurd h.1 (not_le.2 ht)⟩
  · rw [derive_after hs (not_lt.1 ht), he]
    by_cases het : e ≤ t
    · simp [het, not_lt.1 ht]
    · simp [het]

/-! ## The guards -/

theorem requireNotStarted_eq (hs : z.toUtc date start = some s) :
    requireNotStarted z.toUtc t date start noun err = if t < s then .ok () else .error err := by
  have hcheck : requireNotStarted z.toUtc t date start noun err = if s ≤ t then .error err else
      .ok () := by
    unfold requireNotStarted toUtcChecked
    rw [hs]
    rfl
  rw [hcheck]
  by_cases ht : t < s
  · rw [if_pos ht, if_neg (not_le.2 ht)]
  · rw [if_neg ht, if_pos (not_lt.1 ht)]

theorem requireStarted_eq (hs : z.toUtc date start = some s) :
    requireStarted z.toUtc t date start noun err = if t < s then .error err else .ok () := by
  unfold requireStarted toUtcChecked
  rw [hs]
  rfl

/-- **A session's stage** moves only forward, and the guards agree with it. -/
theorem session_status (z : Zone) (date start stop : ℤ) :
    (∀ t₁ t₂, t₁ ≤ t₂ → derive z t₁ date start stop ≤ derive z t₂ date start stop) ∧
    (∀ s e, z.toUtc date start = some s → z.toUtc date stop = some e → ∀ t,
      (derive z t date start stop = .upcoming ↔ t < s) ∧
      (derive z t date start stop = .done ↔ max s e ≤ t)) ∧
    (∀ s, z.toUtc date start = some s → ∀ t noun err,
      (requireNotStarted z.toUtc t date start noun err = .ok () ↔
        derive z t date start stop = .upcoming) ∧
      (requireStarted z.toUtc t date start noun err = .ok () ↔
        derive z t date start stop ≠ .upcoming)) ∧
    (z.toUtc date start = none → ∀ t noun err,
      requireNotStarted z.toUtc t date start noun err =
      .error (.badRequest (noun ++ " falls on an ambiguous local time")) ∧
      requireStarted z.toUtc t date start noun err =
      .error (.badRequest (noun ++ " falls on an ambiguous local time"))) := by
  refine ⟨fun t₁ t₂ h => derive_mono h, fun s e hs he t =>
    ⟨derive_upcoming_iff hs, derive_done_iff hs he⟩,
    fun s hs t noun err => ?_, fun hs t noun err => ?_⟩
  · rw [Ne, derive_upcoming_iff hs, requireNotStarted_eq hs, requireStarted_eq hs]
    by_cases ht : t < s
    · simp [ht]
    · simp [ht]
  · unfold requireNotStarted requireStarted toUtcChecked
    rw [hs]
    exact ⟨rfl, rfl⟩

/-! ## A zone with one clock change -/

section shift
variable (change before after : ℤ)

/-- Local seconds at an instant: shifted by `before` up to the instant `change` and by `after`
from it on. -/
def shift (t : ℤ) : ℤ := if t < change then t + before else t + after

/-- The one instant with these local seconds. -/
def unshift (l : ℤ) : Option ℤ :=
  if l - before < change then if change ≤ l - after then none else some (l - before)
  else if change ≤ l - after then some (l - after) else none

variable {change before after}

theorem unshift_eq_some {l t : ℤ} : unshift change before after l = some t ↔
    ∀ t', shift change before after t' = l ↔ t' = t := by
  unfold unshift shift
  constructor
  · intro h t'
    split_ifs at h <;> cases h <;> split <;> omega
  · intro h
    have ht := (h t).2 rfl
    have hbefore := h (l - before)
    have hafter := h (l - after)
    split_ifs at ht hbefore hafter ⊢ <;> first | exact congrArg some (by omega) | (exfalso; omega)

theorem day_eq {l date time : ℤ} : (l / 86400, l % 86400) = (date, time) ↔
    (0 ≤ time ∧ time < 86400) ∧ l = date * 86400 + time := by
  rw [Prod.mk.injEq]
  constructor
  · rintro ⟨rfl, rfl⟩
    omega
  · rintro ⟨h, rfl⟩
    omega

/-- The date does not go back if it does not at the change. -/
theorem shift_date_mono (h : (change - 1 + before) / 86400 ≤ (change + after) / 86400) {t t' : ℤ}
    (ht : t ≤ t') :
    shift change before after t / 86400 ≤ shift change before after t' / 86400 := by
  unfold shift
  split
  · split <;> omega
  · split <;> omega

end shift

/-- The zone of a shift. -/
def Zone.shifted (change before after : ℤ)
    (h : (change - 1 + before) / 86400 ≤ (change + after) / 86400) : Zone where
  withTimezone t := (shift change before after t / 86400, shift change before after t % 86400)
  toUtc date time := if 0 ≤ time ∧ time < 86400 then
    unshift change before after (date * 86400 + time) else none
  toUtc_eq_some date time t := by
    simp only [day_eq]
    split
    · next hday => simp only [hday, and_self, true_and, unshift_eq_some]
    · next hday =>
      simp only [hday, false_and, false_iff]
      exact ⟨nofun, fun ht => absurd rfl (ht t)⟩
  date_mono _ _ ht := shift_date_mono h ht

/-- America/New_York from November 2025 to November 2026: the clock goes from two to three
on 8 March, day 20520. -/
def newYork : Zone := .shifted 1772953200 (-18000) (-14400) (by decide)

/-- From one to half past two on that day, which never comes. -/
theorem session_status_spring :
    derive newYork 1772949600 20520 3600 9000 ≤ derive newYork 1772956800 20520 3600 9000 ∧
    (requireStarted newYork.toUtc 1772949600 20520 3600 "session time"
      (.validation "not started") = .ok () ↔
      derive newYork 1772949600 20520 3600 9000 ≠ .upcoming) ∧
    requireNotStarted newYork.toUtc 0 20520 9000 "session time" (.validation "started") =
      .error (.badRequest "session time falls on an ambiguous local time") := by
  obtain ⟨hmono, -, hguard, -⟩ := session_status newYork 20520 3600 9000
  obtain ⟨-, -, -, hgap⟩ := session_status newYork 20520 9000 10800
  exact ⟨hmono _ _ (by decide), (hguard 1772949600 (by decide) _ _ _).2, (hgap (by decide) _ _ _).1⟩

end DreamFly
