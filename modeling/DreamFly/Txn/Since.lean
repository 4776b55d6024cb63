import DreamFly.Txn.Sound

/-!
# Since a lock was taken

A row that a call has locked stays as it is until the lock is gone.

* `exists_since`: what holds at the end of a run and not at its start has come true at some
  step, and has held since.
* `held_since`: a call that holds a lock has taken it at some step, and the row is as it was
  at that step.
-/

namespace Txn

variable {S : Schema} {E A Q : Type} {V : Service S E A Q} {D : Discipline S} {C : Contract V D}
  {ok : Sys S E A Q → Event Q → Sys S E A Q → Prop} {s s' s₁ s₂ : Sys S E A Q} {e : Event Q}
    {t u : ℕ} {c : Call S E A Q}

/-- What holds at the end has come true at some step, and has held since. -/
theorem exists_since {P : Sys S E A Q → Prop} (h : V.Reach ok s s') (h0 : ¬ P s) (h1 : P s') :
    ∃ s₁ e s₂, V.Reach ok s s₁ ∧ V.step e s₁ = some s₂ ∧ ok s₁ e s₂ ∧ ¬ P s₁ ∧ P s₂ ∧
      V.Reach (fun a e b => ok a e b ∧ P b) s₂ s' := by
  induction h with
  | refl => exact absurd h1 h0
  | @tail a b hr hst ih =>
    obtain ⟨e, he, hok⟩ := hst
    by_cases ha : P a
    · obtain ⟨s₁, e₁, s₂, h2, h3, h4, h5, h6, h7⟩ := ih ha
      exact ⟨s₁, e₁, s₂, h2, h3, h4, h5, h6, h7.tail ⟨e, he, hok, h1⟩⟩
    · exact ⟨a, e, b, hr, he, hok, ha, h1, .refl⟩

/-- Call `t` holds a lock on `r`. -/
def HoldsAt (t : ℕ) (r : Res S) (m : Mode) (s : Sys S E A Q) : Prop := ∃ c, s.call t = some c ∧
    Holds c.held r m

variable {r : Res S} {m : Mode}

/-- After a commit its call holds nothing. -/
theorem CommitStep.not_holdsAt (h : CommitStep s t c s') : ¬ HoldsAt t r m s' := by
  obtain ⟨-, k, -, rfl⟩ := h
  rintro ⟨c', hc', m', hm, -⟩
  rw [Sys.call_set_self] at hc'
  cases hc'
  cases hm

/-- A commit leaves the other calls as they are. -/
theorem CommitStep.holdsAt_other (h : CommitStep s u c s') (hne : t ≠ u) (hh : HoldsAt t r m s') :
    HoldsAt t r m s := by
  obtain ⟨-, k, -, rfl⟩ := h
  obtain ⟨c', hc', hh⟩ := hh
  rw [Sys.call_set, if_neg hne] at hc'
  exact ⟨c', hc', hh⟩

/-- The step that takes a lock commits nothing. -/
theorem db_of_taken (h : V.step e s₁ = some s₂) (h1 : ¬ HoldsAt t r m s₁) (h2 : HoldsAt t r m s₂) :
    s₂.db = s₁.db := by
  rcases step_db h with hd | ⟨u, c, hcs⟩
  · exact hd
  · by_cases hu : t = u
    · subst hu
      exact absurd h2 hcs.not_holdsAt
    · exact absurd (hcs.holdsAt_other hu h2) h1

variable {tb : S.Tbl} {k : S.Key tb}

/-- A locked row stays as it is while the lock is held. -/
theorem same_while (hOK : ∀ b, V.Reach ok s b → b.OK C) (h0 : HoldsAt t (.row tb k) .share s)
    (h : V.Reach (fun a e b => ok a e b ∧ HoldsAt t (.row tb k) .share b) s s') : s'.db.get tb k =
    s.db.get tb k := by
  have hkeep : HoldsAt t (.row tb k) .share s' ∧ s'.db.get tb k = s.db.get tb k := by
    induction h with
    | refl => exact ⟨h0, rfl⟩
    | @tail a b hr hst ih =>
      obtain ⟨e, he, -, hb⟩ := hst
      refine ⟨hb, ?_⟩
      rcases step_db he with hd | ⟨u, c, hcs⟩
      · rw [hd]
        exact ih.2
      · have hu : t ≠ u := fun h => hcs.not_holdsAt (h ▸ hb)
        obtain ⟨⟨c', hc', hh⟩, hsame⟩ := ih
        have hrel := (hOK a (Service.Reach.mono (fun _ _ _ h => h.1) hr)).rel_other hcs hc' hu
        rw [← D.same hrel tb k hh]
        exact hsame
  exact hkeep.2

/-- **A call that holds a lock has taken it at some step, and the row is as it was then.** -/
theorem held_since {d : Store S} (hOK : ∀ b, V.Reach ok (Sys.init d) b → b.OK C)
    (h : V.Reach ok (Sys.init d) s)
    (hh : HoldsAt t (.row tb k) .share s) :
    ∃ s₁ e s₂, V.Reach ok (Sys.init d) s₁ ∧ V.step e s₁ = some s₂ ∧
      ¬ HoldsAt t (.row tb k) .share s₁ ∧
      V.Reach (fun a e b => ok a e b ∧ HoldsAt t (.row tb k) .share b) s₂ s ∧
      s.db.get tb k = s₁.db.get tb k := by
  have hinit : ¬ HoldsAt t (.row tb k) .share (Sys.init d : Sys S E A Q) := by
    rintro ⟨c, hc, -⟩
    rw [Sys.call_init] at hc
    cases hc
  obtain ⟨s₁, e, s₂, h1, h2, hok, h3, h4, h5⟩ := exists_since h hinit hh
  refine ⟨s₁, e, s₂, h1, h2, h3, h5, ?_⟩
  have hstep : V.Reach ok s₁ s₂ := .single ⟨e, h2, hok⟩
  rw [← db_of_taken h2 h3 h4]
  exact same_while (fun b hb => hOK b ((h1.trans hstep).trans hb)) h4 h5

end Txn
