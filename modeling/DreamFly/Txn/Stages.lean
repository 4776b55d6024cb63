import DreamFly.Txn.Sound

/-!
# Stages of a call

A call whose code is `p.handle ok err` runs `p` first.

* `step_own`: what an event is to one call.
* `reach_tracked`: a call followed from any state of a run on.
* `reach_stage`: a run in which such a call commits passes a state at which `p` has
  ended, and there the specification of `p` holds.
-/

namespace Txn

variable {S : Schema} {E A Q α β : Type}

theorem Prog.handle_handle {γ : Type} {ok : α → Prog S E β} {err : E → Prog S E β}
    {ok' : β → Prog S E γ}
    {err' : E → Prog S E γ} (p : Prog S E α) : (p.handle ok err).handle ok' err' =
      p.handle (fun a => (ok a).handle ok' err') fun e => (err e).handle ok' err' := by
  induction p with
  | ret a => rfl
  | fail e => rfl
  | view k ih => exact congrArg Prog.view (funext ih)
  | lock r m k ih => exact congrArg (Prog.lock r m) ih
  | fresh t key k ih => exact congrArg (Prog.fresh t key) (funext ih)
  | pick k ih => exact congrArg Prog.pick (funext ih)
  | write w k ih => exact congrArg (Prog.write w) ih
  | commit k ih => exact congrArg Prog.commit ih
  | rollback e k ih => exact congrArg (Prog.rollback e) ih

theorem Prog.handle_congr {ok ok' : α → Prog S E β} {err err' : E → Prog S E β} (p : Prog S E α)
    (hok : ∀ a, ok a = ok' a)
    (herr : ∀ e, err e = err' e) : p.handle ok err = p.handle ok' err' := by
  rw [funext hok, funext herr]

/-- No program is what is left of it after a commit. -/
theorem Prog.commit_ne (k : Prog S E α) : Prog.commit k ≠ k := by
  intro h
  have hs := congrArg sizeOf h
  simp only [Prog.commit.sizeOf_spec] at hs
  omega

variable {V : Service S E A Q} {D : Discipline S} {C : Contract V D} {ok : Sys S E A Q → Event Q →
  Sys S E A Q → Prop}
  {s s' : Sys S E A Q} {e : Event Q} {c : Call S E A Q} {t : ℕ}

/-- **What an event is to call `t`**: somebody else's, an operation of its own, or the
end of its connection. -/
theorem step_own (hs : s.OK C) (h : V.step e s = some s') (hc : s.call t = some c) :
    (s'.call t = some c ∧ D.rel c.held s.db s'.db) ∨
    (∃ n d' c', c.advance (s.busy t) n s.db = some (d', c') ∧ s' = s.set t c' d') ∨
    s' = s.set t (c.endTx (.fail V.crash) c.committed) s.db := by
  rcases step_cases h with ⟨u, q, rfl, hn, rfl⟩ | ⟨u, n, c₁, c', d', rfl, hu, ha, rfl⟩ |
      ⟨u, c₁, rfl, hu, -, rfl⟩
  · have hne : t ≠ u := fun he => by rw [he, hn] at hc; cases hc
    exact .inl ⟨by rw [Sys.call_set_ne _ hne, hc], D.refl _ _⟩
  · by_cases hne : t = u
    · subst hne
      rw [hc] at hu
      cases hu
      exact .inr (.inl ⟨n, d', c', ha, rfl⟩)
    · refine .inl ⟨by rw [Sys.call_set_ne _ hne, hc], ?_⟩
      -- another call's operation changes the store only by a commit
      rcases (advance_inv ha).2.2 with ⟨hd, -⟩ | ⟨_, _, _, _, _, hd, -⟩ | ⟨_, _, _, hd, -⟩ |
          ⟨_, _, hd, -⟩ | ⟨_, _, _, hd, -⟩
      · exact hd ▸ D.refl _ _
      · exact hd ▸ D.refl _ _
      · exact hd ▸ D.refl _ _
      · have hcov := D.rel_overlay (hs.compat t u c c₁ hc hu hne) (hs.covers u c₁ hu) s.db
        exact hd ▸ hcov
      · exact hd ▸ D.refl _ _
  · by_cases hne : t = u
    · subst hne
      rw [hc] at hu
      cases hu
      exact .inr (.inr rfl)
    · exact .inl ⟨by rw [Sys.call_set_ne _ hne, hc], D.refl _ _⟩

/-- A rely that every commit of another call respects is kept by every event. -/
theorem keeps_of_commit {K : Rely S} (h : V.step e s = some s')
    (hK : ∀ t c u c', CommitStep s t c s' → s.call u = some c' → u ≠ t → K.rel c'.held s.db s'.db) :
    Keeps K s s' := by
  intro u c' hu hu'
  rcases step_db h with hd | ⟨t, c, hcs⟩
  · rw [hd]; exact K.refl _ _
  · refine hK t c u c' hcs hu fun hut => ?_
    subst hut
    obtain ⟨hc, k, hk, rfl⟩ := hcs
    rw [hu] at hc
    rw [Sys.call_set_self] at hu'
    cases hc
    have hp : k = c'.prog := congrArg Call.prog (Option.some.inj hu')
    exact Prog.commit_ne k (hk.symm.trans hp.symm)

variable {R : Rely S} {O : Oblig S E} {Post : A → Pt S → Prop} {Err : E → Pt S → Prop}

/-- A call stays tracked along a run. -/
theorem reach_tracked (hOK : ∀ s₁, V.Reach ok s s₁ → s₁.OK C) (hR : ∀ L a b, D.rel L a b →
    R.rel L a b)
    (hcrash : ∀ σ, Err V.crash σ) (h : V.Reach ok s s') (hc : s.call t = some c)
    (htr : Tracked R O Post Err s.db c) :
    ∃ c', s'.call t = some c' ∧ Tracked R O Post Err s'.db c' := by
  induction h with
  | refl => exact ⟨c, hc, htr⟩
  | @tail s₁ s₂ hr hst ih =>
    obtain ⟨e, he, -⟩ := hst
    obtain ⟨c₁, hc₁, htr₁⟩ := ih
    rcases step_own (hOK _ hr) he hc₁ with ⟨hc₂, hrel⟩ | ⟨n, d', c', ha, rfl⟩ | rfl
    · exact ⟨c₁, hc₂, tracked_env htr₁ (hR _ _ _ hrel)⟩
    · exact ⟨c', Sys.call_set_self .., tracked_advance htr₁ ha⟩
    · exact ⟨_, Sys.call_set_self .., tracked_crash hcrash _⟩

/-- A call stays tracked along a run whose other calls respect what it relies on. -/
theorem reach_tracked_under {K : Rely S} (hOK : ∀ s₁, V.Reach ok s s₁ → s₁.OK C)
    (hcrash : ∀ σ, Err V.crash σ)
    (hK : ∀ s₁ c₁ u c₂ s₂ e, V.Reach ok s s₁ → s₁.call t = some c₁ → V.step e s₁ = some s₂ →
      ok s₁ e s₂ → CommitStep s₁ u c₂ s₂ →
      u ≠ t → K.rel c₁.held s₁.db s₂.db)
    (h : V.Reach ok s s') (hc : s.call t = some c)
    (htr : Tracked (D.toRely.and K) O Post Err s.db c) :
    ∃ c', s'.call t = some c' ∧ Tracked (D.toRely.and K) O Post Err s'.db c' := by
  induction h with
  | refl => exact ⟨c, hc, htr⟩
  | @tail s₁ s₂ hr hst ih =>
    obtain ⟨e, he, hok⟩ := hst
    obtain ⟨c₁, hc₁, htr₁⟩ := ih
    rcases step_own (hOK _ hr) he hc₁ with ⟨hc₂, hrel⟩ | ⟨n, d', c', ha, rfl⟩ | rfl
    · refine ⟨c₁, hc₂, tracked_env htr₁ ⟨hrel, ?_⟩⟩
      rcases step_db he with hd | ⟨u, c₂, hcs⟩
      · rw [hd]; exact K.refl _ _
      · refine hK s₁ c₁ u c₂ s₂ e hr hc₁ he hok hcs fun hut => ?_
        -- a call's own commit leaves another program behind
        subst hut
        obtain ⟨hc₃, k, hk, rfl⟩ := hcs
        rw [hc₁] at hc₃
        cases hc₃
        rw [Sys.call_set_self] at hc₂
        exact absurd (hk.symm.trans (congrArg Call.prog (Option.some.inj hc₂)).symm)
          (Prog.commit_ne k)
    · exact ⟨c', Sys.call_set_self .., tracked_advance htr₁ ha⟩
    · exact ⟨_, Sys.call_set_self .., tracked_crash hcrash _⟩

/-- **What holds where a call commits**, by a specification of the code it has left at
an earlier state of the run. -/
theorem reach_commit {c₁ : Call S E A Q} {k : Prog S E A} (hOK : ∀ s₁, V.Reach ok s s₁ → s₁.OK C)
    (hmore : ∀ L a b, D.more.rel L a b) (hcov : ∀ σ w, O.write σ w → D.Covers σ.held w)
    (hc : s.call t = some c)
    (hwp : ∀ d, D.rel c.held s.db d → wp D O (fun _ _ => True)
      (fun _ _ => True) c.prog (c.pt s.db d))
    (h : V.Reach ok s s') (hc₁ : s'.call t = some c₁) (hk : c₁.prog = .commit k) :
    ∃ start, O.commit (c₁.pt start s'.db) := by
  have htr : Tracked D.both O (fun _ _ => True) (fun _ _ => True) s.db c :=
    ⟨s.db, Rely.refl _ _ _, fun d hd =>
      wp_track hcov _ ⟨s.db, d, c.ws, c.held, c.committed⟩ ((hOK s .refl).covers t c hc)
        (hwp d hd.1)⟩
  obtain ⟨c', hc', htr'⟩ := reach_tracked (R := D.both) hOK (fun L a b hab => ⟨hab, hmore L a b⟩)
    (fun _ => trivial) h hc htr
  rw [hc₁] at hc'
  cases hc'
  obtain ⟨start, -, ho⟩ := htr'.commit hk
  exact ⟨start, ho⟩

/-! ## The front of a program -/

/-- The call, seen as one that runs `p` only. -/
def Call.front (c : Call S E A Q) (p : Prog S E β) : Call S E β Q :=
  ⟨c.req, p, c.ws, c.held, c.born, c.committed⟩

/-- An operation of `p.handle okk err` is one of `p`, as long as `p` has not ended. -/
theorem advance_front {p : Prog S E β} {okk : β → Prog S E A} {err : E → Prog S E A}
    {busy : Res S → Mode → Bool} {n : ℕ}
    {d d' : Store S} {c' : Call S E A Q} (hp : c.prog = p.handle okk err)
    (ha : c.advance busy n d = some (d', c')) :
    (∃ a, p = .ret a) ∨ (∃ x, p = .fail x) ∨
      ∃ p', c'.prog = p'.handle okk err ∧ (c.front p).advance busy n d =
        some (d', c'.front p') := by
  cases p with
  | ret a => exact .inl ⟨a, rfl⟩
  | fail x => exact .inr (.inl ⟨x, rfl⟩)
  | view k =>
    simp only [Call.advance, hp, Prog.handle] at ha
    cases ha
    exact .inr (.inr ⟨k (c.sees d), rfl, rfl⟩)
  | lock r m k =>
    simp only [Call.advance, hp, Prog.handle] at ha
    split at ha
    · cases ha
    next hb =>
      cases ha
      exact .inr (.inr ⟨k, rfl, if_neg hb⟩)
  | fresh t key k =>
    simp only [Call.advance, hp, Prog.handle] at ha
    split at ha
    · cases ha
    next hb =>
      cases ha
      exact .inr (.inr ⟨k n, rfl, if_neg hb⟩)
  | pick k =>
    simp only [Call.advance, hp, Prog.handle] at ha
    cases ha
    exact .inr (.inr ⟨k n, rfl, rfl⟩)
  | write w k =>
    simp only [Call.advance, hp, Prog.handle] at ha
    cases ha
    exact .inr (.inr ⟨k, rfl, rfl⟩)
  | commit k =>
    simp only [Call.advance, hp, Prog.handle] at ha
    cases ha
    exact .inr (.inr ⟨k, rfl, rfl⟩)
  | rollback x k =>
    simp only [Call.advance, hp, Prog.handle] at ha
    cases ha
    exact .inr (.inr ⟨k, rfl, rfl⟩)

/-- **A call runs the front of its program first.** If the front commits nothing, the
call has come to its end, with what is specified of it, before it commits. -/
theorem reach_stage {p : Prog S E β} {okk : β → Prog S E A} {err : E → Prog S E A}
    {Mid : β → Pt S → Prop}
    {Out : E → Pt S → Prop} (hOK : ∀ s₁, V.Reach ok s s₁ → s₁.OK C) (hR : ∀ L a b, D.rel L a b →
      R.rel L a b)
    (hO : ∀ σ, ¬ O.commit σ) (h : V.Reach ok s s') (hc : s.call t = some c)
    (hp : c.prog = p.handle okk err)
    (hcom : c.committed = false) (htr : Tracked R O Mid Out s.db (c.front p)) :
    (∃ s₁ c₁, V.Reach ok s s₁ ∧ V.Reach ok s₁ s' ∧ s₁.call t = some c₁ ∧ c₁.committed = false ∧
      ((∃ b, c₁.prog = okk b ∧ Tracked R O Mid Out s₁.db (c₁.front (.ret b))) ∨
        ∃ x, c₁.prog = err x)) ∨
    ∃ c', s'.call t = some c' ∧ c'.committed = false ∧ c'.prog.isCommit = false := by
  -- at every state: past the end of `p`, still inside it, or without a connection
  suffices H : (∃ s₁ c₁, V.Reach ok s s₁ ∧ V.Reach ok s₁ s' ∧ s₁.call t = some c₁ ∧
      c₁.committed = false ∧
      ((∃ b, c₁.prog = okk b ∧ Tracked R O Mid Out s₁.db (c₁.front (.ret b))) ∨
        ∃ x, c₁.prog = err x)) ∨
      (∃ c' p', s'.call t = some c' ∧ c'.committed = false ∧ c'.prog = p'.handle okk err ∧
        Tracked R O Mid Out s'.db (c'.front p')) ∨
      ∃ c', s'.call t = some c' ∧ c'.committed = false ∧ c'.prog = .fail V.crash by
    rcases H with h1 | ⟨c', p', hc', hcom', hp', htr'⟩ | ⟨c', hc', hcom', hp'⟩
    · exact .inl h1
    · cases p' with
      | ret b => exact .inl ⟨s', c', h, .refl, hc', hcom', .inl ⟨b, hp', htr'⟩⟩
      | fail x => exact .inl ⟨s', c', h, .refl, hc', hcom', .inr ⟨x, hp'⟩⟩
      | commit k =>
        obtain ⟨_, -, ho⟩ := htr'.commit rfl
        exact absurd ho (hO _)
      | _ => exact .inr ⟨c', hc', hcom', by rw [hp']; rfl⟩
    · exact .inr ⟨c', hc', hcom', by rw [hp']; rfl⟩
  induction h with
  | refl => exact .inr (.inl ⟨c, p, hc, hcom, hp, htr⟩)
  | @tail s₂ s₃ hr hst ih =>
    have hlast : V.Reach ok s₂ s₃ := .single hst
    obtain ⟨e, he, -⟩ := hst
    rcases ih with ⟨s₁, c₁, h1, h2, h3⟩ | ⟨c', p', hc', hcom', hp', htr'⟩ | ⟨c', hc', hcom', hp'⟩
    · exact .inl ⟨s₁, c₁, h1, h2.trans hlast, h3⟩
    · rcases step_own (hOK _ hr) he hc' with ⟨hc₂, hrel⟩ | ⟨n, d', c₂, ha, rfl⟩ | rfl
      · exact .inr (.inl ⟨c', p', hc₂, hcom', hp', tracked_env htr' (hR _ _ _ hrel)⟩)
      · rcases advance_front hp' ha with ⟨b, rfl⟩ | ⟨x, rfl⟩ | ⟨p₂, hp₂, ha₂⟩
        · exact .inl ⟨s₂, c', hr, hlast, hc', hcom', .inl ⟨b, hp', htr'⟩⟩
        · exact .inl ⟨s₂, c', hr, hlast, hc', hcom', .inr ⟨x, hp'⟩⟩
        · refine .inr (.inl ⟨c₂, p₂, Sys.call_set_self .., ?_, hp₂, tracked_advance htr' ha₂⟩)
          rcases (advance_inv ha₂).2.2 with ⟨-, -, -, h⟩ | ⟨_, _, _, _, _, -, -, -, h⟩ |
              ⟨_, _, _, -, -, -, h⟩ | ⟨k, hk, -⟩ |
            ⟨_, _, _, -, h⟩
          · exact h.trans hcom'
          · exact h.trans hcom'
          · exact h.trans hcom'
          · obtain ⟨_, -, ho⟩ := htr'.commit hk
            exact absurd ho (hO _)
          · exact (congrArg Call.committed h).trans hcom'
      · exact .inr (.inr ⟨_, Sys.call_set_self .., hcom', rfl⟩)
    · rcases step_own (hOK _ hr) he hc' with ⟨hc₂, -⟩ | ⟨n, d', c₂, ha, rfl⟩ | rfl
      · exact .inr (.inr ⟨c', hc₂, hcom', hp'⟩)
      · simp only [Call.advance, hp'] at ha
        cases ha
      · exact .inr (.inr ⟨_, Sys.call_set_self .., hcom', rfl⟩)

/-- A call after an event has just begun, or was there before. -/
theorem call_before {c' : Call S E A Q} (h : V.step e s = some s') (hc : s'.call t = some c') :
    c' = V.fresh c'.req s'.db ∨ ∃ c, s.call t = some c ∧ c'.req = c.req ∧ c'.born = c.born := by
  rcases step_cases h with ⟨u, q, rfl, -, rfl⟩ | ⟨u, n, c₁, c₂, d', rfl, hu, ha, rfl⟩ |
      ⟨u, c₁, rfl, hu, -, rfl⟩
  all_goals
    rw [Sys.call_set] at hc
    split at hc
  next => cases hc; exact .inl rfl
  · exact .inr ⟨c', hc, rfl, rfl⟩
  next htu => cases hc; exact .inr ⟨c₁, htu ▸ hu, (advance_inv ha).1, (advance_inv ha).2.1⟩
  · exact .inr ⟨c', hc, rfl, rfl⟩
  next htu => cases hc; exact .inr ⟨c₁, htu ▸ hu, rfl, rfl⟩
  · exact .inr ⟨c', hc, rfl, rfl⟩

/-- A call of a run began in it. -/
theorem reach_start {d : Store S} (h : V.Reach ok (Sys.init d) s) (hc : s.call t = some c) :
    ∃ s₀, V.Reach ok (Sys.init d) s₀ ∧ V.Reach ok s₀ s ∧
      s₀.call t = some (V.fresh c.req s₀.db) := by
  induction h generalizing c with
  | refl => rw [Sys.call_init] at hc; cases hc
  | @tail s₁ s₂ hr hst ih =>
    have hlast : V.Reach ok s₁ s₂ := .single hst
    have hall := hr.trans hlast
    obtain ⟨e, he, -⟩ := hst
    rcases call_before he hc with hfresh | ⟨c₁, hc₁, hreq, -⟩
    · exact ⟨s₂, hall, .refl, by rw [hc]; exact congrArg some hfresh⟩
    · obtain ⟨s₀, h1, h2, h3⟩ := ih hc₁
      exact ⟨s₀, h1, h2.trans hlast, hreq ▸ h3⟩

/-- **Before its first commit a call has come to the end of the front of its program**,
or has left it with an error. -/
theorem reach_front {d : Store S} {p : Prog S E β} {okk : β → Prog S E A} {err : E → Prog S E A}
    {M : β → Pt S → Prop}
    {N : E → Pt S → Prop} (hOK : ∀ s₁, V.Reach ok (Sys.init d) s₁ → s₁.OK C)
    (hmore : ∀ L a b, D.more.rel L a b)
    (hcov : ∀ σ w, O.write σ w → D.Covers σ.held w) (hO : ∀ σ, ¬ O.commit σ)
    (hwp : ∀ d d', D.rel [] d d' → wp D O M N p (.begin d d' false)) (h : V.Reach ok (Sys.init d) s)
    (hc : s.call t = some c) (hp : V.prog c.req = p.handle okk err)
    (hcommit : c.prog.isCommit = true) :
    ∃ s₁ c₁, V.Reach ok (Sys.init d) s₁ ∧ V.Reach ok s₁ s ∧ s₁.call t = some c₁ ∧
      c₁.committed = false ∧ c₁.req = c.req ∧
      ((∃ b, c₁.prog = okk b ∧ Tracked D.both O M N s₁.db (c₁.front (.ret b))) ∨
        ∃ x, c₁.prog = err x) := by
  obtain ⟨s₀, h1, h2, h3⟩ := reach_start h hc
  have htr : Tracked D.both O M N s₀.db ((V.fresh c.req s₀.db).front p) :=
    ⟨s₀.db, Rely.refl _ _ _, fun d' hd => wp_track hcov _ ⟨s₀.db, d', [], [], false⟩ (by simp)
      (hwp _ _ hd.1)⟩
  rcases reach_stage (R := D.both) (fun s₁ hs₁ => hOK s₁ (h1.trans hs₁))
    (fun L a b hab => ⟨hab, hmore L a b⟩) hO h2 h3 hp rfl htr with
    ⟨s₁, c₁, h4, h5, h6, h7, h8⟩ | ⟨c', hc', -, hn⟩
  · obtain ⟨c₂, hc₂, hreq, -⟩ := reach_call h5 h6
    rw [hc] at hc₂
    cases hc₂
    exact ⟨s₁, c₁, h1.trans h4, h5, h6, h7, hreq.symm, h8⟩
  · rw [hc] at hc'
    cases hc'
    rw [hcommit] at hn
    cases hn

end Txn
