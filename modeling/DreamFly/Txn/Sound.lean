import DreamFly.Txn.Logic

/-!
# From programs to runs

A service whose every request meets its contract keeps it in every reachable
state, whatever the interleaving.

* `Sys.OK`: what holds of a system of such calls; `reach_ok`: in every reachable
  state.
* `step_db`: only a commit changes the committed store.
* `reach_inv`: a property of the committed store that every commit keeps.
* `acyclic_of_lt`: a waits-for graph whose edges go up has no cycle; `Sys.OK.waits`:
  what the contract says of a waiting call.
-/

namespace Txn

variable {S : Schema} {E A Q : Type}

/-! ## One event -/

theorem Sys.call_set (s : Sys S E A Q) (t u : ℕ) (c : Call S E A Q) (d : Store S) :
    (s.set t c d).call u = if u = t then some c else s.call u := by
  unfold Sys.call Sys.set
  split
  · next h => subst h; exact AList.lookup_insert _
  · next h => exact AList.lookup_insert_ne h

theorem Sys.call_set_self (s : Sys S E A Q) (t : ℕ) (c : Call S E A Q) (d : Store S) :
    (s.set t c d).call t = some c := by
  rw [Sys.call_set, if_pos rfl]

theorem Sys.call_set_ne (s : Sys S E A Q) {t u : ℕ} (h : u ≠ t) (c : Call S E A Q) (d : Store S) :
    (s.set t c d).call u = s.call u := by
  rw [Sys.call_set, if_neg h]

theorem Sys.call_init (d : Store S) (t : ℕ) : (Sys.init d : Sys S E A Q).call t = none :=
  AList.lookup_empty t

theorem Sys.not_busy {s : Sys S E A Q} {t : ℕ} {r : Res S} {m : Mode} (h : s.busy t r m = false)
    {u : ℕ} {c : Call S E A Q} (hu : s.call u = some c) (hne : u ≠ t) {m' : Mode}
    (hm : (r, m') ∈ c.held) : m.conflicts m' = false := by
  simp only [Sys.busy, List.any_eq_false, Bool.and_eq_true, decide_eq_true_eq, not_and, ne_eq,
    Bool.not_eq_true] at h
  exact h (u, c) (Table.mem_rows.2 hu) hne (r, m') hm rfl

variable {V : Service S E A Q} {s s' : Sys S E A Q} {e : Event Q} {c c' : Call S E A Q}
  {d d' : Store S} {busy : Res S → Mode → Bool} {n : ℕ}

/-- What an operation does to the call and to the committed store. -/
theorem advance_inv (h : c.advance busy n d = some (d', c')) :
    c'.req = c.req ∧ c'.born = c.born ∧
    ((d' = d ∧ c'.ws = c.ws ∧ c'.held = c.held ∧ c'.committed = c.committed) ∨
     (∃ r m m', busy r m' = false ∧ m.level ≤ m'.level ∧ d' = d ∧ c'.ws = c.ws ∧
        c'.held = acquire c.held r m ∧ c'.committed = c.committed) ∨
     (∃ w k, c.prog = .write w k ∧ d' = d ∧ c'.ws = c.ws ++ [w] ∧ c'.held = c.held ∧
        c'.committed = c.committed) ∨
     (∃ k, c.prog = .commit k ∧ d' = c.sees d ∧ c' = c.endTx k true) ∨
     (∃ x k, c.prog = .rollback x k ∧ d' = d ∧ c' = c.endTx k c.committed)) := by
  unfold Call.advance at h
  split at h
  · cases h
  · cases h
  case h_3 => cases h; exact ⟨rfl, rfl, .inl ⟨rfl, rfl, rfl, rfl⟩⟩
  case h_4 r m k hk =>
    split at h
    · cases h
    next hb =>
      cases h
      by_cases hh : Holds c.held r m
      · rw [acquire_of_holds hh]; exact ⟨rfl, rfl, .inl ⟨rfl, rfl, rfl, rfl⟩⟩
      · exact ⟨rfl, rfl, .inr (.inl ⟨r, m, m, by simpa [hh] using hb, le_rfl, rfl, rfl, rfl, rfl⟩)⟩
  case h_5 t key k hk =>
    simp only at h
    split at h
    · cases h
    next hfree =>
      cases h
      simp only [Bool.or_eq_true, not_or, Bool.not_eq_true] at hfree
      exact ⟨rfl, rfl, .inr (.inl ⟨_, _, .update, hfree.1.2, by decide, rfl, rfl, rfl, rfl⟩)⟩
  case h_6 => cases h; exact ⟨rfl, rfl, .inl ⟨rfl, rfl, rfl, rfl⟩⟩
  case h_7 w k hk => cases h; exact ⟨rfl, rfl, .inr (.inr (.inl ⟨w, k, hk, rfl, rfl, rfl, rfl⟩))⟩
  case h_8 k hk => cases h; exact ⟨rfl, rfl, .inr (.inr (.inr (.inl ⟨k, hk, rfl, rfl⟩)))⟩
  case h_9 x k hk => cases h; exact ⟨rfl, rfl, .inr (.inr (.inr (.inr ⟨x, k, hk, rfl, rfl⟩)))⟩

/-- The three kinds of events. -/
theorem step_cases (h : V.step e s = some s') :
    (∃ t q, e = .start t q ∧ s.call t = none ∧ s' = s.set t (V.fresh q s.db) s.db) ∨
    (∃ t n c c' d', e = .step t n ∧ s.call t = some c ∧
      c.advance (s.busy t) n s.db = some (d', c') ∧ s' = s.set t c' d') ∨
    (∃ t c, e = .abort t ∧ s.call t = some c ∧ c.finished = false ∧
      s' = s.set t (c.endTx (.fail V.crash) c.committed) s.db) := by
  cases e with
  | start t q =>
    simp only [Service.step] at h
    split at h
    · cases h
    next hn => cases h; exact .inl ⟨t, q, rfl, hn, rfl⟩
  | step t n =>
    simp only [Service.step] at h
    split at h
    · cases h
    next c hc =>
      obtain ⟨⟨d', c'⟩, ha, rfl⟩ := Option.map_eq_some_iff.1 h
      exact .inr (.inl ⟨t, n, c, c', d', rfl, hc, ha, rfl⟩)
  | abort t =>
    simp only [Service.step] at h
    split at h
    · cases h
    next c hc =>
      split at h
      · cases h
      next hf => cases h; exact .inr (.inr ⟨t, c, rfl, hc, by simpa using hf, rfl⟩)

/-- The event by which call `t` commits: its pending writes become visible. -/
def CommitStep (s : Sys S E A Q) (t : ℕ) (c : Call S E A Q) (s' : Sys S E A Q) : Prop :=
  s.call t = some c ∧ ∃ k, c.prog = .commit k ∧ s' = s.set t (c.endTx k true) (c.sees s.db)

/-- A call that is about to commit can. -/
theorem exists_commitStep {t : ℕ} (hc : s.call t = some c) (h : c.prog.isCommit = true) :
    ∃ s', CommitStep s t c s' := by
  cases hp : c.prog with
  | commit k => exact ⟨_, hc, k, hp, rfl⟩
  | _ => rw [hp] at h; cases h

/-- The event by which call `t` rolls back because of `x`. -/
def RollbackStep (s : Sys S E A Q) (t : ℕ) (c : Call S E A Q) (x : Option E)
    (s' : Sys S E A Q) : Prop :=
  s.call t = some c ∧ ∃ k, c.prog = .rollback x k ∧ s' = s.set t (c.endTx k c.committed) s.db

/-- **Only a commit changes the committed store.** -/
theorem step_db (h : V.step e s = some s') : s'.db = s.db ∨ ∃ t c, CommitStep s t c s' := by
  rcases step_cases h with ⟨t, q, -, -, rfl⟩ | ⟨t, n, c, c', d', -, hc, ha, rfl⟩ |
      ⟨t, c, -, -, -, rfl⟩
  · exact .inl rfl
  · rcases (advance_inv ha).2.2 with h | ⟨_, _, _, _, _, h, _⟩ | ⟨_, _, _, h, _⟩ |
        ⟨k, hk, rfl, rfl⟩ |
      ⟨_, _, _, h, _⟩
    · exact .inl h.1
    · exact .inl h
    · exact .inl h
    · exact .inr ⟨t, c, hc, k, hk, rfl⟩
    · exact .inl h
  · exact .inl rfl

/-! ## Contracts -/

/-- What each request's program meets, on its own, under discipline `D`. -/
structure Contract (V : Service S E A Q) (D : Discipline S) where
  oblig : Q → Oblig S E
  post : Q → Store S → A → Pt S → Prop
  err : Q → Store S → E → Pt S → Prop
  covers : ∀ q σ w, (oblig q).write σ w → D.Covers σ.held w
  crash : ∀ q d σ, err q d V.crash σ
  meets : ∀ q d d', D.rel [] d d' →
    wp D (oblig q) (post q d) (err q d) (V.prog q) (.begin d d' false)

/-- A system of calls that all keep to the contract. -/
structure Sys.OK {D : Discipline S} (C : Contract V D) (s : Sys S E A Q) : Prop where
  tracked : ∀ t c, s.call t = some c →
    Tracked D.both (C.oblig c.req) (C.post c.req c.born) (C.err c.req c.born) s.db c
  covers : ∀ t c, s.call t = some c → ∀ w ∈ c.ws, D.Covers c.held w
  compat : ∀ t u c c', s.call t = some c → s.call u = some c' → t ≠ u → Compat c.held c'.held
  born : ∀ t c, s.call t = some c → D.rel [] c.born s.db

variable {D : Discipline S} {C : Contract V D} {ok : Sys S E A Q → Event Q → Sys S E A Q → Prop}

theorem ok_init (d : Store S) : (Sys.init d).OK C where
  tracked t c h := by rw [Sys.call_init] at h; cases h
  covers t c h := by rw [Sys.call_init] at h; cases h
  compat t u c c' h := by rw [Sys.call_init] at h; cases h
  born t c h := by rw [Sys.call_init] at h; cases h

/-- An event respects `K` towards every call it leaves alone. -/
def Keeps (K : Rely S) (s s' : Sys S E A Q) : Prop :=
  ∀ u c, s.call u = some c → s'.call u = some c → K.rel c.held s.db s'.db

/-- The new state of one call, and what it is to the others. -/
theorem Sys.OK.set (hs : s.OK C) {t : ℕ} (hK : Keeps D.more s (s.set t c d))
    (htr : Tracked D.both (C.oblig c.req) (C.post c.req c.born) (C.err c.req c.born) d c)
    (hcov : ∀ w ∈ c.ws, D.Covers c.held w)
    (hcomp : ∀ u c', s.call u = some c' → u ≠ t → Compat c'.held c.held)
    (hborn : D.rel [] c.born d)
    (henv : ∀ u c', s.call u = some c' → u ≠ t → D.rel c'.held s.db d) :
    (s.set t c d).OK C where
  tracked u c' h := by
    rw [Sys.call_set] at h
    split at h
    · cases h; exact htr
    next hne => exact tracked_env (hs.tracked u c' h) ⟨henv u c' h hne,
      hK u c' h (by rwa [Sys.call_set_ne s hne])⟩
  covers u c' h := by
    rw [Sys.call_set] at h
    split at h
    · cases h; exact hcov
    · exact hs.covers u c' h
  compat u v c₁ c₂ h h' hne := by
    rw [Sys.call_set] at h h'
    split at h <;> split at h'
    · next hu hv => exact absurd (hu.trans hv.symm) hne
    · next hv => cases h; exact (hcomp v c₂ h' hv).symm
    · next hu _ => cases h'; exact hcomp u c₁ h hu
    · exact hs.compat u v c₁ c₂ h h' hne
  born u c' h := by
    rw [Sys.call_set] at h
    split at h
    · cases h; exact hborn
    next hne => exact D.trans (hs.born u c' h) (D.anti (List.nil_subset _) (henv u c' h hne))

theorem compat_nil_right (L : Locks (Res S)) : Compat L [] := (compat_nil L).symm

/-- **Every event keeps the contract.** -/
theorem step_ok (hs : s.OK C) (h : V.step e s = some s') (hK : Keeps D.more s s') : s'.OK C := by
  rcases step_cases h with ⟨t, q, -, -, rfl⟩ | ⟨t, n, c, c', d', -, hc, ha, rfl⟩ |
      ⟨t, c, -, hc, -, rfl⟩
  · refine hs.set hK ⟨s.db, D.both.refl _ _, fun d' hd => ?_⟩ (by simp [Service.fresh])
      (fun _ _ _ _ => compat_nil_right _) (D.refl _ _) (fun _ _ _ _ => D.refl _ _)
    exact wp_track (C.covers q) _ ⟨s.db, d', [], [], false⟩ (by simp) (C.meets q s.db d' hd.1)
  · obtain ⟨hreq, hborn, hcase⟩ := advance_inv ha
    have htr := tracked_advance (hs.tracked t c hc) ha
    rw [← hreq, ← hborn] at htr
    have hb : D.rel [] c'.born s.db := hborn ▸ hs.born t c hc
    have hcov := hs.covers t c hc
    have hcomp : ∀ u c₁, s.call u = some c₁ → u ≠ t → Compat c₁.held c.held :=
      fun u c₁ hu hne => hs.compat u t c₁ c hu hc hne
    -- nothing but the call has changed, or it has locked, written, committed or rolled back
    rcases hcase with ⟨rfl, hw, hh, -⟩ | ⟨r, m, m', hbusy, hle, rfl, hw, hh, -⟩ |
        ⟨w, k, hk, rfl, hw, hh, -⟩ |
      ⟨k, hk, rfl, rfl⟩ | ⟨x, k, hk, rfl, rfl⟩
    · refine hs.set hK htr ?_ ?_ hb fun _ _ _ _ => D.refl _ _
      · rw [hw, hh]; exact hcov
      · rw [hh]; exact hcomp
    · refine hs.set hK htr ?_ ?_ hb fun _ _ _ _ => D.refl _ _
      · rw [hw, hh]; exact fun w hm => (hcov w hm).mono (subset_acquire _ _ _)
      · rw [hh]
        intro u c₁ hu hne r' m₁ m₂ h₁ h₂
        rcases mem_acquire h₂ with h₂ | h₂
        · cases h₂
          have hfree := Sys.not_busy hbusy hu hne h₁
          -- a lock that conflicts with another call would have had to wait
          by_contra hcf
          rw [Bool.not_eq_false, Mode.conflicts_comm] at hcf
          rw [Mode.conflicts_mono hle le_rfl hcf] at hfree
          cases hfree
        · exact hcomp u c₁ hu hne r' m₁ m₂ h₁ h₂
    · refine hs.set hK htr ?_ ?_ hb fun _ _ _ _ => D.refl _ _
      · rw [hw, hh]
        intro x hx
        rcases List.mem_append.1 hx with hx | hx
        · exact hcov x hx
        · obtain ⟨start, -, ho⟩ := (hs.tracked t c hc).write hk
          rw [List.mem_singleton.1 hx]
          exact C.covers _ _ _ ho
      · rw [hh]; exact hcomp
    · refine hs.set hK htr (by simp [Call.endTx]) (fun _ _ _ _ => compat_nil_right _) ?_ ?_
      · exact D.trans hb (D.rel_overlay (compat_nil _) hcov s.db)
      · exact fun u c₁ hu hne => D.rel_overlay (hcomp u c₁ hu hne) hcov s.db
    · exact hs.set hK htr (by simp [Call.endTx]) (fun _ _ _ _ => compat_nil_right _) hb
        fun _ _ _ _ => D.refl _ _
  · exact hs.set hK (tracked_crash (C.crash _ _) _) (by simp [Call.endTx])
      (fun _ _ _ _ => compat_nil_right _) (hs.born t c hc) fun _ _ _ _ => D.refl _ _

/-- **In every reachable state every call keeps to its contract.** -/
theorem reach_ok (hK : ∀ s e s', s.OK C → V.step e s = some s' → ok s e s' → Keeps D.more s s')
    (hs : s.OK C)
    (h : V.Reach ok s s') : s'.OK C := by
  induction h with
  | refl => exact hs
  | tail _ hst ih =>
    obtain ⟨e, he, hok⟩ := hst
    exact step_ok ih he (hK _ e _ ih he hok)

theorem Sys.OK.commit (hs : s.OK C) {t : ℕ} (h : CommitStep s t c s') :
    ∃ start, D.rel [] start s.db ∧ (C.oblig c.req).commit (c.pt start s.db) := by
  obtain ⟨hc, k, hk, -⟩ := h
  obtain ⟨start, hst, ho⟩ := (hs.tracked t c hc).commit hk
  exact ⟨start, hst.1, ho⟩

theorem Sys.OK.rollback (hs : s.OK C) {t : ℕ} {x : Option E} (h : RollbackStep s t c x s') :
    ∃ start, D.rel [] start s.db ∧ (C.oblig c.req).rollback x (c.pt start s.db) := by
  obtain ⟨hc, k, hk, -⟩ := h
  obtain ⟨start, hst, ho⟩ := (hs.tracked t c hc).rollback hk
  exact ⟨start, hst.1, ho⟩

theorem Sys.OK.ret (hs : s.OK C) {t : ℕ} {a : A} (hc : s.call t = some c) (hk : c.prog = .ret a) :
    ∃ start, D.rel [] start s.db ∧ C.post c.req c.born a (c.pt start s.db) := by
  obtain ⟨start, hst, ho⟩ := (hs.tracked t c hc).ret hk
  exact ⟨start, hst.1, ho⟩

theorem Sys.OK.fail (hs : s.OK C) {t : ℕ} {x : E} (hc : s.call t = some c) (hk : c.prog = .fail x) :
    ∃ start, D.rel [] start s.db ∧ C.err c.req c.born x (c.pt start s.db) := by
  obtain ⟨start, hst, ho⟩ := (hs.tracked t c hc).fail hk
  exact ⟨start, hst.1, ho⟩

/-- What a commit makes of the store is what everyone may rely on. -/
theorem Sys.OK.rel_commit (hs : s.OK C) {t : ℕ} (h : CommitStep s t c s') :
    D.rel [] s.db s'.db := by
  obtain ⟨hc, k, -, rfl⟩ := h
  exact D.rel_overlay (compat_nil _) (hs.covers t c hc) s.db

/-- A commit does not touch what another call has locked. -/
theorem Sys.OK.rel_other (hs : s.OK C) {t u : ℕ} (h : CommitStep s t c s') (hu : s.call u = some c')
    (hne : u ≠ t) :
    D.rel c'.held s.db s'.db := by
  obtain ⟨hc, k, -, rfl⟩ := h
  exact D.rel_overlay (hs.compat u t c' c hu hc hne) (hs.covers t c hc) s.db

theorem step_rel (hs : s.OK C) (h : V.step e s = some s') : D.rel [] s.db s'.db := by
  rcases step_db h with hd | ⟨t, c, hcs⟩
  · rw [hd]; exact D.refl _ _
  · exact hs.rel_commit hcs

theorem reach_rel (hOK : ∀ s₁, V.Reach ok s s₁ → s₁.OK C) (h : V.Reach ok s s') :
    D.rel [] s.db s'.db := by
  induction h with
  | refl => exact D.refl _ _
  | tail hr hst ih =>
    obtain ⟨e, he, -⟩ := hst
    exact D.trans ih (step_rel (hOK _ hr) he)

/-- **A property of the committed store that every commit keeps, holds in every
reachable state.** -/
theorem reach_inv {P : Store S → Prop} (hOK : ∀ s₁, V.Reach ok s s₁ → s₁.OK C) (h0 : P s.db)
    (hP : ∀ q σ, D.rel [] σ.now σ.db → (C.oblig q).commit σ → P σ.now → P σ.db)
    (h : V.Reach ok s s') : P s'.db := by
  induction h with
  | refl => exact h0
  | @tail s₁ s₂ hr hst ih =>
    obtain ⟨e, he, -⟩ := hst
    rcases step_db he with hd | ⟨t, c, hcs⟩
    · rw [hd]; exact ih
    · have hrel := (hOK _ hr).rel_commit hcs
      obtain ⟨start, -, ho⟩ := Sys.OK.commit (hOK _ hr) hcs
      obtain ⟨-, k, -, rfl⟩ := hcs
      exact hP _ (c.pt start s₁.db) hrel ho ih

/-- The same for runs whose commits meet a condition: `hP` sees the commit itself. -/
theorem reach_inv_step {P : Store S → Prop} (h0 : P s.db)
    (hP : ∀ s₁ t c s₂ e, V.Reach ok s s₁ → V.step e s₁ = some s₂ → ok s₁ e s₂ →
      CommitStep s₁ t c s₂ → P s₁.db → P s₂.db)
    (h : V.Reach ok s s') : P s'.db := by
  induction h with
  | refl => exact h0
  | @tail s₁ s₂ hr hst ih =>
    obtain ⟨e, he, hok⟩ := hst
    rcases step_db he with hd | ⟨t, c, hcs⟩
    · rw [hd]; exact ih
    · exact hP s₁ t c s₂ e hr he hok hcs ih

/-- A call's record of the store at its start is a store of the run. -/
theorem reach_born {P : Store S → Prop} {u : ℕ} (hP : ∀ s₁, V.Reach ok s s₁ → P s₁.db)
    (h0 : ∀ c, s.call u = some c → P c.born) (h : V.Reach ok s s') : ∀ c, s'.call u = some c →
      P c.born := by
  induction h with
  | refl => exact h0
  | @tail s₁ s₂ hr hst ih =>
    obtain ⟨e, he, -⟩ := hst
    intro c' hu
    rcases step_cases he with ⟨t, q, -, -, rfl⟩ | ⟨t, n, c, c₁, d₁, -, hc, ha, rfl⟩ |
        ⟨t, c, -, hc, -, rfl⟩
    all_goals
      rw [Sys.call_set] at hu
      split at hu
    · cases hu; exact hP _ hr
    · exact ih c' hu
    next hut => cases hu; rw [(advance_inv ha).2.1]; exact ih c (hut ▸ hc)
    · exact ih c' hu
    next hut => cases hu; exact ih c (hut ▸ hc)
    · exact ih c' hu

/-- Every call is one of the requests that were let in. -/
theorem reach_req {W : Q → Prop} (h0 : ∀ t c, s.call t = some c → W c.req) (h : V.ReachOf W s s') :
    ∀ t c, s'.call t = some c → W c.req := by
  induction h with
  | refl => exact h0
  | @tail s₁ s₂ hr hst ih =>
    obtain ⟨e, he, hW⟩ := hst
    intro u c' hu
    rcases step_cases he with ⟨t, q, rfl, -, rfl⟩ | ⟨t, n, c, c₁, d₁, -, hc, ha, rfl⟩ |
        ⟨t, c, -, hc, -, rfl⟩
    all_goals
      rw [Sys.call_set] at hu
      split at hu
    · cases hu; exact hW t q rfl
    · exact ih u c' hu
    · cases hu; rw [(advance_inv ha).1]; exact ih t c hc
    · exact ih u c' hu
    · cases hu; exact ih t c hc
    · exact ih u c' hu

/-- **A property that every commit of a request in `W` keeps, holds in every state
reached by such requests.** -/
theorem reach_inv_of {W : Q → Prop} {P : Store S → Prop} (hOK : ∀ s₁, V.ReachOf W s s₁ → s₁.OK C)
    (h0 : P s.db)
    (hreq : ∀ t c, s.call t = some c → W c.req)
    (hP : ∀ q σ, W q → D.rel [] σ.now σ.db → (C.oblig q).commit σ → P σ.now → P σ.db)
    (h : V.ReachOf W s s') : P s'.db := by
  refine reach_inv_step h0 (fun s₁ t c s₂ e hr _ _ hcs hp => ?_) h
  have hrel := (hOK _ hr).rel_commit hcs
  obtain ⟨start, -, ho⟩ := Sys.OK.commit (hOK _ hr) hcs
  have hw := reach_req hreq hr t c hcs.1
  obtain ⟨-, k, -, rfl⟩ := hcs
  exact hP _ (c.pt start s₁.db) hw hrel ho hp

/-- A call that has committed had done so before the event, or does by it. -/
theorem step_committed {t : ℕ} (h : V.step e s = some s') (hc : s'.call t = some c')
    (hcom : c'.committed = true) :
    (∃ c, s.call t = some c ∧ c.committed = true ∧ c.req = c'.req) ∨ ∃ c, CommitStep s t c s' ∧
      c.req = c'.req := by
  rcases step_cases h with ⟨u, q, rfl, hn, rfl⟩ | ⟨u, n, c, c₁, d₁, rfl, hu, ha, rfl⟩ |
      ⟨u, c, rfl, hu, -, rfl⟩
  all_goals
    rw [Sys.call_set] at hc
    split at hc
  · cases hc; cases hcom
  · exact .inl ⟨c', hc, hcom, rfl⟩
  next htu =>
    subst htu
    cases hc
    have hreq := (advance_inv ha).1
    rcases (advance_inv ha).2.2 with ⟨-, -, -, hk⟩ | ⟨_, _, _, _, _, -, -, -, hk⟩ |
        ⟨_, _, _, -, -, -, hk⟩ |
      ⟨k, hk, rfl, rfl⟩ | ⟨_, _, _, -, rfl⟩
    · exact .inl ⟨c, hu, hk ▸ hcom, hreq.symm⟩
    · exact .inl ⟨c, hu, hk ▸ hcom, hreq.symm⟩
    · exact .inl ⟨c, hu, hk ▸ hcom, hreq.symm⟩
    · exact .inr ⟨c, ⟨hu, k, hk, rfl⟩, rfl⟩
    · exact .inl ⟨c, hu, hcom, rfl⟩
  · exact .inl ⟨c', hc, hcom, rfl⟩
  next htu => subst htu; cases hc; exact .inl ⟨c, hu, hcom, rfl⟩
  · exact .inl ⟨c', hc, hcom, rfl⟩

/-- A call stays, with its request, and once committed stays so. -/
theorem step_call {t : ℕ} (h : V.step e s = some s') (hc : s.call t = some c) :
    ∃ c', s'.call t = some c' ∧ c'.req = c.req ∧ (c.committed = true → c'.committed = true) := by
  rcases step_cases h with ⟨u, q, rfl, hn, rfl⟩ | ⟨u, n, c₀, c₁, d₁, rfl, hu, ha, rfl⟩ |
      ⟨u, c₀, rfl, hu, -, rfl⟩
  all_goals
    rw [Sys.call_set]
    split
  next htu => rw [htu, hn] at hc; cases hc
  · exact ⟨c, hc, rfl, id⟩
  next htu =>
    subst htu
    rw [hc] at hu
    cases hu
    refine ⟨c₁, rfl, (advance_inv ha).1, fun hcom => ?_⟩
    rcases (advance_inv ha).2.2 with ⟨-, -, -, hk⟩ | ⟨_, _, _, _, _, -, -, -, hk⟩ |
        ⟨_, _, _, -, -, -, hk⟩ |
      ⟨k, hk, rfl, rfl⟩ | ⟨_, _, _, -, rfl⟩
    · rw [hk]; exact hcom
    · rw [hk]; exact hcom
    · rw [hk]; exact hcom
    · rfl
    · exact hcom
  · exact ⟨c, hc, rfl, id⟩
  next htu =>
    subst htu
    rw [hc] at hu
    cases hu
    exact ⟨_, rfl, rfl, id⟩
  · exact ⟨c, hc, rfl, id⟩

theorem reach_call {t : ℕ} (h : V.Reach ok s s') (hc : s.call t = some c) :
    ∃ c', s'.call t = some c' ∧ c'.req = c.req ∧ (c.committed = true → c'.committed = true) := by
  induction h with
  | refl => exact ⟨c, hc, rfl, id⟩
  | tail _ hst ih =>
    obtain ⟨e, he, -⟩ := hst
    obtain ⟨c₁, hc₁, hr₁, hcom₁⟩ := ih
    obtain ⟨c₂, hc₂, hr₂, hcom₂⟩ := step_call he hc₁
    exact ⟨c₂, hc₂, hr₂.trans hr₁, fun h => hcom₂ (hcom₁ h)⟩

/-- **A call that has not committed has changed nothing**: none of its events did. -/
theorem reach_quiet {t : ℕ} (h : V.Reach ok s s') (hc : ∀ c, s'.call t = some c →
    c.committed = false) :
    V.Reach (fun s e s' => ok s e s' ∧ (e.call = t → s'.db = s.db)) s s' := by
  induction h with
  | refl => exact .refl
  | @tail s₁ s₂ hr hst ih =>
    obtain ⟨e, he, hok⟩ := hst
    -- the call had not committed before the event either
    suffices hlast : (∀ c, s₁.call t = some c → c.committed = false) ∧
        (e.call = t → s₂.db = s₁.db) from
      .tail (ih hlast.1) ⟨e, he, hok, hlast.2⟩
    rcases step_cases he with ⟨u, q, rfl, hn, rfl⟩ | ⟨u, n, c, c', d', rfl, hu, ha, rfl⟩ |
        ⟨u, c, rfl, hu, -, rfl⟩
    · refine ⟨fun c hct => hc c ?_, fun _ => rfl⟩
      rw [Sys.call_set_ne _ (fun he => by rw [he, hn] at hct; cases hct)]
      exact hct
    · by_cases htu : t = u
      · subst htu
        have hf : c'.committed = false := hc c' (Sys.call_set_self ..)
        rcases (advance_inv ha).2.2 with ⟨hd, -, -, hcom⟩ | ⟨_, _, _, _, _, hd, -, -, hcom⟩ |
            ⟨_, _, _, hd, -, -, hcom⟩ |
          ⟨k, hk, rfl, rfl⟩ | ⟨_, _, _, hd, rfl⟩
        · exact ⟨fun c₁ h₁ => by rw [hu] at h₁; cases h₁; rw [← hcom]; exact hf, fun _ => hd⟩
        · exact ⟨fun c₁ h₁ => by rw [hu] at h₁; cases h₁; rw [← hcom]; exact hf, fun _ => hd⟩
        · exact ⟨fun c₁ h₁ => by rw [hu] at h₁; cases h₁; rw [← hcom]; exact hf, fun _ => hd⟩
        · cases hf
        · exact ⟨fun c₁ h₁ => by rw [hu] at h₁; cases h₁; exact hf, fun _ => hd⟩
      · exact ⟨fun c₁ h₁ => hc c₁ (by rw [Sys.call_set_ne _ htu]; exact h₁),
          fun he => absurd he.symm htu⟩
    · refine ⟨fun c₁ h₁ => ?_, fun _ => rfl⟩
      by_cases htu : t = u
      · subst htu
        rw [hu] at h₁
        cases h₁
        exact hc (c.endTx (.fail V.crash) c.committed) (Sys.call_set_self ..)
      · exact hc c₁ (by rw [Sys.call_set_ne _ htu]; exact h₁)

/-! ## Deadlock -/

/-- A relation whose edges go up along `φ`, as long as they can be extended at
both ends, has no cycle. -/
theorem acyclic_of_lt {α β : Type} [Preorder β] {r : α → α → Prop} (φ : α → β)
    (h : ∀ w x y z, r w x → r x y → r y z → φ x < φ y) (x : α) : ¬ Relation.TransGen r x x := by
  -- every edge of a cycle can be extended at both ends
  have key : ∀ x y, Relation.TransGen r x y → ∀ w z, r w x → r y z → φ x < φ y := by
    intro x y hxy
    induction hxy with
    | single h1 => exact fun w z hw hz => h w _ _ z hw h1 hz
    | tail h1 h2 ih =>
      intro w z hw hz
      have hlt := ih w _ hw h2
      obtain ⟨v, -, hv⟩ := Relation.TransGen.tail'_iff.1 h1
      exact hlt.trans (h v _ _ z hv h2 hz)
  intro hx
  obtain ⟨z, hz, -⟩ := Relation.TransGen.head'_iff.1 hx
  obtain ⟨w, -, hw⟩ := Relation.TransGen.tail'_iff.1 hx
  exact lt_irrefl _ (key x x hx w z hw hz)

/-- A waiting call is about to take a lock it does not have, and its contract
says so. -/
theorem Sys.OK.waits (hs : s.OK C) {t u : ℕ} (h : WaitsFor s t u) :
    ∃ c c' r m m' k start, s.call t = some c ∧ s.call u = some c' ∧ t ≠ u ∧
      c.prog = .lock r m k ∧ (r, m') ∈ c'.held ∧ m.conflicts m' = true ∧
      D.rel [] start s.db ∧ (C.oblig c.req).lock (c.pt start s.db) r m := by
  obtain ⟨c, c', r, m, m', hc, hc', hne, hw, hm, hcf⟩ := h
  cases hp : c.prog with
  | lock r₁ m₁ k =>
    rw [hp] at hw
    cases hw
    obtain ⟨start, hst, ho⟩ := (hs.tracked t c hc).lock hp
    refine ⟨c, c', r, m, m', k, start, hc, hc', hne, hp, hm, hcf, hst.1, ho fun hh => ?_⟩
    exact (hs.compat t u c c' hc hc' hne).not_holds hh hcf (.of_mem hm)
  | _ => rw [hp] at hw; cases hw

end Txn
