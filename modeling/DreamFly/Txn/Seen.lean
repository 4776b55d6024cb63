import DreamFly.Txn.Sql
import DreamFly.Txn.Stages

/-!
# What a call has seen

The answer of a call is made of what it has read, and each read shows the store of a state
that the run passes while the call goes on. `Seen` follows a program along such a sequence
of states.

* `Passage`: the states that a call may pass, in their order.
* `seen_handle`, `seen_after`: composition; what comes before a piece does not matter.
* `reach_seen`: what a call of a run has ended with, it has seen in that run.
-/

namespace Txn

variable {S : Schema} {E A Q α β : Type}

/-- The states that a call may pass: the store at each, which come later, and which follow
a commit of the call. -/
structure Passage (S : Schema) where
  State : Type
  store : State → Store S
  later : State → State → Prop
  done : State → Prop

variable {K : Passage S}

/-- Along the states of `K`, from `i` on and with pending writes `ws`, the program ends as
`R` (with a result) or `X` (with an error) say of the last state it has looked at. -/
def Prog.Seen (K : Passage S) (R : K.State → List (Write S) → α → Prop)
    (X : K.State → List (Write S) → E → Prop) :
    K.State → List (Write S) → Prog S E α → Prop
  | i, ws, .ret a => R i ws a
  | i, ws, .fail e => X i ws e
  | i, ws, .view k => ∀ j, K.later i j → (k (Store.overlay ws (K.store j))).Seen K R X j ws
  | i, ws, .lock _ _ k => k.Seen K R X i ws
  | i, ws, .fresh _ _ k => ∀ n, (k n).Seen K R X i ws
  | i, ws, .pick k => ∀ n, (k n).Seen K R X i ws
  | i, ws, .write w k => k.Seen K R X i (ws ++ [w])
  | i, _, .commit k => ∀ j, K.later i j → K.done j → k.Seen K R X j []
  | i, _, .rollback _ k => k.Seen K R X i []

variable {R R' : K.State → List (Write S) → α → Prop} {X X' : K.State → List (Write S) → E → Prop}
  {i : K.State}
  {ws : List (Write S)}

/-! ## Composition -/

/-- Nothing is said of how a program ends. -/
theorem seen_any (p : Prog S E α) : ∀ i ws, p.Seen K (fun _ _ _ => True)
    (fun _ _ _ => True) i ws := by
  induction p with
  | ret a => exact fun _ _ => trivial
  | fail e => exact fun _ _ => trivial
  | view k ih => exact fun i ws j _ => ih _ j ws
  | lock r m k ih => exact fun i ws => ih i ws
  | fresh t key k ih => exact fun i ws n => ih n i ws
  | pick k ih => exact fun i ws n => ih n i ws
  | write w k ih => exact fun i ws => ih i _
  | commit k ih => exact fun i ws j _ _ => ih j []
  | rollback e k ih => exact fun i ws => ih i []

theorem seen_handle {R : K.State → List (Write S) → β → Prop} (ok : α → Prog S E β)
    (err : E → Prog S E β) (p : Prog S E α) :
    ∀ i ws, (p.handle ok err).Seen K R X i ws ↔
      p.Seen K (fun i ws a => (ok a).Seen K R X i ws)
      (fun i ws e => (err e).Seen K R X i ws) i ws := by
  induction p with
  | ret a => exact fun _ _ => Iff.rfl
  | fail e => exact fun _ _ => Iff.rfl
  | view k ih => exact fun i ws => forall_congr' fun j => imp_congr_right fun _ => ih _ j ws
  | lock r m k ih => exact fun i ws => ih i ws
  | fresh t key k ih => exact fun i ws => forall_congr' fun n => ih n i ws
  | pick k ih => exact fun i ws => forall_congr' fun n => ih n i ws
  | write w k ih => exact fun i ws => ih i _
  | commit k ih =>
    exact fun i ws => forall_congr' fun j => imp_congr_right fun _ =>
      imp_congr_right fun _ => ih j []
  | rollback e k ih => exact fun i ws => ih i []

theorem seen_mono (hR : ∀ i ws a, R i ws a → R' i ws a) (hX : ∀ i ws e, X i ws e → X' i ws e)
    (p : Prog S E α) :
    ∀ i ws, p.Seen K R X i ws → p.Seen K R' X' i ws := by
  induction p with
  | ret a => exact fun i ws h => hR i ws a h
  | fail e => exact fun i ws h => hX i ws e h
  | view k ih => exact fun i ws h j hj => ih _ j ws (h j hj)
  | lock r m k ih => exact fun i ws h => ih i ws h
  | fresh t key k ih => exact fun i ws h n => ih n i ws (h n)
  | pick k ih => exact fun i ws h n => ih n i ws (h n)
  | write w k ih => exact fun i ws h => ih i _ h
  | commit k ih => exact fun i ws h j hj hd => ih j [] (h j hj hd)
  | rollback e k ih => exact fun i ws h => ih i [] h

/-- Where a program continues after a piece of which nothing is known. -/
theorem seen_after {R : K.State → List (Write S) → β → Prop} {ok : α → Prog S E β}
    {err : E → Prog S E β} {p : Prog S E α}
    (hok : ∀ j ws a, (ok a).Seen K R X j ws) (herr : ∀ j ws e, (err e).Seen K R X j ws) :
    (p.handle ok err).Seen K R X i ws :=
  (seen_handle ok err p i ws).2 (seen_mono (fun j ws a _ => hok j ws a)
    (fun j ws e _ => herr j ws e) p i ws (seen_any p i ws))

/-! ## Results alone -/

/-- Of errors nothing is said. -/
abbrev Shows (K : Passage S) (R : K.State → List (Write S) → α → Prop) (i : K.State)
    (ws : List (Write S)) (p : Prog S E α) : Prop :=
  p.Seen K R (fun _ _ _ => True) i ws

theorem Shows.after {R : K.State → List (Write S) → β → Prop} {p : Prog S E α} {k : α → Prog S E β}
    (h : ∀ j ws a, Shows K R j ws (k a)) : Shows K R i ws (p >>= k) :=
  seen_after h fun _ _ _ => trivial

theorem Shows.bind {M : K.State → List (Write S) → α → Prop} {R : K.State → List (Write S) → β →
    Prop} {p : Prog S E α}
    {k : α → Prog S E β} (hp : Shows K M i ws p) (h : ∀ j ws a, M j ws a → Shows K R j ws (k a)) :
    Shows K R i ws (p >>= k) :=
  (seen_handle k .fail p i ws).2 (seen_mono h (fun _ _ _ h => h) p i ws hp)

/-- What holds whatever comes. -/
theorem Shows.always {P : Prop} (h : P) (p : Prog S E α) : Shows K (fun _ _ _ => P) i ws p :=
  seen_mono (fun _ _ _ _ => h) (fun _ _ _ h => h) p i ws (seen_any p i ws)

theorem Shows.orFail {o : Option α} {e : E} (h : ∀ a, o = some a → R i ws a) :
    Shows K R i ws (Prog.orFail o e) := by
  cases o with
  | none => exact trivial
  | some a => exact h a rfl

theorem Shows.checked {r : Except E α} (h : ∀ a, r = .ok a → R i ws a) :
    Shows K R i ws (Prog.checked r) := by
  cases r with
  | ok a => exact h a rfl
  | error e => exact trivial

/-- A locked row is read when the lock has been taken. -/
theorem Shows.selectFor {t : S.Tbl} {k : S.Key t} {p : S.Row t → Bool} {m : Mode}
    {R : K.State → List (Write S) → Option (S.Row t) → Prop}
    (hnone : ∀ j, K.later i j → R j ws none)
    (h : ∀ j h, K.later i h → K.later h j →
      R j ws (((Store.overlay ws (K.store j)).get t k).filter p)) :
    Shows K R i ws (Prog.selectFor t k p m : Prog S E _) := by
  intro h₁ hh₁
  cases hr : ((Store.overlay ws (K.store h₁)).get t k).filter p with
  | none =>
    simp only [Prog.handle, hr]
    exact hnone h₁ hh₁
  | some row =>
    simp only [Prog.handle, hr]
    exact fun j hj => h j h₁ hh₁ hj

/-! ## Runs -/

variable {V : Service S E A Q} {ok : Sys S E A Q → Event Q → Sys S E A Q → Prop} {d : Store S}
  {s s' : Sys S E A Q} {t : ℕ}
  {c : Call S E A Q}

/-- The states of a run from `d` to `s` that call `t` passes. -/
def Service.passage (V : Service S E A Q) (ok : Sys S E A Q → Event Q → Sys S E A Q → Prop)
    (d : Store S) (t : ℕ) (s : Sys S E A Q) :
    Passage S where
  State := Sys S E A Q
  store := Sys.db
  later i j := V.Reach ok (Sys.init d) j ∧ V.Reach ok i j ∧ V.Reach ok j s ∧ (j.call t).isSome
  done j := ∃ c, j.call t = some c ∧ c.committed = true

/-- **What a call has ended with, it has seen in the run.** -/
theorem reach_seen {P : Q → Prop} {R : Sys S E A Q → List (Write S) → A → Prop}
    (hp : ∀ q i, P q → (V.prog q).Seen (V.passage ok d t s) R (fun _ _ _ => True) i [])
    (h : V.Reach ok (Sys.init d) s)
    (hc : s.call t = some c) (hq : P c.req) :
    ∃ i, V.Reach ok i s ∧ c.prog.Seen (V.passage ok d t s) R (fun _ _ _ => True) i c.ws := by
  suffices H : ∀ s₁, V.Reach ok (Sys.init d) s₁ → V.Reach ok s₁ s →
      ∀ c, s₁.call t = some c → P c.req →
      ∃ i, V.Reach ok i s₁ ∧ c.prog.Seen (V.passage ok d t s) R (fun _ _ _ => True) i c.ws
        from H s h .refl c hc hq
  intro s₁ h₁
  induction h₁ with
  | refl =>
    intro _ c hc
    rw [Sys.call_init] at hc
    cases hc
  | @tail s₁ s₂ hr hst ih =>
    intro hrest c' hc' hq'
    have hlast : V.Reach ok s₁ s₂ := .single hst
    have hall := hr.trans hlast
    obtain ⟨e, he, -⟩ := hst
    have hother : s₁.call t = some c' → ∃ i, V.Reach ok i s₂ ∧
        c'.prog.Seen (V.passage ok d t s) R (fun _ _ _ => True) i c'.ws :=
      fun hc₁ => by
        obtain ⟨i, hi, hseen⟩ := ih (hlast.trans hrest) c' hc₁ hq'
        exact ⟨i, hi.trans hlast, hseen⟩
    -- what another call does leaves this one as it is
    rcases step_cases he with ⟨u, q, rfl, -, rfl⟩ | ⟨u, n, c, c₂, d', rfl, hc, ha, rfl⟩ |
        ⟨u, c, rfl, hc, -, rfl⟩
    all_goals
      by_cases htu : t = u
      on_goal 2 => exact hother (by rwa [Sys.call_set_ne _ htu] at hc')
      subst htu
      rw [Sys.call_set_self] at hc'
      cases hc'
    · exact ⟨_, .refl, hp q _ hq'⟩
    · have hreq : P c.req := (advance_inv ha).1 ▸ hq'
      obtain ⟨i, hi, hseen⟩ := ih (hlast.trans hrest) c hc hreq
      have hhere : (V.passage ok d t s).later i s₁ := ⟨hr, hi, hlast.trans hrest, by rw [hc]; rfl⟩
      -- a view looks at `s₁` and a commit at the state after it, the others at none
      cases hprog : c.prog with
      | ret a => simp only [Call.advance, hprog] at ha; cases ha
      | fail e => simp only [Call.advance, hprog] at ha; cases ha
      | view k =>
        simp only [Call.advance, hprog] at ha
        cases ha
        rw [hprog] at hseen
        exact ⟨s₁, hlast, hseen s₁ hhere⟩
      | lock r m k =>
        simp only [Call.advance, hprog] at ha
        split at ha
        · cases ha
        cases ha
        rw [hprog] at hseen
        exact ⟨i, hi.trans hlast, hseen⟩
      | fresh tb key k =>
        simp only [Call.advance, hprog] at ha
        split at ha
        · cases ha
        cases ha
        rw [hprog] at hseen
        exact ⟨i, hi.trans hlast, hseen n⟩
      | pick k =>
        simp only [Call.advance, hprog] at ha
        cases ha
        rw [hprog] at hseen
        exact ⟨i, hi.trans hlast, hseen n⟩
      | write w k =>
        simp only [Call.advance, hprog] at ha
        cases ha
        rw [hprog] at hseen
        exact ⟨i, hi.trans hlast, hseen⟩
      | commit k =>
        simp only [Call.advance, hprog] at ha
        cases ha
        rw [hprog] at hseen
        exact ⟨_, .refl, hseen _ ⟨hall, hi.trans hlast, hrest, by rw [Sys.call_set_self]; rfl⟩
          ⟨_, Sys.call_set_self .., rfl⟩⟩
      | rollback e k =>
        simp only [Call.advance, hprog] at ha
        cases ha
        rw [hprog] at hseen
        exact ⟨i, hi.trans hlast, hseen⟩
    · -- a broken connection is an error, of which nothing is said
      exact ⟨_, .refl, trivial⟩

end Txn
