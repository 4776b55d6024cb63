import DreamFly.Txn.Sys

/-!
# Reasoning at commit time

What a call reads may be overtaken by other commits before its own. `track` says
what holds of the rest of a call's code when its transaction is going to end over
the committed store `now`: a read returns an earlier store, related to `now` by
what the held locks freeze in between (`Rely`). Obligations (`Oblig`) are what is
to be shown where a write, a lock request, a commit or a rollback happens.

* `tracked_advance`: a call's own operations keep it tracked.
* `tracked_env`: so do the other calls' commits, as long as they respect `Rely`.
* `Tracked.commit`, `Tracked.rollback`, `Tracked.lock`, `Tracked.write`: the
  obligations hold where the operations happen.
-/

namespace Txn

variable {S : Schema} {E A Q α : Type}

/-- How the committed store can change while a transaction holds given locks. -/
structure Rely (S : Schema) where
  rel : Locks (Res S) → Store S → Store S → Prop
  refl : ∀ L d, rel L d d
  trans : ∀ {L a b c}, rel L a b → rel L b c → rel L a c
  anti : ∀ {L L' a b}, L ⊆ L' → rel L' a b → rel L a b

/-- Nothing is relied on. -/
def Rely.free (S : Schema) : Rely S where
  rel _ _ _ := True
  refl _ _ := trivial
  trans _ _ := trivial
  anti _ _ := trivial

/-- Two relies at once. -/
def Rely.and (R K : Rely S) : Rely S where
  rel L a b := R.rel L a b ∧ K.rel L a b
  refl L d := ⟨R.refl L d, K.refl L d⟩
  trans h h' := ⟨R.trans h.1 h'.1, K.trans h.2 h'.2⟩
  anti hs h := ⟨R.anti hs h.1, K.anti hs h.2⟩

/-- What holds now has held before, in runs whose states all meet `P`. -/
def Rely.past (P : Store S → Prop) : Rely S where
  rel _ a b := P b → P a
  refl _ _ := id
  trans h h' hc := h (h' hc)
  anti _ h := h

/-- `f` of the store stays as it is. -/
def Rely.same {β : Type} (f : Store S → β) : Rely S where
  rel _ a b := f b = f a
  refl _ _ := rfl
  trans h h' := h'.trans h
  anti _ h := h

/-- A point in a transaction: the store committed when the transaction began,
the one committed when it ends, the same under the pending writes `ws`, and the
locks held. `committed`: the call has committed a transaction before. -/
structure Pt (S : Schema) where
  start : Store S
  now : Store S
  db : Store S
  ws : List (Write S)
  held : Locks (Res S)
  committed : Bool

/-- What is to be shown at the operations of a program. -/
structure Oblig (S : Schema) (E : Type) where
  write : Pt S → Write S → Prop
  lock : Pt S → Res S → Mode → Prop
  commit : Pt S → Prop
  rollback : Option E → Pt S → Prop

/-- A point with its pending writes still apart. -/
structure Raw (S : Schema) where
  start : Store S
  now : Store S
  ws : List (Write S)
  held : Locks (Res S)
  committed : Bool

/-- The point with the writes laid over the store. -/
def Raw.pt (σ : Raw S) : Pt S := ⟨σ.start, σ.now, Store.overlay σ.ws σ.now, σ.ws, σ.held,
    σ.committed⟩

/-- The rest of a program, from `σ` on, meets its obligations and ends as `Q`
(with a result) or `X` (with an error) say. -/
def track (R : Rely S) (O : Oblig S E) (Q : α → Pt S → Prop) (X : E → Pt S → Prop) :
    Prog S E α → Raw S → Prop
  | .ret a, σ => Q a σ.pt
  | .fail e, σ => X e σ.pt
  | .view k, σ => ∀ d, R.rel [] σ.start d → R.rel σ.held d σ.now →
      track R O Q X (k (Store.overlay σ.ws d)) σ
  | .lock r m k, σ => (¬ Holds σ.held r m → O.lock σ.pt r m) ∧
      track R O Q X k { σ with held := acquire σ.held r m }
  | .fresh t key k, σ => ∀ n d, R.rel (acquire σ.held (.row t (key n)) .noKeyUpdate) d σ.now →
      d.get t (key n) = none → (Store.overlay σ.ws d).get t (key n) = none →
      (∀ m, (.row t (key n), m) ∉ σ.held) →
      track R O Q X (k n) { σ with held := acquire σ.held (.row t (key n)) .noKeyUpdate }
  | .pick k, σ => ∀ n, track R O Q X (k n) σ
  | .write w k, σ => O.write σ.pt w ∧ track R O Q X k { σ with ws := σ.ws ++ [w] }
  | .commit k, σ => O.commit σ.pt ∧ ∀ d, R.rel [] σ.pt.db d →
      track R O Q X k ⟨σ.pt.db, d, [], [], true⟩
  | .rollback e k, σ => O.rollback e σ.pt ∧ ∀ d, R.rel [] σ.now d →
      track R O Q X k ⟨σ.now, d, [], [], σ.committed⟩

/-- A call whose remaining code is tracked, whatever its locks let happen to the
committed store from now on. -/
def Tracked (R : Rely S) (O : Oblig S E) (Post : A → Pt S → Prop) (Err : E → Pt S → Prop)
    (d : Store S) (c : Call S E A Q) : Prop :=
  ∃ start, R.rel [] start d ∧
    ∀ d', R.rel c.held d d' → track R O Post Err c.prog ⟨start, d', c.ws, c.held, c.committed⟩

variable {R : Rely S} {O : Oblig S E} {Post : A → Pt S → Prop} {Err : E → Pt S → Prop}
  {d d' : Store S} {c c' : Call S E A Q} {busy : Res S → Mode → Bool} {n : ℕ}

/-- The point a call has reached when `d` is committed. -/
def Call.pt (c : Call S E A Q) (start d : Store S) :
    Pt S := ⟨start, d, c.sees d, c.ws, c.held, c.committed⟩

theorem tracked_env (h : Tracked R O Post Err d c) (hr : R.rel c.held d d') :
    Tracked R O Post Err d' c := by
  obtain ⟨start, hs, ht⟩ := h
  exact ⟨start, R.trans hs (R.anti (List.nil_subset _) hr), fun d'' hd => ht d'' (R.trans hr hd)⟩

theorem tracked_crash {crash : E} (hx : ∀ p, Err crash p) (b : Bool) :
    Tracked R O Post Err d (c.endTx (.fail crash) b) :=
  ⟨d, R.refl _ _, fun _ _ => hx _⟩

/-- **A call's own operations keep it tracked.** -/
theorem tracked_advance (h : Tracked R O Post Err d c) (hc : c.advance busy n d = some (d', c')) :
    Tracked R O Post Err d' c' := by
  obtain ⟨start, hs, ht⟩ := h
  unfold Call.advance at hc
  split at hc
  · cases hc
  · cases hc
  case h_3 k hk =>
    cases hc
    refine ⟨start, hs, fun d'' hd => ?_⟩
    have h1 := ht d'' hd
    rw [hk] at h1
    exact h1 d hs hd
  case h_4 r m k hk =>
    split at hc
    · cases hc
    cases hc
    refine ⟨start, hs, fun d'' hd => ?_⟩
    have h1 := ht d'' (R.anti (subset_acquire _ _ _) hd)
    rw [hk] at h1
    exact h1.2
  case h_5 t key k hk =>
    simp only at hc
    split at hc
    · cases hc
    next hfree =>
      cases hc
      simp only [Bool.or_eq_true, not_or, Bool.not_eq_true, Option.isSome_eq_false_iff,
        Option.isNone_iff_eq_none, List.any_eq_false, decide_eq_true_eq] at hfree
      obtain ⟨⟨⟨h1, h2⟩, -⟩, h3⟩ := hfree
      refine ⟨start, hs, fun d'' hd => ?_⟩
      have h4 := ht d'' (R.anti (subset_acquire _ _ _) hd)
      rw [hk] at h4
      exact h4 n d hd h1 h2 fun m hm => h3 _ hm rfl
  case h_6 k hk =>
    cases hc
    refine ⟨start, hs, fun d'' hd => ?_⟩
    have h1 := ht d'' hd
    rw [hk] at h1
    exact h1 n
  case h_7 w k hk =>
    cases hc
    refine ⟨start, hs, fun d'' hd => ?_⟩
    have h1 := ht d'' hd
    rw [hk] at h1
    exact h1.2
  -- a transaction has ended: the next one begins with the store as it is
  case h_8 k hk =>
    cases hc
    have h1 := ht d (R.refl _ _)
    rw [hk] at h1
    exact ⟨_, R.refl _ _, h1.2⟩
  case h_9 e k hk =>
    cases hc
    have h1 := ht d (R.refl _ _)
    rw [hk] at h1
    exact ⟨_, R.refl _ _, h1.2⟩

/-- What is tracked, at the point the call has reached. -/
theorem Tracked.here (h : Tracked R O Post Err d c) :
    ∃ start, R.rel [] start d ∧ track R O Post Err c.prog ⟨start, d, c.ws, c.held, c.committed⟩ :=
  let ⟨start, hs, ht⟩ := h
  ⟨start, hs, ht d (R.refl _ _)⟩

theorem Tracked.commit (h : Tracked R O Post Err d c) {k} (hk : c.prog = .commit k) :
    ∃ start, R.rel [] start d ∧ O.commit (c.pt start d) := by
  obtain ⟨start, hs, ht⟩ := h.here
  rw [hk] at ht
  exact ⟨start, hs, ht.1⟩

theorem Tracked.rollback (h : Tracked R O Post Err d c) {e k} (hk : c.prog = .rollback e k) :
    ∃ start, R.rel [] start d ∧ O.rollback e (c.pt start d) := by
  obtain ⟨start, hs, ht⟩ := h.here
  rw [hk] at ht
  exact ⟨start, hs, ht.1⟩

theorem Tracked.lock (h : Tracked R O Post Err d c) {r m k} (hk : c.prog = .lock r m k) :
    ∃ start, R.rel [] start d ∧ (¬ Holds c.held r m → O.lock (c.pt start d) r m) := by
  obtain ⟨start, hs, ht⟩ := h.here
  rw [hk] at ht
  exact ⟨start, hs, ht.1⟩

theorem Tracked.write (h : Tracked R O Post Err d c) {w k} (hk : c.prog = .write w k) :
    ∃ start, R.rel [] start d ∧ O.write (c.pt start d) w := by
  obtain ⟨start, hs, ht⟩ := h.here
  rw [hk] at ht
  exact ⟨start, hs, ht.1⟩

theorem Tracked.ret (h : Tracked R O Post Err d c) {a} (hk : c.prog = .ret a) :
    ∃ start, R.rel [] start d ∧ Post a (c.pt start d) := by
  obtain ⟨start, hs, ht⟩ := h.here
  rw [hk] at ht
  exact ⟨start, hs, ht⟩

theorem Tracked.fail (h : Tracked R O Post Err d c) {e} (hk : c.prog = .fail e) :
    ∃ start, R.rel [] start d ∧ Err e (c.pt start d) := by
  obtain ⟨start, hs, ht⟩ := h.here
  rw [hk] at ht
  exact ⟨start, hs, ht⟩

end Txn
