import DreamFly.Txn.Sound
import DreamFly.Txn.Sql

/-!
# Calls that fail without a trace

A program may go on after a commit, and fail there. `Careful late` says that once it has
committed a write it fails with `late` errors only. Whoever gets another error knows that
the call has changed nothing (`reach_traceless`), also when it has committed a
transaction without a write.
-/

namespace Txn

variable {S : Schema} {E A Q α β : Type}

/-- What a call has done: nothing; written, without a commit; committed a write. -/
inductive Trace
  | clean
  | dirty
  | changed
deriving DecidableEq

namespace Trace

def write : Trace → Trace
  | .changed => .changed
  | _ => .dirty

def commit : Trace → Trace
  | .dirty => .changed
  | g => g

def rollback : Trace → Trace
  | .dirty => .clean
  | g => g

end Trace

theorem Trace.write_ne {g : Trace} (h : g ≠ .changed) : g.write ≠ .changed := by
  cases g with
  | changed => exact absurd rfl h
  | _ => exact fun hg => by cases hg

/-- From `g` on the program fails with `late` errors only where it has committed a write;
`post` says what it has done when it ends with a result. -/
def Prog.Careful (late : E → Prop) (post : Trace → α → Prop) : Trace → Prog S E α → Prop
  | g, .ret a => post g a
  | g, .fail e => g = .changed → late e
  | g, .view k => ∀ v, (k v).Careful late post g
  | g, .lock _ _ k => k.Careful late post g
  | g, .fresh _ _ k => ∀ n, (k n).Careful late post g
  | g, .pick k => ∀ n, (k n).Careful late post g
  | g, .write _ k => k.Careful late post g.write
  | g, .commit k => k.Careful late post g.commit
  | g, .rollback _ k => k.Careful late post g.rollback

namespace Prog.Careful

variable {late : E → Prop} {post : Trace → β → Prop} {M : Trace → α → Prop} {ok : α → Prog S E β}
  {err : E → Prog S E β}
  {p : Prog S E α} {g : Trace}

theorem handle (h : p.Careful late M g) (hok : ∀ g a, M g a → (ok a).Careful late post g)
    (herr : ∀ g e, (g = .changed → late e) → (err e).Careful late post g) :
    (p.handle ok err).Careful late post g := by
  induction p generalizing g with
  | ret a => exact hok g a h
  | fail e => exact herr g e h
  | view k ih => exact fun v => ih v (h v)
  | lock r m k ih => exact ih h
  | fresh t key k ih => exact fun n => ih n (h n)
  | pick k ih => exact fun n => ih n (h n)
  | write w k ih => exact ih h
  | commit k ih => exact ih h
  | rollback e k ih => exact ih h

theorem bind {k : α → Prog S E β} (h : p.Careful late M g)
    (hk : ∀ g a, M g a → (k a).Careful late post g) :
    (p >>= k).Careful late post g :=
  h.handle hk fun _ _ he => he

theorem mono {M' : Trace → α → Prop} (h : p.Careful late M g) (hm : ∀ g a, M g a → M' g a) :
    p.Careful late M' g := by
  induction p generalizing g with
  | ret a => exact hm g a h
  | fail e => exact h
  | view k ih => exact fun v => ih v (h v)
  | lock r m k ih => exact ih h
  | fresh t key k ih => exact fun n => ih n (h n)
  | pick k ih => exact fun n => ih n (h n)
  | write w k ih => exact ih h
  | commit k ih => exact ih h
  | rollback e k ih => exact ih h

/-- A transaction: what has been written is committed at its end. -/
theorem atomically {M : Trace → β → Prop} {p : Prog S E β} (h : p.Careful late M g)
    (hpost : ∀ g a, M g a → post g.commit a) : p.atomically.Careful late post g := by
  refine h.handle (fun g a ha => hpost g a ha) fun g e he => ?_
  intro hg
  refine he ?_
  cases g with
  | changed => rfl
  | clean => cases hg
  | dirty => cases hg

/-! What does not write is at the end where it was at its start. -/

theorem orFail (o : Option α) {e : E} (he : g = .changed → late e) :
    (Prog.orFail o e : Prog S E α).Careful late (fun g' a => g' = g ∧ o = some a) g := by
  cases o with
  | some a => exact ⟨rfl, rfl⟩
  | none => exact he

theorem ensure (c : Bool) {e : E} (he : g = .changed → late e) :
    (Prog.ensure c e : Prog S E Unit).Careful late (fun g' _ => g' = g) g := by
  cases c with
  | true => rfl
  | false => exact he

theorem checked {r : Except E α} (he : ∀ e, r = .error e → g = .changed → late e) :
    (Prog.checked r : Prog S E α).Careful late (fun g' _ => g' = g) g := by
  cases r with
  | ok a => rfl
  | error e => exact he e rfl

theorem read (f : Store S → α) : (Prog.read f : Prog S E α).Careful late (fun g' _ => g' = g) g :=
    fun _ => rfl

theorem lockRes (r : Res S) (m : Mode) : (Prog.lockRes r m : Prog S E Unit).Careful late
    (fun g' _ => g' = g) g := rfl

theorem put (w : Write S) : (Prog.put w : Prog S E Unit).Careful late
    (fun g' _ => g' = g.write) g := rfl

theorem choose : (Prog.choose : Prog S E ℕ).Careful late (fun g' _ => g' = g) g := fun _ => rfl

theorem insert (t : S.Tbl) (key : ℕ → S.Key t) (row : ℕ → S.Row t) :
    (Prog.insert t key row : Prog S E ℕ).Careful late (fun g' _ => g' = g.write) g := fun _ => rfl

theorem claim (r : Res S) (taken : Store S → Bool) :
    (Prog.claim r taken : Prog S E Bool).Careful late (fun g' _ => g' = g) g := fun _ => rfl

theorem recheck (t : S.Tbl) (k : S.Key t) (p : S.Row t → Bool) (m : Mode) :
    (Prog.recheck t k p m : Prog S E (Option (S.Row t))).Careful late (fun g' _ => g' = g) g :=
    fun _ => rfl

theorem references (t : S.Tbl) (k : S.Key t) {e : E} (he : g = .changed → late e) :
    (Prog.references t k e : Prog S E Unit).Careful late (fun g' _ => g' = g) g := by
  unfold Prog.references
  refine (read _).bind fun g' r hg => ?_
  subst hg
  split
  · exact he
  · exact lockRes _ _

theorem selectFor (t : S.Tbl) (k : S.Key t) (p : S.Row t → Bool) (m : Mode) :
    (Prog.selectFor t k p m : Prog S E (Option (S.Row t))).Careful late (fun g' _ => g' = g) g := by
  unfold Prog.selectFor
  refine (read _).bind fun g' r hg => ?_
  subst hg
  split
  · exact rfl
  · exact recheck t k p m

/-- An UPDATE that finds no row writes nothing. -/
theorem updateRow (t : S.Tbl) (k : S.Key t) (p : S.Row t → Bool) (f : S.Row t → S.Row t) :
    (Prog.updateRow t k p f : Prog S E (Option (S.Row t))).Careful late
      (fun g' r => g' = if r.isSome then g.write else g) g := by
  unfold Prog.updateRow
  refine (selectFor t k p _).bind fun g' r hg => ?_
  subst hg
  cases r with
  | none => exact rfl
  | some r => exact rfl

end Prog.Careful

/-! ## Runs -/

section runs
variable {V : Service S E A Q} {late : E → Prop} {ok : Sys S E A Q → Event Q → Sys S E A Q → Prop}
  {s s' : Sys S E A Q}
  {c c' : Call S E A Q} {t : ℕ} {g : Trace}

/-- What a call with trace `g` may still do, and that it has written nothing yet if it is clean. -/
def Call.Careful (late : E → Prop) (g : Trace) (c : Call S E A Q) : Prop :=
  c.prog.Careful late (fun _ _ => True) g ∧ (g = .clean → c.ws = [])

/-- A call that has changed nothing after an operation has not changed anything by it. -/
theorem Call.Careful.advance {busy : Res S → Mode → Bool} {n : ℕ} {d d' : Store S}
    (h : c.Careful late g)
    (ha : c.advance busy n d = some (d', c')) : ∃ g', c'.Careful late g' ∧
      (g' ≠ .changed → g ≠ .changed ∧ d' = d) := by
  obtain ⟨hp, hws⟩ := h
  unfold Call.advance at ha
  split at ha
  · cases ha
  · cases ha
  case h_3 k hk =>
    cases ha
    rw [hk] at hp
    exact ⟨g, ⟨hp _, hws⟩, fun hg => ⟨hg, rfl⟩⟩
  case h_4 r m k hk =>
    split at ha
    · cases ha
    · cases ha
      rw [hk] at hp
      exact ⟨g, ⟨hp, hws⟩, fun hg => ⟨hg, rfl⟩⟩
  case h_5 t key k hk =>
    simp only at ha
    split at ha
    · cases ha
    · cases ha
      rw [hk] at hp
      exact ⟨g, ⟨hp n, hws⟩, fun hg => ⟨hg, rfl⟩⟩
  case h_6 k hk =>
    cases ha
    rw [hk] at hp
    exact ⟨g, ⟨hp n, hws⟩, fun hg => ⟨hg, rfl⟩⟩
  case h_7 w k hk =>
    cases ha
    rw [hk] at hp
    refine ⟨g.write, ⟨hp, fun hg => ?_⟩, fun hg => ⟨?_, rfl⟩⟩
    · cases g <;> cases hg
    · rintro rfl
      exact hg rfl
  case h_8 k hk =>
    cases ha
    rw [hk] at hp
    refine ⟨g.commit, ⟨hp, fun _ => rfl⟩, fun hg => ?_⟩
    -- a call that has written nothing commits the store as it is
    cases g with
    | clean => exact ⟨hg, by rw [Call.sees, hws rfl, Store.overlay_nil]⟩
    | dirty => exact absurd rfl hg
    | changed => exact absurd rfl hg
  case h_9 e k hk =>
    cases ha
    rw [hk] at hp
    refine ⟨g.rollback, ⟨hp, fun _ => rfl⟩, fun hg => ⟨?_, rfl⟩⟩
    rintro rfl
    exact hg rfl

/-- A careful call stays careful, and as long as it has changed nothing none of its events has. -/
theorem reach_careful {q : Q} (hV : (V.prog q).Careful late (fun _ _ => True) .clean)
    (hcrash : late V.crash) {d : Store S}
    (h : V.Reach ok (Sys.init d) s) (hc : s.call t = some c) (hq : c.req = q) :
    ∃ g, c.Careful late g ∧
      (g ≠ .changed → V.Reach (fun a e b => ok a e b ∧ (e.call = t → b.db = a.db))
        (Sys.init d) s) := by
  -- before the call starts none of its events happens
  suffices H : (s.call t = none → V.Reach (fun a e b => ok a e b ∧ (e.call = t → b.db = a.db))
      (Sys.init d) s) ∧
      ∀ c, s.call t = some c → c.req = q → ∃ g, c.Careful late g ∧
        (g ≠ .changed → V.Reach (fun a e b => ok a e b ∧ (e.call = t → b.db = a.db)) (Sys.init d) s)
          from H.2 c hc hq
  clear hc hq
  induction h with
  | refl => exact ⟨fun _ => .refl, fun c hc => by rw [Sys.call_init] at hc; cases hc⟩
  | @tail s₁ s₂ _ hst ih =>
    obtain ⟨e, he, hok⟩ := hst
    obtain ⟨ihn, ihc⟩ := ih
    -- an event of another call leaves this one as it is
    have hother : e.call ≠ t → s₂.call t = s₁.call t → (s₂.call t = none →
        V.Reach (fun a e b => ok a e b ∧ (e.call = t → b.db = a.db)) (Sys.init d) s₂) ∧
        ∀ c, s₂.call t = some c → c.req = q → ∃ g, c.Careful late g ∧
          (g ≠ .changed → V.Reach (fun a e b => ok a e b ∧ (e.call = t → b.db = a.db))
            (Sys.init d) s₂) := by
      intro hne hsame
      have hlast := (⟨e, he, hok, fun h => absurd h hne⟩ : V.Step (fun a e b => ok a e b ∧
        (e.call = t → b.db = a.db)) s₁ s₂)
      refine ⟨fun hn => (ihn (hsame ▸ hn)).tail hlast, fun c hc hq => ?_⟩
      obtain ⟨g, hg, hr⟩ := ihc c (hsame ▸ hc) hq
      exact ⟨g, hg, fun h => (hr h).tail hlast⟩
    rcases step_cases he with ⟨u, q', rfl, hn, rfl⟩ | ⟨u, n, c₁, c', d', rfl, hu, ha, rfl⟩ |
        ⟨u, c₁, rfl, hu, -, rfl⟩
    all_goals
      by_cases htu : t = u
      swap
      · exact hother (fun h => htu h.symm) (Sys.call_set_ne _ htu ..)
      subst htu
      refine ⟨fun h => ?_, fun c hc hq => ?_⟩
      · rw [Sys.call_set_self] at h
        cases h
      rw [Sys.call_set_self] at hc
      cases hc
    · have hq' : q' = q := hq
      subst hq'
      exact ⟨.clean, ⟨hV, fun _ => rfl⟩, fun _ => (ihn hn).tail ⟨_, he, hok, fun _ => rfl⟩⟩
    · have hreq : c₁.req = q := (advance_inv ha).1 ▸ hq
      obtain ⟨g, hg, hr⟩ := ihc c₁ hu hreq
      obtain ⟨g', hg', hsame⟩ := hg.advance ha
      exact ⟨g', hg', fun h => (hr (hsame h).1).tail ⟨_, he, hok, fun _ => (hsame h).2⟩⟩
    · obtain ⟨g, hg, hr⟩ := ihc c₁ hu hq
      exact ⟨g, ⟨fun _ => hcrash, fun _ => rfl⟩, fun h => (hr h).tail ⟨_, he, hok, fun _ => rfl⟩⟩

/-- **A call that fails with an error that is not late has changed nothing.** -/
theorem reach_traceless {q : Q} (hV : (V.prog q).Careful late (fun _ _ => True) .clean)
    (hcrash : late V.crash) {d : Store S}
    {x : E} (h : V.Reach ok (Sys.init d) s) (hc : s.call t = some c) (hq : c.req = q)
    (hx : c.prog = .fail x) (hlate : ¬late x) :
    V.Reach (fun a e b => ok a e b ∧ (e.call = t → b.db = a.db)) (Sys.init d) s := by
  obtain ⟨g, ⟨hp, -⟩, hr⟩ := reach_careful hV hcrash h hc hq
  rw [hx] at hp
  exact hr fun hg => hlate (hp hg)

end runs

end Txn
