import DreamFly.Conc.Ephemeral

/-!
# The commands of a call, in order

A protocol says which command a call may give in each phase, which phase each answer
leads to, and with which results the call may end in a phase. `Follows` says that a program keeps to
it and ends in a phase where its result
is right; each function of a program has one such specification, and there is one rule for each
kind of statement at the head of a program. `Conforms.step_cases` is what the runs need: the next
command of a
call is one its phase gives, and the call goes on from the phase the answer leads to.
-/

namespace Conc

/-- Phases; the commands given in each, with the phase after each answer; the results a
call may end with in each. -/
structure Protocol (M : Machine) (E A : Type) where
  Phase : Type
  gives : Phase → (c : M.Cmd) → (M.Reply c → Phase) → Prop
  ends : Except E A → Phase → Prop

variable {M : Machine} {E A α β : Type} {P : Protocol M E A} {post : α → P.Phase → Prop}
  {out : β → P.Phase → Prop} {σ : P.Phase}

namespace Code

/-- From phase `σ` on the program keeps to the protocol, and ends as `post` says. -/
def Follows (P : Protocol M E A) (post : α → P.Phase → Prop) : P.Phase → Code M E α → Prop
  | σ, ret a => post a σ
  | σ, fail e => P.ends (.error e) σ
  | σ, call c k => ∃ f, P.gives σ c f ∧ ∀ r, (k r).Follows P post (f r)

/-- A whole call: it ends as it may. -/
abbrev Keeps (P : Protocol M E A) (σ : P.Phase) (p : Code M E A) : Prop :=
  p.Follows P (fun a => P.ends (.ok a)) σ

theorem Follows.bind {p : Code M E α} {f : α → Code M E β} (h : p.Follows P post σ)
    (hf : ∀ a σ, post a σ → (f a).Follows P out σ) : (p >>= f).Follows P out σ := by
  rw [bind_def]
  induction p generalizing σ with
  | ret a => exact hf a σ h
  | fail e => exact h
  | call c k ih =>
    obtain ⟨g, hg, hk⟩ := h
    exact ⟨g, hg, fun r => ih r (hk r)⟩

/-- Whatever error it comes to, the handler goes on from there. -/
theorem Follows.tryCatch {p : Code M E α} {h : E → Code M E α} (hp : p.Follows P post σ)
    (hh : ∀ e σ, P.ends (.error e) σ → (h e).Follows P post σ) :
    (MonadExcept.tryCatch p h).Follows P post σ := by
  change (p.handle ret h).Follows P post σ
  induction p generalizing σ with
  | ret a => exact hp
  | fail e => exact hh e σ hp
  | call c k ih =>
    obtain ⟨g, hg, hk⟩ := hp
    exact ⟨g, hg, fun r => ih r (hk r)⟩

/-- A command at the head of a program. -/
theorem Follows.exec {c : M.Cmd} {f : M.Reply c → P.Phase} {k : M.Reply c → Code M E β}
    (hg : P.gives σ c f)
    (hk : ∀ r, (k r).Follows P out (f r)) : (Code.exec c >>= k).Follows P out σ :=
  ⟨f, hg, hk⟩

theorem Follows.mono {post' : α → P.Phase → Prop} {p : Code M E α} (h : p.Follows P post σ)
    (hpost : ∀ a σ, post a σ → post' a σ) : p.Follows P post' σ := by
  induction p generalizing σ with
  | ret a => exact hpost a σ h
  | fail e => exact h
  | call c k ih =>
    obtain ⟨g, hg, hk⟩ := h
    exact ⟨g, hg, fun r => ih r (hk r)⟩

theorem Follows.check {r : Except E α} {k : α → Code M E β}
    (he : ∀ e, r = .error e → P.ends (.error e) σ) (hk : ∀ a, r = .ok a → (k a).Follows P out σ) :
    ((Code.check r : Code M E α) >>= k).Follows P out σ := by
  cases r with
  | ok a => exact hk a rfl
  | error e => exact he e rfl

theorem Follows.ensure {c : Bool} {e : E} {k : Unit → Code M E β}
    (he : c = false → P.ends (.error e) σ) (hk : c = true → (k ()).Follows P out σ) :
    ((Code.ensure c e : Code M E Unit) >>= k).Follows P out σ := by
  cases c with
  | true => exact hk rfl
  | false => exact he rfl

theorem Follows.orFail {o : Option α} {e : E} {k : α → Code M E β}
    (he : o = none → P.ends (.error e) σ) (hk : ∀ a, o = some a → (k a).Follows P out σ) :
    ((Code.orFail o e : Code M E α) >>= k).Follows P out σ := by
  cases o with
  | some a => exact hk a rfl
  | none => exact he rfl

/-- **A call's next command is one its phase gives**, and the rest goes on from the phase
the answer leads to. -/
theorem Follows.advance {p p' : Code M E α} {t n : ℕ} {x x' : M.State} (h : p.Follows P post σ)
    (ha : p.advance t n x = some (p', x')) :
    ∃ c f r, P.gives σ c f ∧ p.next = some c ∧ M.exec t c n x = some (r, x') ∧
      p'.Follows P post (f r) := by
  cases p with
  | ret a => cases ha
  | fail e => cases ha
  | call c k =>
    obtain ⟨⟨r, y⟩, hx, heq⟩ := Option.map_eq_some_iff.1 ha
    obtain ⟨f, hg, hk⟩ := h
    cases heq
    exact ⟨c, f, r, hg, rfl, hx, hk r⟩

theorem Follows.gives {p : Code M E α} {c : M.Cmd} (h : p.Follows P post σ) (hn : p.next = some c) :
    ∃ f, P.gives σ c f := by
  cases p with
  | ret a => cases hn
  | fail e => cases hn
  | call c' k =>
    obtain ⟨f, hg, -⟩ := h
    cases hn
    exact ⟨f, hg⟩

/-- In a phase where it may not end, a call is about to give a command. -/
theorem Keeps.next {p : Code M E A} (h : p.Keeps P σ) (hσ : ∀ r, ¬P.ends r σ) :
    ∃ c f, P.gives σ c f ∧ p.next = some c := by
  cases p with
  | ret a => exact absurd h (hσ _)
  | fail e => exact absurd h (hσ _)
  | call c k =>
    obtain ⟨f, hg, -⟩ := h
    exact ⟨c, f, hg, rfl⟩

theorem Keeps.unfinished {p : Code M E A} (h : p.Keeps P σ) (hσ : ∀ r, ¬P.ends r σ) :
    p.finished = false := by
  cases p with
  | ret a => exact absurd h (hσ _)
  | fail e => exact absurd h (hσ _)
  | call c k => rfl

/-- In a phase without commands a call is over. -/
theorem Keeps.over {p : Code M E A} (h : p.Keeps P σ) (hσ : ∀ c f, ¬P.gives σ c f) :
    p.finished = true ∧ p.next = none := by
  cases p with
  | ret a => exact ⟨rfl, rfl⟩
  | fail e => exact ⟨rfl, rfl⟩
  | call c k =>
    obtain ⟨f, hg, -⟩ := h
    exact absurd hg (hσ c f)

/-- If every command leads to a phase of a lower rank, a call gives at most as many more
commands as the rank of its phase. -/
theorem Follows.within {rank : P.Phase → ℕ} {p : Code M E α} {k : ℕ}
    (hrank : ∀ σ c f, P.gives σ c f → 0 < rank σ ∧ ∀ r, rank (f r) < rank σ)
    (h : p.Follows P post σ) (hk : rank σ ≤ k) :
    p.Within k := by
  induction p generalizing σ k with
  | ret a => cases k <;> trivial
  | fail e => cases k <;> trivial
  | call c f ih =>
    obtain ⟨g, hg, hf⟩ := h
    obtain ⟨hpos, hlt⟩ := hrank σ c g hg
    cases k with
    | zero => omega
    | succ k => exact fun r => ih r (hf r) (by have := hlt r; omega)

end Code

/-! ## With a short-lived store -/

section store
variable {K V : Type} [DecidableEq K] {e : E} {P : Protocol (M.withStore K V) E A}
  {out : β → P.Phase → Prop} {σ : P.Phase}

theorem Code.Follows.tryStore {c : StoreCmd K V} {f : Except StoreError c.Answer → P.Phase}
    {k : Except StoreError c.Answer → Code (M.withStore K V) E β}
    (hg : P.gives σ (WithCmd.store c) f)
    (hk : ∀ r, (k r).Follows P out (f r)) : (Code.tryStore c >>= k).Follows P out σ :=
  ⟨f, hg, hk⟩

/-- A command of the store that ends the call when it fails. -/
theorem Code.Follows.store {c : StoreCmd K V} {f : Except StoreError c.Answer → P.Phase}
    {k : c.Answer → Code (M.withStore K V) E β} (hg : P.gives σ (WithCmd.store c) f)
    (he : ∀ x, P.ends (.error e) (f (.error x))) (hk : ∀ a, (k a).Follows P out (f (.ok a))) :
    (Code.store e c >>= k).Follows P out σ := by
  refine ⟨f, hg, fun r => ?_⟩
  cases r with
  | ok a => exact hk a
  | error x => exact he x

theorem Code.Follows.other {c : M.Cmd} {f : M.Reply c → P.Phase}
    {k : M.Reply c → Code (M.withStore K V) E β}
    (hg : P.gives σ (WithCmd.other c) f) (hk : ∀ r, (k r).Follows P out (f r)) :
    (Code.other c >>= k).Follows P out σ :=
  ⟨f, hg, hk⟩

/-- A command at the end of a program. -/
theorem Code.Follows.lastStore {c : StoreCmd K V} {f : Except StoreError c.Answer → P.Phase}
    {post : c.Answer → P.Phase → Prop}
    (hg : P.gives σ (WithCmd.store c) f) (he : ∀ x, P.ends (.error e) (f (.error x)))
    (h : ∀ a, post a (f (.ok a))) :
    (Code.store e c : Code (M.withStore K V) E _).Follows P post σ := by
  refine ⟨f, hg, fun r => ?_⟩
  cases r with
  | ok a => exact h a
  | error x => exact he x

theorem Code.Follows.lastOther {c : M.Cmd} {f : M.Reply c → P.Phase}
    {post : M.Reply c → P.Phase → Prop}
    (hg : P.gives σ (WithCmd.other c) f) (h : ∀ r, post r (f r)) :
    (Code.other c : Code (M.withStore K V) E _).Follows P post σ :=
  ⟨f, hg, h⟩

end store

/-! ## Runs -/

namespace Service

variable {Q : Type} {V : Service M E A Q} {s s' : Sys M E A Q} {e : Event M Q}

/-- Every call is in a phase of its request's protocol that `ok` allows, and keeps to the
protocol from there on. -/
def Conforms (P : Q → Protocol M E A) (ok : ℕ → (q : Q) → (P q).Phase → Prop)
    (s : Sys M E A Q) : Prop :=
  ∀ t c, s.call t = some c → ∃ σ, ok t c.req σ ∧ c.prog.Keeps (P c.req) σ

/-- A command of call `t` in phase `σ`: command `c` with outcome `n` and answer `r`, after
which the call is in phase `f r`. -/
structure Gave (P : Q → Protocol M E A) (s s' : Sys M E A Q) (t n : ℕ) (q : Q) (p p' : Code M E A)
    (c : M.Cmd) (r : M.Reply c)
    (σ : (P q).Phase) (f : M.Reply c → (P q).Phase) (x : M.State) : Prop where
  call : s.call t = some ⟨q, p⟩
  here : p.Keeps (P q) σ
  gives : (P q).gives σ c f
  next : p.next = some c
  exec : M.exec t c n s.state = some (r, x)
  rest : p'.Keeps (P q) (f r)
  after : s' = s.set t ⟨q, p'⟩ x

variable {P : Q → Protocol M E A} {ok ok' : ℕ → (q : Q) → (P q).Phase → Prop}

namespace Gave
variable {t n : ℕ} {q : Q} {p p' : Code M E A} {c : M.Cmd} {r : M.Reply c} {σ : (P q).Phase}
  {f : M.Reply c → (P q).Phase}
  {x : M.State}

theorem does (h : Gave P s s' t n q p p' c r σ f x) : s.does (.step t n) = some (q, c, n) := by
  rw [Sys.does_step h.call, h.next, Option.map_some]

/-- How many calls are in a given situation, before and after. -/
theorem tally (h : Gave P s s' t n q p p' c r σ f x) (w : Call M E A Q → Bool) :
    s'.tally w + (if w ⟨q, p⟩ then 1 else 0) = s.tally w + if w ⟨q, p'⟩ then 1 else 0 := by
  rw [h.after]
  exact Sys.tally_set h.call

theorem tally_same {w : Call M E A Q → Bool} (h : Gave P s s' t n q p p' c r σ f x)
    (hw : w ⟨q, p⟩ = false)
    (hw' : w ⟨q, p'⟩ = false) : s'.tally w = s.tally w := by
  have := h.tally w
  simp only [hw, hw', Bool.false_eq_true, if_false] at this
  omega

theorem unfinished (h : Gave P s s' t n q p p' c r σ f x) : p.finished = false := by
  have hn := h.next
  cases p with
  | call c k => rfl
  | ret a => cases hn
  | fail e => cases hn

theorem state (h : Gave P s s' t n q p p' c r σ f x) : s'.state = x := by
  rw [h.after, Sys.set_state]

end Gave

/-- **What an event is**, where calls keep to their protocols. -/
theorem Conforms.step_cases (h : Conforms P ok s) (he : V.lts.step e s = some s') :
    (∃ t q, e = .start t q ∧ s.call t = none ∧ s' = s.set t ⟨q, V.prog q⟩ s.state) ∨
    (∃ t n q p p' c r σ f x, e = .step t n ∧ ok t q σ ∧ Gave P s s' t n q p p' c r σ f x) ∨
    (∃ v, e = .env v ∧ s' = { s with state := M.env v s.state }) := by
  rcases Service.step_cases he with h1 | ⟨t, n, q, p, p', x, rfl, ht, hx, rfl⟩ | h3
  · exact .inl h1
  · obtain ⟨σ, hok, hf⟩ := h t _ ht
    obtain ⟨c, f, r, hg, hnext, hexec, hrest⟩ := hf.advance hx
    exact .inr (.inl ⟨t, n, q, p, p', c, r, σ, f, x, rfl, hok, ht, hf, hg, hnext, hexec,
      hrest, rfl⟩)
  · exact .inr (.inr h3)

/-- **A call by itself**: others step, or it gives the next command of its phase. -/
theorem step_own {t : ℕ} {q : Q} {p : Code M E A} {σ : (P q).Phase} (hc : s.call t = some ⟨q, p⟩)
    (hk : p.Keeps (P q) σ)
    (he : V.lts.step e s = some s') :
    (s'.call t = some ⟨q, p⟩ ∧ ∀ n, e ≠ .step t n) ∨
      ∃ n p' c r f x, e = .step t n ∧ Gave P s s' t n q p p' c r σ f x := by
  rcases Service.step_cases he with ⟨u, q', rfl, hn, rfl⟩ |
      ⟨u, n, q', p₁, p', x, rfl, hu, hx, rfl⟩ | ⟨v, rfl, rfl⟩
  · have hne : t ≠ u := fun heq => by
      rw [heq, hn] at hc
      cases hc
    exact .inl ⟨by rw [Sys.call_set_ne _ hne, hc], fun _ => by nofun⟩
  · by_cases hne : t = u
    · subst hne
      rw [hc] at hu
      cases hu
      obtain ⟨c, f, r, hg, hnext, hexec, hrest⟩ := hk.advance hx
      exact .inr ⟨n, p', c, r, f, x, rfl, hc, hk, hg, hnext, hexec, hrest, rfl⟩
    · exact .inl ⟨by rw [Sys.call_set_ne _ hne, hc], fun m heq => hne (by cases heq; rfl)⟩
  · exact .inl ⟨hc, fun _ => by nofun⟩

/-- **Calls keep to the protocol.** -/
theorem Conforms.step (h : Conforms P ok s) (he : V.lts.step e s = some s')
    (hstart : ∀ t q, e = .start t q → ∃ σ, ok' t q σ ∧ (V.prog q).Keeps (P q) σ)
    (hmono : ∀ t c σ, (∀ n, e ≠ .step t n) → s.call t = some c → c.prog.Keeps (P c.req) σ →
      ok t c.req σ → ok' t c.req σ)
    (hstep : ∀ t n q p p' c r σ f x, e = .step t n → ok t q σ → Gave P s s' t n q p p' c r σ f x →
      ok' t q (f r)) :
    Conforms P ok' s' := by
  -- the call that moves is where its command has left it, the others are where they were
  intro u c hu
  rcases h.step_cases he with ⟨t, q, rfl, hn, rfl⟩ | ⟨t, n, q, p, p', c, r, σ, f, x, rfl, hok, hg⟩ |
      ⟨v, rfl, rfl⟩
  · rw [Sys.call_set] at hu
    split at hu
    · next hut =>
      subst hut
      cases hu
      exact hstart _ q rfl
    · obtain ⟨σ, h1, h2⟩ := h u c hu
      exact ⟨σ, hmono _ _ _ (fun _ => nofun) hu h2 h1, h2⟩
  · have hs := hg.after
    rw [hs, Sys.call_set] at hu
    split at hu
    · next hut =>
      subst hut
      cases hu
      exact ⟨f r, hstep _ n q p p' c r σ f x rfl hok hg, hg.rest⟩
    · next hut =>
      obtain ⟨σ, h1, h2⟩ := h u _ hu
      exact ⟨σ, hmono _ _ _ (fun n he => hut (by cases he; rfl)) hu h2 h1, h2⟩
  · obtain ⟨σ, h1, h2⟩ := h u c hu
    exact ⟨σ, hmono _ _ _ (fun _ => nofun) hu h2 h1, h2⟩

/-- A protocol alone, with nothing asked of the phases. -/
theorem Conforms.keep (h : Conforms P (fun _ _ _ => True) s) (he : V.lts.step e s = some s')
    (hstart : ∀ q, ∃ σ, (V.prog q).Keeps (P q) σ) : Conforms P (fun _ _ _ => True) s' :=
  h.step he (fun _ q _ => (hstart q).imp fun _ hσ => ⟨trivial, hσ⟩) (fun _ _ _ _ _ _ _ => trivial)
    fun _ _ _ _ _ _ _ _ _ _ _ _ _ => trivial

end Service

end Conc
