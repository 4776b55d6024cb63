import DreamFly.Auth.ResetTokens

/-!
# Which reset links work

A token is stored once and taken away with the answer that accepts it, so it is accepted
at most once in any run (`accepted_once`). That only the newest link works rests on the
index naming every token that is still accepted, and `issue` and `consume` write and delete
the index in commands of their own: it holds in the runs whose steps are `orderly`.
-/

namespace DreamFly.Reset

open Conc Code

/-! ## What has happened -/

/-- Who drew a token, how often it was accepted, in which order the calls started, and of
each user's completed issues the one that started last, with its token. -/
structure History where
  owner : Token → Option ℕ
  accepted : Token → ℕ
  starts : ℕ
  begun : ℕ → ℕ
  latest : Uuid → Option (ℕ × Token)

namespace History

def none : History := ⟨fun _ => .none, fun _ => 0, 0, fun _ => 0, fun _ => .none⟩

def start (t : ℕ) (h : History) : History :=
  { h with begun := Function.update h.begun t h.starts, starts := h.starts + 1 }

def draw (t : ℕ) (τ : Token) (h : History) : History :=
  { h with owner := Function.update h.owner τ (some t) }

def accept (τ : Token) (h : History) : History :=
  { h with accepted := Function.update h.accepted τ (h.accepted τ + 1) }

/-- Call `t`, an issue of user `u`, is over. -/
def complete (t : ℕ) (u : Uuid) (τ : Token) (h : History) : History :=
  match h.latest u with
  | some (k, _) =>
    if h.begun t < k then h
    else { h with latest := Function.update h.latest u (some (h.begun t, τ)) }
  | .none => { h with latest := Function.update h.latest u (some (h.begun t, τ)) }

theorem complete_owner (t : ℕ) (u : Uuid) (τ : Token) (h : History) :
    (h.complete t u τ).owner = h.owner := by
  unfold complete
  split
  · split <;> rfl
  · rfl

theorem complete_accepted (t : ℕ) (u : Uuid) (τ : Token) (h : History) :
    (h.complete t u τ).accepted = h.accepted := by
  unfold complete
  split
  · split <;> rfl
  · rfl

theorem complete_begun (t : ℕ) (u : Uuid) (τ : Token) (h : History) :
    (h.complete t u τ).begun = h.begun ∧ (h.complete t u τ).starts = h.starts := by
  unfold complete
  split
  · split <;> exact ⟨rfl, rfl⟩
  · exact ⟨rfl, rfl⟩

theorem complete_latest (t : ℕ) (u : Uuid) (τ : Token) (h : History) :
    (h.complete t u τ).latest = h.latest ∨
      (h.complete t u τ).latest = Function.update h.latest u (some (h.begun t, τ)) := by
  unfold complete
  split
  · split
    · exact .inl rfl
    · exact .inr rfl
  · exact .inr rfl

/-- An issue that started after every issue that is over. -/
theorem complete_newest {t : ℕ} {u : Uuid} {τ : Token} {h : History}
    (ht : ∀ k τ', h.latest u = some (k, τ') → k < h.begun t) :
    (h.complete t u τ).latest = Function.update h.latest u (some (h.begun t, τ)) := by
  unfold complete
  split
  · next k τ' hl =>
    have := ht k τ' hl
    rw [if_neg (by omega)]
  · rfl

def after (h : History) (x : Ephemeral Key Stored) (t : ℕ) : Req → backend.Cmd → ℕ → History
  | .issue _, .other (), n => h.draw t n
  | .issue u, .store (.setEx (.index _) (.token τ) _), n =>
    if n = 1 ∨ n = 2 then h else h.complete t u τ
  | .consume τ, .store (.getdel (.token _)), n =>
    match afterTake (x.exec (.getdel (.token τ)) n).1 with
    | .unindex _ => h.accept τ
    | _ => h
  | _, _, _ => h

def note (h : History) (s : Sys backend AppError Reply Req) (e : Event backend Req)
    (_ : Sys backend AppError Reply Req) :
    History :=
  match e, s.does e with
  | .start t _, _ => h.start t
  | .step t _, some (q, c, n) => h.after s.state.1 t q c n
  | _, _ => h

end History

abbrev State := Sys backend AppError Reply Req × History

abbrev resetting : Lts State (Event backend Req) := tokens.lts.noting History.note

/-- Nothing stored, no call yet. -/
def fresh (now : ℕ) : State := (.init (.empty now, ()), .none)

/-- `consume` accepts the token, for user `u`. -/
def Live (x : State) (u : Uuid) (τ : Token) : Prop :=
  x.1.state.1.value (.token τ) = some (.text (.user u))

/-- The index of user `u` names a token that is accepted. -/
def named (x : State) (u : Uuid) : Bool :=
  match x.1.state.1.value (.index u) with
  | some (.text (.token τ)) => x.1.state.1.value (.token τ) = some (.text (.user u))
  | _ => false

/-- An `issue` of user `u` in flight. -/
def issuing (u : Uuid) (c : Call backend AppError Reply Req) : Bool :=
  c.req = .issue u && !c.prog.finished

/-- No 32 bytes are drawn twice. -/
def freshDraw (x : State) (e : Event backend Req) : Bool :=
  match x.1.does e with
  | some (.issue _, .other (), n) => (x.2.owner n).isNone
  | _ => true

/-- The order in which only the newest link works: a user's issues come one after the
other; the index is deleted or lost only while it names no token that is accepted; the
store does not fail an issue whose token it has stored; no token outlives its lifetime. -/
def orderly (x : State) (e : Event backend Req) : Bool :=
  match e with
  | .start _ (.issue u) => x.1.tally (issuing u) = 0
  | .env (.inl (.linger (.token _) _)) => false
  | .env (.inl (.evict (.index u))) => !named x u
  | _ =>
    match x.1.does e with
    | some (.issue _, .store (.setEx (.token _) _ _), n) => n ≠ 2
    | some (.issue _, .store (.setEx (.index _) _ _), n) => n ≠ 1 && n ≠ 2
    | some (.consume _, .store (.del (.index u)), _) => !named x u
    | _ => true

/-- When no call is in flight the only token of a user that is accepted is that of the last
issue, and no token has been accepted twice. -/
def OnlyNewest (x : State) : Prop :=
  (x.1.Quiescent → ∀ u τ, Live x u τ → ∃ k, x.2.latest u = some (k, τ)) ∧ ∀ τ, x.2.accepted τ ≤ 1

/-! ## A token is accepted once -/

section once
variable {x y : State} {e : Event backend Req} {t n : ℕ} {q : Req}
  {p p' : Code backend AppError Reply} {c : backend.Cmd}
  {r : backend.Reply c} {σ : Phase} {f : backend.Reply c → Phase} {d : backend.State} {τ : Token}

/-- What is stored under a token. -/
abbrev held (x : State) (τ : Token) : Option (Val Stored) := x.1.state.1.value (.token τ)

/-- A token nobody drew was never stored; one that is stored was not accepted. -/
structure Spent (x : State) : Prop where
  once : ∀ τ, x.2.accepted τ ≤ 1
  unspent : ∀ τ a, held x τ = some a → x.2.accepted τ = 0
  undrawn : ∀ τ, x.2.owner τ = none → held x τ = none ∧ x.2.accepted τ = 0

/-- The token of a call that has not stored it yet. -/
def Unused (x : State) (t : ℕ) (τ : Token) : Prop := x.2.owner τ = some t ∧ held x τ = none ∧
    x.2.accepted τ = 0

def unused (x : State) (t : ℕ) (_ : Req) : Phase → Prop
  | .look τ | .clear τ _ | .store τ => Unused x t τ
  | _ => True

/-- What an event does to the tokens. -/
inductive Effect (x y : State) : Event backend Req → Prop
  | quiet {e : Event backend Req} (hheld : ∀ τ a, held y τ = some a → held x τ = some a)
  (howner : y.2.owner = x.2.owner)
    (hacc : y.2.accepted = x.2.accepted) : Effect x y e
  | drawn (t n : ℕ) (hheld : ∀ τ, held y τ = held x τ) (hnew : x.2.owner n = none)
    (howner : y.2.owner = Function.update x.2.owner n (some t))
    (hacc : y.2.accepted = x.2.accepted) : Effect x y (.step t n)
  | stored (t n : ℕ) (τ : Token) (hτ : Unused x t τ) (hheld : ∀ τ' a, τ' ≠ τ → held y τ' = some a →
    held x τ' = some a)
    (howner : y.2.owner = x.2.owner) (hacc : y.2.accepted = x.2.accepted) : Effect x y (.step t n)
  | taken {e : Event backend Req} (τ : Token) (a : Val Stored) (hτ : held x τ = some a)
  (hgone : held y τ = none)
    (hheld : ∀ τ' a, held y τ' = some a → held x τ' = some a) (howner : y.2.owner = x.2.owner)
    (hacc : y.2.accepted = Function.update x.2.accepted τ (x.2.accepted τ + 1)) : Effect x y e

theorem none_of_held {o o' : Option (Val Stored)} (h : ∀ a, o' = some a → o = some a)
    (ho : o = none) : o' = none := by
  rw [Option.eq_none_iff_forall_ne_some]
  intro a ha
  rw [h a ha] at ho
  cases ho

theorem Spent.effect (h : Spent x) (he : Effect x y e) : Spent y := by
  cases he with
  | quiet hheld howner hacc =>
    refine ⟨fun τ => ?_, fun τ a ha => ?_, fun τ hτ => ?_⟩
    · rw [hacc]
      exact h.once τ
    · rw [hacc]
      exact h.unspent τ a (hheld τ a ha)
    · rw [howner] at hτ
      rw [hacc]
      obtain ⟨h1, h2⟩ := h.undrawn τ hτ
      exact ⟨none_of_held (hheld τ) h1, h2⟩
  | drawn t n hheld hnew howner hacc =>
    refine ⟨fun τ => ?_, fun τ a ha => ?_, fun τ hτ => ?_⟩
    · rw [hacc]
      exact h.once τ
    · rw [hacc]
      rw [hheld] at ha
      exact h.unspent τ a ha
    · rw [howner] at hτ
      by_cases hn : τ = n
      · rw [hn, Function.update_self] at hτ
        cases hτ
      · rw [Function.update_of_ne hn] at hτ
        rw [hacc, hheld]
        exact h.undrawn τ hτ
  | stored t n τ₀ hτ₀ hheld howner hacc =>
    obtain ⟨ho, hn, ha0⟩ := hτ₀
    refine ⟨fun τ => ?_, fun τ a ha => ?_, fun τ hτ => ?_⟩
    · rw [hacc]
      exact h.once τ
    · rw [hacc]
      by_cases hτ : τ = τ₀
      · rw [hτ]
        exact ha0
      · exact h.unspent τ a (hheld τ a hτ ha)
    · rw [howner] at hτ
      have hne : τ ≠ τ₀ := fun heq => by rw [heq, ho] at hτ; cases hτ
      rw [hacc]
      obtain ⟨h1, h2⟩ := h.undrawn τ hτ
      exact ⟨none_of_held (fun a => hheld τ a hne) h1, h2⟩
  | taken τ₀ a₀ hτ₀ hgone hheld howner hacc =>
    have h0 := h.unspent τ₀ a₀ hτ₀
    refine ⟨fun τ => ?_, fun τ a ha => ?_, fun τ hτ => ?_⟩
    · rw [hacc]
      by_cases hτ : τ = τ₀
      · rw [hτ, Function.update_self, h0]
      · rw [Function.update_of_ne hτ]
        exact h.once τ
    · -- the accepted token is gone, so what is held is another one
      have hτ : τ ≠ τ₀ := fun heq => by rw [heq, hgone] at ha; cases ha
      rw [hacc, Function.update_of_ne hτ]
      exact h.unspent τ a (hheld τ a ha)
    · rw [howner] at hτ
      obtain ⟨h1, h2⟩ := h.undrawn τ hτ
      have hne : τ ≠ τ₀ := fun heq => by rw [heq, hτ₀] at h1; cases h1
      rw [hacc, Function.update_of_ne hne]
      exact ⟨none_of_held (hheld τ) h1, h2⟩

/-- A call's own token is not touched by the others. -/
theorem Unused.effect (h : Unused x t τ) (he : Effect x y e) (hown : ∀ n, e = .step t n →
    held y τ = none) :
    Unused y t τ := by
  obtain ⟨h1, h2, h3⟩ := h
  cases he with
  | quiet hheld howner hacc =>
    rw [Unused, howner, hacc]
    exact ⟨h1, none_of_held (hheld τ) h2, h3⟩
  | drawn t' n hheld hnew howner hacc =>
    have hne : τ ≠ n := fun heq => by rw [heq, hnew] at h1; cases h1
    rw [Unused, howner, hacc, hheld, Function.update_of_ne hne]
    exact ⟨h1, h2, h3⟩
  | stored t' n τ₀ hτ₀ hheld howner hacc =>
    rw [Unused, howner, hacc]
    refine ⟨h1, ?_, h3⟩
    by_cases heq : τ = τ₀
    · have howns := hτ₀.1
      rw [← heq, h1] at howns
      cases howns
      exact hown n rfl
    · exact none_of_held (fun a => hheld τ a heq) h2
  | taken τ₀ a₀ hτ₀ hgone hheld howner hacc =>
    have hne : τ ≠ τ₀ := fun heq => by rw [heq, hτ₀] at h2; cases h2
    rw [Unused, howner, hacc, Function.update_of_ne hne]
    exact ⟨h1, none_of_held (hheld τ) h2, h3⟩

/-- Token keys after a command about another key. -/
theorem held_index {c : StoreCmd Key Stored} {u : Uuid} (hc : c.key = .index u)
    (hd : y.1.state.1 = (x.1.state.1.exec c n).2)
    (τ : Token) : held y τ = held x τ := by
  have hl : (x.1.state.1.exec c n).2.look (.token τ) = x.1.state.1.look (.token τ) :=
    Ephemeral.exec_other _ (by rw [hc]; exact nofun) n
  unfold held Ephemeral.value
  rw [hd, hl]

/-- Token keys after a DEL or a GETDEL. -/
theorem held_shrinks {c : StoreCmd Key Stored} (hset : ∀ k v ttl, c ≠ .setEx k v ttl)
    (hincr : ∀ k ttl, c ≠ .incrWithTtl k ttl)
    (hd : y.1.state.1 = (x.1.state.1.exec c n).2) (τ : Token) (a : Val Stored)
    (ha : held y τ = some a) :
    held x τ = some a := by
  unfold held at ha
  rw [hd] at ha
  rcases Ephemeral.value_exec ha with h | ⟨-, v, ttl, hc, -⟩ | ⟨m, ttl, hc, -⟩
  · exact h
  · exact absurd hc (hset _ _ _)
  · exact absurd hc (hincr _ _)

/-- **What a command does to the tokens.** -/
theorem effect_command (hg : Service.Gave protocol x.1 y.1 t n q p p' c r σ f d)
    (hok : unused x t q σ)
    (hn : y.2 = x.2.after x.1.state.1 t q c n) (hfresh : freshDraw x (.step t n) = true) :
    Effect x y (.step t n) := by
  have hgives := hg.gives
  have hstate := hg.state
  unfold freshDraw at hfresh
  simp only [hg.does] at hfresh
  cases hgives with
  | draw u =>
    have hd := (Machine.exec_other hg.exec).1
    rw [← hstate] at hd
    have hheld : ∀ τ, held y τ = held x τ := fun τ => by unfold held; rw [hd]
    exact .drawn t n hheld (Option.isNone_iff_eq_none.1 hfresh) (by rw [hn]; rfl) (by rw [hn]; rfl)
  | look u τ =>
    have hd := (Machine.exec_store hg.exec).2.1
    rw [← hstate] at hd
    exact .quiet (fun τ a ha => held_index rfl hd τ ▸ ha) (by rw [hn]; rfl) (by rw [hn]; rfl)
  | clear u τ prev =>
    have hd := (Machine.exec_store hg.exec).2.1
    rw [← hstate] at hd
    exact .quiet (held_shrinks (c := .del (.token prev)) nofun nofun hd) (by rw [hn]; rfl)
      (by rw [hn]; rfl)
  | store u τ =>
    have hd := (Machine.exec_store hg.exec).2.1
    rw [← hstate] at hd
    refine .stored t n τ hok (fun τ' a hne ha => ?_) (by rw [hn]; rfl) (by rw [hn]; rfl)
    unfold held at ha
    rw [hd] at ha
    -- a write under another key leaves the token as it was
    rcases Ephemeral.value_exec ha with h | ⟨-, v, ttl, hc, -⟩ | ⟨m, ttl, hc, -⟩
    · exact h
    · cases hc
      exact absurd rfl hne
    · cases hc
  | index u τ =>
    have hd := (Machine.exec_store hg.exec).2.1
    rw [← hstate] at hd
    have hrec : y.2.owner = x.2.owner ∧ y.2.accepted = x.2.accepted := by
      rw [hn]
      unfold History.after
      dsimp only
      split
      · exact ⟨rfl, rfl⟩
      · exact ⟨History.complete_owner .., History.complete_accepted ..⟩
    exact .quiet (fun τ a ha => held_index rfl hd τ ▸ ha) hrec.1 hrec.2
  | take τ =>
    have hd := (Machine.exec_store hg.exec).2.1
    rw [← hstate] at hd
    have hrec : y.2 = match afterTake (x.1.state.1.exec (.getdel (.token τ)) n).1 with
      | .unindex _ => x.2.accept τ
      | _ => x.2 := hn
    have hheld := held_shrinks (y := y) (c := .getdel (.token τ)) nofun nofun hd
    rcases afterTake_cases (x.1.state.1.exec (.getdel (.token τ)) n).1 with h1 | ⟨v, u, hv, hu, h1⟩
    · rw [h1] at hrec
      exact .quiet hheld (by rw [hrec]) (by rw [hrec])
    · rw [h1] at hrec
      -- a GETDEL that answers with a token has deleted it
      rcases Ephemeral.exec_getdel x.1.state.1 (Key.token τ) n with ⟨-, he⟩ | ⟨hgone, hvalue⟩
      · rw [he] at hv
        cases hv
      · have hτ : held y τ = none := by
          unfold held Ephemeral.value
          rw [hd, hgone, Ephemeral.look_put_none]
          rfl
        exact .taken τ v (hvalue _ hv).symm hτ hheld (by rw [hrec]; rfl) (by rw [hrec]; rfl)
  | unindex τ u =>
    have hd := (Machine.exec_store hg.exec).2.1
    rw [← hstate] at hd
    exact .quiet (fun τ a ha => held_index rfl hd τ ▸ ha) (by rw [hn]; rfl) (by rw [hn]; rfl)

theorem effect_step (hc : Service.Conforms protocol (unused x) x.1)
    (he : resetting.step e x = some y)
    (hfresh : freshDraw x e = true) : Effect x y e := by
  obtain ⟨hstep, hn⟩ := Lts.noting_step.1 he
  rcases hc.step_cases hstep with
    ⟨t, q, rfl, hnew, hset⟩ | ⟨t, n, q, p, p', c, r, σ, f, d, rfl, hok, hg⟩ | ⟨v, rfl, hset⟩
  · have hrec : y.2 = x.2.start t := hn
    have hstore : y.1.state = x.1.state := by rw [hset]; rfl
    exact .quiet (fun τ a ha => by rwa [held, hstore] at ha) (by rw [hrec]; rfl) (by rw [hrec]; rfl)
  · unfold History.note at hn
    rw [hg.does] at hn
    exact effect_command hg hok hn hfresh
  · have hrec : y.2 = x.2 := hn
    cases v with
    | inl v =>
      refine .quiet (fun τ a ha => ?_) (by rw [hrec]) (by rw [hrec])
      rw [held, hset] at ha
      exact Ephemeral.value_change ha
    | inr v => exact v.elim

/-- Every call that has not stored its token has it for itself. -/
theorem unused_step (h : Spent x) (hc : Service.Conforms protocol (unused x) x.1)
    (he : resetting.step e x = some y)
    (hfresh : freshDraw x e = true) : Service.Conforms protocol (unused y) y.1 := by
  have heffect := effect_step hc he hfresh
  obtain ⟨hstep, hn⟩ := Lts.noting_step.1 he
  refine hc.step hstep (fun t q _ => ⟨q.first, by cases q <;> trivial, tokens_keeps q⟩) ?_ ?_
  · intro t c σ hother _ _ hu
    unfold unused at hu ⊢
    split
    · exact hu.effect heffect fun n he => absurd he (hother n)
    · exact hu.effect heffect fun n he => absurd he (hother n)
    · exact hu.effect heffect fun n he => absurd he (hother n)
    · trivial
  · intro t n q p p' c r σ f d he' hok hg
    subst he'
    unfold History.note at hn
    rw [hg.does] at hn
    have hgives := hg.gives
    have hstate := hg.state
    cases hgives with
    | draw u =>
      obtain ⟨hd, hr⟩ := Machine.exec_other hg.exec
      rw [← hstate] at hd
      cases hr
      unfold freshDraw at hfresh
      simp only [hg.does] at hfresh
      -- what is drawn is new: nobody holds it and nobody has used it
      obtain ⟨h1, h2⟩ := h.undrawn n (Option.isNone_iff_eq_none.1 hfresh)
      have hheld : held y n = held x n := by unfold held; rw [hd]
      have howner : y.2.owner n = some t := by
        rw [hn]
        exact Function.update_self ..
      have hacc : y.2.accepted n = 0 := by
        rw [hn]
        exact h2
      exact ⟨howner, hheld.trans h1, hacc⟩
    | look u τ =>
      have hd := (Machine.exec_store hg.exec).2.1
      rw [← hstate] at hd
      have hu : Unused y t τ := Unused.effect hok heffect fun n _ =>
        (held_index rfl hd τ).trans hok.2.1
      unfold afterLook
      split
      · split
        · exact hu
        · exact hu
      · trivial
    | clear u τ prev =>
      have hd := (Machine.exec_store hg.exec).2.1
      rw [← hstate] at hd
      have hu : Unused y t τ :=
        Unused.effect hok heffect fun n _ => none_of_held
          (held_shrinks (c := .del (.token prev)) nofun nofun hd τ) hok.2.1
      unfold unlessFailed
      split
      · exact hu
      · trivial
    | store u τ =>
      unfold unlessFailed
      split <;> trivial
    | index u τ => trivial
    | take τ =>
      rcases afterTake_cases r with h1 | ⟨v, u, -, -, h1⟩ <;> rw [h1] <;> trivial
    | unindex τ u => trivial

end once

/-! ## One issue at a time -/

section queue
variable {x y : State} {e : Event backend Req} {t n : ℕ} {q : Req}
  {p p' : Code backend AppError Reply} {c : backend.Cmd}
  {r : backend.Reply c} {σ : Phase} {f : backend.Reply c → Phase} {d : backend.State} {τ : Token}
    {u : Uuid}

/-- A user's issues come one after the other, so the last to start is the last to end. -/
structure Queue (x : State) : Prop where
  alone : ∀ u t t' c c', x.1.call t = some c → x.1.call t' = some c' → issuing u c = true →
    issuing u c' = true → t = t'
  order : ∀ u t c k τ, x.1.call t = some c → issuing u c = true → x.2.latest u = some (k, τ) →
    k < x.2.begun t
  young : ∀ u k τ, x.2.latest u = some (k, τ) → k < x.2.starts
  old : ∀ t c, x.1.call t = some c → x.2.begun t < x.2.starts

theorem issuing_iff {c : Call backend AppError Reply Req} :
    issuing u c = true ↔ c.req = .issue u ∧ c.prog.finished = false := by
  simp [issuing]

theorem Queue.start (h : Queue x) (hnew : x.1.call t = none)
    (hs : y.1 = x.1.set t ⟨q, tokens.prog q⟩ x.1.state)
    (hn : y.2 = x.2.start t) (hq : ∀ u, q = .issue u → x.1.tally (issuing u) = 0) : Queue y := by
  have hcall : ∀ t' c, y.1.call t' = some c → t' = t ∧ c.req = q ∨ t' ≠ t ∧
      x.1.call t' = some c := by
    intro t' c hc
    rw [hs, Sys.call_set] at hc
    split at hc
    · next heq => cases hc; exact .inl ⟨heq, rfl⟩
    · next hne => exact .inr ⟨hne, hc⟩
  have hbegun : ∀ t', t' ≠ t → y.2.begun t' = x.2.begun t' := fun t' hne => by
    rw [hn]
    exact Function.update_of_ne hne _ _
  have hself : y.2.begun t = x.2.starts := by
    rw [hn]
    exact Function.update_self ..
  have hstarts : y.2.starts = x.2.starts + 1 := by rw [hn]; rfl
  have hlatest : y.2.latest = x.2.latest := by rw [hn]; rfl
  -- while one call issues for the user, no other one begins to
  have hother : ∀ u t' c', q = .issue u → x.1.call t' = some c' → issuing u c' = true → False := by
    intro u t' c' hqu hc' hi
    have := Sys.tally_eq_zero.1 (hq u hqu) t' c' hc'
    rw [hi] at this
    cases this
  refine ⟨fun u t₁ t₂ c₁ c₂ h1 h2 hi1 hi2 => ?_, fun u t' c k τ hc hi hl => ?_, fun u k τ hl => ?_,
    fun t' c hc => ?_⟩
  · rcases hcall t₁ c₁ h1 with ⟨rfl, hq1⟩ | ⟨hne1, h1⟩ <;> rcases hcall t₂ c₂ h2 with ⟨rfl, hq2⟩ |
        ⟨hne2, h2⟩
    · rfl
    · exact (hother u t₂ c₂ (hq1 ▸ (issuing_iff.1 hi1).1) h2 hi2).elim
    · exact (hother u t₁ c₁ (hq2 ▸ (issuing_iff.1 hi2).1) h1 hi1).elim
    · exact h.alone u t₁ t₂ c₁ c₂ h1 h2 hi1 hi2
  · rw [hlatest] at hl
    rcases hcall t' c hc with ⟨rfl, -⟩ | ⟨hne, hc⟩
    · rw [hself]
      exact h.young u k τ hl
    · rw [hbegun t' hne]
      exact h.order u t' c k τ hc hi hl
  · rw [hlatest] at hl
    have := h.young u k τ hl
    omega
  · rcases hcall t' c hc with ⟨rfl, -⟩ | ⟨hne, hc⟩
    · omega
    · rw [hbegun t' hne]
      have := h.old t' c hc
      omega

/-- The calls after a command of one of them. -/
theorem call_command (hg : Service.Gave protocol x.1 y.1 t n q p p' c r σ f d) {t' : ℕ}
    {c' : Call backend AppError Reply Req}
    (hc : y.1.call t' = some c') : t' = t ∧ c' = ⟨q, p'⟩ ∨ t' ≠ t ∧ x.1.call t' = some c' := by
  rw [hg.after, Sys.call_set] at hc
  split at hc
  · next heq =>
    cases hc
    exact .inl ⟨heq, rfl⟩
  · next hne => exact .inr ⟨hne, hc⟩

/-- A call in flight after a command was in flight before. -/
theorem issuing_command (hg : Service.Gave protocol x.1 y.1 t n q p p' c r σ f d) {t' : ℕ}
    {c' : Call backend AppError Reply Req} (hc : y.1.call t' = some c') (hi : issuing u c' = true) :
    ∃ c'', x.1.call t' = some c'' ∧ issuing u c'' = true := by
  rcases call_command hg hc with ⟨rfl, rfl⟩ | ⟨-, hc⟩
  · exact ⟨⟨q, p⟩, hg.call, issuing_iff.2 ⟨(issuing_iff.1 hi).1, hg.unfinished⟩⟩
  · exact ⟨c', hc, hi⟩

/-- What a command adds to the order of the calls: an issue that is over. -/
theorem latest_command (hg : Service.Gave protocol x.1 y.1 t n q p p' c r σ f d)
    (hn : y.2 = x.2.after x.1.state.1 t q c n) :
    y.2.latest = x.2.latest ∨
      ∃ u τ, q = .issue u ∧ p'.finished = true ∧
        y.2.latest = Function.update x.2.latest u (some (x.2.begun t, τ)) := by
  have hgives := hg.gives
  cases hgives with
  | index u τ =>
    have hfinished : p'.finished = true := finished_of_done hg.rest
    have hrec : y.2 = if n = 1 ∨ n = 2 then x.2 else x.2.complete t u τ := hn
    split at hrec
    · exact .inl (by rw [hrec])
    · rw [hrec]
      rcases History.complete_latest t u τ x.2 with h1 | h1
      · exact .inl h1
      · exact .inr ⟨u, τ, rfl, hfinished, h1⟩
  | take τ =>
    refine .inl ?_
    rw [hn]
    unfold History.after
    dsimp only
    split <;> rfl
  | _ => exact .inl (by rw [hn]; rfl)

theorem begun_command (hg : Service.Gave protocol x.1 y.1 t n q p p' c r σ f d)
    (hn : y.2 = x.2.after x.1.state.1 t q c n) :
    y.2.begun = x.2.begun ∧ y.2.starts = x.2.starts := by
  have hgives := hg.gives
  rw [hn]
  unfold History.after
  cases hgives with
  | index u τ =>
    dsimp only
    split
    · exact ⟨rfl, rfl⟩
    · exact History.complete_begun t u τ x.2
  | take τ =>
    dsimp only
    split <;> exact ⟨rfl, rfl⟩
  | _ => exact ⟨rfl, rfl⟩

theorem Queue.command (h : Queue x) (hg : Service.Gave protocol x.1 y.1 t n q p p' c r σ f d)
    (hn : y.2 = x.2.after x.1.state.1 t q c n) : Queue y := by
  obtain ⟨hbegun, hstarts⟩ := begun_command hg hn
  have hlatest := latest_command hg hn
  refine ⟨fun u t₁ t₂ c₁ c₂ h1 h2 hi1 hi2 => ?_, fun u t' c k τ hc hi hl => ?_, fun u k τ hl => ?_,
    fun t' c hc => ?_⟩
  · obtain ⟨c₁', h1', hi1'⟩ := issuing_command hg h1 hi1
    obtain ⟨c₂', h2', hi2'⟩ := issuing_command hg h2 hi2
    exact h.alone u t₁ t₂ c₁' c₂' h1' h2' hi1' hi2'
  · obtain ⟨c', hc', hi'⟩ := issuing_command hg hc hi
    rw [hbegun]
    rcases hlatest with hl' | ⟨u', τ', rfl, hfin, hl'⟩
    · rw [hl'] at hl
      exact h.order u t' c' k τ hc' hi' hl
    · by_cases hu : u = u'
      · -- the issue that is over is the only one of its user
        subst hu
        rcases call_command hg hc with ⟨rfl, rfl⟩ | ⟨hne, -⟩
        · have := (issuing_iff.1 hi).2
          rw [hfin] at this
          cases this
        · exact absurd (h.alone u t' t c' _ hc' hg.call hi'
            (issuing_iff.2 ⟨rfl, hg.unfinished⟩)) hne
      · rw [hl', Function.update_of_ne hu] at hl
        exact h.order u t' c' k τ hc' hi' hl
  · rw [hstarts]
    rcases hlatest with hl' | ⟨u', τ', -, -, hl'⟩
    · rw [hl'] at hl
      exact h.young u k τ hl
    · by_cases hu : u = u'
      · rw [hl', hu, Function.update_self] at hl
        cases hl
        exact h.old t _ hg.call
      · rw [hl', Function.update_of_ne hu] at hl
        exact h.young u k τ hl
  · rw [hbegun, hstarts]
    rcases call_command hg hc with ⟨rfl, -⟩ | ⟨-, hc⟩
    · exact h.old t' _ hg.call
    · exact h.old t' c hc

theorem queue_step (h : Queue x) (hc : Service.Conforms protocol (fun _ _ _ => True) x.1)
    (he : resetting.step e x = some y)
    (hok : orderly x e = true) : Queue y := by
  obtain ⟨hstep, hn⟩ := Lts.noting_step.1 he
  rcases hc.step_cases hstep with
    ⟨t, q, rfl, hnew, hset⟩ | ⟨t, n, q, p, p', c, r, σ, f, d, rfl, -, hg⟩ | ⟨v, rfl, hset⟩
  · refine h.start hnew hset hn ?_
    rintro u rfl
    exact of_decide_eq_true hok
  · unfold History.note at hn
    rw [hg.does] at hn
    exact h.command hg hn
  · have hrec : y.2 = x.2 := hn
    have hcall : ∀ t, y.1.call t = x.1.call t := fun t => by rw [hset]; rfl
    refine ⟨fun u t₁ t₂ c₁ c₂ h1 h2 => ?_, fun u t' c k τ hc => ?_, ?_, fun t' c hc => ?_⟩
    · rw [hcall] at h1 h2
      exact h.alone u t₁ t₂ c₁ c₂ h1 h2
    · rw [hcall] at hc
      rw [hrec]
      exact h.order u t' c k τ hc
    · rw [hrec]
      exact h.young
    · rw [hcall] at hc
      rw [hrec]
      exact h.old t' c hc

end queue

/-! ## The index names what is accepted -/

section links
variable {x y : State} {e : Event backend Req} {t n : ℕ} {q : Req}
  {p p' : Code backend AppError Reply} {c : backend.Cmd}
  {r : backend.Reply c} {σ : Phase} {f : backend.Reply c → Phase} {d : backend.State} {τ : Token}
    {u : Uuid}

/-- The index names the token, for at least as long as it is stored; it is the last issue's. -/
def Named (x : State) (u : Uuid) (τ : Token) (e : Entry Stored) : Prop :=
  ∃ e', x.1.state.1.look (.index u) = some e' ∧ e'.val = .text (.token τ) ∧ e.expires ≤ e'.expires ∧
    ∃ k, x.2.latest u = some (k, τ)

/-- An issue has stored the token and is about to index it. -/
def Indexing (x : State) (u : Uuid) (τ : Token) : Prop :=
  ∃ t p, x.1.call t = some ⟨.issue u, p⟩ ∧
    p.next = some (.store (.setEx (.index u) (.token τ) passwordResetTtlSeconds))

structure Links (x : State) : Prop where
  short : ∀ τ e, x.1.state.1.look (.token τ) = some e →
    e.expires ≤ x.1.state.1.now + passwordResetTtlSeconds
  indexed : ∀ u τ e, x.1.state.1.look (.token τ) = some e → e.val = .text (.user u) →
    Named x u τ e ∨ Indexing x u τ

/-- What an issue has cleared away. -/
def cleared (x : State) : Req → Phase → Prop
  | .issue u, .clear _ previous => ∀ τ, Live x u τ → τ = previous
  | .issue u, .store _ => ∀ τ, ¬Live x u τ
  | .issue u, .index t => ∀ τ, Live x u τ → τ = t
  | _, _ => True

theorem live_iff : Live x u τ ↔ ∃ e, x.1.state.1.look (.token τ) = some e ∧
    e.val = .text (.user u) :=
  Ephemeral.value_eq_some

theorem Indexing.command (h : Indexing x u τ)
    (hg : Service.Gave protocol x.1 y.1 t n q p p' c r σ f d)
    (hc : c ≠ .store (.setEx (.index u) (.token τ) passwordResetTtlSeconds)) : Indexing y u τ := by
  obtain ⟨t', p₁, hcall, hnext⟩ := h
  have hne : t' ≠ t := by
    rintro rfl
    rw [hg.call] at hcall
    cases hcall
    rw [hg.next] at hnext
    cases hnext
    exact hc rfl
  refine ⟨t', p₁, ?_, hnext⟩
  rw [hg.after, Sys.call_set_ne _ hne]
  exact hcall

/-- An event after which fewer tokens are stored, and what named them names them still. -/
theorem Links.shrink (h : Links x) (hnow : x.1.state.1.now ≤ y.1.state.1.now)
    (htoken : ∀ τ e, y.1.state.1.look (.token τ) = some e → x.1.state.1.look (.token τ) = some e)
    (hnamed : ∀ u τ e, y.1.state.1.look (.token τ) = some e → e.val = .text (.user u) →
      Named x u τ e → Named y u τ e)
    (hindexing : ∀ u τ, Indexing x u τ → Indexing y u τ) : Links y where
  short τ e he := by
    have := h.short τ e (htoken τ e he)
    omega
  indexed u τ e he hv := by
    rcases h.indexed u τ e (htoken τ e he) hv with hn | hi
    · exact .inl (hnamed u τ e he hv hn)
    · exact .inr (hindexing u τ hi)

theorem Named.congr {e : Entry Stored} (h : Named x u τ e)
    (hidx : y.1.state.1.look (.index u) = x.1.state.1.look (.index u))
    (hl : y.2.latest u = x.2.latest u) : Named y u τ e := by
  unfold Named at h ⊢
  rw [hidx, hl]
  exact h

/-- `issue` stores its token. -/
theorem Links.store (h : Links x) (hidx : ∀ u, y.1.state.1.look (.index u) =
    x.1.state.1.look (.index u))
    (hput : y.1.state.1 = x.1.state.1.put (.token τ)
      (some ⟨.text (.user u), x.1.state.1.now + passwordResetTtlSeconds⟩))
    (hl : y.2.latest = x.2.latest) (hkeep : ∀ u τ, Indexing x u τ → Indexing y u τ)
    (hown : Indexing y u τ) : Links y := by
  have hnow : y.1.state.1.now = x.1.state.1.now := by rw [hput, Ephemeral.put_now]
  have hlook : y.1.state.1.look (.token τ) = some ⟨.text (.user u),
      x.1.state.1.now + passwordResetTtlSeconds⟩ := by
    rw [hput]
    exact Ephemeral.look_put_self (Nat.lt_add_of_pos_right (by decide))
  have hother : ∀ τ', τ' ≠ τ → y.1.state.1.look (.token τ') = x.1.state.1.look (.token τ') := by
    intro τ' hne
    rw [hput]
    exact Ephemeral.look_put_ne (fun heq => hne (by cases heq; rfl)) _
  -- the new token is not indexed yet, the others are as before
  refine ⟨fun τ' e he => ?_, fun u' τ' e he hv => ?_⟩
  · rw [hnow]
    by_cases hτ : τ' = τ
    · rw [hτ, hlook] at he
      cases he
      exact le_refl _
    · rw [hother τ' hτ] at he
      exact h.short τ' e he
  · by_cases hτ : τ' = τ
    · rw [hτ, hlook] at he
      cases he
      cases hv
      rw [hτ]
      exact .inr hown
    · rw [hother τ' hτ] at he
      rcases h.indexed u' τ' e he hv with hn | hi
      · exact .inl (hn.congr (hidx u') (by rw [hl]))
      · exact .inr (hkeep u' τ' hi)

/-- `issue` indexes its token, the only one of the user that is stored. -/
theorem Links.index (h : Links x) (honly : ∀ τ', Live x u τ' → τ' = τ)
    (hput : y.1.state.1 = x.1.state.1.put (.index u)
      (some ⟨.text (.token τ), x.1.state.1.now + passwordResetTtlSeconds⟩))
    {k : ℕ} (hl : y.2.latest = Function.update x.2.latest u (some (k, τ)))
    (hkeep : ∀ u' τ', u' ≠ u → Indexing x u' τ' → Indexing y u' τ') : Links y := by
  have hnow : y.1.state.1.now = x.1.state.1.now := by rw [hput, Ephemeral.put_now]
  have htoken : ∀ τ, y.1.state.1.look (.token τ) = x.1.state.1.look (.token τ) := by
    intro τ
    rw [hput]
    exact Ephemeral.look_put_ne (by simp) _
  have hlook : y.1.state.1.look (.index u) = some ⟨.text (.token τ),
      x.1.state.1.now + passwordResetTtlSeconds⟩ := by
    rw [hput]
    exact Ephemeral.look_put_self (Nat.lt_add_of_pos_right (by decide))
  refine ⟨fun τ' e he => ?_, fun u' τ' e he hv => ?_⟩
  · rw [htoken] at he
    rw [hnow]
    exact h.short τ' e he
  · rw [htoken] at he
    by_cases hu : u' = u
    · subst hu
      -- only the newest token of the user is left when it is indexed
      have hτ := honly τ' (live_iff.2 ⟨e, he, hv⟩)
      refine .inl ⟨_, hlook, by rw [hτ], h.short τ' e he, k, ?_⟩
      rw [hl, Function.update_self, hτ]
    · rcases h.indexed u' τ' e he hv with hn | hi
      · refine .inl (hn.congr ?_ ?_)
        · rw [hput]
          exact Ephemeral.look_put_ne (fun heq => hu (by cases heq; rfl)) _
        · rw [hl, Function.update_of_ne hu]
      · exact .inr (hkeep u' τ' hu hi)

/-- The index of a user is not named, so nothing of the user is named by it. -/
theorem not_named {e : Entry Stored} (h : named x u = false)
    (he : x.1.state.1.look (.token τ) = some e)
    (hv : e.val = .text (.user u)) : ¬Named x u τ e := by
  rintro ⟨e', he', hv', -, -⟩
  have hidx : x.1.state.1.value (.index u) = some (.text (.token τ)) :=
    Ephemeral.value_eq_some.2 ⟨e', he', hv'⟩
  have htok : x.1.state.1.value (.token τ) = some (.text (.user u)) :=
    Ephemeral.value_eq_some.2 ⟨e, he, hv⟩
  unfold named at h
  simp only [hidx, htok, decide_true] at h
  cases h

/-- **Links after a command.** -/
theorem Links.command (h : Links x) (hq : Queue x)
    (hg : Service.Gave protocol x.1 y.1 t n q p p' c r σ f d)
    (hok : cleared x q σ) (hn : y.2 = x.2.after x.1.state.1 t q c n)
    (hord : orderly x (.step t n) = true) : Links y := by
  have hgives := hg.gives
  have hstate := hg.state
  unfold orderly at hord
  simp only [hg.does] at hord
  have hlatest := latest_command hg hn
  cases hgives with
  | draw u =>
    have hd := (Machine.exec_other hg.exec).1
    rw [← hstate] at hd
    have hrec : y.2.latest = x.2.latest := by rw [hn]; rfl
    refine h.shrink (by rw [hd]) (fun τ e he => by rwa [hd] at he)
      (fun u τ e _ _ hN => hN.congr (by rw [hd]) (by rw [hrec]))
      fun u τ hi => hi.command hg nofun
  | look u τ =>
    have hd := (Machine.exec_store hg.exec).2.1
    rw [← hstate, (Ephemeral.exec_get _ _ _).1] at hd
    have hrec : y.2.latest = x.2.latest := by rw [hn]; rfl
    refine h.shrink (by rw [hd]) (fun τ e he => by rwa [hd] at he)
      (fun u τ e _ _ hN => hN.congr (by rw [hd]) (by rw [hrec]))
      fun u τ hi => hi.command hg nofun
  | clear u τ prev =>
    have hd := (Machine.exec_store hg.exec).2.1
    rw [← hstate] at hd
    have hrec : y.2.latest = x.2.latest := by rw [hn]; rfl
    have hidx : ∀ u, y.1.state.1.look (.index u) = x.1.state.1.look (.index u) := fun u => by
      rw [hd]
      exact Ephemeral.exec_other _ (by simp [StoreCmd.key]) n
    refine h.shrink (by rw [hd, Ephemeral.exec_now]) (fun τ e he => ?_)
      (fun u τ e _ _ hN => hN.congr (hidx u) (by rw [hrec])) fun u τ hi => hi.command hg nofun
    rw [hd] at he
    exact Ephemeral.look_del he
  | store u τ =>
    have hd := (Machine.exec_store hg.exec).2.1
    have hr := (Machine.exec_store hg.exec).1
    rw [← hstate] at hd
    have hrec : y.2.latest = x.2.latest := by rw [hn]; rfl
    have hkeep : ∀ u' τ', Indexing x u' τ' → Indexing y u' τ' := fun u' τ' hi => hi.command hg nofun
    by_cases h1 : n = 1
    · subst h1
      have hsame : y.1.state.1 = x.1.state.1 := hd
      refine h.shrink (by rw [hsame]) (fun τ e he => by rwa [hsame] at he)
        (fun u τ e _ _ hN => hN.congr (by rw [hsame]) (by rw [hrec])) hkeep
    · rw [Ephemeral.exec_ok _ _ h1 (of_decide_eq_true hord)] at hd hr
      subst hr
      have hrest : p'.Keeps (protocol (.issue u)) (Phase.index τ) := hg.rest
      -- who has stored a token is about to index it
      obtain ⟨c', f', hg', hnext⟩ := hrest.next fun _ => nofun
      cases hg'
      have hown : Indexing y u τ := ⟨t, p', by rw [hg.after, Sys.call_set_self], hnext⟩
      refine h.store (fun u => ?_) hd hrec hkeep hown
      rw [hd]
      exact Ephemeral.look_put_ne (by simp) _
  | index u τ =>
    simp only [Bool.and_eq_true, decide_eq_true_eq] at hord
    have hd := (Machine.exec_store hg.exec).2.1
    rw [← hstate, Ephemeral.exec_ok _ _ hord.1 hord.2] at hd
    -- whatever has been completed for the user began before this call
    have hnewest := fun k τ' => hq.order u t _ k τ' hg.call (issuing_iff.2 ⟨rfl, hg.unfinished⟩)
    have hl : y.2.latest = Function.update x.2.latest u (some (x.2.begun t, τ)) := by
      have hrec : y.2 = if n = 1 ∨ n = 2 then x.2 else x.2.complete t u τ := hn
      rw [hrec, if_neg (not_or.2 hord)]
      exact History.complete_newest hnewest
    exact h.index hok hd hl fun u' τ' hne hi => hi.command hg (fun heq => hne (by cases heq; rfl))
  | take τ =>
    have hd := (Machine.exec_store hg.exec).2.1
    rw [← hstate] at hd
    have hrec : y.2.latest = x.2.latest := by
      rcases hlatest with h1 | ⟨_, _, h1, -⟩
      · exact h1
      · cases h1
    have hidx : ∀ u, y.1.state.1.look (.index u) = x.1.state.1.look (.index u) := fun u => by
      rw [hd]
      exact Ephemeral.exec_other _ (by simp [StoreCmd.key]) n
    refine h.shrink (by rw [hd, Ephemeral.exec_now]) (fun τ e he => ?_)
      (fun u τ e _ _ hN => hN.congr (hidx u) (by rw [hrec])) fun u τ hi => hi.command hg nofun
    rw [hd] at he
    exact Ephemeral.look_getdel he
  | unindex τ u =>
    have hd := (Machine.exec_store hg.exec).2.1
    rw [← hstate] at hd
    have hrec : y.2.latest = x.2.latest := by rw [hn]; rfl
    have hnot : named x u = false := by simpa using hord
    have htoken : ∀ τ e, y.1.state.1.look (.token τ) = some e →
        x.1.state.1.look (.token τ) = some e := by
      intro τ e he
      rw [hd] at he
      exact Ephemeral.look_del he
    refine h.shrink (by rw [hd, Ephemeral.exec_now]) htoken (fun u' τ e he hv hN => ?_)
      fun u τ hi => hi.command hg nofun
    -- the index is deleted only where it names no token that is left
    by_cases hu : u' = u
    · subst hu
      exact absurd hN (not_named hnot (htoken τ e he) hv)
    · refine hN.congr ?_ (by rw [hrec])
      rw [hd]
      exact Ephemeral.exec_other _ (by simp [StoreCmd.key, hu]) n

/-- Links after time has passed or an entry was lost. -/
theorem Links.change {v : StoreEnv Key} (h : Links x) (hv : ∀ τ n, v ≠ .linger (.token τ) n)
    (hv' : ∀ u, v = .evict (.index u) → named x u = false) (hcall : ∀ t, y.1.call t = x.1.call t)
    (hd : y.1.state.1 = x.1.state.1.change v) (hrec : y.2 = x.2) : Links y := by
  have htoken : ∀ τ e, y.1.state.1.look (.token τ) = some e →
      x.1.state.1.look (.token τ) = some e := by
    intro τ e he
    rw [hd] at he
    exact Ephemeral.look_change_of (hv τ) he
  refine h.shrink (by rw [hd]; exact Ephemeral.now_le_change _ v) htoken
    (fun u τ e he hval hN => ?_) fun u τ hi => ?_
  · have hlive := Ephemeral.live_of_look he
    rw [hd] at hlive
    by_cases hev : v = .evict (.index u)
    · exact absurd hN (not_named (hv' u hev) (htoken τ e he) hval)
    · -- what names the token lives longer than the token
      obtain ⟨e', he', hval', hexp, k, hk⟩ := hN
      obtain ⟨e'', he'', hval'', hexp'⟩ := Ephemeral.look_change_live hev he' (by omega)
      exact ⟨e'', by rw [hd]; exact he'', hval''.trans hval', hexp.trans hexp',
        k, by rw [hrec]; exact hk⟩
  · obtain ⟨t, p, hc, hnext⟩ := hi
    exact ⟨t, p, by rw [hcall]; exact hc, hnext⟩

theorem links_step (h : Links x) (hq : Queue x)
    (hc : Service.Conforms protocol (fun _ => cleared x) x.1)
    (he : resetting.step e x = some y) (hord : orderly x e = true) : Links y := by
  obtain ⟨hstep, hn⟩ := Lts.noting_step.1 he
  rcases hc.step_cases hstep with
    ⟨t, q, rfl, hnew, hset⟩ | ⟨t, n, q, p, p', c, r, σ, f, d, rfl, hok, hg⟩ | ⟨v, rfl, hset⟩
  · have hrec : y.2 = x.2.start t := hn
    have hd : y.1.state = x.1.state := by rw [hset]; rfl
    refine h.shrink (by rw [hd]) (fun τ e he => by rwa [hd] at he)
      (fun u τ e _ _ hN => hN.congr (by rw [hd]) (by rw [hrec]; rfl)) ?_
    rintro u τ ⟨t', p, hcall, hnext⟩
    have hne : t' ≠ t := fun heq => by rw [heq, hnew] at hcall; cases hcall
    exact ⟨t', p, by rw [hset, Sys.call_set_ne _ hne]; exact hcall, hnext⟩
  · unfold History.note at hn
    rw [hg.does] at hn
    exact h.command hq hg hok hn hord
  · have hrec : y.2 = x.2 := hn
    cases v with
    | inl v =>
      refine h.change (v := v) ?_ ?_ (fun t => by rw [hset]; rfl) (by rw [hset]) hrec
      · rintro τ n rfl
        cases hord
      · rintro u rfl
        have hnot : (!named x u) = true := hord
        simpa using hnot
    | inr v => exact v.elim

/-- A token becomes acceptable by the command of an issue of its user only. -/
theorem live_grows (hc : Service.Conforms protocol (fun _ => cleared x) x.1)
    (he : resetting.step e x = some y)
    (hlive : Live y u τ) : Live x u τ ∨ ∃ t n c, e = .step t n ∧ x.1.call t = some c ∧
      issuing u c = true := by
  obtain ⟨hstep, hn⟩ := Lts.noting_step.1 he
  rcases hc.step_cases hstep with
    ⟨t, q, rfl, hnew, hset⟩ | ⟨t, n, q, p, p', c, r, σ, f, d, rfl, hok, hg⟩ | ⟨v, rfl, hset⟩
  · rw [Live, hset] at hlive
    exact .inl hlive
  · have hstate := hg.state
    have hgives := hg.gives
    unfold Live at hlive
    rw [hstate] at hlive
    cases c with
    | store c =>
      rw [(Machine.exec_store hg.exec).2.1] at hlive
      -- a token comes to life by the SETEX of an issue
      rcases Ephemeral.value_exec hlive with h | ⟨-, v, ttl, rfl, hv⟩ | ⟨m, ttl, rfl, hv⟩
      · exact .inl h
      · cases hv
        cases hgives with
        | store _ _ => exact .inr ⟨t, n, _, rfl, hg.call, issuing_iff.2 ⟨rfl, hg.unfinished⟩⟩
      · cases hv
    | other c =>
      rw [(Machine.exec_other hg.exec).1] at hlive
      exact .inl hlive
  · rw [Live, hset] at hlive
    cases v with
    | inl v => exact .inl (Ephemeral.value_change hlive)
    | inr v => exact v.elim

/-- While an issue is not about to index, the index names what is accepted. -/
theorem Links.index_of_live {p : Code backend AppError Reply} (h : Links x) (hq : Queue x)
    (hcall : x.1.call t = some ⟨.issue u, p⟩) (hp : p.finished = false)
    (hnext : ∀ τ, p.next ≠ some (.store (.setEx (.index u) (.token τ) passwordResetTtlSeconds)))
    (hl : Live x u τ) :
    x.1.state.1.value (.index u) = some (.text (.token τ)) := by
  obtain ⟨e, he, hv⟩ := live_iff.1 hl
  rcases h.indexed u τ e he hv with ⟨e', he', hv', -, -⟩ | ⟨t', p', hcall', hnext'⟩
  · exact Ephemeral.value_eq_some.2 ⟨e', he', hv'⟩
  · have hi : issuing u ⟨.issue u, p⟩ = true := issuing_iff.2 ⟨rfl, hp⟩
    have hi' : issuing u ⟨.issue u, p'⟩ = true := by
      refine issuing_iff.2 ⟨rfl, ?_⟩
      cases p' with
      | call c k => rfl
      | ret a => cases hnext'
      | fail e => cases hnext'
    have heq := hq.alone u t t' _ _ hcall hcall' hi hi'
    subst heq
    rw [hcall] at hcall'
    cases hcall'
    exact absurd hnext' (hnext τ)

/-- **Every issue has cleared away what it says.** -/
theorem cleared_step (h : Links x) (hq : Queue x)
    (hc : Service.Conforms protocol (fun _ => cleared x) x.1)
    (he : resetting.step e x = some y) (hord : orderly x e = true) :
    Service.Conforms protocol (fun _ => cleared y) y.1 := by
  have hgrows := fun u τ hl => live_grows (u := u) (τ := τ) hc he hl
  obtain ⟨hstep, hn⟩ := Lts.noting_step.1 he
  refine hc.step hstep (fun t q _ => ⟨q.first, by cases q <;> trivial, tokens_keeps q⟩) ?_ ?_
  · intro t c σ hother hcall hkeeps hcl
    -- another issue of the same user would be in flight at the same time
    have hold : ∀ u τ, c.req = .issue u → σ ≠ .done → Live y u τ → Live x u τ := by
      intro u τ hreq hσ hl
      rcases hgrows u τ hl with h1 | ⟨t', n, c', he', hcall', hi'⟩
      · exact h1
      · have hi : issuing u c = true := issuing_iff.2 ⟨hreq, hkeeps.unfinished fun _ => hσ⟩
        have := hq.alone u t t' c c' hcall hcall' hi hi'
        exact absurd (this ▸ he') (hother n)
    unfold cleared at hcl ⊢
    split at hcl
    · next u _ p hreq => exact fun τ hl => hcl τ (hold u τ hreq nofun hl)
    · next u _ hreq => exact fun τ hl => hcl τ (hold u τ hreq nofun hl)
    · next u _ hreq => exact fun τ hl => hcl τ (hold u τ hreq nofun hl)
    · trivial
  · intro t n q p p' c r σ f d he' hok hg
    subst he'
    have hstate := hg.state
    have hgives := hg.gives
    unfold orderly at hord
    simp only [hg.does] at hord
    cases hgives with
    | draw u => trivial
    | look u τ =>
      obtain ⟨hr, hd, -⟩ := Machine.exec_store hg.exec
      obtain ⟨hsame, hvalue⟩ := Ephemeral.exec_get x.1.state.1 (Key.index u) n
      rw [hsame, ← hstate] at hd
      cases r with
      | error e => trivial
      | ok a =>
        have ha : a = x.1.state.1.value (.index u) := hvalue a hr.symm
        have hbind : ∀ τ', Live y u τ' → a.bind asToken = some τ' := by
          intro τ' hl
          rw [Live, hd] at hl
          rw [ha, h.index_of_live hq hg.call hg.unfinished (by rw [hg.next]; exact nofun) hl]
          rfl
        unfold afterLook
        dsimp only
        cases hp : a.bind asToken with
        | none =>
          intro τ' hl
          rw [hbind τ' hl] at hp
          cases hp
        | some prev =>
          intro τ' hl
          rw [hbind τ' hl] at hp
          cases hp
          rfl
    | clear u τ prev =>
      obtain ⟨hr, hd, -⟩ := Machine.exec_store hg.exec
      rw [← hstate] at hd
      cases r with
      | error e => trivial
      | ok a =>
        intro τ' hl
        have hx : Live x u τ' := held_shrinks (c := .del (.token prev)) nofun nofun hd τ' _ hl
        have hprev := hok τ' hx
        subst hprev
        rcases Ephemeral.exec_del x.1.state.1 (Key.token τ') n with ⟨-, he⟩ | hs
        · rw [he] at hr
          cases hr
        · rw [Live, hd, hs, Ephemeral.value, Ephemeral.look_put_none] at hl
          cases hl
    | store u τ =>
      have hd := (Machine.exec_store hg.exec).2.1
      rw [← hstate] at hd
      cases r with
      | error e => trivial
      | ok a =>
        intro τ' hl
        rw [Live, hd] at hl
        rcases Ephemeral.value_exec hl with hx | ⟨-, v, ttl, hc, -⟩ | ⟨m, ttl, hc, -⟩
        · exact absurd hx (hok τ')
        · cases hc
          rfl
        · cases hc
    | index u τ => trivial
    | take τ => trivial
    | unindex τ u => trivial

end links

/-! ## Runs -/

/-- No token is accepted twice, in any run. -/
theorem accepted_once {now : ℕ} {x : State} (h : resetting.Reach (fun x e _ => freshDraw x e = true)
    (fresh now) x) :
    ∀ τ, x.2.accepted τ ≤ 1 := by
  have hinv : Spent x ∧ Service.Conforms protocol (unused x) x.1 := by
    refine h.inv (I := fun x => Spent x ∧ Service.Conforms protocol (unused x) x.1) ?_ ?_
    · rintro x e y ⟨hs, hc⟩ he hfresh
      exact ⟨hs.effect (effect_step hc he hfresh), unused_step hs hc he hfresh⟩
    · refine ⟨⟨fun _ => Nat.zero_le _, fun _ _ _ => rfl, fun _ _ => ⟨rfl, rfl⟩⟩, ?_⟩
      intro t c hc
      cases hc
  exact hinv.1.once

/-- The index names what is accepted, in every run whose steps are orderly. -/
theorem reach_links {now : ℕ} {x : State} (h : resetting.Reach (fun x e _ => orderly x e = true)
    (fresh now) x) :
    Links x := by
  have hinv : (Links x ∧ Queue x) ∧ Service.Conforms protocol (fun _ => cleared x) x.1 ∧
      Service.Conforms protocol (fun _ _ _ => True) x.1 := by
    refine h.inv (I := fun x => (Links x ∧ Queue x) ∧
      Service.Conforms protocol (fun _ => cleared x) x.1 ∧
      Service.Conforms protocol (fun _ _ _ => True) x.1) ?_ ?_
    · rintro x e y ⟨⟨hl, hq⟩, hc, hc'⟩ he hord
      have hstep := (Lts.noting_step.1 he).1
      exact ⟨⟨links_step hl hq hc he hord, queue_step hq hc' he hord⟩,
        cleared_step hl hq hc he hord,
        hc'.keep hstep fun q => ⟨_, tokens_keeps q⟩⟩
    · refine ⟨⟨⟨fun _ _ he => ?_, fun _ _ _ he => ?_⟩, ?_⟩, ?_, ?_⟩
      · cases he
      · cases he
      · refine ⟨fun _ _ _ _ _ h1 => ?_, fun _ _ _ _ _ h1 => ?_, fun _ _ _ h1 => ?_,
          fun _ _ h1 => ?_⟩ <;> cases h1
      · intro t c hc
        cases hc
      · intro t c hc
        cases hc
  exact hinv.1.1

/-- Two issues of user 1 look before either stores its token. -/
def twoIssues : List (Event backend Req) :=
  [.start 0 (.issue 1), .start 1 (.issue 1), .step 0 7, .step 1 8, .step 0 0, .step 1 0] ++
  Event.steps 0 0 2 ++ Event.steps 1 0 2

/-- After them both links work. -/
theorem two_links : ¬∀ now x, resetting.Reach (fun x e _ => freshDraw x e = true) (fresh now) x →
    OnlyNewest x := by
  intro h
  have hrun := h 0 _ (Lts.reach_runOk twoIssues)
  have hquiet : ((resetting.runOk (fun x e _ => freshDraw x e = true) twoIssues (fresh 0)).getD
      (fresh 0)).1.Quiescent := by
    intro t c hc
    have htally := Sys.tally_eq_zero (p := fun c => !c.prog.finished).1 (by decide +kernel) t c hc
    simpa using htally
  obtain ⟨k, hk⟩ := hrun.1 hquiet 1 7 (by unfold Live; decide +kernel)
  have hlast : ((resetting.runOk (fun x e _ => freshDraw x e = true) twoIssues
      (fresh 0)).getD (fresh 0)).2.latest 1 =
      some (1, 8) := by decide +kernel
  rw [hlast] at hk
  cases hk

/-- **Only the newest link works, once**, in every run whose steps are orderly. -/
theorem only_newest {now : ℕ} {x : State}
    (h : resetting.Reach (fun x e _ => (freshDraw x e && orderly x e) = true) (fresh now) x) :
    OnlyNewest x := by
  have hlinks := reach_links (h.mono fun _ _ _ hok => (Bool.and_eq_true_iff.1 hok).2)
  have honce := accepted_once (h.mono fun _ _ _ hok => (Bool.and_eq_true_iff.1 hok).1)
  refine ⟨fun hquiet u τ hl => ?_, honce⟩
  obtain ⟨e, he, hv⟩ := live_iff.1 hl
  rcases hlinks.indexed u τ e he hv with ⟨-, -, -, -, hk⟩ | ⟨t, p, hcall, hnext⟩
  · exact hk
  · have hfin := hquiet t _ hcall
    cases p with
    | call c k => cases hfin
    | ret a => cases hnext
    | fail e => cases hnext

/-- Two issues one after the other, and the second token consumed. -/
def sampleTokens : List (Event backend Req) :=
  [.start 0 (.issue 1), .step 0 7] ++ Event.steps 0 0 3 ++ [.start 1 (.issue 1), .step 1 8] ++
  Event.steps 1 0 4 ++
    [.start 2 (.consume 8)] ++ Event.steps 2 0 2

theorem only_newest_consumed :
    ∃ x, resetting.runOk (fun x e _ => (freshDraw x e && orderly x e) = true) sampleTokens
      (fresh 0) = some x ∧
      OnlyNewest x ∧ x.2.accepted 8 = 1 ∧ x.2.accepted 7 = 0 := by
  have hrun : ∀ o, o = resetting.runOk (fun x e _ => (freshDraw x e && orderly x e) = true)
      sampleTokens (fresh 0) →
      o.map (fun x => (x.2.accepted 8, x.2.accepted 7)) = some (1, 0) := by
    rintro _ rfl
    decide +kernel
  obtain ⟨x, hx, haccepted⟩ := Option.map_eq_some_iff.1 (hrun _ rfl)
  obtain ⟨h8, h7⟩ := Prod.mk.inj haccepted
  exact ⟨x, hx, only_newest (.of_runOk hx), h8, h7⟩

end DreamFly.Reset
