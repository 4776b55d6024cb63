import DreamFly.Run.Access

/-!
# What `resolve` answers

From a moment at which every committed change of a user has been flushed, and as long as
no change of the user commits, whatever a `resolve` of the user holds is what is committed
(`Answering`): a hit, because the cache is right (`Cached.right`); a miss or a failure of
the cache, because it leads to the database.
-/

namespace DreamFly.Access

open Conc Code

variable {x y : State} {e : Event access Req} {t : ℕ} {u : Uuid} {b : Bool} {l : List String}
  {σ : Phase}

/-! ## The whole run -/

/-- What every timely run keeps. -/
structure Kept (x : State) : Prop where
  cache : Cached x
  flushed : Flushed x
  conforms : Service.Conforms protocol (knows x) x.1
  names : ∀ name ∈ (db x).roles, ValidRole name

theorem Kept.fresh {d : Db} (hnames : ∀ name ∈ d.roles, ValidRole name)
    (hgranted : ∀ u, ∀ name ∈ d.userRoles u, name ∈ d.roles) :
    Kept (fresh d) where
  cache :=
    { right := fun _ _ => ⟨nofun, nofun⟩
      valid := hgranted
      owner := fun _ _ hm => by cases hm
      bound := fun _ => le_rfl }
  flushed _ hm := by cases hm
  conforms t c hc := by
    rw [Access.fresh, Sys.call_init] at hc
    cases hc
  names := hnames

theorem Kept.step (h : Kept x) (he : cached.step e x = some y) (ht : timely x e = true) :
    Kept y where
  cache := h.cache.step h.conforms he ht
  flushed := h.flushed.step h.conforms he
  conforms := knows_step h.cache h.flushed h.conforms he
  names := by
    rw [(effect_step h.conforms he).roles]
    exact h.names

/-! ## One call -/

/-- What a call of an active (`b`) user with roles `l` holds. -/
def holds (b : Bool) (l : List String) : Phase → Prop
  | .putActive b' => b' = b
  | .getRoles => b = true
  | .readRoles => b = true
  | .putRoles l' => b = true ∧ l' = l
  | .answer a => a = if b then some l else none
  | .changed => False
  | _ => True

/-- Call `t` resolves user `u`, who is settled, and holds what is committed. -/
structure Answering (t : ℕ) (u : Uuid) (b : Bool) (l : List String) (x : State) : Prop where
  settled : Settled x u
  active : flag x u = b
  roles : (db x).userRoles u = l
  call : ∃ p σ, x.1.call t = some ⟨.resolve u, p⟩ ∧ p.Keeps (protocol (.resolve u)) σ ∧ holds b l σ

theorem holds_afterActive (b : Bool) (l : List String) : holds b l (afterActive b) := by
  cases b <;> rfl

/-- The cache answers what is committed, or as good as nothing. -/
theorem holds_afterGetActive {r : Except Unit (Option String)} (hr : ∀ v, r = .ok (some v) →
    v = encodeActive b) :
    holds b l (afterGetActive r) := by
  rcases r with _ | _ | v
  · trivial
  · trivial
  · rw [hr v rfl]
    have hhit : hit (.ok (some (encodeActive b))) = some (encodeActive b) := rfl
    dsimp only [afterGetActive]
    rw [hhit, decodeActive_encode]
    exact holds_afterActive b l

theorem holds_afterGetRoles {r : Except Unit (Option String)} (hl : ∀ name ∈ l, ValidRole name)
    (hr : ∀ v, r = .ok (some v) → v = encodeRoles l) : holds true l (afterGetRoles r) := by
  rcases r with _ | _ | v
  · rfl
  · rfl
  · rw [hr v rfl]
    have hhit : hit (.ok (some (encodeRoles l))) = some (encodeRoles l) := rfl
    dsimp only [afterGetRoles]
    rw [hhit, decodeRoles_encode hl]
    rfl

/-- **One command of the call itself.** -/
theorem holds_step {n : ℕ} {p p' : Code access AppError Reply} {c : access.Cmd} {r : access.Reply c}
    {f : access.Reply c → Phase} {s : access.State} (hk : Kept x) (h : Answering t u b l x)
    (hσ : holds b l σ)
    (hg : Service.Gave protocol x.1 y.1 t n (.resolve u) p p' c r σ f s) : holds b l (f r) := by
  obtain ⟨hactive, hroles⟩ := hk.cache.right u h.settled
  rw [h.active] at hactive
  rw [h.roles] at hroles
  have hexec := hg.exec
  cases hg.gives with
  | getActive =>
    refine holds_afterGetActive fun v hv => hactive v ?_
    cases hexec
    split at hv
    · cases hv
    · injection hv
  | readActive =>
    cases hexec
    split
    · exact h.active
    · trivial
  | putActive _ b' =>
    cases (hσ : b' = b)
    exact holds_afterActive b l
  | getRoles =>
    cases (hσ : b = true)
    have hl : ∀ name ∈ l, ValidRole name := by
      rw [← h.roles]
      exact fun name hn => hk.names name (hk.cache.valid u name hn)
    refine holds_afterGetRoles hl fun v hv => hroles v ?_
    cases hexec
    split at hv
    · cases hv
    · injection hv
  | readRoles =>
    cases hexec
    split
    · exact ⟨hσ, h.roles⟩
    · trivial
  | putRoles _ l' =>
    obtain ⟨hb, rfl⟩ := hσ
    rw [hb]
    rfl

theorem Answering.step (hk : Kept x) (h : Answering t u b l x) (he : cached.step e x = some y)
    (hu : commitsOf u x e = false) : Answering t u b l y := by
  have heff := effect_step hk.conforms he
  have hsame := heff.same hu
  refine ⟨heff.settled hu h.settled, ?_, by rw [hsame.roles, h.roles], ?_⟩
  · rw [Access.flag, hsame.users]
    exact h.active
  · obtain ⟨p, σ, hcall, hkeeps, hσ⟩ := h.call
    rcases Service.step_own hcall hkeeps (Lts.noting_step.1 he).1 with ⟨hcall', -⟩ |
        ⟨n, p', c, r, f, s, rfl, hg⟩
    · exact ⟨p, σ, hcall', hkeeps, hσ⟩
    · exact ⟨p', f r, by rw [hg.after, Sys.call_set_self], hg.rest, holds_step hk h hσ hg⟩

/-- A call that has just started. -/
theorem Answering.start (hs : Settled x u) (he : cached.step (.start t (.resolve u)) x = some y) :
    Answering t u (flag x u) ((db x).userRoles u) y := by
  obtain ⟨he1, hrec⟩ := Lts.noting_step.1 he
  have hr : y.2 = x.2 := by rw [hrec]; rfl
  rcases Service.step_cases he1 with ⟨_, _, heq, -, hy⟩ | ⟨_, _, _, _, _, _, heq, -⟩ | ⟨_, heq, -⟩
  · cases heq
    have hstate : y.1.state = x.1.state := by rw [hy, Sys.set_state]
    refine ⟨by unfold Settled; rw [hr]; exact hs, by rw [flag, flag, db, hstate],
      by rw [db, hstate], ?_⟩
    exact ⟨_, .getActive, by rw [hy, Sys.call_set_self], accounts_keeps (.resolve u), trivial⟩
  · cases heq
  · cases heq

/-! ## The end of a call -/

/-- The most commands a `resolve` still gives: each key is asked for, read and filled in. -/
def rank : Phase → ℕ
  | .getActive => 6
  | .readActive => 5
  | .putActive _ => 4
  | .getRoles => 3
  | .readRoles => 2
  | .putRoles _ => 1
  | _ => 0

theorem rank_afterActive (b : Bool) : rank (afterActive b) ≤ 3 := by
  cases b <;> decide

theorem rank_gives {c : access.Cmd} {f : access.Reply c → Phase} (hg : Gives (.resolve u) σ c f) :
    0 < rank σ ∧ ∀ r, rank (f r) < rank σ := by
  cases hg with
  | getActive =>
    refine ⟨by decide, fun r => ?_⟩
    unfold afterGetActive
    split
    · next b _ => exact lt_of_le_of_lt (rank_afterActive b) (by decide)
    · decide
  | readActive =>
    refine ⟨by decide, fun r => ?_⟩
    cases r <;> exact Nat.lt_of_sub_eq_succ rfl
  | putActive _ b => exact ⟨Nat.succ_pos 3, fun _ => Nat.lt_succ_of_le (rank_afterActive b)⟩
  | getRoles =>
    refine ⟨by decide, fun r => ?_⟩
    unfold afterGetRoles
    split
    · exact Nat.succ_pos 2
    · decide
  | readRoles =>
    refine ⟨by decide, fun r => ?_⟩
    cases r <;> exact Nat.lt_of_sub_eq_succ rfl
  | putRoles _ l => exact ⟨Nat.one_pos, fun _ => Nat.one_pos⟩

/-- No command waits. -/
theorem exec_enabled (t n : ℕ) (c : Cmd) (s : Store) : ∃ r, access.exec t c n s = some r := by
  cases c with
  | write c =>
    dsimp only
    split
    · exact ⟨_, rfl⟩
    · split <;> exact ⟨_, rfl⟩
  | commit =>
    dsimp only
    split <;> exact ⟨_, rfl⟩
  | _ => exact ⟨_, rfl⟩

theorem step_enabled {q : Req} {p : Code access AppError Reply} (hcall : y.1.call t = some ⟨q, p⟩)
    (hp : p.finished = false)
    (n : ℕ) : ∃ z, cached.step (.step t n) y = some z := by
  cases p with
  | ret a => cases hp
  | fail e => cases hp
  | call c k =>
    obtain ⟨r, hr⟩ := exec_enabled t n c y.1.state
    have hstep := Service.step_exec (V := accounts) hcall hr
    exact ⟨_, Lts.noting_enabled hstep⟩

/-- **The access cache answers what is committed.** In a run in which every flush
succeeds and no `resolve` holds what it has read over a change and its flush, a `resolve`
of user `u` that starts when every committed change of `u` has been flushed, and during
which no other commits, answers what is committed, whatever cache commands fail and
entries are lost. It fails only where a read of the database fails, gives at most six
commands and never waits. -/
theorem resolve_answers {d : Db} (hnames : ∀ name ∈ d.roles, ValidRole name)
    (hgranted : ∀ u, ∀ name ∈ d.userRoles u, name ∈ d.roles) {x x₁ y : State}
    {p : Code access AppError Reply}
    (hx : cached.Reach (fun x e _ => timely x e = true) (fresh d) x) (hs : Settled x u)
    (he : cached.step (.start t (.resolve u)) x = some x₁)
    (hy : cached.Reach (fun x e _ => timely x e = true ∧ commitsOf u x e = false) x₁ y)
    (hp : y.1.call t = some ⟨.resolve u, p⟩) :
    (∀ r, p = .ret r → r = .access ((db x).answer u)) ∧ (∀ e, p = .fail e → t ∈ y.2.failed) ∧
    p.Within 6 ∧
      (p.finished = false → ∀ n, ∃ z, cached.step (.step t n) y = some z) := by
  have hkx : Kept x := hx.inv (fun _ _ _ hk he ht => hk.step he ht) (.fresh hnames hgranted)
  obtain ⟨hky, hay⟩ : Kept y ∧ Answering t u (flag x u) ((db x).userRoles u) y := by
    refine hy.inv (I := fun y => Kept y ∧ Answering t u (flag x u) ((db x).userRoles u) y) ?_
      ⟨hkx.step he rfl, .start hs he⟩
    rintro s e s' ⟨hk, ha⟩ he ⟨ht, hu⟩
    exact ⟨hk.step he ht, ha.step hk he hu⟩
  obtain ⟨p', σ, hcall, hkeeps, hσ⟩ := hay.call
  rw [hp] at hcall
  cases hcall
  refine ⟨?_, ?_, hkeeps.within (fun _ _ _ => rank_gives) (by cases σ <;> simp [rank]),
    step_enabled hp⟩
  · rintro r rfl
    -- what the call has kept at its end is the answer itself
    cases σ with
    | answer a =>
      cases (hkeeps : Except.ok r = Except.ok (Reply.access a))
      cases (hσ : a = _)
      rfl
    | changed => exact hσ.elim
    | failed =>
      obtain ⟨e, he⟩ := (hkeeps : ∃ e, Except.ok r = Except.error (AppError.database e))
      cases he
    | _ => exact hkeeps.elim
  · rintro e rfl
    obtain ⟨σ', hknows, hends⟩ := hky.conforms t _ hp
    cases σ' with
    | failed => exact hknows
    | answer a => cases (hends : Except.error e = Except.ok (Reply.access a))
    | changed => cases (hends : Except.error e = Except.ok Reply.changed)
    | _ => exact hends.elim

/-- One active member. -/
def oneMember : Db where
  users u := if u = 1 then some true else none
  userRoles u := if u = 1 then ["member"] else []
  roles := ["coach", "member"]

/-- A role is granted and both keys are dropped. -/
def afterGrant : State :=
  (cached.runOk (fun x e _ => timely x e = true)
    (.start 0 (.change (.assignRole 1 "coach")) :: Event.steps 0 0 3)
    (fresh oneMember)).getD (fresh oneMember)

def resolveStarted : State := (cached.step (.start 1 (.resolve 1)) afterGrant).getD afterGrant

/-- The cache fails twice. -/
def resolved : State :=
  (cached.runOk (fun x e _ => timely x e = true ∧ commitsOf 1 x e = false)
    [.step 1 1, .step 1 0, .step 1 2, .step 1 0, .step 1 0,
      .step 1 0] resolveStarted).getD resolveStarted

theorem resolve_answers_granted : ∃ r, resolved.1.call 1 = some ⟨.resolve 1, .ret r⟩ ∧
    r = .access (some ["coach", "member"]) := by
  obtain ⟨r, hr⟩ : ∃ r, resolved.1.call 1 = some ⟨.resolve 1, .ret r⟩ := ⟨_, rfl⟩
  have hnames : ∀ name ∈ oneMember.roles, ValidRole name := by
    unfold ValidRole
    decide
  have hgranted : ∀ u, ∀ name ∈ oneMember.userRoles u, name ∈ oneMember.roles := by
    intro u name hn
    dsimp only [oneMember] at hn
    split at hn
    · exact List.mem_cons_of_mem _ hn
    · cases hn
  have hs : Settled afterGrant 1 := by
    intro t ht
    have hcommits : afterGrant.2.commits = [(0, 1)] := by decide +kernel
    rw [hcommits] at ht
    cases List.mem_singleton.1 ht
    decide +kernel
  have hstart : cached.step (.start 1 (.resolve 1)) afterGrant = some resolveStarted := rfl
  have hanswer : (db afterGrant).answer 1 = some ["coach", "member"] := by decide +kernel
  have h := resolve_answers hnames hgranted (Lts.reach_runOk _) hs hstart (Lts.reach_runOk _) hr
  exact ⟨r, hr, (h.1 r rfl).trans (congrArg Reply.access hanswer)⟩

end DreamFly.Access
