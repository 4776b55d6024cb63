import DreamFly.Txn.Journal

/-!
# Calls that do not fail after their commit

A call that has committed may go on, to read what it answers. Where it can only answer
then, and no connection is lost there, a call that has failed has committed nothing.

* `journal_calls`: the calls in the journal are the ones that have committed.
* `firm_failed`, `firm_answered`: what a call has committed, by what it has ended with.
* `prompt_failed`, `prompt_answered`: the same where the answer comes with the commit.
-/

namespace Txn

variable {S : Schema} {E A Q α β : Type} {V : Service S E A Q} {ok : Sys S E A Q → Event Q →
  Sys S E A Q → Prop}
  {d d' : Store S} {s s' : Sys S E A Q} {γ : List (Entry S E A Q)} {e : Event Q}
    {c c' : Call S E A Q} {t : ℕ}

/-! ## Calls and their entries -/

/-- A call that has committed had done so before the event, or the event is its commit. -/
theorem entry_committed (h : V.step e s = some s') (hc : s'.call t = some c')
    (hcom : c'.committed = true) :
    (∃ c, s.call t = some c ∧ c.committed = true ∧ c.req = c'.req) ∨ ∃ x, s.entry e = some x ∧
      x.call = t ∧ x.req = c'.req := by
  rcases entry_cases h with ⟨hn, -⟩ | ⟨u, n, c, k, rfl, hu, hk, rfl, hn⟩
  · rcases step_cases h with ⟨u, q, rfl, -, rfl⟩ | ⟨u, n, c, c₁, d₁, rfl, hu, ha, rfl⟩ |
        ⟨u, c, rfl, hu, -, rfl⟩
    all_goals
      rw [Sys.call_set] at hc
      split at hc
    · cases hc; cases hcom
    · exact .inl ⟨c', hc, hcom, rfl⟩
    next htu =>
      subst htu
      cases hc
      refine .inl ⟨c, hu, ?_, (advance_inv ha).1.symm⟩
      -- of all instructions only a commit sets the flag, and it has an entry
      rcases (advance_inv ha).2.2 with ⟨-, -, -, hk⟩ | ⟨_, _, _, _, _, -, -, -, hk⟩ |
          ⟨_, _, _, -, -, -, hk⟩ |
        ⟨k, hk, rfl, rfl⟩ | ⟨_, _, _, -, rfl⟩
      · exact hk ▸ hcom
      · exact hk ▸ hcom
      · exact hk ▸ hcom
      · rw [Sys.entry, hu, Option.bind_some, hk] at hn
        cases hn
      · exact hcom
    · exact .inl ⟨c', hc, hcom, rfl⟩
    next htu => subst htu; cases hc; exact .inl ⟨c, hu, hcom, rfl⟩
    · exact .inl ⟨c', hc, hcom, rfl⟩
  · rw [Sys.call_set] at hc
    split at hc
    next htu => cases hc; exact .inr ⟨_, hn, htu.symm, rfl⟩
    · exact .inl ⟨c', hc, hcom, rfl⟩

/-- **The journal has the calls that have committed.** -/
theorem journal_calls (h : V.Journaled ok d s γ) :
    (∀ x ∈ γ, ∃ c, s.call x.call = some c ∧ c.req = x.req ∧ c.committed = true) ∧
      ∀ t c, s.call t = some c → c.committed = true → ∃ x ∈ γ, x.call = t ∧ x.req = c.req := by
  refine journaled_induct (P := fun s γ => (∀ x ∈ γ, ∃ c, s.call x.call = some c ∧ c.req = x.req ∧
    c.committed = true) ∧
    ∀ t c, s.call t = some c → c.committed = true → ∃ x ∈ γ, x.call = t ∧ x.req = c.req)
    ⟨fun _ hx => (nomatch hx), fun t c hc => by rw [Sys.call_init] at hc; cases hc⟩
      (fun s γ e s' _ he _ ih => ⟨fun x hx => ?_, ?_⟩) h
  · rcases List.mem_append.1 hx with hx | hx
    · obtain ⟨c, hc, hreq, hcom⟩ := ih.1 x hx
      obtain ⟨c', hc', hreq', hcom'⟩ := step_call he hc
      exact ⟨c', hc', hreq'.trans hreq, hcom' hcom⟩
    · rcases entry_cases he with ⟨hn, -⟩ | ⟨t, n, c, k, -, -, -, rfl, hn⟩
      · rw [hn] at hx; cases hx
      · rw [hn] at hx
        cases List.mem_singleton.1 hx
        exact ⟨_, Sys.call_set_self .., rfl, rfl⟩
  · intro t c' hc' hcom'
    rcases entry_committed he hc' hcom' with ⟨c, hc, hcom, hreq⟩ | ⟨x, hx, hcall, hreq⟩
    · obtain ⟨x, hx, hcall, hxreq⟩ := ih.2 t c hc hcom
      exact ⟨x, List.mem_append_left _ hx, hcall, hxreq.trans hreq⟩
    · exact ⟨x, List.mem_append_right _ (by rw [hx]; exact List.mem_cons_self), hcall, hreq⟩

/-- **The last entry of a kind.** What a reading `f` of the store shows is what the last entry
that sets it has left, or what it was at the start. -/
theorem Linked.last {γ : List (Entry S E A Q)} {f : Store S → α} {r : α → α → Prop}
    {P : Entry S E A Q → Prop} {I : Entry S E A Q → α → Prop}
    (hrefl : ∀ a, r a a) (htrans : ∀ a b c, r a b → r b c → r a c)
    (his : ∀ x a b, I x a → r b a → I x b)
    (hsets : ∀ x ∈ γ, P x → I x (f x.after)) (hsame : ∀ x ∈ γ, ¬ P x → r (f x.after) (f x.before))
    (h : Linked d γ d') :
    ((∀ x ∈ γ, ¬ P x) ∧ r (f d') (f d)) ∨
      ∃ γ₁ x γ₂, γ = γ₁ ++ x :: γ₂ ∧ P x ∧ (∀ y ∈ γ₂, ¬ P y) ∧ I x (f d') := by
  induction γ generalizing d with
  | nil =>
    cases h
    exact .inl ⟨fun _ hx => (by cases hx), hrefl _⟩
  | cons x γ ih =>
    obtain ⟨hbefore, hrest⟩ := h
    have hx : x ∈ x :: γ := List.mem_cons_self
    rcases ih (fun y hy => hsets y (List.mem_cons_of_mem x hy))
        (fun y hy => hsame y (List.mem_cons_of_mem x hy)) hrest with
      ⟨hno, hr⟩ | ⟨γ₁, y, γ₂, rfl, hy⟩
    · by_cases hset : P x
      · exact .inr ⟨[], x, γ, rfl, hset, hno, his x _ _ (hsets x hx hset) hr⟩
      · refine .inl ⟨List.forall_mem_cons.2 ⟨hset, hno⟩, htrans _ _ _ hr ?_⟩
        rw [← hbefore]
        exact hsame x hx hset
    · exact .inr ⟨x :: γ₁, y, γ₂, rfl, hy⟩

/-! ## Firm programs -/

namespace Prog

/-- It commits at most once and can only answer after that; without a commit it answers
as `N` says. -/
def Firm (N : α → Prop) : Prog S E α → Prop
  | ret a => N a
  | fail _ => True
  | view k => ∀ v, (k v).Firm N
  | lock _ _ k => k.Firm N
  | fresh _ _ k => ∀ n, (k n).Firm N
  | pick k => ∀ n, (k n).Firm N
  | write _ k => k.Firm N
  | commit k => k.Inner (fun _ _ => True) (fun _ _ => False) []
  | rollback _ k => k.Firm N

/-- A piece without a commit. -/
abbrev Uncommitting (p : Prog S E α) : Prop := ∀ ws, p.Inner (fun _ _ => True) (fun _ _ => True) ws

variable {N : α → Prop} {N' : β → Prop} {p : Prog S E α}

theorem Uncommitting.handle {okk : α → Prog S E β} {err : E → Prog S E β} (h : p.Uncommitting)
    (hok : ∀ a, (okk a).Firm N')
    (herr : ∀ e, (err e).Firm N') : (p.handle okk err).Firm N' := by
  have hp := h []
  clear h
  generalize ([] : List (Write S)) = ws at hp
  induction p generalizing ws with
  | ret a => exact hok a
  | fail e => exact herr e
  | view k ih => exact fun v => ih v _ (hp v)
  | lock r m k ih => exact ih _ hp
  | fresh t key k ih => exact fun n => ih n _ (hp n)
  | pick k ih => exact fun n => ih n _ (hp n)
  | write w k ih => exact ih _ hp
  | commit k ih =>
    obtain ⟨r, -, hr⟩ := hp
    exact hr.elim
  | rollback e k ih => exact ih _ hp

theorem Uncommitting.firm {k : α → Prog S E β} (h : p.Uncommitting) (hk : ∀ a, (k a).Firm N') :
    (p >>= k).Firm N' :=
  h.handle hk fun _ => trivial

/-- A function of the answer. -/
theorem Firm.map {f : α → β} (h : p.Firm N) (hN : ∀ a, N a → N' (f a)) :
    (p >>= fun a => pure (f a)).Firm N' := by
  rw [Prog.bind_eq]
  induction p with
  | ret a => exact hN a h
  | fail e => trivial
  | view k ih => exact fun v => ih v (h v)
  | lock r m k ih => exact ih h
  | fresh t key k ih => exact fun n => ih n (h n)
  | pick k ih => exact fun n => ih n (h n)
  | write w k ih => exact ih h
  | commit k ih => exact Inner.handle h (fun _ _ _ => trivial) fun _ _ h => h
  | rollback e k ih => exact ih h

/-- A transaction, and what is read after it. -/
theorem Uncommitting.atomically {k : α → Prog S E β} (h : p.Uncommitting)
    (hk : ∀ a, (k a).Inner (fun _ _ => True) (fun _ _ => False) []) :
    (p.atomically >>= k).Firm N' := by
  rw [Prog.bind_eq, Prog.atomically, Prog.handle_handle]
  exact h.handle hk fun _ => trivial

theorem Uncommitting.bind {k : α → Prog S E β} (h : p.Uncommitting) (hk : ∀ a, (k a).Uncommitting) :
    (p >>= k).Uncommitting :=
  fun ws => (h ws).bind (fun ws a _ => hk a ws) fun _ _ _ => trivial

theorem Uncommitting.ret (a : α) : (.ret a : Prog S E α).Uncommitting := fun _ => trivial

theorem Uncommitting.fail (e : E) : (.fail e : Prog S E α).Uncommitting := fun _ => trivial

theorem Uncommitting.each {f : α → Prog S E β} (h : ∀ a, (f a).Uncommitting) (l : List α) :
    (Prog.each f l).Uncommitting := by
  induction l with
  | nil => exact fun _ => trivial
  | cons a l ih => exact (h a).bind fun b => ih.bind fun bs => .ret _

section statements
variable {t : S.Tbl}

theorem Uncommitting.orFail (o : Option α) (e : E) :
    (Prog.orFail o e : Prog S E α).Uncommitting := by
  cases o with
  | none => exact .fail e
  | some a => exact .ret a

theorem Uncommitting.ensure (b : Bool) (e : E) :
    (Prog.ensure b e : Prog S E Unit).Uncommitting := by
  cases b with
  | false => exact .fail e
  | true => exact .ret ()

theorem Uncommitting.checked (r : Except E α) : (Prog.checked r : Prog S E α).Uncommitting := by
  cases r with
  | ok a => exact .ret a
  | error e => exact .fail e

theorem Uncommitting.read (q : Store S → α) : (Prog.read q : Prog S E α).Uncommitting :=
    fun _ _ => trivial

theorem Uncommitting.lockRes (r : Res S) (m : Mode) :
    (Prog.lockRes r m : Prog S E Unit).Uncommitting := fun _ => trivial

theorem Uncommitting.references (t : S.Tbl) (k : S.Key t) (e : E) :
    (Prog.references t k e : Prog S E Unit).Uncommitting :=
  fun _ => (Inner.references (X := fun _ _ => True) trivial).imp (fun _ _ _ => trivial)
    fun _ _ h => h

theorem Uncommitting.insert (key : ℕ → S.Key t) (row : ℕ → S.Row t) :
    (Prog.insert t key row : Prog S E ℕ).Uncommitting :=
  fun _ _ => trivial

theorem Uncommitting.updateRow {k : S.Key t} (q : S.Row t → Bool) (f : S.Row t → S.Row t) :
    (Prog.updateRow t k q f : Prog S E _).Uncommitting :=
  fun _ => (Inner.updateRow (X := fun _ _ => True) q f).imp (fun _ _ _ => trivial) fun _ _ h => h

theorem Uncommitting.selectFor {k : S.Key t} (q : S.Row t → Bool) (m : Mode) :
    (Prog.selectFor t k q m : Prog S E _).Uncommitting :=
  fun _ => (Inner.selectFor (X := fun _ _ => True) q m).imp (fun _ _ _ => trivial) fun _ _ h => h

theorem Uncommitting.claim (r : Res S) (taken : Store S → Bool) :
    (Prog.claim r taken : Prog S E Bool).Uncommitting :=
  fun _ _ => trivial

theorem Uncommitting.deleteAll (q : S.Key t → S.Row t → Bool) :
    (Prog.deleteAll t q : Prog S E _).Uncommitting :=
  fun _ => (Inner.deleteAll (X := fun _ _ => True) q).imp (fun _ _ _ => trivial) fun _ _ h => h

theorem Uncommitting.writeEach (q : S.Key t → S.Row t → Bool) (m : Mode) (w : S.Key t → Write S)
    (ks : List (S.Key t)) :
    (Prog.writeEach t q m w ks : Prog S E _).Uncommitting := by
  induction ks with
  | nil => exact .ret _
  | cons k ks ih =>
    refine Uncommitting.bind (p := Prog.recheck t k (q k) m) (fun _ _ => trivial) fun o => ?_
    cases o with
    | none => exact ih
    | some r =>
      exact Uncommitting.bind (p := Prog.put (w k)) (fun _ => trivial) fun _ =>
        ih.bind fun _ => .ret _

theorem Uncommitting.updateAll (q : S.Key t → S.Row t → Bool) (f : S.Row t → S.Row t) :
    (Prog.updateAll t q f : Prog S E _).Uncommitting :=
  (Uncommitting.read _).bind fun _ => Uncommitting.bind (p := Prog.choose)
    (fun _ _ => trivial) fun _ => .writeEach _ _ _ _

end statements

end Prog

/-- An operation other than a commit keeps a program firm. -/
theorem firm_advance {N : A → Prop} {busy : Res S → Mode → Bool} {n : ℕ} (h : c.prog.Firm N)
    (ha : c.advance busy n d = some (d', c')) (hn : c.prog.isCommit = false) : c'.prog.Firm N ∧
    c'.committed = c.committed := by
  unfold Call.advance at ha
  split at ha
  · cases ha
  · cases ha
  case h_3 k hk => cases ha; rw [hk] at h; exact ⟨h _, rfl⟩
  case h_4 r m k hk =>
    split at ha
    · cases ha
    · cases ha; rw [hk] at h; exact ⟨h, rfl⟩
  case h_5 t key k hk =>
    simp only at ha
    split at ha
    · cases ha
    · cases ha; rw [hk] at h; exact ⟨h n, rfl⟩
  case h_6 k hk => cases ha; rw [hk] at h; exact ⟨h n, rfl⟩
  case h_7 w k hk => cases ha; rw [hk] at h; exact ⟨h, rfl⟩
  case h_8 k hk => rw [hk] at hn; cases hn
  case h_9 x k hk => cases ha; rw [hk] at h; exact ⟨h, rfl⟩

section calls
variable {N : Q → A → Prop}

/-- A call of a firm program: it is firm until its commit, and then can only answer. -/
def FirmCall (N : Q → A → Prop) (c : Call S E A Q) : Prop :=
  (c.committed = false → c.prog.Firm (N c.req)) ∧
    (c.committed = true → c.prog.Inner (fun _ _ => True) (fun _ _ => False) c.ws)

theorem FirmCall.advance {busy : Res S → Mode → Bool} {n : ℕ} (h : FirmCall N c)
    (ha : c.advance busy n d = some (d', c')) :
    FirmCall N c' := by
  have hreq := (advance_inv ha).1
  -- a call commits at most once, and its answer is fixed from then on
  cases hcommit : c.prog.isCommit with
  | true =>
    cases hp : c.prog with
    | commit k =>
      simp only [Call.advance, hp] at ha
      cases ha
      refine ⟨fun hc => (by cases hc), fun _ => ?_⟩
      cases hcom : c.committed with
      | false =>
        have hfirm := h.1 hcom
        rw [hp] at hfirm
        exact hfirm
      | true =>
        have hclosed := h.2 hcom
        rw [hp] at hclosed
        obtain ⟨_, -, hr⟩ := hclosed
        exact hr.elim
    | _ => rw [hp] at hcommit; cases hcommit
  | false =>
    cases hcom : c.committed with
    | false =>
      obtain ⟨hp, hcom'⟩ := firm_advance (h.1 hcom) ha hcommit
      exact ⟨fun _ => hreq ▸ hp, fun hc => by rw [hcom', hcom] at hc; cases hc⟩
    | true =>
      obtain ⟨hp, hcom'⟩ := closes_advance (h.2 hcom) ha hcommit
      exact ⟨fun hc => (by rw [hcom', hcom] at hc; cases hc), fun _ => hp⟩

/-- Nobody loses the connection after a commit. -/
def Unbroken (s : Sys S E A Q) (e : Event Q) (_ : Sys S E A Q) : Prop :=
  ∀ t c, e = .abort t → s.call t = some c → c.committed = false

theorem firm_calls (hV : ∀ q, (V.prog q).Firm (N q)) (hok : ∀ s e s', ok s e s' → Unbroken s e s')
    (h : V.Reach ok (Sys.init d) s) :
    ∀ t c, s.call t = some c → FirmCall N c := by
  induction h with
  | refl => exact fun t c hc => by rw [Sys.call_init] at hc; cases hc
  | tail _ hst ih =>
    obtain ⟨e, he, hstep⟩ := hst
    intro t c hc
    rcases step_cases he with ⟨u, q, rfl, -, rfl⟩ | ⟨u, n, c₁, c₂, d₁, rfl, hu, ha, rfl⟩ |
        ⟨u, c₁, rfl, hu, -, rfl⟩
    all_goals
      rw [Sys.call_set] at hc
      split at hc
    · cases hc; exact ⟨fun _ => hV q, fun h => nomatch h⟩
    · exact ih t c hc
    · cases hc; exact (ih u c₁ hu).advance ha
    · exact ih t c hc
    · cases hc
      have hcom := hok _ _ _ hstep u c₁ rfl hu
      exact ⟨fun _ => trivial, fun h => by rw [show c₁.committed = true from h] at hcom; cases hcom⟩
    · exact ih t c hc

variable (hV : ∀ q, (V.prog q).Firm (N q)) (hok : ∀ s e s', ok s e s' → Unbroken s e s')
include hV hok

/-- **A call that has failed has committed nothing.** -/
theorem firm_failed (h : V.Journaled ok d s γ) (hc : s.call t = some c) {x : E}
    (hp : c.prog = .fail x) : ∀ y ∈ γ, y.call ≠ t := by
  intro y hy hcall
  obtain ⟨c', hc', -, hcom⟩ := (journal_calls h).1 y hy
  rw [hcall, hc] at hc'
  cases hc'
  have hfirm := (firm_calls hV hok (Service.RecReach.reach h) t c hc).2 hcom
  rw [hp] at hfirm
  exact hfirm

/-- A call that has answered, and not so without a commit, has committed. -/
theorem firm_answered (h : V.Journaled ok d s γ) (hc : s.call t = some c) {a : A}
    (hp : c.prog = .ret a) (hN : ¬ N c.req a) :
    ∃ y ∈ γ, y.call = t ∧ y.req = c.req := by
  refine (journal_calls h).2 t c hc ?_
  by_contra hcom
  have hfirm := (firm_calls hV hok (Service.RecReach.reach h) t c hc).1 (by simpa using hcom)
  rw [hp] at hfirm
  exact hN hfirm

end calls

/-! ## Programs that answer with their commit -/

namespace Prog

/-- It is over with its commit, and then has succeeded; without one it answers as `N` says. -/
abbrev Prompt (N : α → Prop) (p : Prog S E α) : Prop :=
  ∀ ws, p.Closes (fun _ r => ∃ a, r = .ok a) (fun _ => N) (fun _ _ => True) ws

variable {N : α → Prop} {N' : β → Prop} {p : Prog S E α}

theorem Uncommitting.before {k : α → Prog S E β} (h : p.Uncommitting) (hk : ∀ a, (k a).Prompt N') :
    (p >>= k).Prompt N' :=
  fun ws => (h ws).bind (fun ws' a _ => hk a ws') fun _ _ _ => trivial

theorem Uncommitting.prompt (h : p.Uncommitting) (hN : ∀ a, N a) : p.Prompt N := by
  intro ws
  have hp := h ws
  clear h
  induction p generalizing ws with
  | ret a => exact hN a
  | fail e => trivial
  | view k ih => exact fun v => ih v ws (hp v)
  | lock r m k ih => exact ih ws hp
  | fresh t key k ih => exact fun n => ih n ws (hp n)
  | pick k ih => exact fun n => ih n ws (hp n)
  | write w k ih => exact ih _ hp
  | commit k ih =>
    obtain ⟨r, -, hr⟩ := hp
    exact hr.elim
  | rollback e k ih => exact ih _ hp

theorem Uncommitting.prompt_atomically (h : p.Uncommitting) : p.atomically.Prompt N :=
  fun ws => Inner.handle (h ws) (fun _ a _ => ⟨_, rfl, a, rfl⟩) fun _ _ _ => trivial

theorem Prompt.map {f : α → β} (h : p.Prompt N) (hN : ∀ a, N a → N' (f a)) :
    (p >>= fun a => pure (f a)).Prompt N' := by
  refine fun ws => Closes.map (h ws) (fun _ r hr => ?_) fun _ a ha => hN a ha
  obtain ⟨a, rfl⟩ := hr
  exact ⟨f a, rfl⟩

end Prog

section prompt
variable {N : Q → A → Prop} (hV : ∀ q, (V.prog q).Prompt (N q))
include hV

theorem prompt_recorded (h : V.Journaled ok d s γ) :
    Recorded (fun _ _ r => ∃ a, r = .ok a) (fun q _ => N q) (fun _ _ _ => True) s γ :=
  recorded (fun q => hV q []) (fun _ => trivial) h

/-- **Who has failed has committed nothing.** -/
theorem prompt_failed (h : V.Journaled ok d s γ) (hc : s.call t = some c) {e : E}
    (hp : c.prog = .fail e) : ∀ x ∈ γ, x.call ≠ t := by
  intro x hx hcall
  have hr := prompt_recorded hV h
  obtain ⟨c', hc', -, hcom⟩ := hr.calls x hx
  rw [hcall, hc] at hc'
  cases hc'
  obtain ⟨y, hy, -, -, hreply, -⟩ := hr.committed t c hc hcom
  obtain ⟨r, hyr, a, rfl⟩ := hr.answered y hy
  rw [hreply, hp] at hyr
  cases hyr

/-- Who has answered, and not so without a commit, has committed with this answer. -/
theorem prompt_answered (h : V.Journaled ok d s γ) (hc : s.call t = some c) {a : A}
    (hp : c.prog = .ret a) (hN : ¬ N c.req a) :
    ∃ x ∈ γ, x.call = t ∧ x.req = c.req ∧ x.reply = some (.ok a) := by
  have hr := prompt_recorded hV h
  cases hcom : c.committed with
  | false =>
    have hclose := hr.pending t c hc hcom
    rw [hp] at hclose
    exact absurd hclose hN
  | true =>
    obtain ⟨x, hx, hcall, hreq, hreply, -⟩ := hr.committed t c hc hcom
    exact ⟨x, hx, hcall, hreq, by rw [hreply, hp]; rfl⟩

end prompt

end Txn
