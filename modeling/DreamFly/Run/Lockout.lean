import DreamFly.Auth.Credentials

/-!
# How often a password is guessed

The lockout reads the failure counter before the slow hash, and the failure is counted
after it. So every attempt that was let through before the counter reached the limit is
compared, however many there are; what bounds them is how many are let through at a time
(`roomy`).
-/

namespace DreamFly.Credentials

open Conc Code

variable (argon2 : String → String → Except Unit Bool)

/-- Comparisons of an email whose result counts: in the present lifetime of the counter
(with the time before its creation), and after the counter had reached the limit. -/
structure Tries where
  compared : String → ℕ
  late : String → ℕ

/-- A lifetime of the counter of `email` ends. -/
def ends (email : String) (x y : Ephemeral Key String) : Bool :=
  (x.look ⟨email⟩).isSome && (y.look ⟨email⟩).isNone

namespace Tries

def none : Tries := ⟨fun _ => 0, fun _ => 0⟩

/-- The comparison of an attempt at `email` does not match. -/
def mismatch (g : Tries) (x : Ephemeral Key String) (email : String) : Tries where
  compared := Function.update g.compared email (g.compared email + 1)
  late := if x.counter ⟨email⟩ ≥ loginMaxAttempts then
    Function.update g.late email (g.late email + 1) else g.late

/-- A result counts when the password does not match: see `judge_counts`. -/
def after (g : Tries) (x : Ephemeral Key String) (q : Req) : (backend argon2).Cmd → Tries
  | .other (.verifyPassword password hash) =>
    if verifyPassword argon2 password hash = .ok false then g.mismatch x q.email else g
  | _ => g

def note (g : Tries) (s : Sys (backend argon2) AppError User Req) (e : Event (backend argon2) Req)
    (s' : Sys (backend argon2) AppError User Req) : Tries :=
  let g' := match s.does e with
    | some (q, c, _) => g.after argon2 s.state.1 q c
    | Option.none => g
  { g' with compared := fun email => if ends email s.state.1 s'.state.1 then 0 else
    g'.compared email }

end Tries

/-- The verdicts that count are those on a mismatch. -/
theorem judge_counts {password : String} {user : Option User} {matched : Bool}
    (h : verifyPassword argon2 password (user.bind User.passwordHash) = .ok matched) :
    (judge user matched).next = .count ↔ matched = false := by
  cases user with
  | none =>
    cases h
    exact ⟨fun _ => rfl, fun _ => rfl⟩
  | some u =>
    obtain ⟨id, hash, active⟩ := u
    cases hash with
    | none =>
      cases h
      exact ⟨fun _ => rfl, fun _ => rfl⟩
    | some hash => cases matched <;> cases active <;> simp [judge, Verdict.next]

abbrev State := Sys (backend argon2) AppError User Req × Tries

abbrev attempts : Lts (State argon2) (Event (backend argon2) Req) :=
  (logins argon2).lts.noting (Tries.note argon2)

/-- Nothing counted, no attempt yet. -/
def fresh (now : ℕ) (d : String → Option User) : State argon2 := (.init (.empty now, d), .none)

/-- An attempt at `email` that was let through and whose failure is not counted. -/
def through (email : String) (c : Call (backend argon2) AppError User Req) : Bool :=
  c.req.email = email && match c.prog.next with
    | some (.other _) => true
    | some (.store (.incrWithTtl _ _)) => true
    | _ => false

/-- The store does not fail, and no login succeeds. -/
def failing (x : State argon2) (e : Event (backend argon2) Req) : Bool :=
  match x.1.does e with
  | some (_, .store (.del _), _) => false
  | some (_, .store _, n) => n ≠ 1 && n ≠ 2
  | _ => true

/-- An attempt is let through only while the failures counted and the attempts let through
and not counted yet are fewer than the limit. -/
def roomy (x : State argon2) (e : Event (backend argon2) Req) : Bool :=
  match x.1.does e with
  | some (q, .store (.get _), _) =>
    x.1.state.1.counter ⟨q.email⟩ ≥ loginMaxAttempts ||
      x.1.state.1.counter ⟨q.email⟩ + x.1.tally (through argon2 q.email) < loginMaxAttempts
  | _ => true

/-- In the lifetime of each email's counter at most ten attempts have been compared and failed,
and none ever with the counter at its limit. -/
def Locked (x : State argon2) : Prop := ∀ email, (x.2.compared email : ℤ) ≤ loginMaxAttempts ∧
    x.2.late email = 0

/-! ## The invariant -/

/-- An attempt whose failure is about to be counted. -/
def pending (email : String) (c : Call (backend argon2) AppError User Req) : Bool :=
  c.req.email = email && c.prog.next = some (.store (.incrWithTtl ⟨email⟩ loginLockoutTtl))

/-- What bounds the attempts at one email. -/
structure Bounded (email : String) (x : State argon2) : Prop where
  plain : ∀ v, x.1.state.1.value ⟨email⟩ ≠ some (.text v)
  nonneg : 0 ≤ x.1.state.1.counter ⟨email⟩
  room : x.1.state.1.counter ⟨email⟩ + x.1.tally (through argon2 email) ≤ loginMaxAttempts
  compared : (x.2.compared email : ℤ) ≤ x.1.state.1.counter ⟨email⟩ +
    x.1.tally (pending argon2 email)
  late : x.2.late email = 0

section steps
variable {argon2}
variable {x y : State argon2} {e : Event (backend argon2) Req} {t n : ℕ} {q : Req}
  {p p' : Code (backend argon2) AppError User}
  {c : (backend argon2).Cmd} {r : (backend argon2).Reply c} {σ : Phase}
    {f : (backend argon2).Reply c → Phase}
  {d : (backend argon2).State} {email : String}

/-- The phases in which a call was let through and is not over. -/
def Phase.isThrough : Phase → Bool
  | .find | .compare _ | .count => true
  | _ => false

def Phase.isPending : Phase → Bool
  | .count => true
  | _ => false

/-- Which calls are let through can be read off their phase. -/
theorem situation (h : p.Keeps (protocol argon2 q) σ) :
    through argon2 email ⟨q, p⟩ = (decide (q.email = email) && σ.isThrough) ∧
      pending argon2 email ⟨q, p⟩ = (decide (q.email = email) && σ.isPending) := by
  by_cases hσ : σ = .done
  · subst hσ
    have hnone : p.next = none := (h.over fun c f hg => by cases hg).2
    simp [through, pending, hnone, Phase.isThrough, Phase.isPending]
  · obtain ⟨c, f, hg, hn⟩ := h.next fun _ => hσ
    unfold through pending
    simp only [hn]
    cases hg with
    | count =>
      by_cases he : q.email = email
      · subst he
        simp [Phase.isThrough, Phase.isPending]
      · simp [he]
    | _ => simp [Phase.isThrough, Phase.isPending]

/-- A step that leaves the counter, the two kinds of calls and the record alone. -/
theorem Bounded.congr (h : Bounded argon2 email x)
    (hlook : y.1.state.1.look ⟨email⟩ = x.1.state.1.look ⟨email⟩)
    (ht : y.1.tally (through argon2 email) ≤ x.1.tally (through argon2 email))
    (hp : y.1.tally (pending argon2 email) = x.1.tally (pending argon2 email))
    (hc : y.2.compared email = x.2.compared email) (hl : y.2.late email = x.2.late email) :
    Bounded argon2 email y := by
  have hvalue : y.1.state.1.value ⟨email⟩ = x.1.state.1.value ⟨email⟩ := by
    rw [Ephemeral.value, hlook]; rfl
  have hcounter : y.1.state.1.counter ⟨email⟩ = x.1.state.1.counter ⟨email⟩ := by
    rw [Ephemeral.counter, hlook]; rfl
  have hroom := h.room
  refine ⟨?_, ?_, ?_, ?_, ?_⟩
  · rw [hvalue]
    exact h.plain
  · rw [hcounter]
    exact h.nonneg
  · rw [hcounter]
    omega
  · rw [hc, hcounter, hp]
    exact h.compared
  · rw [hl]
    exact h.late

/-- How the calls let through and the calls about to count change by a command. -/
theorem tallies (hg : Service.Gave (protocol argon2) x.1 y.1 t n q p p' c r σ f d)
    (email : String) :
    y.1.tally (through argon2 email) + (if q.email = email ∧ σ.isThrough then 1 else 0) =
        x.1.tally (through argon2 email) + (if q.email = email ∧ (f r).isThrough then 1 else 0) ∧
      y.1.tally (pending argon2 email) + (if q.email = email ∧ σ.isPending then 1 else 0) =
        x.1.tally (pending argon2 email) + (if q.email = email ∧
          (f r).isPending then 1 else 0) := by
  have h1 := hg.tally (through argon2 email)
  have h2 := hg.tally (pending argon2 email)
  rw [(situation hg.here).1, (situation hg.rest).1] at h1
  rw [(situation hg.here).2, (situation hg.rest).2] at h2
  simp only [Bool.and_eq_true, decide_eq_true_eq] at h1 h2
  exact ⟨h1, h2⟩

theorem ends_same (hlook : y.1.state.1.look ⟨email⟩ = x.1.state.1.look ⟨email⟩) :
    ends email x.1.state.1 y.1.state.1 = false := by
  unfold ends
  rw [hlook]
  cases x.1.state.1.look ⟨email⟩ <;> rfl

/-- The record after a command that ends no lifetime. -/
theorem note_same (hends : ends email x.1.state.1 y.1.state.1 = false)
    (hn : y.2 = Tries.note argon2 x.2 x.1 e y.1)
    (hd : x.1.does e = some (q, c, n)) :
    y.2.compared email = (x.2.after argon2 x.1.state.1 q c).compared email ∧
      y.2.late = (x.2.after argon2 x.1.state.1 q c).late := by
  rw [hn]
  unfold Tries.note
  simp only [hd]
  refine ⟨?_, trivial⟩
  rw [hends]
  rfl

/-- A command of an attempt at another email. -/
theorem Bounded.otherEmail (h : Bounded argon2 email x)
    (hg : Service.Gave (protocol argon2) x.1 y.1 t n q p p' c r σ f d)
    (hq : q.email ≠ email) (hn : y.2 = Tries.note argon2 x.2 x.1 (.step t n) y.1) :
    Bounded argon2 email y := by
  -- the command is for the key of another address
  have hlook : y.1.state.1.look ⟨email⟩ = x.1.state.1.look ⟨email⟩ := by
    rw [hg.state]
    cases c with
    | store c =>
      have hkey : c.key = ⟨q.email⟩ := by
        have hgives := hg.gives
        cases hgives <;> rfl
      rw [(Machine.exec_store hg.exec).2.1]
      exact Ephemeral.exec_other _ (fun heq => hq (by rw [hkey] at heq; cases heq; rfl)) n
    | other c => rw [(Machine.exec_other hg.exec).1]
  obtain ⟨h1, h2⟩ := tallies hg email
  simp only [hq, false_and, if_false] at h1 h2
  obtain ⟨h3, h4⟩ := note_same (ends_same hlook) hn hg.does
  have hrec : (x.2.after argon2 x.1.state.1 q c).compared email = x.2.compared email ∧
      (x.2.after argon2 x.1.state.1 q c).late email = x.2.late email := by
    unfold Tries.after
    split
    · split
      · unfold Tries.mismatch
        refine ⟨Function.update_of_ne (Ne.symm hq) _ _, ?_⟩
        dsimp only
        split
        · exact Function.update_of_ne (Ne.symm hq) _ _
        · rfl
      · exact ⟨rfl, rfl⟩
    · exact ⟨rfl, rfl⟩
  exact h.congr hlook (by omega) (by omega) (h3.trans hrec.1) (by rw [h4]; exact hrec.2)

/-- The lockout check reads the counter. -/
theorem failures_counter {s : Ephemeral Key String}
    (hplain : ∀ v, s.value ⟨email⟩ ≠ some (.text v)) :
    failures (.ok (s.value ⟨email⟩)) = s.counter ⟨email⟩ := by
  unfold Ephemeral.counter Ephemeral.counted
  cases hl : s.look ⟨email⟩ with
  | none =>
    rw [Ephemeral.value, hl]
    rfl
  | some e =>
    obtain ⟨v, expires⟩ := e
    cases v with
    | count m =>
      rw [Ephemeral.value, hl]
      rfl
    | text v => exact absurd (by rw [Ephemeral.value, hl]; rfl) (hplain v)

theorem tallies_own (hg : Service.Gave (protocol argon2) x.1 y.1 t n q p p' c r σ f d) :
    y.1.tally (through argon2 q.email) + σ.isThrough.toNat = x.1.tally (through argon2 q.email) +
    (f r).isThrough.toNat ∧
      y.1.tally (pending argon2 q.email) + σ.isPending.toNat = x.1.tally (pending argon2 q.email) +
      (f r).isPending.toNat := by
  obtain ⟨h1, h2⟩ := tallies hg q.email
  simp only [true_and] at h1 h2
  constructor
  · cases hs : σ.isThrough <;> cases hf : (f r).isThrough <;> simp_all
  · cases hs : σ.isPending <;> cases hf : (f r).isPending <;> simp_all

theorem afterFind_cases (r : Except DbError (Option User)) : afterFind r = .done ∨
    ∃ u, afterFind r = .compare u := by
  cases r with
  | error e => exact .inl rfl
  | ok u => exact .inr ⟨u, rfl⟩

/-- `verify` reads the counter and is let through, or not. -/
theorem Bounded.read (h : Bounded argon2 q.email x) {r : Except StoreError (Option (Val String))}
    (ht : y.1.tally (through argon2 q.email) = x.1.tally (through argon2 q.email) +
      (afterRead r).isThrough.toNat)
    (hp : y.1.tally (pending argon2 q.email) = x.1.tally (pending argon2 q.email) +
      (afterRead r).isPending.toNat)
    (hr : r = .ok (x.1.state.1.value ⟨q.email⟩)) (hstore : y.1.state.1 = x.1.state.1)
    (hok : x.1.state.1.counter ⟨q.email⟩ ≥ loginMaxAttempts ∨
      x.1.state.1.counter ⟨q.email⟩ + x.1.tally (through argon2 q.email) < loginMaxAttempts)
    (hc : y.2.compared q.email = x.2.compared q.email) (hl : y.2.late q.email = x.2.late q.email) :
    Bounded argon2 q.email y := by
  have hfail : failures r = x.1.state.1.counter ⟨q.email⟩ := by
    rw [hr]
    exact failures_counter h.plain
  by_cases hmax : failures r ≥ loginMaxAttempts
  · have hdone : afterRead r = .done := if_pos hmax
    rw [hdone] at ht hp
    exact h.congr (by rw [hstore]) ht.le hp hc hl
  · have hfind : afterRead r = .find := if_neg hmax
    rw [hfind] at ht hp
    have ht' : y.1.tally (through argon2 q.email) = x.1.tally (through argon2 q.email) + 1 := ht
    have hp' : y.1.tally (pending argon2 q.email) = x.1.tally (pending argon2 q.email) := hp
    rw [hfail] at hmax
    refine ⟨by rw [hstore]; exact h.plain, by rw [hstore]; exact h.nonneg, ?_,
      ?_, by rw [hl]; exact h.late⟩
    · rw [hstore, ht']
      have := hok.resolve_left hmax
      push_cast
      omega
    · rw [hc, hstore, hp']
      exact h.compared

/-- A password is compared. -/
theorem Bounded.compare (h : Bounded argon2 q.email x) {mismatch : Prop} [Decidable mismatch]
    (hmine : 0 < x.1.tally (through argon2 q.email))
    (ht : y.1.tally (through argon2 q.email) + 1 = x.1.tally (through argon2 q.email) +
      if mismatch then 1 else 0)
    (hp : y.1.tally (pending argon2 q.email) = x.1.tally (pending argon2 q.email) +
      if mismatch then 1 else 0)
    (hstore : y.1.state.1 = x.1.state.1)
    (hc : y.2.compared q.email = x.2.compared q.email + if mismatch then 1 else 0)
    (hl : x.1.state.1.counter ⟨q.email⟩ < loginMaxAttempts → y.2.late q.email = x.2.late q.email) :
    Bounded argon2 q.email y := by
  have hroom := h.room
  have hcompared := h.compared
  -- the call itself was let through, so the counter is below the limit
  have hbelow : x.1.state.1.counter ⟨q.email⟩ < loginMaxAttempts := by omega
  refine ⟨by rw [hstore]; exact h.plain, by rw [hstore]; exact h.nonneg, ?_,
    ?_, by rw [hl hbelow]; exact h.late⟩
  · rw [hstore]
    split at ht <;> omega
  · rw [hstore, hc, hp]
    split <;> push_cast <;> omega

/-- After a comparison the failure is about to be counted, if the password did not match. -/
theorem afterCompare_mismatch {password : String} {user : Option User} {r : Except Unit Bool}
    (h : verifyPassword argon2 password (user.bind User.passwordHash) = r) :
    (afterCompare user r).isThrough.toNat = (if r = .ok false then 1 else 0) ∧
      (afterCompare user r).isPending.toNat = if r = .ok false then 1 else 0 := by
  cases r with
  | error e => exact ⟨rfl, rfl⟩
  | ok matched =>
    have hj := judge_counts argon2 h
    cases matched with
    | false =>
      have hcount : afterCompare user (.ok false) = .count := hj.2 rfl
      rw [hcount]
      exact ⟨rfl, rfl⟩
    | true =>
      have hne : afterCompare user (.ok true) ≠ .count := fun h => by cases hj.1 h
      have hv : afterCompare user (.ok true) = (judge user true).next := rfl
      rw [hv] at hne ⊢
      cases hverdict : judge user true with
      | accept u => exact ⟨rfl, rfl⟩
      | reject counts =>
        cases counts with
        | false => exact ⟨rfl, rfl⟩
        | true =>
          rw [hverdict] at hne
          exact absurd rfl hne

/-- A failure is counted. -/
theorem Bounded.count {r : Except StoreError ℤ} {expires : ℕ} (h : Bounded argon2 q.email x)
    (hc : Ephemeral.Counted x.1.state.1 ⟨q.email⟩ loginLockoutTtl r y.1.state.1 expires)
    (ht : y.1.tally (through argon2 q.email) + 1 = x.1.tally (through argon2 q.email))
    (hp : y.1.tally (pending argon2 q.email) + 1 = x.1.tally (pending argon2 q.email))
    (hcompared : y.2.compared q.email = x.2.compared q.email)
    (hl : y.2.late q.email = x.2.late q.email) :
    Bounded argon2 q.email y := by
  have hlook := hc.look (by decide)
  have hcounter : y.1.state.1.counter ⟨q.email⟩ = x.1.state.1.counter ⟨q.email⟩ + 1 :=
    Ephemeral.counter_eq hlook
  have hroom := h.room
  have hnonneg := h.nonneg
  have hbound := h.compared
  refine ⟨fun v hv => ?_, by omega, by omega, by omega, by rw [hl]; exact h.late⟩
  rw [Ephemeral.value, hlook] at hv
  cases hv

/-- A command of an attempt at the email itself. -/
theorem Bounded.own (h : Bounded argon2 q.email x)
    (hg : Service.Gave (protocol argon2) x.1 y.1 t n q p p' c r σ f d)
    (hn : y.2 = Tries.note argon2 x.2 x.1 (.step t n) y.1)
    (hdom : failing argon2 x (.step t n) = true)
    (hok : roomy argon2 x (.step t n) = true) : Bounded argon2 q.email y := by
  have hdoes := hg.does
  obtain ⟨ht, hp⟩ := tallies_own hg
  have hgives := hg.gives
  have hstate := hg.state
  unfold failing at hdom
  unfold roomy at hok
  simp only [hdoes] at hdom hok
  cases hgives with
  | read =>
    simp only [Bool.and_eq_true, decide_eq_true_eq] at hdom
    obtain ⟨hr, hd, -⟩ := Machine.exec_store hg.exec
    rw [Ephemeral.exec_ok _ _ hdom.1 hdom.2] at hr hd
    rw [← hstate] at hd
    have hsame : y.1.state.1 = x.1.state.1 := hd
    have hends : ends q.email x.1.state.1 y.1.state.1 = false := ends_same (by rw [hsame])
    obtain ⟨h3, h4⟩ := note_same hends hn hdoes
    rw [Bool.or_eq_true, decide_eq_true_eq, decide_eq_true_eq] at hok
    -- a read that finds room lets one more attempt through
    exact h.read ht hp hr hsame hok h3 (by rw [h4]; rfl)
  | find =>
    have hlook : y.1.state.1.look ⟨q.email⟩ = x.1.state.1.look ⟨q.email⟩ := by
      rw [hstate, (Machine.exec_other hg.exec).1]
    obtain ⟨h3, h4⟩ := note_same (ends_same hlook) hn hdoes
    rcases afterFind_cases r with h1 | ⟨u, h1⟩ <;> rw [h1] at ht hp
    · exact h.congr hlook (by simp only [Phase.isThrough, Bool.toNat_true,
        Bool.toNat_false] at ht; omega) hp h3 (by rw [h4]; rfl)
    · exact h.congr hlook (by simp only [Phase.isThrough, Bool.toNat_true] at ht; omega) hp h3
        (by rw [h4]; rfl)
  | compare user =>
    obtain ⟨hsame, hexec⟩ := Machine.exec_other hg.exec
    rw [← hstate] at hsame hexec
    have hr : verifyPassword argon2 q.password (user.bind User.passwordHash) = r :=
      congrArg Prod.fst (Option.some.inj hexec)
    obtain ⟨h1, h2⟩ := afterCompare_mismatch hr
    rw [h1] at ht
    rw [h2] at hp
    have hends : ends q.email x.1.state.1 y.1.state.1 = false := ends_same (by rw [hsame])
    obtain ⟨h3, h4⟩ := note_same hends hn hdoes
    -- this attempt is one of those that were let through
    have hmine : 0 < x.1.tally (through argon2 q.email) := by
      refine Sys.tally_pos hg.call ?_
      rw [(situation hg.here).1]
      simp [Phase.isThrough]
    unfold Tries.after at h3 h4
    simp only [hr] at h3 h4
    refine h.compare hmine ht hp hsame ?_ fun hlt => ?_
    · rw [h3]
      split
      · exact Function.update_self ..
      · rfl
    · rw [h4]
      split
      · unfold Tries.mismatch
        dsimp only
        rw [if_neg (by omega)]
      · rfl
  | count =>
    simp only [Bool.and_eq_true, decide_eq_true_eq] at hdom
    obtain ⟨hr, hd, -⟩ := Machine.exec_store hg.exec
    rw [Ephemeral.exec_ok _ _ hdom.1 hdom.2] at hr hd
    rw [← hstate] at hd
    obtain ⟨expires, hc⟩ := Ephemeral.incr_counts h.plain loginLockoutTtl
    have hcounted : Ephemeral.Counted x.1.state.1
        ⟨q.email⟩ loginLockoutTtl r y.1.state.1 expires := by
      rw [hr, hd]
      exact hc
    -- an increment leaves the key there, so no window ends
    have hends : ends q.email x.1.state.1 y.1.state.1 = false := by
      unfold ends
      rw [hcounted.look (by decide)]
      exact Bool.and_false _
    obtain ⟨h3, h4⟩ := note_same hends hn hdoes
    exact h.count hcounted ht hp h3 (by rw [h4]; rfl)
  | clear => cases hdom

/-- What the store does by itself: the counter stays as it is, or its lifetime ends. -/
theorem Bounded.change {v : StoreEnv Key} (h : Bounded argon2 email x)
    (hcalls : y.1.calls = x.1.calls)
    (hstore : y.1.state.1 = x.1.state.1.change v)
    (hc : y.2.compared email = if ends email x.1.state.1 y.1.state.1 then 0 else x.2.compared email)
    (hl : y.2.late email = x.2.late email) : Bounded argon2 email y := by
  have hplain : ∀ v, y.1.state.1.value ⟨email⟩ ≠ some (.text v) := by
    intro v hv
    rw [hstore] at hv
    exact h.plain v (Ephemeral.value_change hv)
  have ht : y.1.tally (through argon2 email) = x.1.tally (through argon2 email) :=
    Sys.tally_congr hcalls
  have hp : y.1.tally (pending argon2 email) = x.1.tally (pending argon2 email) :=
    Sys.tally_congr hcalls
  have hroom := h.room
  have hnonneg := h.nonneg
  have hbound := h.compared
  cases hy : y.1.state.1.look ⟨email⟩ with
  | none =>
    -- the key is gone, and the count begins again
    have h0 : y.1.state.1.counter ⟨email⟩ = 0 := Ephemeral.counter_none hy
    have hle : (y.2.compared email : ℤ) ≤ x.1.tally (pending argon2 email) := by
      rw [hc]
      unfold ends
      rw [hy]
      cases hx : x.1.state.1.look ⟨email⟩ with
      | none =>
        rw [Ephemeral.counter_none hx] at hbound
        simp only [Option.isSome_none, Bool.false_and, Bool.false_eq_true, if_false]
        omega
      | some e => simp
    exact ⟨hplain, by omega, by omega, by omega, by rw [hl]; exact h.late⟩
  | some e =>
    have hy' := hy
    rw [hstore] at hy'
    obtain ⟨e', hx, hval, -⟩ := Ephemeral.look_change hy'
    have hcounter : y.1.state.1.counter ⟨email⟩ = x.1.state.1.counter ⟨email⟩ := by
      rw [Ephemeral.counter, Ephemeral.counter, hy, hx]
      exact Ephemeral.counted_congr hval.symm
    have hends : ends email x.1.state.1 y.1.state.1 = false := by
      unfold ends
      rw [hy]
      exact Bool.and_false _
    rw [hends] at hc
    have hc' : y.2.compared email = x.2.compared email := hc
    exact ⟨hplain, by omega, by omega, by omega, by rw [hl]; exact h.late⟩

/-- **One event keeps the bound**, if it meets the condition. -/
theorem Bounded.step (h : Bounded argon2 email x)
    (hc : Service.Conforms (protocol argon2) (fun _ _ _ => True) x.1)
    (he : (attempts argon2).step e x = some y) (hdom : failing argon2 x e = true)
    (hok : roomy argon2 x e = true) :
    Bounded argon2 email y := by
  obtain ⟨hstep, hn⟩ := Lts.noting_step.1 he
  rcases hc.step_cases hstep with
    ⟨t, q, rfl, hnew, hset⟩ | ⟨t, n, q, p, p', c, r, σ, f, d, rfl, -, hg⟩ | ⟨v, rfl, hset⟩
  · have hstore : y.1.state = x.1.state := by rw [hset]; rfl
    obtain ⟨h1, h2⟩ : through argon2 email ⟨q, (logins argon2).prog q⟩ = _ ∧
        pending argon2 email ⟨q, (logins argon2).prog q⟩ = _ :=
      situation (logins_keeps argon2 q)
    have ht : y.1.tally (through argon2 email) = x.1.tally (through argon2 email) := by
      rw [hset, Sys.tally_new hnew, h1]
      simp [Phase.isThrough]
    have hp : y.1.tally (pending argon2 email) = x.1.tally (pending argon2 email) := by
      rw [hset, Sys.tally_new hnew, h2]
      simp [Phase.isPending]
    have hcompared : y.2.compared email = x.2.compared email := by
      rw [hn]
      change (if ends email x.1.state.1 y.1.state.1 then 0 else x.2.compared email) = _
      rw [ends_same (by rw [hstore])]
      rfl
    exact h.congr (by rw [hstore]) ht.le hp hcompared (by rw [hn]; rfl)
  · -- what is done for another address moves nothing here
    by_cases hq : q.email = email
    · subst hq
      exact h.own hg hn hdom hok
    · exact h.otherEmail hg hq hn
  · have hcalls : y.1.calls = x.1.calls := by rw [hset]
    have hcompared : y.2.compared email = if ends email x.1.state.1 y.1.state.1 then 0 else
        x.2.compared email := by
      rw [hn]
      rfl
    have hlate : y.2.late email = x.2.late email := by rw [hn]; rfl
    cases v with
    | inl v => exact h.change hcalls (by rw [hset]) hcompared hlate
    | inr d =>
      have hstore : y.1.state.1 = x.1.state.1 := by rw [hset]
      rw [ends_same (by rw [hstore])] at hcompared
      exact h.congr (by rw [hstore]) (Sys.tally_congr hcalls).le
        (Sys.tally_congr hcalls) hcompared hlate

end steps

/-! ## Runs -/

/-- Attempts at one email are let through while the first failure is counted. -/
def manyThrough (argon2 : String → String → Except Unit Bool) : List (Event (backend argon2) Req) :=
  (.start 0 ⟨"a@example.com", "guess"⟩ :: Event.steps 0 0 4) ++
    (List.range 12).flatMap (fun i => .start (i + 1) ⟨"a@example.com", "guess"⟩ ::
      Event.steps (i + 1) 0 1) ++
    (List.range 12).flatMap fun i => Event.steps (i + 1) 0 3

/-- No password matches. -/
def wrong (_ _ : String) : Except Unit Bool := .ok false

def oneAccount (email : String) : Option User := if email = "a@example.com" then
    some ⟨1, some "hash", true⟩ else none

/-- Every one of them is compared, three of them with the counter at its limit. -/
theorem many_compared :
    ¬∀ now d x, (attempts wrong).Reach (fun x e _ => failing wrong x e = true)
      (fresh wrong now d) x → Locked wrong x := by
  intro h
  have hbound := h 0 oneAccount _ (Lts.reach_runOk (manyThrough wrong)) "a@example.com"
  revert hbound
  decide +kernel

/-- **The lockout bounds the guesses**, in every run in which attempts are let through only
while there is room for them. -/
theorem locked_out (now : ℕ) (d : String → Option User) {x : State argon2}
    (h : (attempts argon2).Reach (fun x e _ => (failing argon2 x e && roomy argon2 x e) = true)
      (fresh argon2 now d) x) :
    Locked argon2 x := by
  have hinv : Service.Conforms (protocol argon2) (fun _ _ _ => True) x.1 ∧
      ∀ email, Bounded argon2 email x := by
    refine h.inv (I := fun x => Service.Conforms (protocol argon2) (fun _ _ _ => True) x.1 ∧
      ∀ email, Bounded argon2 email x) ?_ ?_
    · rintro x e y ⟨hc, hb⟩ he hok
      obtain ⟨hdom, hroom⟩ := Bool.and_eq_true_iff.1 hok
      have hstep := (Lts.noting_step.1 he).1
      exact ⟨hc.keep hstep fun q => ⟨_, logins_keeps argon2 q⟩,
        fun email => (hb email).step hc he hdom hroom⟩
    · refine ⟨fun t c hc => ?_, fun email => ⟨fun v hv => ?_, le_refl _, ?_, le_refl _, rfl⟩⟩
      · cases hc
      · cases hv
      · change (0 : ℤ) + 0 ≤ 10
        decide
  intro email
  have hb := hinv.2 email
  have hle : x.1.tally (pending argon2 email) ≤ x.1.tally (through argon2 email) := by
    refine Sys.tally_le fun c hc => ?_
    unfold pending at hc
    rw [Bool.and_eq_true, decide_eq_true_eq, decide_eq_true_eq] at hc
    unfold through
    rw [hc.1, hc.2]
    simp
  have hroom := hb.room
  have hcompared := hb.compared
  exact ⟨by omega, hb.late⟩

/-- Twelve attempts one after the other: the last two are not let through. -/
def twelveAttempts (argon2 : String → String → Except Unit Bool) :
    List (Event (backend argon2) Req) :=
  (List.range 12).flatMap fun i => .start i ⟨"a@example.com", "guess"⟩ ::
  Event.steps i 0 (if i < 10 then 4 else 1)

theorem locked_out_sequence :
    ∃ x, (attempts wrong).runOk (fun x e _ => (failing wrong x e && roomy wrong x e) = true)
      (twelveAttempts wrong)
      (fresh wrong 0 oneAccount) = some x ∧ Locked wrong x ∧ x.2.compared "a@example.com" = 10 := by
  have hrun : ∀ o, o = (attempts wrong).runOk (fun x e _ => (failing wrong x e && roomy wrong x e) =
      true) (twelveAttempts wrong)
      (fresh wrong 0 oneAccount) → o.map (fun x => x.2.compared "a@example.com") = some 10 := by
    rintro _ rfl
    decide +kernel
  obtain ⟨x, hx, h10⟩ := Option.map_eq_some_iff.1 (hrun _ rfl)
  exact ⟨x, hx, locked_out wrong 0 oneAccount (.of_runOk hx), h10⟩

end DreamFly.Credentials
