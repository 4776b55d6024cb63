import DreamFly.Proof.Otp

/-!
# How often a code is guessed

`send_otp` puts the new code into the store and resets the attempt counter after it, in
a command of its own; `check` counts, and looks at the code in a command of its own. So
a reset can come after guesses at the new code that were already counted, and what
bounds the guesses is the order of the commands of one user's calls: `orderly`.
-/

namespace DreamFly.Otp

open Conc Code

/-- The codes issued so far for each user, and the guesses compared with each of them. -/
structure Guesses where
  issued : Uuid → ℕ
  compared : Uuid → ℕ → ℕ

namespace Guesses

def none : Guesses := ⟨fun _ => 0, fun _ _ => 0⟩

def issue (u : Uuid) (g : Guesses) : Guesses :=
  { g with issued := Function.update g.issued u (g.issued u + 1) }

/-- A guess at the code in the store. -/
def compare (u : Uuid) (g : Guesses) : Guesses :=
  { g with
    compared := Function.update g.compared u
      (Function.update (g.compared u) (g.issued u) (g.compared u (g.issued u) + 1)) }

/-- The answer to `check`'s GET leads to a comparison of the codes. -/
def compares (req : OtpVerifyRequest) : Except StoreError (Option (Val Payload)) → Bool
  | .ok (some v) => (decode v).phone = req.phone
  | _ => false

/-- A code counts as issued once it is in the store, whatever the caller learns. -/
def after (g : Guesses) (x : Ephemeral Key Payload) : Req → backend.Cmd → ℕ → Guesses
  | .sendOtp u _, .store (.setEx (.otp _) _ _), n => if n = 1 then g else g.issue u
  | .verifyOtp u req, .store (.get (.otp _)), n =>
    if compares req (x.exec (.get (.otp u)) n).1 then g.compare u else g
  | _, _, _ => g

def note (g : Guesses) (s : Sys backend AppError Reply Req) (e : Event backend Req)
    (_ : Sys backend AppError Reply Req) :
    Guesses :=
  match s.does e with
  | some (q, c, n) => g.after s.state.1 q c n
  | Option.none => g

end Guesses

/-- A `verify_otp` has counted an attempt of user `u` and has not looked at the code yet. -/
def comparing (u : Uuid) (c : Call backend AppError Reply Req) : Bool :=
  c.prog.next = some (.store (.get (.otp u)))

/-- A `send_otp` has stored a code of user `u` and has not reset the counter yet. -/
def resetting (u : Uuid) : Call backend AppError Reply Req → Bool
  | ⟨.sendOtp _ _, p⟩ => p.next = some (.store (.del (.otpAttempts u)))
  | _ => false

/-- No attempt counter is lost before its time. -/
def lasting : Event backend Req → Bool
  | .env (.inl (.evict (.otpAttempts _))) => false
  | _ => true

/-- The order in which the bound holds: a code is stored while no `check` of the user is
between its two commands; no attempt is counted between a code and its reset; the reset of
`consume` finds no newer code; the store does not fail a `send_otp` half-way; a code is not
seen for longer than its lifetime. -/
def orderly (s : Sys backend AppError Reply Req) (e : Event backend Req) : Bool :=
  match e with
  | .env (.inl (.linger (.otp _) _)) => false
  | _ =>
    match s.does e with
    | some (.sendOtp u _, .store (.setEx (.otp _) _ _), n) =>
      n ≠ 1 && n ≠ 2 && s.tally (comparing u) = 0
    | some (.sendOtp _ _, .store (.del (.otpAttempts _)), n) => n ≠ 1 && n ≠ 2
    | some (.verifyOtp u _, .store (.incrWithTtl _ _), _) => s.tally (resetting u) = 0
    | some (.verifyOtp u _, .store (.del (.otpAttempts _)), _) => (s.state.1.look (.otp u)).isNone
    | _ => true

abbrev guessed : Lts (Sys backend AppError Reply Req × Guesses) (Event backend Req) :=
  phones.lts.noting Guesses.note

/-- Nothing stored, no call yet. -/
def fresh (now : ℕ) (d : Users) : Sys backend AppError Reply Req × Guesses :=
  (.init (.empty now, d), .none)

/-! ## The invariant

`k` checks are between their two commands, `r` sends between theirs; `i` codes have been
issued, and `n` says how many guesses were compared with each. -/

/-- What bounds the guesses at one user's codes. While a send has not reset the counter,
no guess is under way and none was compared with its code; after the reset every guess at
the code that is in the store was counted by a counter that outlives it. -/
structure Bounded (now : ℕ) (code attempts : Option (Entry Payload)) (k r i : ℕ)
    (n : ℕ → ℕ) : Prop where
  small : ∀ j, n j ≤ 5
  later : ∀ j, i < j → n j = 0
  reset : 0 < r → k = 0 ∧ n i = 0
  short : ∀ e, code = some e → e.expires ≤ now + 300
  upTo : ∀ e, code = some e → r = 0 → n i + k ≤ 5 ∧ ((n i + k : ℕ) : ℤ) ≤ Ephemeral.counted attempts
  outlived : ∀ e a, code = some e → r = 0 → attempts = some a → e.expires ≤ a.expires

namespace Bounded

variable {now now' k k' r i : ℕ} {code code' attempts attempts' : Option (Entry Payload)}
  {n : ℕ → ℕ}

theorem init (now : ℕ) : Bounded now none none 0 0 0 fun _ => 0 where
  small _ := by omega
  later _ _ := rfl
  reset _ := ⟨rfl, rfl⟩
  short _ he := by cases he
  upTo _ he := by cases he
  outlived _ _ he := by cases he

/-- A code of which nobody has been told yet. -/
theorem issue (h : Bounded now code attempts 0 r i n) {e : Entry Payload}
    (he : e.expires ≤ now + 300) :
    Bounded now (some e) attempts 0 (r + 1) (i + 1) n where
  small := h.small
  later j hj := h.later j (by omega)
  reset _ := ⟨rfl, h.later (i + 1) (by omega)⟩
  short e' h' := by cases h'; exact he
  upTo _ _ hr := by omega
  outlived _ _ _ hr := by omega

/-- The counter is reset after the code was stored. -/
theorem clear (h : Bounded now code attempts k (r + 1) i n) : Bounded now code none k r i n where
  small := h.small
  later := h.later
  reset _ := h.reset (by omega)
  short := h.short
  upTo e he _ := by
    obtain ⟨h1, h2⟩ := h.reset (by omega)
    have h3 : n i + k = 0 := by omega
    rw [h3]
    exact ⟨by omega, le_refl _⟩
  outlived _ _ _ _ ha := by cases ha

/-- Time passes, a code is taken away, a check gives up: what is left of a code is still
counted for by a counter that outlives it. -/
theorem mono (h : Bounded now code attempts k r i n) (hnow : now ≤ now') (hk : k' ≤ k)
    (hcode : ∀ e, code' = some e → code = some e)
    (hatt : ∀ e, code' = some e → r = 0 →
      Ephemeral.counted attempts ≤ Ephemeral.counted attempts' ∧ ∀ a, attempts' = some a →
        e.expires ≤ a.expires) :
    Bounded now' code' attempts' k' r i n where
  small := h.small
  later := h.later
  reset hr := by
    obtain ⟨h1, h2⟩ := h.reset hr
    exact ⟨by omega, h2⟩
  short e he := by
    have := h.short e (hcode e he)
    omega
  upTo e he hr := by
    obtain ⟨h1, h2⟩ := h.upTo e (hcode e he) hr
    have h3 := (hatt e he hr).1
    push_cast at h2 ⊢
    exact ⟨by omega, by omega⟩
  outlived e a he hr ha := (hatt e he hr).2 a ha

/-- An attempt is counted, and its answer lets the check go on. -/
theorem count (h : Bounded now code attempts k 0 i n) {m : ℤ} {expires : ℕ}
    (hm : m = Ephemeral.counted attempts + 1)
    (hle : m ≤ 5) (hlive : ∀ e, code = some e → e.expires ≤ expires) :
    Bounded now code (some ⟨.count m, expires⟩) (k + 1) 0 i n where
  small := h.small
  later := h.later
  reset hr := by omega
  short := h.short
  upTo e he hr := by
    obtain ⟨h1, h2⟩ := h.upTo e he hr
    have hc : Ephemeral.counted (some (⟨.count m, expires⟩ : Entry Payload)) = m := rfl
    rw [hc]
    push_cast at h2 ⊢
    exact ⟨by omega, by omega⟩
  outlived e a he _ ha := by
    cases ha
    exact hlive e he

/-- A counted check compares its guess. -/
theorem compare (h : Bounded now code attempts (k + 1) r i n) {e : Entry Payload}
    (he : code = some e) :
    Bounded now code attempts k r i (Function.update n i (n i + 1)) := by
  have hr : r = 0 := by
    by_contra h0
    have := (h.reset (by omega)).1
    omega
  obtain ⟨h1, h2⟩ := h.upTo e he hr
  have hself : Function.update n i (n i + 1) i = n i + 1 := Function.update_self ..
  have hne : ∀ j, j ≠ i → Function.update n i (n i + 1) j = n j :=
    fun j hj => Function.update_of_ne hj _ _
  refine ⟨fun j => ?_, fun j hj => ?_, fun h0 => by omega, h.short, fun e' he' _ => ?_, h.outlived⟩
  · by_cases hj : j = i
    · rw [hj, hself]
      omega
    · rw [hne j hj]
      exact h.small j
  · rw [hne j (by omega)]
    exact h.later j hj
  · rw [hself]
    push_cast at h2 ⊢
    exact ⟨by omega, by omega⟩

end Bounded

/-- The bound for user `u` in a state of a run. -/
def BoundedAt (u : Uuid) (x : Sys backend AppError Reply Req × Guesses) : Prop :=
  Bounded x.1.state.1.now (x.1.state.1.look (.otp u)) (x.1.state.1.look (.otpAttempts u))
    (x.1.tally (comparing u))
    (x.1.tally (resetting u)) (x.2.issued u) (x.2.compared u)

section steps
variable {u : Uuid} {x y : Sys backend AppError Reply Req × Guesses} {e : Event backend Req}
  {t n : ℕ} {q : Req}
  {p p' : Code backend AppError Reply} {c : backend.Cmd} {r : backend.Reply c} {σ : Phase}
    {f : backend.Reply c → Phase}
  {d : backend.State}

/-- A check about to look at the code is in that phase. -/
theorem comparing_phase (h : p.Keeps (protocol q) σ) (hc : comparing u ⟨q, p⟩ = true) :
    σ = .load ∧ q.user = u := by
  obtain ⟨f, hg⟩ := h.gives (of_decide_eq_true hc)
  cases hg
  exact ⟨rfl, rfl⟩

theorem resetting_phase (h : p.Keeps (protocol q) σ) (hc : resetting u ⟨q, p⟩ = true) :
    (∃ code, σ = .reset code) ∧ q.user = u := by
  cases q with
  | sendOtp u' phone =>
    obtain ⟨f, hg⟩ := h.gives (of_decide_eq_true hc)
    cases hg
    exact ⟨⟨_, rfl⟩, rfl⟩
  | _ => cases hc

theorem BoundedAt.congr (h : BoundedAt u x) (hnow : y.1.state.1.now = x.1.state.1.now)
    (hcode : y.1.state.1.look (.otp u) = x.1.state.1.look (.otp u))
    (hatt : y.1.state.1.look (.otpAttempts u) = x.1.state.1.look (.otpAttempts u))
    (hk : y.1.tally (comparing u) = x.1.tally (comparing u))
    (hr : y.1.tally (resetting u) = x.1.tally (resetting u))
    (hi : y.2.issued u = x.2.issued u) (hn : y.2.compared u = x.2.compared u) : BoundedAt u y := by
  unfold BoundedAt
  rw [hnow, hcode, hatt, hk, hr, hi, hn]
  exact h

theorem comparing_off (h : p.Keeps (protocol q) σ) (hc : σ ≠ .load ∨ q.user ≠ u) :
    comparing u ⟨q, p⟩ = false := by
  rw [Bool.eq_false_iff]
  intro ht
  obtain ⟨h1, h2⟩ := comparing_phase h ht
  rcases hc with hc | hc
  · exact hc h1
  · exact hc h2

theorem resetting_off (h : p.Keeps (protocol q) σ) (hc : (∀ code, σ ≠ .reset code) ∨ q.user ≠ u) :
    resetting u ⟨q, p⟩ = false := by
  rw [Bool.eq_false_iff]
  intro ht
  obtain ⟨⟨code, h1⟩, h2⟩ := resetting_phase h ht
  rcases hc with hc | hc
  · exact hc code h1
  · exact hc h2

theorem comparing_same (hg : Service.Gave protocol x.1 y.1 t n q p p' c r σ f d) (u : Uuid)
    (h : σ ≠ .load ∧ f r ≠ .load ∨ q.user ≠ u) : y.1.tally (comparing u) =
    x.1.tally (comparing u) :=
  hg.tally_same (comparing_off hg.here (h.imp And.left id))
    (comparing_off hg.rest (h.imp And.right id))

theorem resetting_same (hg : Service.Gave protocol x.1 y.1 t n q p p' c r σ f d) (u : Uuid)
    (h : (∀ a, σ ≠ .reset a) ∧ (∀ a, f r ≠ .reset a) ∨ q.user ≠ u) : y.1.tally (resetting u) =
    x.1.tally (resetting u) :=
  hg.tally_same (resetting_off hg.here (h.imp And.left id))
    (resetting_off hg.rest (h.imp And.right id))

/-- A command that is not about the user's two keys. -/
theorem BoundedAt.aside (h : BoundedAt u x)
    (hg : Service.Gave protocol x.1 y.1 t n q p p' c r σ f d)
    (hload : σ ≠ .load ∧ f r ≠ .load ∨ q.user ≠ u) (hreset : (∀ a, σ ≠ .reset a) ∧
      (∀ a, f r ≠ .reset a) ∨ q.user ≠ u)
    (hrec : y.2.issued u = x.2.issued u ∧ y.2.compared u = x.2.compared u)
    (hkeys : ∀ k, c = .store k → k.key ≠ .otp u ∧ k.key ≠ .otpAttempts u) : BoundedAt u y := by
  have hstore : y.1.state.1.now = x.1.state.1.now ∧
      y.1.state.1.look (.otp u) = x.1.state.1.look (.otp u) ∧
      y.1.state.1.look (.otpAttempts u) = x.1.state.1.look (.otpAttempts u) := by
    rw [hg.state]
    cases c with
    | store c =>
      obtain ⟨h1, h2⟩ := hkeys c rfl
      rw [(Machine.exec_store hg.exec).2.1]
      exact ⟨Ephemeral.exec_now _ c n, Ephemeral.exec_other _ (Ne.symm h1) n,
        Ephemeral.exec_other _ (Ne.symm h2) n⟩
    | other c =>
      rw [(Machine.exec_other hg.exec).1]
      exact ⟨rfl, rfl, rfl⟩
  exact h.congr hstore.1 hstore.2.1 hstore.2.2 (comparing_same hg u hload)
    (resetting_same hg u hreset) hrec.1 hrec.2

/-- A command of another user's call. -/
theorem BoundedAt.otherUser (h : BoundedAt u x)
    (hg : Service.Gave protocol x.1 y.1 t n q p p' c r σ f d) (hu : q.user ≠ u)
    (hn : y.2 = x.2.after x.1.state.1 q c n) : BoundedAt u y := by
  have hrec : y.2.issued u = x.2.issued u ∧ y.2.compared u = x.2.compared u := by
    rw [hn]
    unfold Guesses.after
    split
    · split
      · exact ⟨rfl, rfl⟩
      · exact ⟨Function.update_of_ne (Ne.symm hu) _ _, rfl⟩
    · split
      · exact ⟨rfl, Function.update_of_ne (Ne.symm hu) _ _⟩
      · exact ⟨rfl, rfl⟩
    · exact ⟨rfl, rfl⟩
  refine h.aside hg (.inr hu) (.inr hu) hrec ?_
  rintro k rfl
  have hkey := hg.gives.key
  refine ⟨fun he => hu ?_, fun he => hu ?_⟩
  · rw [← hkey, he, Key.user]
  · rw [← hkey, he, Key.user]

/-- A `send_otp` that has stored its code is about to reset the counter. -/
theorem resetting_on {phone code : String} (h : p.Keeps (protocol (.sendOtp u phone))
    (.reset code)) :
    resetting u ⟨.sendOtp u phone, p⟩ = true := by
  obtain ⟨c, f, hg, hn⟩ := h.next fun _ => id
  cases hg
  exact decide_eq_true hn

theorem comparing_on (h : p.next = some (.store (.get (.otp u)))) (q : Req) :
    comparing u ⟨q, p⟩ = true := decide_eq_true h

/-- `send_otp` stores its code. -/
theorem BoundedAt.set {phone code : String} (h : BoundedAt u x)
    (hk : y.1.tally (comparing u) = x.1.tally (comparing u)) (hk0 : x.1.tally (comparing u) = 0)
    (hr : y.1.tally (resetting u) = x.1.tally (resetting u) + 1)
    (hstore : y.1.state.1 = x.1.state.1.put (.otp u)
      (some ⟨.text ⟨phone, code⟩, x.1.state.1.now + otpTtlSeconds⟩))
    (hn : y.2 = x.2.issue u) : BoundedAt u y := by
  unfold BoundedAt at h ⊢
  rw [hk0] at h
  have hlook : y.1.state.1.look (.otp u) = some ⟨.text ⟨phone, code⟩,
      x.1.state.1.now + otpTtlSeconds⟩ := by
    rw [hstore]
    exact Ephemeral.look_put_self (Nat.lt_add_of_pos_right (by decide))
  have hatt : y.1.state.1.look (.otpAttempts u) = x.1.state.1.look (.otpAttempts u) := by
    rw [hstore]
    exact Ephemeral.look_put_ne (by simp) _
  have hi : y.2.issued u = x.2.issued u + 1 := by
    rw [hn]
    exact Function.update_self ..
  have hc : y.2.compared = x.2.compared := by rw [hn]; rfl
  have hnow : y.1.state.1.now = x.1.state.1.now := by rw [hstore, Ephemeral.put_now]
  rw [hlook, hatt, hi, hc, hk, hk0, hr, hnow]
  exact h.issue (le_refl _)

/-- `send_otp` resets the counter. -/
theorem BoundedAt.clear (h : BoundedAt u x) (hk : y.1.tally (comparing u) = x.1.tally (comparing u))
    (hr : y.1.tally (resetting u) + 1 = x.1.tally (resetting u))
    (hstore : y.1.state.1 = x.1.state.1.put (.otpAttempts u) none) (hn : y.2 = x.2) :
    BoundedAt u y := by
  unfold BoundedAt at h ⊢
  rw [← hr] at h
  have hcode : y.1.state.1.look (.otp u) = x.1.state.1.look (.otp u) := by
    rw [hstore]
    exact Ephemeral.look_put_ne (by simp) _
  have hatt : y.1.state.1.look (.otpAttempts u) = none := by rw [hstore, Ephemeral.look_put_none]
  have hnow : y.1.state.1.now = x.1.state.1.now := by rw [hstore, Ephemeral.put_now]
  rw [hcode, hatt, hk, hn, hnow]
  exact h.clear

/-- Any step after which there is no code. -/
theorem BoundedAt.gone (h : BoundedAt u x) (hk : y.1.tally (comparing u) = x.1.tally (comparing u))
    (hr : y.1.tally (resetting u) = x.1.tally (resetting u))
    (hnow : y.1.state.1.now = x.1.state.1.now)
    (hcode : y.1.state.1.look (.otp u) = none) (hn : y.2 = x.2) : BoundedAt u y := by
  unfold BoundedAt at h ⊢
  rw [hk, hr, hnow, hcode, hn]
  exact h.mono (le_refl _) (le_refl _) (fun _ he => nomatch he) fun _ he => nomatch he

/-- The code is deleted, or the store fails before. -/
theorem BoundedAt.del (h : BoundedAt u x)
    (hstore : y.1.state.1 = (x.1.state.1.exec (.del (.otp u)) n).2)
    (hk : y.1.tally (comparing u) = x.1.tally (comparing u))
    (hr : y.1.tally (resetting u) = x.1.tally (resetting u))
    (hn : y.2 = x.2) : BoundedAt u y := by
  rcases Ephemeral.exec_del x.1.state.1 (Key.otp u) n with ⟨hd, -⟩ | hd
  · rw [hd] at hstore
    exact h.congr (by rw [hstore]) (by rw [hstore]) (by rw [hstore]) hk hr (by rw [hn]) (by rw [hn])
  · rw [hd] at hstore
    exact h.gone hk hr (by rw [hstore, Ephemeral.put_now])
      (by rw [hstore, Ephemeral.look_put_none]) hn

/-- `check` counts its attempt. -/
theorem BoundedAt.count {r : Except StoreError ℤ} {expires : ℕ} (h : BoundedAt u x)
    (hr0 : x.1.tally (resetting u) = 0)
    (hr : y.1.tally (resetting u) = x.1.tally (resetting u))
    (hc : Ephemeral.Counted x.1.state.1 (.otpAttempts u) otpTtlSeconds r y.1.state.1 expires)
    (hk : y.1.tally (comparing u) ≤ x.1.tally (comparing u) ∨
      y.1.tally (comparing u) ≤ x.1.tally (comparing u) + 1 ∧
      x.1.state.1.counter (.otpAttempts u) + 1 ≤ 5)
    (hn : y.2 = x.2) : BoundedAt u y := by
  unfold BoundedAt at h ⊢
  rw [hr0] at h hr
  have hcode : y.1.state.1.look (.otp u) = x.1.state.1.look (.otp u) := by
    rw [hc.state]
    exact Ephemeral.look_put_ne (by simp) _
  have hnow : y.1.state.1.now = x.1.state.1.now := by rw [hc.state, Ephemeral.put_now]
  have hlater : x.1.state.1.now < expires := by
    rcases hc.lifetime with rfl | ⟨e, he, rfl⟩
    · exact Nat.lt_add_of_pos_right (by decide)
    · exact Ephemeral.live_of_look he
  have hatt : y.1.state.1.look (.otpAttempts u) =
      some ⟨.count (x.1.state.1.counter (.otpAttempts u) + 1), expires⟩ := by
    rw [hc.state]
    exact Ephemeral.look_put_self hlater
  -- the counter lives as long as the code: it is new, or it did so before
  have hlive : ∀ e, x.1.state.1.look (.otp u) = some e → e.expires ≤ expires := by
    intro e he
    rcases hc.lifetime with rfl | ⟨a, ha, rfl⟩
    · exact h.short e he
    · exact h.outlived e a he rfl ha
  rw [hcode, hnow, hatt, hr, hn]
  rcases hk with hk | ⟨hk, hle⟩
  · refine h.mono (le_refl _) hk (fun _ he => he) fun e he _ => ⟨?_, fun a ha => ?_⟩
    · exact Int.le_add_one (le_refl _)
    · cases ha
      exact hlive e he
  · have hcount := h.count rfl hle hlive
    exact hcount.mono (le_refl _) hk (fun _ he => he) fun e he _ =>
      ⟨le_refl _, fun a ha => hcount.outlived e a he rfl ha⟩

/-- `check` looks at the code. -/
theorem BoundedAt.load (h : BoundedAt u x)
    (hk : y.1.tally (comparing u) + 1 = x.1.tally (comparing u))
    (hr : y.1.tally (resetting u) = x.1.tally (resetting u)) (hstore : y.1.state.1 = x.1.state.1)
    (hn : y.2 = x.2 ∨ (∃ e, x.1.state.1.look (.otp u) = some e) ∧ y.2 = x.2.compare u) :
    BoundedAt u y := by
  unfold BoundedAt at h ⊢
  rw [hstore, hr]
  rw [← hk] at h
  rcases hn with hn | ⟨⟨e, he⟩, hn⟩
  · rw [hn]
    exact h.mono (le_refl _) (Nat.le_succ _) (fun _ he => he) fun e he hr =>
      ⟨le_refl _, fun a ha => h.outlived e a he hr ha⟩
  · have hc : y.2.compared u =
        Function.update (x.2.compared u) (x.2.issued u) (x.2.compared u (x.2.issued u) + 1) := by
      rw [hn]
      exact Function.update_self ..
    have hi : y.2.issued u = x.2.issued u := by rw [hn]; rfl
    rw [hc, hi]
    exact h.compare he

/-- What the store does by itself. -/
theorem BoundedAt.change {v : StoreEnv Key} (h : BoundedAt u x) (hv : v ≠ .evict (.otpAttempts u))
    (hv' : ∀ n, v ≠ .linger (.otp u) n) (hcalls : y.1.calls = x.1.calls)
    (hstore : y.1.state.1 = x.1.state.1.change v)
    (hn : y.2 = x.2) : BoundedAt u y := by
  unfold BoundedAt at h ⊢
  rw [Sys.tally_congr hcalls, Sys.tally_congr hcalls, hstore, hn]
  refine h.mono (Ephemeral.now_le_change _ v) (le_refl _)
    (fun e he => Ephemeral.look_change_of hv' he) fun e he hr => ?_
  have hcode := Ephemeral.look_change_of hv' he
  cases ha : x.1.state.1.look (.otpAttempts u) with
  | none =>
    rw [Ephemeral.look_change_none ha]
    exact ⟨le_refl _, fun _ ha => nomatch ha⟩
  | some a =>
    -- a code that is still there was there before, and its counter outlives it
    have hle := h.outlived e a hcode hr ha
    have hlive := Ephemeral.live_of_look he
    obtain ⟨a', ha', hval, hexp⟩ := Ephemeral.look_change_live hv ha (by omega)
    rw [ha']
    refine ⟨(Ephemeral.counted_congr hval).ge, fun b hb => ?_⟩
    cases hb
    omega

/-- A command of one of the user's own calls. -/
theorem BoundedAt.own (h : BoundedAt q.user x)
    (hg : Service.Gave protocol x.1 y.1 t n q p p' c r σ f d)
    (hn : y.2 = x.2.after x.1.state.1 q c n) (hok : orderly x.1 (.step t n) = true) :
    BoundedAt q.user y := by
  have hgives := hg.gives
  have hstate := hg.state
  unfold orderly at hok
  simp only [hg.does] at hok
  cases hgives with
  | rate u phone =>
    refine h.aside hg (.inl ⟨nofun, nofun⟩) (.inl ⟨nofun, nofun⟩) (by rw [hn]; exact ⟨rfl, rfl⟩) ?_
    rintro k hk
    cases hk
    exact ⟨nofun, nofun⟩
  | draw u phone =>
    exact h.aside hg (.inl ⟨nofun, nofun⟩) (.inl ⟨nofun, nofun⟩)
      (by rw [hn]; exact ⟨rfl, rfl⟩) nofun
  | set u phone code =>
    simp only [Bool.and_eq_true, decide_eq_true_eq] at hok
    obtain ⟨⟨h1, h2⟩, hk0⟩ := hok
    obtain ⟨hr, hd, -⟩ := Machine.exec_store hg.exec
    rw [Ephemeral.exec_ok _ _ h1 h2] at hr hd
    subst hr
    have hk := comparing_same hg u (.inl ⟨nofun, nofun⟩)
    have hreset := hg.tally (resetting u)
    rw [resetting_off hg.here (.inl nofun), resetting_on hg.rest] at hreset
    -- a new code begins with no comparison under way and none recorded
    refine h.set hk hk0 hreset (by rw [hstate, hd]; rfl) ?_
    rw [hn]
    exact if_neg h1
  | reset u phone code =>
    simp only [Bool.and_eq_true, decide_eq_true_eq] at hok
    obtain ⟨-, hd, -⟩ := Machine.exec_store hg.exec
    rw [Ephemeral.exec_ok _ _ hok.1 hok.2] at hd
    have hk := comparing_same hg u (.inl ⟨nofun, nofun⟩)
    have hreset := hg.tally (resetting u)
    rw [resetting_on hg.here, resetting_off hg.rest (.inl nofun)] at hreset
    exact h.clear hk hreset (by rw [hstate, hd]; rfl) hn
  | sms u phone code =>
    exact h.aside hg (.inl ⟨nofun, nofun⟩) (.inl ⟨nofun, nofun⟩)
      (by rw [hn]; exact ⟨rfl, rfl⟩) nofun
  | count u req =>
    have hr0 := of_decide_eq_true hok
    obtain ⟨hr, hd, -⟩ := Machine.exec_store hg.exec
    rw [← hstate] at hd
    rcases Ephemeral.exec_incr x.1.state.1 (Key.otpAttempts u) otpTtlSeconds n with ⟨hsame, e, he⟩ |
        ⟨expires, hc⟩
    · rw [he] at hr
      subst hr
      rw [hsame] at hd
      have hk := comparing_same hg u (.inl ⟨nofun, nofun⟩)
      have hreset := resetting_same hg u (.inl ⟨nofun, nofun⟩)
      exact h.congr (by rw [hd]) (by rw [hd]) (by rw [hd]) hk hreset (by rw [hn]; rfl)
        (by rw [hn]; rfl)
    · rw [← hr, ← hd] at hc
      -- it has been counted, whether or not the reply has come back
      cases r with
      | error e =>
        have hk := comparing_same hg u (.inl ⟨nofun, nofun⟩)
        exact h.count hr0 (resetting_same hg u (.inl ⟨nofun, nofun⟩)) hc (.inl hk.le) hn
      | ok a =>
        have ha : a = x.1.state.1.counter (.otpAttempts u) + 1 := hc.answer a rfl
        -- past the limit nothing is compared; below it one more comparison is open
        by_cases hmax : a > otpMaxAttempts
        · have hover : afterCount (.ok a) = .tooMany := if_pos hmax
          have hk := comparing_same hg u (.inl ⟨nofun, by rw [hover]; exact nofun⟩)
          have hreset := resetting_same hg u (.inl ⟨nofun, by rw [hover]; exact nofun⟩)
          exact h.count hr0 hreset hc (.inl hk.le) hn
        · have hload : afterCount (.ok a) = .load := if_neg hmax
          have hreset := resetting_same hg u (.inl ⟨nofun, by rw [hload]; exact nofun⟩)
          have hk := hg.tally (comparing u)
          simp only [comparing_off hg.here (.inl nofun), Bool.false_eq_true, if_false] at hk
          have hle : x.1.state.1.counter (.otpAttempts u) + 1 ≤ 5 := by
            rw [← ha]
            exact not_lt.1 hmax
          refine h.count hr0 hreset hc (.inr ⟨?_, hle⟩) hn
          change y.1.tally (comparing u) ≤ x.1.tally (comparing u) + 1
          split at hk <;> omega
  | tooMany u req =>
    obtain ⟨-, hd, -⟩ := Machine.exec_store hg.exec
    have hk := comparing_same hg u (.inl ⟨nofun, nofun⟩)
    have hr := resetting_same hg u (.inl ⟨nofun, nofun⟩)
    exact h.del (by rw [hstate]; exact hd) hk hr hn
  | load u req =>
    obtain ⟨hr, hd, -⟩ := Machine.exec_store hg.exec
    obtain ⟨hsame, hvalue⟩ := Ephemeral.exec_get x.1.state.1 (Key.otp u) n
    rw [hsame, ← hstate] at hd
    have hnext : afterLoad req r ≠ .load ∧ ∀ code, afterLoad req r ≠ .reset code := by
      rcases afterLoad_cases req r with h1 | ⟨h1, -⟩
      · rw [h1]
        exact ⟨nofun, nofun⟩
      · rw [h1]
        exact ⟨nofun, nofun⟩
    have hk := hg.tally (comparing u)
    rw [comparing_on hg.next, comparing_off hg.rest (.inl hnext.1)] at hk
    have hreset := resetting_same hg u (.inl ⟨nofun, hnext.2⟩)
    refine h.load hk hreset hd ?_
    rw [hn]
    unfold Guesses.after
    dsimp only
    split
    · next hcmp =>
      refine .inr ⟨?_, rfl⟩
      cases ha : (x.1.state.1.exec (.get (.otp u)) n).1 with
      | error e =>
        rw [ha] at hcmp
        cases hcmp
      | ok a =>
        have hv := hvalue a ha
        cases a with
        | none =>
          rw [ha] at hcmp
          cases hcmp
        | some v =>
          obtain ⟨e, he, -⟩ := Option.map_eq_some_iff.1 hv.symm
          exact ⟨e, he⟩
    · exact .inl rfl
  | write u req =>
    exact h.aside hg (.inl ⟨nofun, nofun⟩) (.inl ⟨nofun, nofun⟩)
      (by rw [hn]; exact ⟨rfl, rfl⟩) nofun
  | clearCode u req =>
    obtain ⟨-, hd, -⟩ := Machine.exec_store hg.exec
    have hk := comparing_same hg u (.inl ⟨nofun, nofun⟩)
    have hr := resetting_same hg u (.inl ⟨nofun, nofun⟩)
    exact h.del (by rw [hstate]; exact hd) hk hr hn
  | clearAttempts u req =>
    -- the counter is cleared after the code: nothing is left to guess at
    have hnone := Option.isNone_iff_eq_none.1 hok
    obtain ⟨-, hd, -⟩ := Machine.exec_store hg.exec
    have hk := comparing_same hg u (.inl ⟨nofun, nofun⟩)
    have hr := resetting_same hg u (.inl ⟨nofun, nofun⟩)
    refine h.gone hk hr (by rw [hstate, hd, Ephemeral.exec_now]) ?_ hn
    rw [hstate, hd]
    exact (Ephemeral.exec_other _ (k := Key.otp u) (c := .del (.otpAttempts u)) nofun n).trans hnone
  | edit hc =>
    exact h.aside hg (.inl ⟨nofun, nofun⟩) (.inl ⟨nofun, nofun⟩)
      (by rw [hn]; cases q <;> exact ⟨rfl, rfl⟩) nofun

/-- **One event keeps the bound**, if it meets the condition. -/
theorem BoundedAt.step (h : BoundedAt u x) (hc : Service.Conforms protocol (fun _ _ _ => True) x.1)
    (he : guessed.step e x = some y) (hlast : lasting e = true) (hok : orderly x.1 e = true) :
    BoundedAt u y := by
  obtain ⟨hstep, hn⟩ := Lts.noting_step.1 he
  rcases hc.step_cases hstep with
    ⟨t, q, rfl, hnew, hs⟩ | ⟨t, n, q, p, p', c, r, σ, f, d, rfl, -, hg⟩ | ⟨v, rfl, hs⟩
  · have hkeeps := phones_keeps q
    have hfirst : q.first ≠ .load ∧ ∀ a, q.first ≠ .reset a := by cases q <;> exact ⟨nofun, nofun⟩
    have hk : y.1.tally (comparing u) = x.1.tally (comparing u) := by
      rw [hs, Sys.tally_new hnew, comparing_off hkeeps (.inl hfirst.1)]
      rfl
    have hr : y.1.tally (resetting u) = x.1.tally (resetting u) := by
      rw [hs, Sys.tally_new hnew, resetting_off hkeeps (.inl hfirst.2)]
      rfl
    have hrec : y.2 = x.2 := hn
    exact h.congr (by rw [hs]; rfl) (by rw [hs]; rfl) (by rw [hs]; rfl) hk hr (by rw [hrec])
      (by rw [hrec])
  · unfold Guesses.note at hn
    rw [hg.does] at hn
    -- a command for another user touches none of the keys
    by_cases hu : q.user = u
    · subst hu
      exact h.own hg hn hok
    · exact h.otherUser hg hu hn
  · have hrec : y.2 = x.2 := hn
    cases v with
    | inr v => exact v.elim
    | inl v =>
      have hcalls : y.1.calls = x.1.calls := by rw [hs]
      have hstore : y.1.state.1 = x.1.state.1.change v := by rw [hs]
      refine h.change ?_ ?_ hcalls hstore hrec
      · rintro rfl
        cases hlast
      · rintro n rfl
        cases hok

end steps

/-! ## Runs -/

/-- At most five guesses have been compared with each code. -/
def AtMostFive (x : Sys backend AppError Reply Req × Guesses) : Prop :=
  ∀ u i, (x.2.compared u i : ℤ) ≤ otpMaxAttempts

/-- `k` checks of user 1, one after the other, from call `t` on. -/
def guesses (t k : ℕ) : List (Event backend Req) :=
  (List.range k).flatMap fun i => .start (t + i) (.verifyOtp 1 ⟨"0900", "000000"⟩) ::
  Event.steps (t + i) 0 2

/-- Five guesses after the code is stored, the reset, five more. -/
def tenGuesses : List (Event backend Req) :=
  .start 0 (.sendOtp 1 "0900") :: Event.steps 0 0 3 ++ guesses 1 5 ++ Event.steps 0 0 2 ++
  guesses 6 5

/-- The reset comes after guesses that were counted. -/
theorem ten_guesses :
    ¬∀ now d x, guessed.Reach (fun _ e _ => lasting e = true) (fresh now d) x → AtMostFive x := by
  intro h
  have h10 := h 0 ∅ _ (Lts.reach_runOk tenGuesses) 1 1
  revert h10
  decide +kernel

/-- **At most five guesses are compared with any code**, in every run in the condition's order. -/
theorem guesses_bounded (now : ℕ) (d : Users) {x : Sys backend AppError Reply Req × Guesses}
    (h : guessed.Reach (fun x e _ => (lasting e && orderly x.1 e) = true) (fresh now d) x) :
    AtMostFive x := by
  have hinv : Service.Conforms protocol (fun _ _ _ => True) x.1 ∧ ∀ u, BoundedAt u x := by
    refine h.inv (I := fun x => Service.Conforms protocol (fun _ _ _ => True) x.1 ∧
      ∀ u, BoundedAt u x) ?_ ?_
    · rintro x e y ⟨hc, hb⟩ he hok
      obtain ⟨hlast, hord⟩ := Bool.and_eq_true_iff.1 hok
      have hstep := (Lts.noting_step.1 he).1
      exact ⟨hc.keep hstep fun q => ⟨_, phones_keeps q⟩, fun u => (hb u).step hc he hlast hord⟩
    · exact ⟨fun _ _ hc => (nomatch hc), fun _ => Bounded.init now⟩
  intro u i
  have := (hinv.2 u).small i
  unfold otpMaxAttempts
  omega

/-- One code, and more checks than may look at it. -/
theorem guesses_bounded_seven :
    ∃ x, guessed.runOk (fun x e _ => (lasting e && orderly x.1 e) = true)
      (.start 0 (.sendOtp 1 "0900") :: Event.steps 0 0 5 ++ guesses 1 7) (fresh 0 ∅) = some x ∧
      AtMostFive x ∧ x.2.compared 1 1 = 5 := by
  have hrun : ∀ o, o = guessed.runOk (fun x e _ => (lasting e && orderly x.1 e) = true)
      (.start 0 (.sendOtp 1 "0900") :: Event.steps 0 0 5 ++ guesses 1 7) (fresh 0 ∅) →
      o.map (fun x => x.2.compared 1 1) = some 5 := by
    rintro _ rfl
    decide +kernel
  obtain ⟨x, hx, h5⟩ := Option.map_eq_some_iff.1 (hrun _ rfl)
  exact ⟨x, hx, guesses_bounded 0 ∅ (.of_runOk hx), h5⟩

end DreamFly.Otp
