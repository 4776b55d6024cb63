import DreamFly.Proof.Otp

/-!
# A verified phone was verified

`verify_otp` checks the code in the store and writes the row some time later; in
between anything can happen to the row and to the store. What makes the written phone
right is that the write sets the phone together with the flag, and every other write
that changes the phone takes the flag away (`Kept`), also when it is computed in a
transaction that commits later.

* `Proven`: what every reachable state has.
* `verified_phones`: a verified phone is one whose code its user has presented, and after a
  change of the phone the flag is off until the next such write.
-/

namespace DreamFly.Otp

open Conc Code
open Txn (Table)
open Content (UpdateProfileRequest)

/-! ## What has happened -/

/-- `send_otp` has put a code into the store; `verify_otp` has presented it. -/
inductive Note
  | sent (userId : Uuid) (payload : Payload)
  | proved (userId : Uuid) (payload : Payload)
deriving DecidableEq

/-- The newest first. -/
abbrev History := List Note

namespace History

def after (h : History) (x : Ephemeral Key Payload) : Req → backend.Cmd → ℕ → History
  | .sendOtp u _, .store (.setEx (.otp _) p _), n => if n = 1 then h else .sent u p :: h
  | .verifyOtp u req, .store (.get (.otp _)), n =>
    if afterLoad req (x.exec (.get (.otp u)) n).1 = .write then
      .proved u ⟨req.phone, req.code⟩ :: h else h
  | _, _, _ => h

def note (h : History) (s : Sys backend AppError Reply Req) (e : Event backend Req)
    (_ : Sys backend AppError Reply Req) :
    History :=
  match s.does e with
  | some (q, c, n) => h.after s.state.1 q c n
  | none => h

/-- A code was stored for the user and the phone, and then the user has presented it. -/
def Earned (h : History) (u : Uuid) (phone : String) : Prop :=
  ∃ code, [Note.proved u ⟨phone, code⟩, Note.sent u ⟨phone, code⟩].Sublist h

theorem Earned.mono {h h' : History} {u : Uuid} {phone : String} (he : h.Earned u phone)
    (hs : h.Sublist h') :
    h'.Earned u phone := by
  obtain ⟨code, hc⟩ := he
  exact ⟨code, hc.trans hs⟩

/-- Nothing is forgotten. -/
theorem after_sublist (h : History) (x : Ephemeral Key Payload) (q : Req)
    (c : backend.Cmd) (n : ℕ) :
    h.Sublist (h.after x q c n) := by
  unfold after
  split
  · split
    · exact .refl h
    · exact .cons _ (.refl h)
  · split
    · exact .cons _ (.refl h)
    · exact .refl h
  · exact .refl h

end History

/-! ## Rows -/

/-- A write that does not verify a phone: the flag is on only if it was on, for the same
phone. -/
def Kept (r r' : User) : Prop := r'.phoneVerified = true → r.phoneVerified = true ∧
    r'.phone = r.phone

namespace Kept

variable {r r' r'' : User}

theorem refl (r : User) : Kept r r := fun h => ⟨h, rfl⟩

theorem trans (h : Kept r r') (h' : Kept r' r'') : Kept r r'' := by
  intro hv
  obtain ⟨h1, h2⟩ := h' hv
  obtain ⟨h3, h4⟩ := h h1
  exact ⟨h3, h2.trans h4⟩

theorem off (h : Kept r r') (hr : r.phoneVerified = false) : r'.phoneVerified = false := by
  rw [Bool.eq_false_iff]
  intro hv
  rw [(h hv).1] at hr
  cases hr

end Kept

theorem kept_updateProfile (req : UpdateProfileRequest) (r : User) :
    Kept r (updateProfile req r) := by
  intro h
  cases hp : req.phone with
  | none =>
    simp only [updateProfile, hp] at h ⊢
    exact ⟨h, trivial⟩
  | some v =>
    simp only [updateProfile, hp] at h ⊢
    split at h
    · cases h
    · next hsame => exact ⟨h, (not_not.1 hsame).symm⟩

theorem kept_adminUpdate (name phone : Option String) (r : User) :
    Kept r (adminUpdate name phone r) := by
  intro h
  unfold adminUpdate at h ⊢
  dsimp only at h ⊢
  split at h
  · cases h
  · next hsame =>
    refine ⟨h, ?_⟩
    cases phone with
    | none => rfl
    | some v =>
      have hv : some v = r.phone := by
        by_contra hne
        exact hsame ⟨nofun, hne⟩
      exact hv

/-- What a transaction has made of a row verifies nothing. -/
def Slot.Honest (s : Slot) : Prop := ∀ t u, s.pending = some (t, u) → Kept s.committed u

/-- Every row of `d'` comes from one of `d` by a write that verifies nothing. -/
def Edited (d d' : Users) : Prop :=
  ∀ u s', d'.lookup u = some s' → ∃ s, d.lookup u = some s ∧
    (s.Honest → Kept s.committed s'.committed ∧ s'.Honest)

theorem Edited.refl (d : Users) : Edited d d := fun _ s' h => ⟨s', h, fun hs => ⟨.refl _, hs⟩⟩

theorem Edited.insert {d : Users} {id : Uuid} {s s' : Slot} (hs : d.lookup id = some s)
    (h : s.Honest → Kept s.committed s'.committed ∧ s'.Honest) : Edited d (d.insert id s') := by
  intro u s₁ hu
  by_cases hne : u = id
  · subst hne
    rw [AList.lookup_insert] at hu
    cases hu
    exact ⟨s, hs, h⟩
  · rw [AList.lookup_insert_ne hne] at hu
    exact ⟨s₁, hu, fun hs => ⟨.refl _, hs⟩⟩

theorem Edited.modify {d : Users} {id : Uuid} {f : Slot → Slot}
    (h : ∀ s, s.Honest → Kept s.committed (f s).committed ∧ (f s).Honest) :
    Edited d (Table.modify d id f) := by
  unfold Table.modify
  split
  · exact .refl d
  · next s hs => exact .insert hs (h s)

section statements
variable {t n : ℕ} {d d' : Users} {id : Uuid} {s : Slot}

theorem honest_committed (u : User) : Slot.Honest ⟨u, none⟩ := fun _ _ h => nomatch h

/-- What a transaction sees of a row it has locked. -/
theorem kept_current (t : ℕ) (h : s.Honest) : Kept s.committed (s.current t) := by
  unfold Slot.current
  split
  · next t' u hp =>
    split
    · exact h t' u hp
    · exact .refl _
  · exact .refl _

theorem commit_honest (t : ℕ) (h : s.Honest) : Kept s.committed (s.commit t).committed ∧
    (s.commit t).Honest := by
  unfold Slot.commit
  split
  · next t' u hp =>
    split
    · exact ⟨h t' u hp, honest_committed u⟩
    · exact ⟨.refl _, h⟩
  · exact ⟨.refl _, h⟩

theorem rollback_honest (t : ℕ) (h : s.Honest) : Kept s.committed (s.rollback t).committed ∧
    (s.rollback t).Honest := by
  unfold Slot.rollback
  split
  · split
    · exact ⟨.refl _, honest_committed _⟩
    · exact ⟨.refl _, h⟩
  · exact ⟨.refl _, h⟩

theorem updateTx_edited {f : User → User} {r : Option User} (hf : ∀ u, Kept u (f u))
    (h : updateTxStmt t d id f = some (r, d')) : Edited d d' := by
  unfold updateTxStmt at h
  split at h
  · cases h
    exact .refl d
  · next s hs =>
    split at h
    · cases h
    · cases h
      refine .insert hs fun hh => ⟨.refl _, ?_⟩
      intro t' u hp
      cases hp
      exact (kept_current t hh).trans (hf _)

theorem updateProfile_edited {req : UpdateProfileRequest} {r : Except DbError User}
    (h : updateProfileStmt t d id req = some (r, d')) : Edited d d' := by
  unfold updateProfileStmt at h
  split at h
  · cases h
    exact .refl d
  · next s hs =>
    split at h
    · cases h
    · cases h
      exact .insert hs fun _ => ⟨kept_updateProfile req _, honest_committed _⟩

/-- **Every statement but one verifies nothing.** -/
theorem statement_edited {c : UserCmd} {r : c.Reply}
    (hc : ∀ id phone, c ≠ .updatePhoneVerified id phone)
    (h : users.exec t c n d = some (r, d')) : Edited d d' := by
  cases c with
  | drawCode => cases h; exact .refl d
  | sendSms number code => cases h; exact .refl d
  | updatePhoneVerified id phone => exact absurd rfl (hc id phone)
  | updateProfile id req => exact updateProfile_edited h
  | setActiveTx id b =>
    obtain ⟨⟨r', d''⟩, hx, heq⟩ := Option.map_eq_some_iff.1 h
    cases heq
    exact updateTx_edited (f := fun r => { r with isActive := b }) (fun _ hv => ⟨hv, rfl⟩) hx
  | adminUpdateTx id name phone => exact updateTx_edited (kept_adminUpdate name phone) h
  | commit id => cases h; exact .modify fun _ => commit_honest t
  | rollback id => cases h; exact .modify fun _ => rollback_honest t

/-- The one that does: it sets the phone with the flag. -/
theorem verify_statement {phone : String} {r : Except DbError Unit}
    (h : updatePhoneVerifiedStmt t d id phone = some (r, d')) :
    d' = d ∨ ∃ s, d.lookup id = some s ∧ d' = d.insert id ⟨updatePhoneVerified phone s.committed,
      none⟩ := by
  unfold updatePhoneVerifiedStmt at h
  split at h
  · cases h
    exact .inl rfl
  · next s hs =>
    split at h
    · cases h
    split at h
    · cases h
      exact .inl rfl
    · cases h
      exact .inr ⟨s, hs, rfl⟩

end statements

/-! ## The invariant -/

/-- The code under a user's key was sent to that user, and every verified phone is earned. -/
structure Proven (x : Sys backend AppError Reply Req × History) : Prop where
  stored : ∀ u a, x.1.state.1.value (.otp u) = some a → ∃ p, a = .text p ∧ Note.sent u p ∈ x.2
  honest : ∀ u s, x.1.state.2.lookup u = some s → s.Honest
  earned : ∀ u s, x.1.state.2.lookup u = some s → s.committed.phoneVerified = true →
    ∃ phone, s.committed.phone = some phone ∧ x.2.Earned u phone

/-- A call about to write has earned the phone. -/
def checked (h : History) : (q : Req) → Phase → Prop
  | .verifyOtp u req, .write => h.Earned u req.phone
  | _, _ => True

abbrev proving : Lts (Sys backend AppError Reply Req × History) (Event backend Req) :=
  phones.lts.noting History.note

section steps
variable {x y : Sys backend AppError Reply Req × History} {e : Event backend Req}
  {t n : ℕ} {q : Req}
  {p p' : Code backend AppError Reply} {c : backend.Cmd} {r : backend.Reply c} {σ : Phase}
    {f : backend.Reply c → Phase}
  {d : backend.State}

/-- The rows after any edit. -/
theorem Proven.edited (h : Proven x) (he : Edited x.1.state.2 y.1.state.2) (hs : x.2.Sublist y.2)
    (hstored : ∀ u a, y.1.state.1.value (.otp u) = some a → ∃ p, a = .text p ∧
      Note.sent u p ∈ y.2) : Proven y where
  stored := hstored
  honest u s' hu := by
    obtain ⟨s, hs, hk⟩ := he u s' hu
    exact (hk (h.honest u s hs)).2
  earned u s' hu hv := by
    obtain ⟨s, hl, hk⟩ := he u s' hu
    obtain ⟨hv', hphone⟩ := (hk (h.honest u s hl)).1 hv
    obtain ⟨phone, hp, hearned⟩ := h.earned u s hl hv'
    exact ⟨phone, hphone.trans hp, hearned.mono hs⟩

theorem note_sublist (he : proving.step e x = some y) : x.2.Sublist y.2 := by
  rw [(Lts.noting_step.1 he).2]
  unfold History.note
  split
  · exact History.after_sublist ..
  · exact .refl _

/-- A code that has just been accepted was sent before. -/
theorem earned_load {u : Uuid} {req : OtpVerifyRequest} (h : Proven x)
    (hl : afterLoad req (x.1.state.1.exec (.get (.otp u)) n).1 = .write) :
    (x.2.after x.1.state.1 (.verifyOtp u req) (.store (.get (.otp u))) n).Earned u req.phone := by
  rcases afterLoad_cases req (x.1.state.1.exec (.get (.otp u)) n).1 with h1 | ⟨-, stored, hok, hj⟩
  · rw [hl] at h1
    cases h1
  have hv := (Ephemeral.exec_get x.1.state.1 (Key.otp u) n).2 stored hok
  unfold judge at hj
  split at hj
  · cases hj
  next v =>
  obtain ⟨p, rfl, hsent⟩ := h.stored u v hv.symm
  split at hj
  · cases hj
  next hphone =>
  split at hj
  · cases hj
  next hcode =>
  -- what is stored is the pair that the request has brought
  have hp : p = ⟨req.phone, req.code⟩ := by
    obtain ⟨phone, code⟩ := p
    have h1 : phone = req.phone := not_not.1 hphone
    have h2 : code = req.code := not_not.1 hcode
    rw [h1, h2]
  rw [hp] at hsent
  refine ⟨req.code, ?_⟩
  unfold History.after
  dsimp only
  rw [if_pos hl]
  exact .cons_cons _ (List.singleton_sublist.2 hsent)

/-- What is stored after a command of the store. -/
theorem stored_cmd {k : StoreCmd Key Payload} {r : Except StoreError k.Answer}
    {f : Except StoreError k.Answer → Phase} (h : Proven x)
    (hg : Service.Gave protocol x.1 y.1 t n q p p' (.store k) r σ f d)
    (hn : y.2 = x.2.after x.1.state.1 q (.store k) n) (hs : x.2.Sublist y.2) (u : Uuid)
    (a : Val Payload)
    (ha : y.1.state.1.value (.otp u) = some a) : ∃ p, a = .text p ∧ Note.sent u p ∈ y.2 := by
  rw [hg.state, (Machine.exec_store hg.exec).2.1] at ha
  rcases Ephemeral.value_exec ha with hold | ⟨h1, v, ttl, rfl, rfl⟩ | ⟨m, ttl, rfl, rfl⟩
  · obtain ⟨p, rfl, hp⟩ := h.stored u a hold
    exact ⟨p, rfl, hs.subset hp⟩
  · have hgives := hg.gives
    cases hgives with
    | set u phone code =>
      refine ⟨_, rfl, ?_⟩
      rw [hn]
      unfold History.after
      dsimp only
      rw [if_neg h1]
      exact List.mem_cons_self
  · have hgives := hg.gives
    cases hgives

theorem stored_step (h : Proven x) (hc : Service.Conforms protocol (fun _ => checked x.2) x.1)
    (he : proving.step e x = some y)
    (u : Uuid) (a : Val Payload) (ha : y.1.state.1.value (.otp u) = some a) : ∃ p, a = .text p ∧
      Note.sent u p ∈ y.2 := by
  have hs := note_sublist he
  obtain ⟨hstep, hn⟩ := Lts.noting_step.1 he
  have hold (hv : x.1.state.1.value (.otp u) = some a) : ∃ p, a = .text p ∧
      Note.sent u p ∈ y.2 := by
    obtain ⟨p, hp, hsent⟩ := h.stored u a hv
    exact ⟨p, hp, hs.subset hsent⟩
  rcases hc.step_cases hstep with
    ⟨t, q, rfl, hnew, hset⟩ | ⟨t, n, q, p, p', c, r, σ, f, d, rfl, hok, hg⟩ | ⟨v, rfl, hset⟩
  · rw [hset] at ha
    exact hold ha
  · unfold History.note at hn
    rw [hg.does] at hn
    cases c with
    | store k => exact stored_cmd h hg hn hs u a ha
    | other c =>
      rw [hg.state, (Machine.exec_other hg.exec).1] at ha
      exact hold ha
  · rw [hset] at ha
    cases v with
    | inl v => exact hold (Ephemeral.value_change ha)
    | inr v => exact v.elim

/-- The event is `verify_otp`'s write of a phone of user `u`. -/
def Verifies (u : Uuid) (s : Sys backend AppError Reply Req) (e : Event backend Req) : Prop :=
  ∃ req n, s.does e = some (.verifyOtp u req, .other (.updatePhoneVerified u req.phone), n)

/-- **What an event does to the rows**: it verifies nothing, or it is the write of a call
that has earned the phone. -/
theorem step_rows (hc : Service.Conforms protocol (fun _ => checked x.2) x.1)
    (he : proving.step e x = some y) :
    Edited x.1.state.2 y.1.state.2 ∨
      ∃ u phone s, Verifies u x.1 e ∧ x.2.Earned u phone ∧ x.1.state.2.lookup u = some s ∧
        y.1.state.2 = x.1.state.2.insert u ⟨updatePhoneVerified phone s.committed, none⟩ := by
  obtain ⟨hstep, hn⟩ := Lts.noting_step.1 he
  rcases hc.step_cases hstep with
    ⟨t, q, rfl, hnew, hset⟩ | ⟨t, n, q, p, p', c, r, σ, f, d, rfl, hok, hg⟩ | ⟨v, rfl, hset⟩
  · rw [hset]
    exact .inl (.refl _)
  · cases c with
    | store k =>
      rw [hg.state, (Machine.exec_store hg.exec).2.2]
      exact .inl (.refl _)
    | other c =>
      obtain ⟨-, hexec⟩ := Machine.exec_other hg.exec
      rw [← hg.state] at hexec
      -- of all statements only one sets the flag, and only a verification runs it
      by_cases hv : ∀ id phone, c ≠ .updatePhoneVerified id phone
      · exact .inl (statement_edited hv hexec)
      push Not at hv
      obtain ⟨id, phone, rfl⟩ := hv
      have hgives := hg.gives
      have hdoes := hg.does
      cases hgives with
      | write _ req =>
        rcases verify_statement hexec with hsame | ⟨s, hl, hnew⟩
        · rw [hsame]
          exact .inl (.refl _)
        · exact .inr ⟨id, req.phone, s, ⟨req, n, hdoes⟩, hok, hl, hnew⟩
      | edit hedit => cases q <;> simp [Req.edits] at hedit
  · rw [hset]
    cases v with
    | inl v => exact .inl (.refl _)
    | inr v => exact v.elim

/-- **One event keeps the invariant.** -/
theorem Proven.step (h : Proven x) (hc : Service.Conforms protocol (fun _ => checked x.2) x.1)
    (he : proving.step e x = some y) :
    Proven y := by
  have hs := note_sublist he
  have hstored := stored_step h hc he
  rcases step_rows hc he with hedit | ⟨u, phone, s, -, hok, hl, hnew⟩
  · exact h.edited hedit hs hstored
  refine ⟨hstored, fun u' s' hu => ?_, fun u' s' hu hflag => ?_⟩
  · rw [hnew] at hu
    by_cases hne : u' = u
    · subst hne
      rw [AList.lookup_insert] at hu
      cases hu
      exact honest_committed _
    · rw [AList.lookup_insert_ne hne] at hu
      exact h.honest u' s' hu
  · rw [hnew] at hu
    by_cases hne : u' = u
    · subst hne
      rw [AList.lookup_insert] at hu
      cases hu
      exact ⟨phone, rfl, hok.mono hs⟩
    · rw [AList.lookup_insert_ne hne] at hu
      obtain ⟨phone', hp, he⟩ := h.earned u' s' hu hflag
      exact ⟨phone', hp, he.mono hs⟩

theorem checked_first (h : History) (q : Req) : checked h q q.first := by
  cases q <;> trivial

theorem checked.mono {h h' : History} (hs : h.Sublist h') {q : Req} {σ : Phase}
    (hc : checked h q σ) : checked h' q σ := by
  unfold checked at hc ⊢
  split
  · exact hc.mono hs
  · trivial

/-- A phase other than the write asks for nothing. -/
theorem checked_of_ne {h : History} {q : Req} {σ : Phase} (hσ : σ ≠ .write) : checked h q σ := by
  unfold checked
  split
  · exact absurd rfl hσ
  · trivial

/-- **Every call that goes on to write has its code accepted.** -/
theorem checked_step (h : Proven x) (hc : Service.Conforms protocol (fun _ => checked x.2) x.1)
    (he : proving.step e x = some y) :
    Service.Conforms protocol (fun _ => checked y.2) y.1 := by
  have hs := note_sublist he
  obtain ⟨hstep, hn⟩ := Lts.noting_step.1 he
  refine hc.step hstep (fun _ q _ => ⟨q.first, checked_first _ q, phones_keeps q⟩)
    (fun _ _ _ _ _ _ hq => hq.mono hs) ?_
  intro t n q p p' c r σ f d he hok hg
  subst he
  unfold History.note at hn
  rw [hg.does] at hn
  have hgives := hg.gives
  cases hgives with
  | load u req =>
    obtain ⟨hr, -, -⟩ := Machine.exec_store hg.exec
    by_cases hw : afterLoad req r = .write
    · rw [hw, hn]
      rw [hr] at hw
      exact earned_load h hw
    · exact checked_of_ne hw
  | set u phone code =>
    refine checked_of_ne ?_
    cases r <;> exact nofun
  | count u req =>
    refine checked_of_ne ?_
    rcases afterCount_cases r with h1 | h1 | h1 <;> rw [h1] <;> exact nofun
  | _ =>
    refine checked_of_ne ?_
    intro hw
    cases hw

/-- An event that is not the user's own verification keeps the flag off. -/
theorem kept_step (h : Proven x) (hc : Service.Conforms protocol (fun _ => checked x.2) x.1)
    (he : proving.step e x = some y)
    {u : Uuid} (hv : ¬Verifies u x.1 e) {r' : User} (hr' : y.1.state.2.row u = some r') :
    ∃ r, x.1.state.2.row u = some r ∧ Kept r r' := by
  obtain ⟨s', hs', rfl⟩ := Option.map_eq_some_iff.1 hr'
  rcases step_rows hc he with hedit | ⟨u', phone, s, hver, -, -, hnew⟩
  · obtain ⟨s, hs, hk⟩ := hedit u s' hs'
    exact ⟨s.committed, Option.map_eq_some_iff.2 ⟨s, hs, rfl⟩, (hk (h.honest u s hs)).1⟩
  · have hne : u ≠ u' := fun heq => hv (heq ▸ hver)
    rw [hnew, AList.lookup_insert_ne hne] at hs'
    exact ⟨s'.committed, Option.map_eq_some_iff.2 ⟨s', hs', rfl⟩, .refl _⟩

end steps

/-! ## Runs -/

/-- The phone of a verified row is one whose code its user has presented. -/
def OnlyEarned (x : Sys backend AppError Reply Req × History) : Prop :=
  ∀ u r, x.1.state.2.row u = some r → r.phoneVerified = true → ∃ phone, r.phone = some phone ∧
    x.2.Earned u phone

/-- No phone is verified at the start, and no transaction is open. -/
def Unverified (d : Users) : Prop := ∀ u s, d.lookup u = some s → s.pending = none ∧
    s.committed.phoneVerified = false

theorem reach_proven {now : ℕ} {d : Users} {x : Sys backend AppError Reply Req × History}
    (hd : Unverified d)
    (h : proving.Reachable (.init (.empty now, d), []) x) :
    Proven x ∧ Service.Conforms protocol (fun _ => checked x.2) x.1 := by
  refine h.inv (I := fun x => Proven x ∧ Service.Conforms protocol (fun _ => checked x.2) x.1) ?_ ?_
  · rintro x e y ⟨hp, hc⟩ he -
    exact ⟨hp.step hc he, checked_step hp hc he⟩
  · refine ⟨⟨?_, ?_, ?_⟩, ?_⟩
    · intro u a ha
      cases ha
    · intro u s hs t r hr
      rw [(hd u s hs).1] at hr
      cases hr
    · intro u s hs hv
      rw [(hd u s hs).2] at hv
      cases hv
    · intro t c hc
      cases hc

/-- The flag stays off as long as the user verifies nothing. -/
theorem stays_off {now : ℕ} {d : Users} {u : Uuid} {y z : Sys backend AppError Reply Req × History}
    (hd : Unverified d)
    (hy : proving.Reachable (.init (.empty now, d), []) y)
    (hrun : proving.Reach (fun x e _ => ¬Verifies u x.1 e) y z) {r r' : User}
    (hr : y.1.state.2.row u = some r)
    (hoff : r.phoneVerified = false) (hr' : z.1.state.2.row u = some r') : r'.phoneVerified =
    false := by
  suffices h : ∀ r', z.1.state.2.row u = some r' → r'.phoneVerified = false from h r' hr'
  refine (hrun.inv (I := fun z => proving.Reachable (.init (.empty now, d), []) z ∧
    ∀ r', z.1.state.2.row u = some r' → r'.phoneVerified = false) ?_ ⟨hy, ?_⟩).2
  · rintro x e w ⟨hx, hflag⟩ he hv
    obtain ⟨hp, hc⟩ := reach_proven hd hx
    refine ⟨hx.tail ⟨e, he, trivial⟩, fun r' hr' => ?_⟩
    obtain ⟨r, hr, hk⟩ := kept_step hp hc he hv hr'
    exact hk.off (hflag r hr)
  · intro r₁ h1
    rw [hr] at h1
    cases h1
    exact hoff

/-- After an update that changes the phone the flag is off until the user's next verification. -/
def OffUntilVerified (x : Sys backend AppError Reply Req × History) : Prop :=
  ∀ e y u r r', proving.step e x = some y → ¬Verifies u x.1 e → x.1.state.2.row u = some r →
    y.1.state.2.row u = some r' →
    r'.phone ≠ r.phone →
    ∀ z r'', proving.Reach (fun x e _ => ¬Verifies u x.1 e) y z → z.1.state.2.row u = some r'' →
      r''.phoneVerified = false

/-- **A verified phone was really verified**, and a new phone is not verified until it is. -/
theorem verified_phones {now : ℕ} {d : Users} {x : Sys backend AppError Reply Req × History}
    (hd : Unverified d)
    (h : proving.Reachable (.init (.empty now, d), []) x) : OnlyEarned x ∧ OffUntilVerified x := by
  obtain ⟨hp, hc⟩ := reach_proven hd h
  constructor
  · intro u r hr hv
    obtain ⟨s, hs, rfl⟩ := Option.map_eq_some_iff.1 hr
    exact hp.earned u s hs hv
  · intro e y u r r' he hv hr hr' hne z r'' hrun hr''
    obtain ⟨r₁, h1, hk⟩ := kept_step hp hc he hv hr'
    rw [hr] at h1
    cases h1
    have hoff : r'.phoneVerified = false := by
      rw [Bool.eq_false_iff]
      intro hflag
      exact hne (hk hflag).2
    exact stays_off hd (h.tail ⟨e, he, trivial⟩) hrun hr' hoff hr''

/-- One user verifies a phone and then changes it. -/
def verifyThenChange : List (Event backend Req) :=
  .start 0 (.sendOtp 1 "0900") :: Event.steps 0 0 5 ++ .start 1 (.verifyOtp 1 ⟨"0900", "100000"⟩) ::
  Event.steps 1 0 5 ++
    .start 2 (.updateMe 1 ⟨none, some "0911", none, none, none⟩ 20513) :: Event.steps 2 0 1

def oneUser : Users := (∅ : Users).insert 1 ⟨⟨"A", none, false, none, none, none, true⟩, none⟩

theorem verified_phones_change :
    ∃ x, proving.run verifyThenChange (.init (.empty 0, oneUser), []) = some x ∧ OnlyEarned x ∧
      OffUntilVerified x ∧
      (x.1.state.2.row 1).map (fun r => (r.phone, r.phoneVerified)) = some (some "0911",
        false) := by
  have hd : Unverified oneUser := by
    intro u s hs
    by_cases hu : u = 1
    · subst hu
      cases hs
      exact ⟨rfl, rfl⟩
    · rw [oneUser, AList.lookup_insert_ne hu] at hs
      cases hs
  have hrun : ∀ o, o = proving.run verifyThenChange (.init (.empty 0, oneUser), []) →
      (o.bind fun x => x.1.state.2.row 1).map (fun r => (r.phone, r.phoneVerified)) =
      some (some "0911", false) := by
    rintro _ rfl
    decide +kernel
  have hreached := hrun _ rfl
  cases hx : proving.run verifyThenChange (.init (.empty 0, oneUser), []) with
  | none => rw [hx] at hreached; cases hreached
  | some x =>
    rw [hx] at hreached
    obtain ⟨hearned, hoff⟩ := verified_phones hd (.of_run (fun _ _ _ _ => trivial) hx)
    exact ⟨x, rfl, hearned, hoff, hreached⟩

end DreamFly.Otp
