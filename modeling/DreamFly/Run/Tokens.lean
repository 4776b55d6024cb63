import DreamFly.Proof.Tokens

/-!
# Refresh tokens over whole runs

Every commit of a run is in its journal. Where the tokens brought out are all different
and new, a token that has been stored and is not usable any more stays so.

* `refresh_tokens_chain`: a token is rotated at most once, each rotation leaves one usable
  successor in its place, no unusable token is rotated, and a rotation that fails has left
  the store alone unless it met a replay or an inactive user.
-/

namespace DreamFly.Auth

open Txn Prog

variable {Token Hash : Type} [DecidableEq Hash] {E : AuthEnv Token Hash}
  {d d' d₁ d₂ : Store (Accounts Hash)} {h : Hash}
  {tok : Token} {now now' : Instant} {a a' : AuthResponse Token}

abbrev SessionSys (Token Hash : Type) [DecidableEq Hash] :=
  Sys (Accounts Hash) AppError (SessionReply Token) (SessionReq Token)

abbrev SessionEntry (Token Hash : Type) [DecidableEq Hash] :=
  Entry (Accounts Hash) AppError (SessionReply Token) (SessionReq Token)

variable {s s₁ : SessionSys Token Hash} {x y : SessionEntry Token Hash}
  {γ γ₁ γ₂ : List (SessionEntry Token Hash)}

/-- A token that can be rotated at `now`. -/
def Usable (now : Instant) (h : Hash) (d : Store (Accounts Hash)) : Prop :=
  ∃ r u, d.get .refreshTokens h = some r ∧ d.get .users r.userId = some u ∧ r.revoked = false ∧
    now ≤ r.expiresAt ∧ u.isActive = true

/-- The token that a commit has brought out. -/
def issuedBy (x : SessionEntry Token Hash) : Option Token :=
  match x.reply with
  | some (.ok (.session a)) => some a.refreshToken
  | _ => none

def issued (γ : List (SessionEntry Token Hash)) : List Token := γ.filterMap issuedBy

/-- The commit of a rotation of `tok` at `now` that has succeeded. -/
def Rotates (x : SessionEntry Token Hash) (tok : Token) (now : Instant)
    (a : AuthResponse Token) : Prop :=
  x.req = .rotate tok now ∧ x.reply = some (.ok (.session a))

/-- A token that is stored at first or has been brought out. -/
def Known (E : AuthEnv Token Hash) (d : Store (Accounts Hash)) (γ : List (SessionEntry Token Hash))
    (tok : Token) : Prop :=
  Stored (E.hashToken tok) d ∨ tok ∈ issued γ

/-- The tokens brought out are all different, and new. -/
structure Distinct (E : AuthEnv Token Hash) (d : Store (Accounts Hash))
    (γ : List (SessionEntry Token Hash)) : Prop where
  once : (issued γ).Nodup
  new : ∀ tok ∈ issued γ, d.get .refreshTokens (E.hashToken tok) = none

/-- The usable tokens after a rotation are the ones before it, with the successor for `tok`,
which is of the same user. -/
structure Succession (E : AuthEnv Token Hash) (tok : Token) (now : Instant) (a : AuthResponse Token)
    (d d' : Store (Accounts Hash)) :
    Prop where
  usable : Usable now (E.hashToken tok) d
  new : d.get .refreshTokens (E.hashToken a.refreshToken) = none
  successor : Usable now (E.hashToken a.refreshToken) d'
  others : ∀ t k, k ≠ E.hashToken a.refreshToken → (Usable t k d' ↔ k ≠ E.hashToken tok ∧
    Usable t k d)
  owner : ∃ r r', d.get .refreshTokens (E.hashToken tok) = some r ∧
    d'.get .refreshTokens (E.hashToken a.refreshToken) = some r' ∧
    r'.userId = r.userId

/-! ## Tokens only end -/

/-- Apart from the tokens of `new`, none is brought or revived, and no user is. -/
structure Ended (new : Hash → Prop) (d d' : Store (Accounts Hash)) : Prop where
  tokens : ∀ k r', ¬ new k → d'.get .refreshTokens k = some r' →
    ∃ r, d.get .refreshTokens k = some r ∧ r'.userId = r.userId ∧
    r'.expiresAt = r.expiresAt ∧ (r.revoked = true → r'.revoked = true)
  users : ∀ u a', d'.get .users u = some a' → ∃ a, d.get .users u = some a ∧
    (a'.isActive = true → a.isActive = true)

theorem Ended.refl (new : Hash → Prop) (d : Store (Accounts Hash)) : Ended new d d :=
  ⟨fun _ r _ hr => ⟨r, hr, rfl, rfl, id⟩, fun _ a ha => ⟨a, ha, id⟩⟩

theorem Ended.trans {new : Hash → Prop} (h : Ended new d d₁) (h' : Ended new d₁ d₂) :
    Ended new d d₂ where
  tokens k r'' hk hr'' := by
    obtain ⟨r', hr', h1, h2, h3⟩ := h'.tokens k r'' hk hr''
    obtain ⟨r, hr, h4, h5, h6⟩ := h.tokens k r' hk hr'
    exact ⟨r, hr, h1.trans h4, h2.trans h5, h3 ∘ h6⟩
  users u a'' ha'' := by
    obtain ⟨a', ha', h1⟩ := h'.users u a'' ha''
    obtain ⟨a, ha, h2⟩ := h.users u a' ha'
    exact ⟨a, ha, h2 ∘ h1⟩

theorem Ended.spent {new : Hash → Prop} (h : Ended new d d') {k : Hash} (hk : ¬ new k)
    (hs : Spent k d) : Spent k d' := by
  intro r' hr'
  obtain ⟨r, hr, -, -, h3⟩ := h.tokens k r' hk hr'
  exact h3 (hs r hr)

theorem Ended.usable {new : Hash → Prop} (h : Ended new d d') {k : Hash} (hk : ¬ new k)
    (hu : Usable now k d') : Usable now k d := by
  obtain ⟨r', u', hr', hu', hrev, hexp, hact⟩ := hu
  obtain ⟨r, hr, h1, h2, h3⟩ := h.tokens k r' hk hr'
  obtain ⟨u, hu, h4⟩ := h.users r'.userId u' hu'
  refine ⟨r, u, hr, h1 ▸ hu, ?_, h2 ▸ hexp, h4 hact⟩
  by_contra hr
  rw [h3 (by simpa using hr)] at hrev
  cases hrev

theorem Spent.unusable (hs : Spent h d) : ¬ Usable now h d := by
  rintro ⟨r, u, hr, -, hrev, -⟩
  rw [hs r hr] at hrev
  cases hrev

/-- A write that ends something brings nothing. -/
theorem Ends.ended {w : Write (Accounts Hash)} (hw : Ends w) (new : Hash → Prop)
    (d : Store (Accounts Hash)) :
    Ended new d (d.apply w) := by
  cases hw with
  | del h =>
    refine ⟨fun k r' _ hr' => ?_, fun u a' ha' => ?_⟩
    · rw [Store.get_del] at hr'
      split at hr'
      · cases hr'
      · exact ⟨r', hr', rfl, rfl, id⟩
    · rw [Store.get_apply_other _ (by simp [Write.tbl])] at ha'
      exact ⟨a', ha', id⟩
  | revoke h =>
    refine ⟨fun k r' _ hr' => ?_, fun u a' ha' => ?_⟩
    · rw [Store.get_mod] at hr'
      split at hr'
      next he =>
        obtain ⟨r, hr, rfl⟩ := Option.map_eq_some_iff.1 hr'
        exact ⟨r, he ▸ hr, rfl, rfl, fun _ => rfl⟩
      · exact ⟨r', hr', rfl, rfl, id⟩
    · rw [Store.get_apply_other _ (by simp [Write.tbl])] at ha'
      exact ⟨a', ha', id⟩
  | deactivate v =>
    refine ⟨fun k r' _ hr' => ?_, fun u a' ha' => ?_⟩
    · rw [Store.get_apply_other _ (by simp [Write.tbl])] at hr'
      exact ⟨r', hr', rfl, rfl, id⟩
    · rw [Store.get_mod] at ha'
      split at ha'
      next he =>
        obtain ⟨a, ha, rfl⟩ := Option.map_eq_some_iff.1 ha'
        exact ⟨a, he ▸ ha, fun h => by cases h⟩
      · exact ⟨a', ha', id⟩

theorem AllEnd.ended {ws : List (Write (Accounts Hash))} (h : AllEnd ws) (new : Hash → Prop)
    (d : Store (Accounts Hash)) :
    Ended new d (Store.overlay ws d) := by
  induction ws generalizing d with
  | nil => exact .refl new d
  | cons w ws ih =>
    exact ((h w List.mem_cons_self).ended new d).trans
      (ih (fun w hw => h w (List.mem_cons_of_mem _ hw)) _)

theorem issue_ended (E : AuthEnv Token Hash) (d : Store (Accounts Hash)) (a : AuthResponse Token)
    (exp : Instant) : Ended (· = E.hashToken a.refreshToken) d (d.apply (issue E a exp)) := by
  refine ⟨fun k r' hk hr' => ?_, fun u a' ha' => ?_⟩
  · rw [issue, Store.get_add, if_neg hk] at hr'
    exact ⟨r', hr', rfl, rfl, id⟩
  · rw [Store.get_apply_other _ (by simp [issue, Write.tbl])] at ha'
    exact ⟨a', ha', id⟩

/-! ## Entries -/

/-- The hashes of the tokens that a commit brings out. -/
def Brings (E : AuthEnv Token Hash) (x : SessionEntry Token Hash) (k : Hash) : Prop :=
  ∃ tok, issuedBy x = some tok ∧ k = E.hashToken tok

/-- What holds of a commit. -/
structure Kept (E : AuthEnv Token Hash) (x : SessionEntry Token Hash) : Prop where
  answers : ∃ r, x.reply = some r ∧ Answers E x.writes r
  does : ∃ σ : Pt (Accounts Hash), σ.now = x.before ∧ σ.db = x.after ∧ σ.ws = x.writes ∧
    x.req.Does E σ

/-- The contract of the sessions. -/
def sessionsContract (E : AuthEnv Token Hash) : Contract (sessions E) (rowLocks (Accounts Hash)) :=
  plainContract (C := SessionReq.Does E) fun q _ _ _ => sessions_commit q

theorem sessions_ok {ok : SessionSys Token Hash → Event (SessionReq Token) →
    SessionSys Token Hash → Prop}
    (hr : (sessions E).Reach ok (Sys.init d) s) : s.OK (sessionsContract E) :=
  plain_ok (fun _ _ _ => trivial) hr

variable {ok : SessionSys Token Hash → Event (SessionReq Token) → SessionSys Token Hash → Prop}

theorem session_recorded (hj : (sessions E).Journaled ok d s γ) :
    Txn.Recorded (fun _ => Answers E) (fun q _ a => Skips E q a) (fun _ _ _ => True) s γ :=
  recorded (sessions_close E) (fun _ => trivial) hj

theorem session_kept (hj : (sessions E).Journaled ok d s γ) : ∀ x ∈ γ, Kept E x := fun x hx =>
  ⟨(session_recorded hj).answered x hx, journal_meets (fun _ h => sessions_ok h) hj x hx⟩

theorem Kept.ended (hk : Kept E x) : Ended (Brings E x) x.before x.after := by
  obtain ⟨r, hr, hans⟩ := hk.answers
  rcases hans with ⟨a, l, exp, rfl, hl, hws⟩ | ⟨hl, -⟩
  · have hnew : ∀ k, k = E.hashToken a.refreshToken → Brings E x k :=
      fun k hk => ⟨a.refreshToken, by rw [issuedBy, hr], hk⟩
    unfold Entry.after
    rw [hws, Store.overlay_append]
    have hissue := issue_ended E (Store.overlay l x.before) a exp
    exact (hl.ended (Brings E x) x.before).trans ⟨fun k r' hk =>
      hissue.tokens k r' fun he => hk (hnew k he), hissue.users⟩
  · exact hl.ended _ _

/-- **What a successful rotation is to the store.** -/
theorem Kept.succession (hk : Kept E x) (hx : Rotates x tok now a) :
    Succession E tok now a x.before x.after := by
  obtain ⟨hreq, hreply⟩ := hx
  have hended := hk.ended
  obtain ⟨r, hr, hans⟩ := hk.answers
  obtain ⟨σ, hnow, hdb, hws, hdoes⟩ := hk.does
  rw [hreply] at hr
  cases hr
  rw [hreq] at hdoes
  obtain ⟨claims, user, row, -, huser, hrow, hsub, hcase⟩ := hdoes
  rw [hnow] at huser hrow
  rcases hans with ⟨a', l, exp, ha, -, hl⟩ | ⟨-, hno⟩
  swap
  · exact absurd rfl (hno a)
  cases ha
  rcases hcase with ⟨hrev, hexp, hact, h', hnew, hafter⟩ | ⟨-, hall⟩
  swap
  · rw [hws, hl] at hall
    cases hall _ (List.mem_append_right l List.mem_cons_self)
  rw [hnow] at hnew
  rw [hnow, hdb] at hafter
  have hne : h' ≠ E.hashToken tok := fun he => by rw [he, hrow] at hnew; cases hnew
  have htokens : ∀ k, x.after.get .refreshTokens k = if k = h' then
      some ⟨claims.sub, refreshExpiry E now, false⟩ else
      if k = E.hashToken tok then some row.revoke else x.before.get .refreshTokens k := by
    intro k
    rw [hafter, Store.get_add]
    by_cases hk : k = h'
    · rw [if_pos hk, if_pos hk, Store.get_mod, if_neg hne, hnew]
      rfl
    · rw [if_neg hk, if_neg hk, Store.get_mod, hrow, Option.map_some, onlyIf_pos rfl]
  have husers : ∀ u, x.after.get .users u = x.before.get .users u := by
    intro u
    rw [hafter, Store.get_apply_other _ (by simp [Write.tbl]),
      Store.get_apply_other _ (by simp [Write.tbl])]
  -- the successor is the token that is answered
  have hh : h' = E.hashToken a.refreshToken := by
    by_contra hne'
    have hother : ¬ Brings E x h' := by
      rintro ⟨tok', h1, h2⟩
      rw [issuedBy, hreply] at h1
      cases h1
      exact hne' h2
    obtain ⟨r, hr, -⟩ := hended.tokens h' _ hother (by rw [htokens, if_pos rfl])
    rw [hnew] at hr
    cases hr
  subst hh
  refine ⟨⟨row, user, hrow, hsub ▸ huser, hrev, hexp, hact⟩, hnew, ?_, fun t k hk => ?_, row, _,
    hrow, by rw [htokens, if_pos rfl], hsub.symm⟩
  · refine ⟨_, user, by rw [htokens, if_pos rfl], by rw [husers]; exact huser, rfl, ?_, hact⟩
    exact le_add_of_nonneg_right (Int.natCast_nonneg (E.jwtRefreshExpirationDays * 86400))
  · unfold Usable
    simp only [htokens, husers, if_neg hk]
    by_cases hkt : k = E.hashToken tok
    · rw [if_pos hkt]
      refine ⟨?_, fun h => absurd hkt h.1⟩
      rintro ⟨r, u, hr, -, hrev, -⟩
      cases hr
      cases hrev
    · rw [if_neg hkt]
      exact ⟨fun h => ⟨hkt, h⟩, fun h => h.2⟩

/-! ## The journal of a run -/

theorem issued_append (γ₁ γ₂ : List (SessionEntry Token Hash)) :
    issued (γ₁ ++ γ₂) = issued γ₁ ++ issued γ₂ := List.filterMap_append

theorem Known.mono (hk : Known E d γ₁ tok) : Known E d (γ₁ ++ γ₂) tok :=
  hk.imp id fun h => by rw [issued_append]; exact List.mem_append_left _ h

theorem Distinct.left (hd : Distinct E d (γ₁ ++ γ₂)) : Distinct E d γ₁ := by
  obtain ⟨honce, hnew⟩ := hd
  rw [issued_append] at honce
  exact ⟨honce.of_append_left, fun tok ht =>
    hnew tok (by rw [issued_append]; exact List.mem_append_left _ ht)⟩

/-- What has been rotated is not usable any more, at whatever time. -/
theorem Succession.spent (h : Succession E tok now a d d') :
    ¬ Usable now' (E.hashToken tok) d' := by
  intro hu
  by_cases hne : E.hashToken tok = E.hashToken a.refreshToken
  · obtain ⟨r, u, hr, -⟩ := h.usable
    rw [hne, h.new] at hr
    cases hr
  · exact ((h.others now' _ hne).1 hu).1 rfl

section chain
variable (hinj : Function.Injective E.hashToken)
include hinj

/-- A token that is stored has been so at first or was brought out. -/
theorem known_of_some (hkept : ∀ x ∈ γ, Kept E x) (hl : Linked d γ d₁)
    (hr : Stored (E.hashToken tok) d₁) : Known E d γ tok := by
  by_cases h0 : Stored (E.hashToken tok) d
  · exact .inl h0
  obtain ⟨γ₁, x, γ₂, rfl, hbefore, hafter⟩ :=
    hl.since (P := Stored (E.hashToken tok)) h0 hr
  have hx : x ∈ γ₁ ++ x :: γ₂ := List.mem_append_right _ List.mem_cons_self
  obtain ⟨tok', hissued, hhash⟩ : Brings E x (E.hashToken tok) := by
    by_contra hno
    obtain ⟨r', hr'⟩ := Option.isSome_iff_exists.1 hafter
    obtain ⟨r, hr, -⟩ := (hkept x hx).ended.tokens _ r' hno hr'
    exact hbefore (Option.isSome_iff_exists.2 ⟨r, hr⟩)
  cases hinj hhash
  exact .inr (List.mem_filterMap.2 ⟨x, hx, hissued⟩)

/-- A token that is known is not brought out again. -/
theorem Distinct.not_brings (hd : Distinct E d (γ₁ ++ γ₂)) (hk : Known E d γ₁ tok) (hx : x ∈ γ₂) :
    ¬ Brings E x (E.hashToken tok) := by
  rintro ⟨tok', hissued, hhash⟩
  cases hinj hhash
  have hlate : tok ∈ issued γ₂ := List.mem_filterMap.2 ⟨x, hx, hissued⟩
  have honce := hd.once
  rw [issued_append] at honce
  rcases hk with h0 | hearly
  · rw [Stored, hd.new tok (by rw [issued_append]; exact List.mem_append_right _ hlate)] at h0
    cases h0
  · exact List.disjoint_of_nodup_append honce hearly hlate

/-- A known token stays with its user. -/
theorem Distinct.owner {u : Uuid} (hd : Distinct E d (γ₁ ++ γ₂)) (hkept : ∀ x ∈ γ₂, Kept E x)
    (hk : Known E d γ₁ tok)
    (hl : Linked d₁ γ₂ d₂) (hr : ∀ r, d₁.get .refreshTokens (E.hashToken tok) = some r →
      r.userId = u) :
    ∀ r, d₂.get .refreshTokens (E.hashToken tok) = some r → r.userId = u := by
  refine hl.inv (P := fun e => ∀ r, e.get (S := Accounts Hash) .refreshTokens (E.hashToken tok) =
    some r → r.userId = u)
    (fun x hx hbefore r' hr' => ?_) hr
  obtain ⟨r, hr, hu, -⟩ := (hkept x hx).ended.tokens _ r' (hd.not_brings hinj hk hx) hr'
  exact hu.trans (hbefore r hr)

/-- **A known token that is not usable is not rotated any more.** -/
theorem Distinct.later (hd : Distinct E d (γ₁ ++ γ₂)) (hkept : ∀ x ∈ γ₂, Kept E x)
    (hk : Known E d γ₁ tok) (hl : Linked d₁ γ₂ d₂)
    (hu : ¬ Usable now (E.hashToken tok) d₁) (hx : x ∈ γ₂) : ¬ Rotates x tok now a := by
  intro hrot
  have husable := ((hkept x hx).succession hrot).usable
  obtain ⟨γ₃, γ₄, rfl⟩ := List.append_of_mem hx
  refine hl.at_entry.1.inv (P := fun e => ¬ Usable now (E.hashToken tok) e)
    (fun y hy hbefore hafter => ?_) hu husable
  have hy : y ∈ γ₃ ++ x :: γ₄ := List.mem_append_left _ hy
  exact hbefore ((hkept y hy).ended.usable (hd.not_brings hinj hk hy) hafter)

theorem rotated_once (hd : Distinct E d (γ₁ ++ x :: γ₂)) (hkept : ∀ y ∈ γ₁ ++ x :: γ₂, Kept E y)
    (hl : Linked d (γ₁ ++ x :: γ₂) d₁)
    (hx : Rotates x tok now a) (hy : y ∈ γ₂) : ¬ Rotates y tok now' a' := by
  have hsucc := (hkept x (List.mem_append_right _ List.mem_cons_self)).succession hx
  obtain ⟨r, -, hr, -⟩ := hsucc.usable
  have hknown : Known E d γ₁ tok := known_of_some hinj
    (fun y hy => hkept y (List.mem_append_left _ hy)) hl.at_entry.1
    (Option.isSome_iff_exists.2 ⟨r, hr⟩)
  rw [List.append_cons] at hd
  exact hd.later hinj (fun y hy => hkept y (List.mem_append_right _ (List.mem_cons_of_mem x hy)))
    hknown.mono hl.at_entry.2 hsucc.spent hy

/-- **A logout ends its token**: once it has committed, a token that was stored at its
start is revoked or gone. -/
theorem logOut_spent {s₀ : SessionSys Token Hash} {t : ℕ} (h₀ : (sessions E).Journaled ok d s₀ γ₁)
    (hj : (sessions E).RecReach journal ok (s₀, γ₁) (s, γ)) (hd : Distinct E d γ)
    (hc : s₀.call t = some ((sessions E).fresh (.logOut tok now) s₀.db))
    (hst : Stored (E.hashToken tok) s₀.db) :
    ∃ c, s.call t = some c ∧ (c.committed = true → Spent (E.hashToken tok) s.db) := by
  -- the logout as a call that relies on the token not being stored anew
  let D := (rowLocks (Accounts Hash)).under (onceGone (E.hashToken tok))
  let O : Oblig (Accounts Hash) AppError := plainly D fun σ => Spent (E.hashToken tok) σ.db
  have hknown : Known E d γ₁ tok := known_of_some hinj (session_kept h₀) (journal_linked h₀) hst
  suffices H : ∀ y, (sessions E).RecReach journal ok (s₀, γ₁) y → Distinct E d y.2 →
      ∃ c, y.1.call t = some c ∧ Tracked D.both O (fun _ _ => True) (fun _ _ => True) y.1.db c ∧
        (c.committed = true → Spent (E.hashToken tok) y.1.db) by
    obtain ⟨c, hc, -, hs⟩ := H _ hj hd
    exact ⟨c, hc, hs⟩
  intro y hy
  induction hy with
  | refl =>
    intro _
    refine ⟨_, hc, ⟨s₀.db, D.both.refl _ _, fun d' hd' => ?_⟩, fun hcom => nomatch hcom⟩
    exact wp_track (fun _ _ h => h) _ ⟨s₀.db, d', [], [], false⟩ (by simp) (logOut_commit tok now)
  | @tail y z hr hst ih =>
    intro hdz
    have hall : (sessions E).Journaled ok d z.1 z.2 := h₀.trans (hr.tail hst)
    obtain ⟨e, he, hg, -⟩ := hst
    have hz : z.2 = y.2 ++ (y.1.entry e).toList := (Option.some.inj hg).symm
    rw [hz] at hdz
    obtain ⟨c, hc, htr, hsp⟩ := ih hdz.left
    obtain ⟨γ₂, hγ⟩ := journal_grows hr
    have hky : Known E d y.2 tok := by rw [hγ]; exact hknown.mono
    -- what the event makes of the token
    have hended : ∃ new, ¬ new (E.hashToken tok) ∧ Ended new y.1.db z.1.db := by
      rcases entry_cases he with ⟨-, hdb⟩ | ⟨u, n, c₁, k, -, -, -, hset, hentry⟩
      · exact ⟨fun _ => False, id, by rw [hdb]; exact .refl _ _⟩
      · rw [hentry] at hdz hz
        have hx : (⟨u, c₁.req, c₁.ws, k.outcome, y.1.db⟩ : SessionEntry Token Hash) ∈ z.2 := by
          rw [hz]
          exact List.mem_append_right _ List.mem_cons_self
        have hdb : z.1.db = c₁.sees y.1.db := congrArg Sys.db hset
        refine ⟨_, hdz.not_brings hinj hky List.mem_cons_self, ?_⟩
        rw [hdb]
        exact (session_kept hall _ hx).ended
    obtain ⟨new, hnew, hended⟩ := hended
    have hrel : (onceGone (E.hashToken tok)).rel c.held y.1.db z.1.db := by
      intro hstored
      obtain ⟨r', hr'⟩ := Option.isSome_iff_exists.1 hstored
      obtain ⟨r, hr, -⟩ := hended.tokens _ r' hnew hr'
      exact Option.isSome_iff_exists.2 ⟨r, hr⟩
    have hkeep := fun hcom => hended.spent hnew (hsp hcom)
    rcases step_own (sessions_ok (Service.RecReach.reach (h₀.trans hr))) he hc with ⟨hc', hrel'⟩ |
        ⟨n, d', c', ha, hset⟩ | hset
    · exact ⟨c, hc', tracked_env htr ⟨hrel', hrel⟩, hkeep⟩
    · refine ⟨c', by rw [hset, Sys.call_set_self], by rw [hset]; exact tracked_advance htr ha,
        fun hcom => ?_⟩
      rcases (advance_inv ha).2.2 with ⟨-, -, -, h⟩ | ⟨_, _, _, _, _, -, -, -, h⟩ |
          ⟨_, _, _, -, -, -, h⟩ | ⟨k, hk, hdb, -⟩ |
        ⟨_, _, _, -, h⟩
      · exact hkeep (h ▸ hcom)
      · exact hkeep (h ▸ hcom)
      · exact hkeep (h ▸ hcom)
      · obtain ⟨_, -, hspent⟩ := htr.commit hk
        have hdb : z.1.db = c.sees y.1.db := (congrArg Sys.db hset).trans hdb
        rw [hdb]
        exact hspent
      · exact hkeep (by rw [h] at hcom; exact hcom)
    · refine ⟨c.endTx (.fail (sessions E).crash) c.committed, by rw [hset, Sys.call_set_self], ?_,
        fun hcom => hkeep hcom⟩
      have hdb : z.1.db = y.1.db := by rw [hset]; rfl
      rw [hdb]
      exact tracked_crash (fun _ => trivial) _

end chain

/-! ## Calls -/

/-- A rotation that has answered has committed so. -/
theorem rotate_answered {t : ℕ} {c : Call (Accounts Hash) AppError (SessionReply Token)
    (SessionReq Token)}
    (hj : (sessions E).Journaled ok d s γ) (hc : s.call t = some c) (hreq : c.req = .rotate tok now)
    (hp : c.prog = .ret (.session a)) :
    ∃ x ∈ γ, x.call = t ∧ Rotates x tok now a := by
  have hrec := session_recorded hj
  cases hcom : c.committed with
  | true =>
    obtain ⟨x, hx, hcall, hxreq, hreply, -⟩ := hrec.committed t c hc hcom
    exact ⟨x, hx, hcall, hxreq.trans hreq, by rw [hreply, hp]; rfl⟩
  | false =>
    have hskip := hrec.pending t c hc hcom
    rw [hp] at hskip
    cases hskip.1

/-- A rotation that has failed has committed nothing, or has met a replay or an inactive user. -/
theorem rotate_failed {t : ℕ} {c : Call (Accounts Hash) AppError (SessionReply Token)
    (SessionReq Token)} {e : AppError}
    (hj : (sessions E).Journaled ok d s γ) (hc : s.call t = some c) (hreq : c.req = .rotate tok now)
    (hp : c.prog = .fail e) :
    (∀ x ∈ γ, x.call ≠ t) ∨ ∃ x ∈ γ, x.call = t ∧
      ∃ r u, x.before.get .refreshTokens (E.hashToken tok) = some r ∧
      x.before.get .users r.userId = some u ∧ (r.revoked = true ∨ u.isActive = false) := by
  have hrec := session_recorded hj
  cases hcom : c.committed with
  | false =>
    refine .inl fun x hx hcall => ?_
    obtain ⟨c', hc', -, hcom'⟩ := hrec.calls x hx
    rw [hcall, hc] at hc'
    cases hc'
    rw [hcom] at hcom'
    cases hcom'
  | true =>
    obtain ⟨x, hx, hcall, hxreq, hreply, -⟩ := hrec.committed t c hc hcom
    have hkept := session_kept hj x hx
    obtain ⟨r, hr, hans⟩ := hkept.answers
    rw [hreply, hp] at hr
    cases hr
    obtain ⟨σ, hnow, hdb, hws, hdoes⟩ := hkept.does
    rw [hxreq, hreq] at hdoes
    obtain ⟨claims, user, row, -, huser, hrow, hsub, hcase⟩ := hdoes
    rw [hnow] at huser hrow
    refine .inr ⟨x, hx, hcall, row, user, hrow, hsub ▸ huser, ?_⟩
    rcases hcase with ⟨-, -, -, h', hnew, hafter⟩ | ⟨hbad, -⟩
    · -- a rotation that goes on brings a token, and this one has brought none
      rcases hans with ⟨_, _, _, hok, -⟩ | ⟨hall, -⟩
      · cases hok
      have hended := hall.ended (fun _ => False) x.before
      have hstored : σ.db.get .refreshTokens h' = some ⟨claims.sub, refreshExpiry E now,
          false⟩ := by
        rw [hafter, Store.get_add, if_pos rfl, Store.get_mod]
        split
        next he => rw [← he, hnew]; rfl
        next => rw [hnew]; rfl
      rw [hdb] at hstored
      obtain ⟨r, hr, -⟩ := hended.tokens h' _ id hstored
      rw [hnow, hr] at hnew
      cases hnew
    · exact hbad

/-- A logout that has answered has ended its token, or it does not decode. -/
theorem logOut_answered {t : ℕ} {c : Call (Accounts Hash) AppError (SessionReply Token)
    (SessionReq Token)}
    (hinj : Function.Injective E.hashToken) (hj : (sessions E).Journaled ok d s γ)
    (hd : Distinct E d γ) (hc : s.call t = some c)
    (hreq : c.req = .logOut tok now) (hp : c.prog = .ret .done)
    (hst : Stored (E.hashToken tok) c.born) :
    Known E d γ tok ∧ (Spent (E.hashToken tok) s.db ∨ E.decodeRefreshToken now tok = none) := by
  obtain ⟨s₀, γ₀, h₀, hrun, hc₀, hborn⟩ := journaled_start hj hc
  rw [hreq] at hc₀
  rw [hborn] at hst
  obtain ⟨γ₁, hγ⟩ := journal_grows hrun
  refine ⟨by rw [hγ]; exact (known_of_some hinj (session_kept h₀) (journal_linked h₀) hst).mono, ?_⟩
  cases hcom : c.committed with
  | true =>
    obtain ⟨c', hc', hspent⟩ := logOut_spent hinj h₀ hrun hd hc₀ hst
    rw [hc] at hc'
    cases hc'
    exact .inl (hspent hcom)
  | false =>
    have hskip := (session_recorded hj).pending t c hc hcom
    rw [hp, hreq] at hskip
    obtain ⟨-, _, _, he, hdec⟩ := hskip
    cases he
    exact .inr hdec

theorem Kept.decodes (hk : Kept E x) (hx : Rotates x tok now a) :
    E.decodeRefreshToken now tok ≠ none := by
  obtain ⟨σ, -, -, -, hdoes⟩ := hk.does
  rw [hx.1] at hdoes
  obtain ⟨claims, _, _, hdec, -⟩ := hdoes
  rw [hdec]
  exact nofun

/-- **Refresh tokens are single-use and form a chain.** In every run whose tokens are
different from each other and new, a token is rotated at most once; each rotation puts one
usable token in the place of the one it takes; from any state of the run on, a known token
that is not usable at a time is not rotated at that time, and one that has been logged out
never; and a rotation that fails has committed nothing unless it met a revoked token or
an inactive user. -/
theorem refresh_tokens_chain (E : AuthEnv Token Hash) (hinj : Function.Injective E.hashToken)
    (hdecode : ∀ tok now now', now ≤ now' → E.decodeRefreshToken now tok = none →
      E.decodeRefreshToken now' tok = none)
    {d : Store (Accounts Hash)} {s : SessionSys Token Hash} {γ : List (SessionEntry Token Hash)}
    (hj : (sessions E).Journaled (fun _ _ _ => True) d s γ) (hd : Distinct E d γ) :
    Linked d γ s.db ∧
    (∀ t c tok now a, s.call t = some c → c.req = .rotate tok now → c.prog = .ret (.session a) →
      ∃ x ∈ γ, x.call = t ∧ Rotates x tok now a) ∧
    (∀ x ∈ γ, ∀ y ∈ γ, ∀ tok now now' a a', Rotates x tok now a → Rotates y tok now' a' → x = y) ∧
    (∀ x ∈ γ, ∀ tok now a, Rotates x tok now a → Succession E tok now a x.before x.after) ∧
    (∀ s₁ γ₁ γ₂, (sessions E).Journaled (fun _ _ _ => True) d s₁ γ₁ → γ = γ₁ ++ γ₂ →
      (sessions E).RecReach journal (fun _ _ _ => True) (s₁, γ₁) (s, γ) →
      (∀ tok now, Known E d γ₁ tok → ¬ Usable now (E.hashToken tok) s₁.db →
        ∀ x ∈ γ₂, ∀ a, ¬ Rotates x tok now a) ∧
      ∀ t c tok now, s₁.call t = some c → c.req = .logOut tok now → c.prog = .ret .done →
        Stored (E.hashToken tok) c.born →
        ∀ x ∈ γ₂, ∀ now' a, now ≤ now' → ¬ Rotates x tok now' a) ∧
    ∀ t c tok now e, s.call t = some c → c.req = .rotate tok now → c.prog = .fail e →
      (∀ x ∈ γ, x.call ≠ t) ∨ ∃ x ∈ γ, x.call = t ∧
        ∃ r u, x.before.get .refreshTokens (E.hashToken tok) = some r ∧
        x.before.get .users r.userId = some u ∧ (r.revoked = true ∨ u.isActive = false) := by
  have hkept := session_kept hj
  have hlinked := journal_linked hj
  refine ⟨hlinked, fun t c tok now a => rotate_answered hj, ?_,
    fun x hx tok now a hr => (hkept x hx).succession hr, ?_,
    fun t c tok now e => rotate_failed hj⟩
  · intro x hx y hy tok now now' a a' hrx hry
    obtain ⟨γ₁, γ₂, rfl⟩ := List.append_of_mem hx
    rcases List.mem_append.1 hy with hy | hy
    · -- the later one of the two is `x`
      obtain ⟨γ₃, γ₄, rfl⟩ := List.append_of_mem hy
      rw [List.append_assoc, List.cons_append] at hd hkept hlinked
      exact absurd hrx (rotated_once hinj hd hkept hlinked hry
        (List.mem_append_right _ List.mem_cons_self))
    · rcases List.mem_cons.1 hy with rfl | hy
      · rfl
      · exact absurd hry (rotated_once hinj hd hkept hlinked hrx hy)
  · intro s₁ γ₁ γ₂ hj₁ hγ hrun
    subst hγ
    -- what is known and not usable stays so
    have hlater : ∀ tok now, Known E d γ₁ tok → ¬ Usable now (E.hashToken tok) s₁.db →
        ∀ x ∈ γ₂, ∀ a, ¬ Rotates x tok now a := by
      intro tok now hknown hu x hx a
      obtain ⟨d₁, h1, h2⟩ := hlinked.split
      cases (journal_linked hj₁).unique h1
      exact hd.later hinj (fun x hx => hkept x (List.mem_append_right _ hx)) hknown h2 hu hx
    refine ⟨hlater, fun t c tok now hc hreq hp hst x hx now' a hle hr => ?_⟩
    obtain ⟨hknown, hspent | hnone⟩ := logOut_answered hinj hj₁ hd.left hc hreq hp hst
    · exact hlater tok now' hknown hspent.unusable x hx a hr
    · exact (hkept x (List.mem_append_right _ hx)).decodes hr (hdecode tok now now' hle hnone)

/-! ## A replay -/

/-- Tokens that say their claims, and are their own hashes. -/
def plainTokens : AuthEnv RefreshClaims RefreshClaims where
  encodeRefreshToken c := c
  decodeRefreshToken now c := if now ≤ c.exp + 5 then some c else none
  hashToken c := c
  verifyPassword password hash := password = hash
  jwtRefreshExpirationDays := 30

def sampleUser : Account := ⟨"mei@dream.fly", none, some "secret", true, none⟩

/-- One user and no token. -/
def oneUser : Store (Accounts RefreshClaims)
  | .users => AList.singleton 1 sampleUser
  | .refreshTokens => ∅

/-- The token of the first session, and its successor. -/
def firstToken : RefreshClaims := ⟨1, 2592100, 100, 10⟩
def secondToken : RefreshClaims := ⟨1, 2592200, 200, 31⟩

/-- A session, its rotation, and the first token once more. -/
def sampleReplay : List (Event (SessionReq RefreshClaims)) :=
  .start 0 (.start 1 sampleUser 100) :: Event.steps 0 10 8 ++ .start 1 (.rotate firstToken 200) ::
  Event.steps 1 20 19 ++
    .start 2 (.rotate firstToken 300) :: Event.steps 2 0 16

theorem plainTokens_expire (tok : RefreshClaims) (now now' : Instant) (hle : now ≤ now')
    (h : plainTokens.decodeRefreshToken now tok = none) : plainTokens.decodeRefreshToken now' tok =
    none := by
  have hlate : ¬ now ≤ tok.exp + 5 := by
    intro hn
    have hsome : plainTokens.decodeRefreshToken now tok = some tok := if_pos hn
    rw [h] at hsome
    cases hsome
  exact if_neg fun hn => hlate (le_trans hle hn)

theorem refresh_tokens_chain_replay :
    let y := (sessions plainTokens).journalAfter sampleReplay oneUser
    issued y.2 = [firstToken, secondToken] ∧ y.2.map Entry.call = [0, 1, 2] ∧
      Linked oneUser y.2 y.1.db ∧
      ∀ x ∈ y.2, ∀ tok now a, Rotates x tok now a →
        Succession plainTokens tok now a x.before x.after := by
  have hrun : issued ((sessions plainTokens).journalAfter sampleReplay oneUser).2 =
      [firstToken, secondToken] ∧
      ((sessions plainTokens).journalAfter sampleReplay oneUser).2.map Entry.call = [0, 1, 2] := by
      decide +kernel
  have hdistinct : Distinct plainTokens oneUser
      ((sessions plainTokens).journalAfter sampleReplay oneUser).2 :=
    ⟨by rw [hrun.1]; decide, fun _ _ => rfl⟩
  obtain ⟨hlinked, -, -, hsucc, -⟩ := refresh_tokens_chain plainTokens
    (fun _ _ h => h) plainTokens_expire
    (journaled_after (fun _ _ _ => trivial) sampleReplay oneUser) hdistinct
  exact ⟨hrun.1, hrun.2, hlinked, hsucc⟩

end DreamFly.Auth
