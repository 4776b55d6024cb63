import DreamFly.Auth.Session
import DreamFly.Txn.Journal
import DreamFly.Txn.Plain

/-!
# Refresh tokens, proved

What each action does to the tokens where it commits, in two parts.

* `sessions_close`: which writes a call commits and what it answers then. A session is
  answered with the one token that was stored, everything else only ends tokens.
* `sessions_commit`: what holds of the store at the commit (`SessionReq.Does`).
-/

namespace DreamFly.Auth

open Txn Prog Plain

variable {Token Hash : Type} [DecidableEq Hash]

/-- A write that brings no token and revives none. -/
inductive Ends : Write (Accounts Hash) → Prop
  | del (h : Hash) : Ends (.del .refreshTokens h)
  | revoke (h : Hash) : Ends (.mod .refreshTokens h (onlyIf (fun _ => true) RefreshToken.revoke))
  | deactivate (u : Uuid) : Ends (.mod .users u (onlyIf (fun _ =>
    true) fun u => { u with isActive := false }))

def AllEnd (ws : List (Write (Accounts Hash))) : Prop := ∀ w ∈ ws, Ends w

/-- The token of a session is stored. -/
def issue (E : AuthEnv Token Hash) (a : AuthResponse Token) (expiresAt : Instant) :
    Write (Accounts Hash) :=
  .add .refreshTokens (E.hashToken a.refreshToken) ⟨a.userId, expiresAt, false⟩

/-- A session is answered with the token it stored last; any other answer brings none. -/
def Answers (E : AuthEnv Token Hash) (ws : List (Write (Accounts Hash)))
    (r : Except AppError (SessionReply Token)) : Prop :=
  (∃ a l exp, r = .ok (.session a) ∧ AllEnd l ∧ ws = l ++ [issue E a exp]) ∨ AllEnd ws ∧
  ∀ a, r ≠ .ok (.session a)

theorem AllEnd.nil : AllEnd ([] : List (Write (Accounts Hash))) := nofun

theorem AllEnd.append {ws l : List (Write (Accounts Hash))} (h : AllEnd ws) (h' : AllEnd l) :
    AllEnd (ws ++ l) := fun w hw => by
  rcases List.mem_append.1 hw with hw | hw
  · exact h w hw
  · exact h' w hw

theorem AllEnd.one {w : Write (Accounts Hash)} (h : Ends w) : AllEnd [w] :=
    fun _ hw => List.mem_singleton.1 hw ▸ h

/-! ## Writes and answers -/

section closes
variable {E : AuthEnv Token Hash} {ws : List (Write (Accounts Hash))}
  {X : List (Write (Accounts Hash)) → AppError → Prop}

theorem endAll_inner (userId : Uuid) (h : AllEnd ws) :
    (endAll userId : Tx Hash Unit).Inner (fun ws' _ => AllEnd ws') X ws := by
  refine (Inner.lockRes _ _).bind (fun ws' _ hw => ?_) fun _ _ h => h
  subst hw
  refine (Inner.deleteAll _).bind (fun ws' rs hw => ?_) fun _ _ h => h
  subst hw
  refine h.append fun w hw => ?_
  obtain ⟨k, -, rfl⟩ := List.mem_map.1 hw
  exact .del k

theorem revokeRefreshToken_inner (tokenHash : Hash) (h : AllEnd ws) :
    (revokeRefreshToken tokenHash).Inner (fun ws' _ => AllEnd ws') X ws := by
  refine (Inner.lockRes _ _).bind (fun ws' _ hw => ?_) fun _ _ h => h
  subst hw
  refine (Inner.updateRow _ _).bind (fun ws' o hw => ?_) fun _ _ h => h
  subst hw
  cases o with
  | none => exact h
  | some r => exact h.append (.one (.revoke tokenHash))

theorem start_inner (userId : Uuid) (user : Account) (now : Instant) (hX : ∀ ws e, X ws e) :
    (start E userId user now).Inner (fun ws' a => ∃ exp, ws' = ws ++ [issue E a exp]) X ws := by
  refine (Inner.ensure (hX _ _)).bind (fun ws' _ hw => ?_) fun _ _ h => h
  obtain ⟨rfl, -⟩ := hw
  refine Inner.choose.bind (fun ws' jti hw => ?_) fun _ _ h => h
  subst hw
  refine Inner.bind (M := fun w _ => w = ws' ++ [.add .refreshTokens
    (E.hashToken (E.encodeRefreshToken ⟨userId, refreshExpiry E now, now, jti⟩))
      ⟨userId, refreshExpiry E now, false⟩]) ?_
    (fun ws' _ hw => ?_) fun _ _ h => h
  · refine (Inner.lockRes _ _).bind (fun ws' _ hw => ?_) fun _ _ h => h
    subst hw
    refine (Inner.claim _ _).bind (fun ws' b hw => ?_) fun _ _ h => h
    subst hw
    refine (Inner.ensure (hX _ _)).bind (fun ws' _ hw => ?_) fun _ _ h => h
    obtain ⟨rfl, -⟩ := hw
    refine (Inner.references (hX _ _)).bind (fun ws' _ hw => ?_) fun _ _ h => h
    subst hw
    exact Inner.put _
  · exact ⟨_, hw⟩

/-- What a rotation has written at its end. -/
theorem rotateTx_inner (userId : Uuid) (tokenHash : Hash) (now : Instant) (hX : ∀ ws e, X ws e) :
    (rotateTx E userId tokenHash now).Inner (fun ws' o => (∃ a l exp, o = some a ∧ AllEnd l ∧
      ws' = l ++ [issue E a exp]) ∨
      o = none ∧ AllEnd ws') X [] := by
  refine (Inner.selectFor _ _).bind (fun ws' user hw => ?_) fun _ _ h => h
  subst hw
  refine (Inner.orFail (hX _ _)).bind (fun ws' user hw => ?_) fun _ _ h => h
  obtain ⟨rfl, -⟩ := hw
  refine (Inner.selectFor _ _).bind (fun ws' stored hw => ?_) fun _ _ h => h
  subst hw
  refine (Inner.orFail (hX _ _)).bind (fun ws' stored hw => ?_) fun _ _ h => h
  obtain ⟨rfl, -⟩ := hw
  refine (Inner.ensure (hX _ _)).bind (fun ws' _ hw => ?_) fun _ _ h => h
  obtain ⟨rfl, -⟩ := hw
  split
  · refine (endAll_inner _ .nil).bind (fun ws' _ hw => ?_) fun _ _ h => h
    exact .inr ⟨rfl, hw⟩
  · refine (Inner.ensure (hX _ _)).bind (fun ws' _ hw => ?_) fun _ _ h => h
    obtain ⟨rfl, -⟩ := hw
    refine (revokeRefreshToken_inner _ .nil).bind (fun ws' _ hw => ?_) fun _ _ h => h
    split
    · refine (start_inner _ _ _ hX).bind (fun ws'' a ha => ?_) fun _ _ h => h
      obtain ⟨exp, rfl⟩ := ha
      exact .inl ⟨a, ws', exp, rfl, hw, rfl⟩
    · refine (endAll_inner _ hw).bind (fun ws'' _ hw' => ?_) fun _ _ h => h
      exact .inr ⟨rfl, hw'⟩

theorem purgeExpired_inner (now : Instant) : (do
    lockTable
    let gone ← deleteAll (S := Accounts Hash) .refreshTokens fun _ r => r.expiresAt < now
    return gone.length : Tx Hash ℕ).Inner (fun ws' _ => AllEnd ws') X [] := by
  refine (Inner.lockRes _ _).bind (fun ws' _ hw => ?_) fun _ _ h => h
  subst hw
  refine (Inner.deleteAll _).bind (fun ws' rs hw => ?_) fun _ _ h => h
  subst hw
  intro w hw
  obtain ⟨k, -, rfl⟩ := List.mem_map.1 hw
  exact .del k

theorem deactivateTx_inner (userId : Uuid) :
    (deactivateTx userId : Tx Hash Unit).Inner (fun ws' _ => AllEnd ws') X [] := by
  refine (Inner.updateRow _ _).bind (fun ws' o hw => ?_) fun _ _ h => h
  subst hw
  cases o with
  | none => exact endAll_inner _ .nil
  | some u => exact endAll_inner _ (.one (.deactivate userId))

end closes

/-- What is answered without a commit: the logout of a token that does not decode. -/
def Skips (E : AuthEnv Token Hash) (q : SessionReq Token) (a : SessionReply Token) : Prop :=
  a = .done ∧ ∃ tok now, q = .logOut tok now ∧ E.decodeRefreshToken now tok = none

/-- **Every request closes with the answer that its writes say.** -/
theorem sessions_close (E : AuthEnv Token Hash) (q : SessionReq Token) :
    ((sessions E).prog q).Closes (Answers E) (fun _ a => Skips E q a) (fun _ _ => True) [] := by
  cases q with
  | start userId user now =>
    refine (start_inner userId user now fun _ _ => trivial).atomically (fun ws a h => ?_)
      fun _ _ h => h
    obtain ⟨exp, h⟩ := h
    exact ⟨_, rfl, .inl ⟨a, [], exp, rfl, .nil, h⟩⟩
  | rotate tok now =>
    refine Closes.map (R := fun ws r => Answers E ws (r.map .session))
      (N := fun _ _ => False) ?_ (fun _ _ h => h) fun _ _ h => h.elim
    refine (Inner.orFail trivial).bind (fun ws claims hw => ?_) fun _ _ h => h
    obtain ⟨rfl, -⟩ := hw
    refine (rotateTx_inner claims.sub _ now fun _ _ => trivial).atomically (fun ws o h => ?_)
      fun _ _ h => h
    rcases h with ⟨a, l, exp, rfl, hl, rfl⟩ | ⟨rfl, h⟩
    · exact ⟨.ok a, rfl, .inl ⟨a, l, exp, rfl, hl, rfl⟩⟩
    · exact ⟨.error .unauthorized, rfl, .inr ⟨h, nofun⟩⟩
  | logOut tok now =>
    show (logOut E tok now >>= fun _ => pure SessionReply.done).Closes _ _ _ _
    unfold logOut
    cases hd : E.decodeRefreshToken now tok with
    | none => exact ⟨rfl, tok, now, rfl, hd⟩
    | some claims =>
      exact (revokeRefreshToken_inner _ .nil).atomically
        (fun ws _ h => ⟨.ok .done, rfl, .inr ⟨h, nofun⟩⟩) fun _ _ h => h
  | endAll userId =>
    exact (endAll_inner userId .nil).atomically (fun ws _ h => ⟨.ok .done, rfl, .inr ⟨h, nofun⟩⟩)
      fun _ _ h => h
  | purgeExpired now =>
    exact (purgeExpired_inner now).atomically (fun ws n h => ⟨.ok (.purged n), rfl,
      .inr ⟨h, nofun⟩⟩) fun _ _ h => h
  | deactivate userId =>
    exact (deactivateTx_inner userId).atomically (fun ws _ h => ⟨.ok .done, rfl, .inr ⟨h, nofun⟩⟩)
      fun _ _ h => h

/-! ## Stores -/

/-- Token `h` is revoked and a successor stored. -/
def Succeeded (h : Hash) (userId : Uuid) (expiresAt : Instant)
    (d d' : Store (Accounts Hash)) : Prop :=
  ∃ h', d.get .refreshTokens h' = none ∧
    d' = (d.apply (.mod .refreshTokens h (onlyIf (fun _ => true) RefreshToken.revoke))).apply
      (.add .refreshTokens h' ⟨userId, expiresAt, false⟩)

/-- What a request does where it commits: a rotation has found the user and the token of
its claims, and goes on only with a live token of an active user. -/
def SessionReq.Does (E : AuthEnv Token Hash) : SessionReq Token → Pt (Accounts Hash) → Prop
  | .rotate tok now, σ => ∃ claims user row, E.decodeRefreshToken now tok = some claims ∧
      σ.now.get .users claims.sub = some user ∧ σ.now.get .refreshTokens (E.hashToken tok) =
      some row ∧ row.userId = claims.sub ∧
      (row.revoked = false ∧ now ≤ row.expiresAt ∧ user.isActive = true ∧
          Succeeded (E.hashToken tok) claims.sub (refreshExpiry E now) σ.now σ.db ∨
        (row.revoked = true ∨ user.isActive = false) ∧ AllEnd σ.ws)
  | _, _ => True

section commits
variable {E : AuthEnv Token Hash} {C : Pt (Accounts Hash) → Prop} {σ : Pt (Accounts Hash)}
  {d d' : Store (Accounts Hash)}

theorem endAll_within (userId : Uuid) : Within (rowLocks (Accounts Hash)) C [.users, .refreshTokens]
    (endAll userId) :=
  (Quiet.lockRes _ _).within.bind fun _ => (Within.deleteAll (by simp)).bind fun _ =>
    (Quiet.ret _).within

theorem revokeRefreshToken_within (h : Hash) :
    Within (rowLocks (Accounts Hash)) C [.users, .refreshTokens] (revokeRefreshToken h) :=
  (Quiet.lockRes _ _).within.bind fun _ => (Within.updateRow (by simp)).bind fun _ =>
    (Quiet.ret _).within

theorem deactivateTx_within (userId : Uuid) :
    Within (rowLocks (Accounts Hash)) C [.users, .refreshTokens] (deactivateTx userId) :=
  (Within.updateRow (by simp)).bind fun _ => endAll_within userId

theorem revokeRefreshToken_plain {h : Hash} {row : RefreshToken}
    (hh : Holds σ.held (.row .refreshTokens h) .noKeyUpdate)
    (hrow : σ.db.get .refreshTokens h = some row) : Plain (rowLocks (Accounts Hash)) C σ
      (revokeRefreshToken h) fun _ σ' =>
      σ'.db = σ.db.apply (.mod .refreshTokens h (onlyIf (fun _ => true) RefreshToken.revoke)) := by
  refine Yields.bind (Yields.lockRes trivial) fun _ σ₁ h1 h₁ => ?_
  subst h₁
  refine Yields.bind (R := fun _ σ' => σ'.db = σ.db.apply
    (.mod .refreshTokens h (onlyIf (fun _ => true) RefreshToken.revoke))) ?_
    fun _ _ _ h => .pure h
  refine wp_updateRow_held (h1.holds hh) (fun hn => ?_) fun r _ _ =>
    ⟨rowLocks_covers (h1.holds hh), Pt.later_write _ _, rfl⟩
  rw [Pt.grant_db, hrow] at hn
  cases hn

theorem saveRefreshToken_plain (userId : Uuid) (h : Hash) (expiresAt : Instant) :
    Plain (rowLocks (Accounts Hash)) C σ (saveRefreshToken userId h expiresAt) fun _ σ' =>
      σ.db.get .refreshTokens h = none ∧
      σ'.db = σ.db.apply (.add .refreshTokens h ⟨userId, expiresAt, false⟩) := by
  refine Yields.bind (Yields.lockRes trivial) fun _ σ₁ _ h₁ => ?_
  refine Yields.bind (Yields.claim trivial) fun taken σ₂ _ ⟨h₂, v, _, hv, htaken⟩ => ?_
  refine Yields.bind (R := fun _ σ' => σ' = σ₂ ∧ taken = false)
    (.ensure (fun h => ⟨rfl, by simpa using h⟩) trivial) fun _ σ₃ _ ⟨h₃, hfree⟩ => ?_
  subst h₃
  refine Yields.bind (Yields.references trivial trivial) fun _ σ₄ h4 h₄ => ?_
  have hlock : Holds σ₃.held (.row .refreshTokens h) .update := by
    rw [h₂]; exact holds_acquire _ _ _
  have hsame := (rowLocks (Accounts Hash)).same hv .refreshTokens h (hlock.weaken (by decide))
  have hwrite : Holds σ₄.held (.row .refreshTokens h) .noKeyUpdate :=
    h4.holds (hlock.weaken (by decide))
  refine (Yields.put (rowLocks_covers hwrite)).imp
    (fun _ σ₅ _ h₅ => ⟨?_, by rw [h₅, h₄, h₂, h₁]; rfl⟩) fun _ h => h
  rw [htaken, Option.isSome_eq_false_iff, Option.isNone_iff_eq_none, hsame, h₁] at hfree
  exact hfree

theorem start_plain (userId : Uuid) (user : Account) (now : Instant) :
    Plain (rowLocks (Accounts Hash)) C σ (start E userId user now) fun _ σ' =>
      ∃ h', σ.db.get .refreshTokens h' = none ∧
      σ'.db = σ.db.apply (.add .refreshTokens h' ⟨userId, refreshExpiry E now, false⟩) := by
  refine Yields.bind (R := fun _ σ' => σ' = σ) (.ensure (fun _ => rfl) trivial) fun _ σ₁ _ h₁ => ?_
  subst h₁
  refine Yields.bind (R := fun _ σ' => σ' = σ₁) (fun _ => ⟨.refl _, rfl⟩) fun jti σ₂ _ h₂ => ?_
  subst h₂
  exact Yields.bind (saveRefreshToken_plain _ _ _) fun _ _ _ h => .pure ⟨_, h⟩

/-- What a rotation has found at its end, and when it goes on. -/
theorem rotateTx_plain (userId : Uuid) (h : Hash) (now : Instant) (hσ : σ.db = σ.now) :
    Plain (rowLocks (Accounts Hash)) C σ (rotateTx E userId h now) fun o σ' => ∃ user row,
      σ.now.get .users userId = some user ∧ σ.now.get .refreshTokens h = some row ∧
      row.userId = userId ∧
      (row.revoked = false ∧ now ≤ row.expiresAt ∧ user.isActive = true ∧ o.isSome ∧
          Succeeded h userId (refreshExpiry E now) σ.now σ'.db ∨
        (row.revoked = true ∨ user.isActive = false) ∧ o = none) := by
  refine Yields.bind (Yields.selectFor (by decide) trivial) fun user σ₁ h1 ⟨hd₁, hu⟩ => ?_
  refine Yields.bind (R := fun u σ' => σ' = σ₁ ∧ user = some u)
    (.orFail (fun _ hu => ⟨rfl, hu⟩) trivial) fun user σ₂ _ ⟨h₂, hu₂⟩ => ?_
  subst h₂
  obtain ⟨-, huser, -⟩ := hu user hu₂
  refine Yields.bind (Yields.selectFor (by decide) trivial) fun stored σ₃ h3 ⟨hd₃, hr⟩ => ?_
  refine Yields.bind (R := fun r σ' => σ' = σ₃ ∧ stored = some r)
    (.orFail (fun _ hr => ⟨rfl, hr⟩) trivial) fun row σ₄ _ ⟨h₄, hr₄⟩ => ?_
  subst h₄
  obtain ⟨hheld, hrow, -⟩ := hr row hr₄
  refine Yields.bind (R := fun _ σ' => σ' = σ₄ ∧ row.userId = userId)
    (.ensure (fun h => ⟨rfl, by simpa using h⟩) trivial)
    fun _ σ₅ _ ⟨h₅, hsub⟩ => ?_
  subst h₅
  have hdb : σ₅.db = σ.now := by rw [hd₃, hd₁, hσ]
  rw [hσ] at huser
  rw [hd₁, hσ] at hrow
  split
  -- a replay: all tokens of the user go
  next hrev =>
    exact Yields.bind (endAll_within _ _) fun _ _ _ _ =>
      .pure ⟨user, row, huser, hrow, hsub, .inr ⟨.inl hrev, rfl⟩⟩
  next hrev =>
  refine Yields.bind (R := fun _ σ' => σ' = σ₅ ∧ now ≤ row.expiresAt)
    (.ensure (fun h => ⟨rfl, by simpa using h⟩) trivial)
    fun _ σ₆ _ ⟨h₆, hexp⟩ => ?_
  subst h₆
  refine Yields.bind (revokeRefreshToken_plain (hheld.weaken (by decide)) (hdb ▸ hrow))
    fun _ σ₇ _ hd₇ => ?_
  split
  next hact =>
    refine Yields.bind (start_plain _ _ _) fun a σ₈ _ ⟨h', hnew, hd₈⟩ => .pure ?_
    refine ⟨user, row, huser, hrow, hsub, .inl ⟨by simpa using hrev, hexp, hact, rfl, h', ?_, ?_⟩⟩
    · rw [hd₇, hdb, Store.get_mod] at hnew
      split at hnew
      · rw [Option.map_eq_none_iff] at hnew; rename_i he; rw [he]; exact hnew
      · exact hnew
    · rw [hd₈, hd₇, hdb]
  next hact =>
    exact Yields.bind (endAll_within _ _) fun _ _ _ _ =>
      .pure ⟨user, row, huser, hrow, hsub, .inr ⟨.inr (by simpa using hact), rfl⟩⟩

/-- **Every request does what `Does` says where it commits.** -/
theorem sessions_commit (q : SessionReq Token) :
    Commits (rowLocks (Accounts Hash)) (q.Does E) ((sessions E).prog q) (.begin d d' false) := by
  cases q with
  | start userId user now =>
    exact commits_then (start_plain userId user now) (fun _ _ _ _ => trivial) fun _ _ => trivial
  | rotate tok now =>
    refine commits_map ?_
    refine commits_bind (R := fun claims σ' => σ' = .begin d d' false ∧
      E.decodeRefreshToken now tok = some claims)
      (.orFail (fun _ h => ⟨rfl, h⟩) trivial) fun claims σ₁ _ ⟨h₁, hdec⟩ => ?_
    subst h₁
    have hspec := (rotateTx_plain (E := E) (C := (SessionReq.rotate tok now).Does E) claims.sub
      (E.hashToken tok) now
      (σ := .begin d d' false) rfl).inner (rotateTx_inner claims.sub (E.hashToken tok) now
        fun (_ _ : _) => True.intro)
    refine commits_then hspec (fun o σ' hl h => ?_) fun o σ' => (Quiet.orFail _ _).commits
    obtain ⟨⟨user, row, huser, hrow, hsub, hcase⟩, hws⟩ := h
    refine ⟨claims, user, row, hdec, by rw [hl.now]; exact huser,
      by rw [hl.now]; exact hrow, hsub, ?_⟩
    rcases hcase with ⟨h1, h2, h3, -, h5⟩ | ⟨h1, rfl⟩
    · exact .inl ⟨h1, h2, h3, by rw [hl.now]; exact h5⟩
    · refine .inr ⟨h1, ?_⟩
      rcases hws with ⟨_, _, _, h, -⟩ | ⟨-, h⟩
      · cases h
      · exact h
  | logOut tok now =>
    show Commits _ _ (logOut E tok now >>= fun _ => pure SessionReply.done) _
    refine commits_map ?_
    unfold logOut
    cases E.decodeRefreshToken now tok with
    | none => exact (Quiet.ret ()).commits
    | some claims =>
      refine commits_atomically (R := fun _ _ => True) ?_ fun _ _ _ _ => trivial
      exact (revokeRefreshToken_within _ _).imp (fun _ _ _ _ => trivial) fun _ h => h
  | endAll userId =>
    exact commits_then (endAll_within userId _) (fun _ _ _ _ => trivial) fun _ _ => trivial
  | purgeExpired now =>
    have htx : Within (rowLocks (Accounts Hash)) (fun _ => True) [.users, .refreshTokens] (do
        lockTable
        let gone ← deleteAll (S := Accounts Hash) .refreshTokens fun _ r => r.expiresAt < now
        return gone.length : Tx Hash ℕ) :=
      (Quiet.lockRes _ _).within.bind fun _ => (Within.deleteAll (by simp)).bind fun _ =>
        (Quiet.ret _).within
    exact commits_then (htx _) (fun _ _ _ _ => trivial) fun _ _ => trivial
  | deactivate userId =>
    exact commits_then (deactivateTx_within userId _) (fun _ _ _ _ => trivial) fun _ _ => trivial

def Stored (h : Hash) (d : Store (Accounts Hash)) : Prop := (d.get .refreshTokens h).isSome = true

/-- Token `h` is not stored anew. -/
def onceGone (h : Hash) : Rely (Accounts Hash) := .past (Stored h)

/-- Token `h` is gone or revoked. -/
def Spent (h : Hash) (d : Store (Accounts Hash)) : Prop := ∀ r, d.get .refreshTokens h = some r →
    r.revoked = true

/-- A logout revokes its token, in runs in which the token is not stored anew. -/
theorem logOut_commit (tok : Token) (now : Instant) :
    Commits ((rowLocks (Accounts Hash)).under (onceGone (E.hashToken tok)))
      (fun σ => Spent (E.hashToken tok) σ.db)
      ((sessions E).prog (.logOut tok now)) (.begin d d' false) := by
  show Commits _ _ (logOut E tok now >>= fun _ => pure SessionReply.done) _
  refine commits_map ?_
  unfold logOut
  cases E.decodeRefreshToken now tok with
  | none => exact (Quiet.ret ()).commits
  | some claims =>
    refine commits_atomically (R := fun _ σ' => Spent (E.hashToken tok) σ'.db) ?_
      fun _ _ _ h => h
    refine Yields.bind (Yields.lockRes trivial) fun _ σ₁ _ h₁ => ?_
    subst h₁
    refine Yields.bind (R := fun _ σ' => Spent (E.hashToken tok) σ'.db) ?_
      fun _ _ _ h => .pure h
    refine wp_updateRow_snapshot (fun _ _ _ _ _ _ _ => trivial)
      (fun v _ _ hv hnone => ⟨.refl _, fun r hr => ?_⟩)
      (fun hnone => ⟨Pt.later_grant _ _ _, fun r hr => ?_⟩) fun row hrow _ =>
        ⟨rowLocks_covers ?_, ?_, ?_⟩
    · -- a token that the snapshot did not show is not there at the end
      have hseen : Stored (E.hashToken tok) v := hv (Option.isSome_iff_exists.2 ⟨r, hr⟩)
      obtain ⟨row, hrow⟩ := Option.isSome_iff_exists.1 hseen
      have hnone : (v.get .refreshTokens (E.hashToken tok)).filter (fun _ => true) = none := hnone
      rw [hrow] at hnone
      cases hnone
    · rw [Pt.grant_db] at hr
      rw [hr] at hnone
      cases hnone
    · rw [Pt.grant_held]
      exact holds_acquire _ _ _
    · exact (Pt.later_grant _ _ _).trans (Pt.later_write _ _)
    · intro r hr
      rw [Pt.write_db, Pt.grant_db, Store.get_mod, if_pos rfl, hrow, Option.map_some,
        onlyIf_pos rfl] at hr
      cases hr
      rfl

end commits

end DreamFly.Auth
