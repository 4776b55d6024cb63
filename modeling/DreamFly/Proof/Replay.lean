import DreamFly.Proof.Tokens

/-!
# Replays, proved

A rotation that meets a revoked token deletes every token of its user that the snapshot of
its DELETE shows. Where nobody stores a token for that user meanwhile (`noneMeanwhile`),
none is left when it commits (`rotate_wipes`).
-/

namespace DreamFly.Auth

open Txn Prog Plain

variable {Token Hash : Type} [DecidableEq Hash]

/-- While a call holds the token of hash `h` for update, revoked, and the lock of a DELETE, no
new token of its user appears. -/
def noneMeanwhile (h : Hash) : Rely (Accounts Hash) where
  rel L a b := ∀ row, Holds L (.row .refreshTokens h) .update →
    Holds L (.uniq .rowExclusive) .keyShare →
    a.get .refreshTokens h = some row → row.revoked = true → b.get .refreshTokens h = some row ∧
      ∀ k' r', b.get .refreshTokens k' = some r' → r'.userId = row.userId →
        ∃ r, a.get .refreshTokens k' = some r ∧ r.userId = row.userId
  refl L d row _ _ hk _ := ⟨hk, fun k' r' hr' hu => ⟨r', hr', hu⟩⟩
  trans h h' row hl ht hk hrev := by
    obtain ⟨hk₁, h1⟩ := h row hl ht hk hrev
    obtain ⟨hk₂, h2⟩ := h' row hl ht hk₁ hrev
    refine ⟨hk₂, fun k' r' hr' hu => ?_⟩
    obtain ⟨r, hr, hu⟩ := h2 k' r' hr' hu
    exact h1 k' r hr hu
  anti hs h row hl ht := h row (hl.mono hs) (ht.mono hs)

/-- No token of user `u` is left. -/
def Wiped (u : Uuid) (d : Store (Accounts Hash)) : Prop := ∀ k r, d.get .refreshTokens k = some r →
    r.userId ≠ u

/-- If the token of hash `h` is revoked, no token of its user is left. -/
def Wipes (h : Hash) (σ : Pt (Accounts Hash)) : Prop :=
  ∀ row, σ.now.get .refreshTokens h = some row → row.revoked = true → Wiped row.userId σ.db

section wiped
variable {E : AuthEnv Token Hash} {C : Pt (Accounts Hash) → Prop} {σ : Pt (Accounts Hash)}
  {d d' : Store (Accounts Hash)}

/-- Row locks, where no token is stored while the replay of the token of hash `h` is deleting. -/
abbrev alone (h : Hash) : Discipline (Accounts Hash) :=
  (rowLocks (Accounts Hash)).under (noneMeanwhile h)

theorem endAll_wipes {h : Hash} {row : RefreshToken} (hws : σ.ws = []) (hdb : σ.db = σ.now)
    (hheld : Holds σ.held (.row .refreshTokens h) .update)
    (hrow : σ.now.get .refreshTokens h = some row) (hrev : row.revoked = true) :
    Plain (alone h) C σ (endAll row.userId) fun _ σ' => Wiped row.userId σ'.db := by
  refine Yields.bind (Yields.lockRes trivial) fun _ σ₁ h1 h₁ => ?_
  subst h₁
  refine Yields.bind (Yields.deleteAll (fun _ _ => trivial) fun _ _ _ hh => rowLocks_covers
    (hh.weaken (by decide))) fun rs σ₂ h2 hdel =>
    .pure ?_
  obtain ⟨-, ⟨v, -, hv, hmore, hrs⟩, hget⟩ := hdel
  have hheld₁ : Holds (acquire σ.held (.uniq .rowExclusive) .keyShare)
      (.row .refreshTokens h) .update := h1.holds hheld
  have hws₁ : Store.overlay (σ.grant (.uniq .rowExclusive) .keyShare).ws v = v := by
    rw [Pt.grant_ws, hws]; rfl
  rw [hws₁] at hv hrs
  -- the snapshot has shown the token, and every other one of its user
  have hseen : v.get .refreshTokens h = some row := by
    rw [(alone h).same hv .refreshTokens h (hheld₁.weaken (by decide)), Pt.grant_db, hdb]
    exact hrow
  obtain ⟨-, hall⟩ := hmore row hheld₁ (holds_acquire _ _ _) hseen hrev
  intro k r hr hu
  rw [hget] at hr
  split at hr
  · cases hr
  next hk =>
    rw [Pt.grant_db] at hr hrs
    obtain ⟨r', hr', hu'⟩ := hall k r (by rw [Pt.grant_now, ← hdb]; exact hr) hu
    exact hk (List.mem_map.2 ⟨(k, r), (hrs k r).2 ⟨hr, by simpa using hu, r',
      hr', by simpa using hu'⟩, rfl⟩)

theorem start_within (userId : Uuid) (user : Account) (now : Instant) :
    Within (rowLocks (Accounts Hash)) C [.users, .refreshTokens] (start E userId user now) := by
  refine fun σ => (start_plain userId user now).imp (fun _ σ' _ ⟨h', _, hd⟩ => ?_) fun _ h => h
  rw [hd]
  exact Only.write _ (by simp [Write.tbl])

/-- The rest of a rotation, once its token is live. -/
theorem goOn_within (userId : Uuid) (user : Account) (h : Hash) (expiresAt now : Instant) :
    Within (rowLocks (Accounts Hash)) C [.users, .refreshTokens] (do
      ensure (now ≤ expiresAt) .unauthorized
      revokeRefreshToken h
      if user.isActive then do
        let r ← start E userId user now
        return some r
      else do
        endAll userId
        return none) := by
  refine (Quiet.ensure _ _).within.bind fun _ => (revokeRefreshToken_within h).bind fun _ => ?_
  split
  · exact (start_within userId user now).bind fun _ => (Quiet.ret _).within
  · exact (endAll_within userId).bind fun _ => (Quiet.ret _).within

theorem rotateTx_wipes (userId : Uuid) (h : Hash) (now : Instant) (hws : σ.ws = [])
    (hσ : σ.db = σ.now) :
    Plain (alone h) C σ (rotateTx E userId h now) fun _ σ' => ∀ row, σ.now.get .refreshTokens h =
      some row → row.revoked = true →
      Wiped row.userId σ'.db := by
  refine Yields.bind ((Yields.selectFor (by decide) trivial).inner (X := fun _ _ => True)
    (Inner.selectFor _ _))
    fun user σ₁ h1 ⟨⟨hd₁, _⟩, hw₁⟩ => ?_
  refine Yields.bind (R := fun _ σ' => σ' = σ₁) (.orFail (fun _ _ => rfl) trivial)
    fun user σ₂ _ h₂ => ?_
  subst h₂
  refine Yields.bind ((Yields.selectFor (by decide) trivial).inner (X := fun _ _ => True)
    (Inner.selectFor _ _))
    fun stored σ₃ h3 ⟨⟨hd₃, hr⟩, hw₃⟩ => ?_
  refine Yields.bind (R := fun r σ' => σ' = σ₃ ∧ stored = some r)
    (.orFail (fun _ hr => ⟨rfl, hr⟩) trivial) fun row σ₄ _ ⟨h₄, hr₄⟩ => ?_
  subst h₄
  obtain ⟨hheld, hrow, -⟩ := hr row hr₄
  refine Yields.bind (R := fun _ σ' => σ' = σ₄) (.ensure (fun _ => rfl) trivial) fun _ σ₅ _ h₅ => ?_
  subst h₅
  have hnow : σ₅.now = σ.now := h3.now.trans h1.now
  have hdb : σ₅.db = σ₅.now := by rw [hd₃, hd₁, hσ, hnow]
  have hfound : σ.now.get .refreshTokens h = some row := by rw [← hσ, ← hd₁]; exact hrow
  split
  next hrev =>
    refine Yields.bind (endAll_wipes (by rw [hw₃, hw₁, hws]) hdb hheld (hnow ▸ hfound) hrev)
      fun _ σ₆ _ hwiped => .pure ?_
    intro row' hrow' _
    rw [hfound] at hrow'
    cases hrow'
    exact hwiped
  next hrev =>
    -- a live token is no replay
    refine (Yields.under (fun _ _ _ => trivial)
      (goOn_within userId user h row.expiresAt now σ₅)).imp (fun _ _ _ _ row' hrow' hrev' => ?_)
      fun _ h => h
    rw [hfound] at hrow'
    cases hrow'
    exact absurd hrev' hrev

/-- **A replay leaves no token of its user where it commits.** -/
theorem rotate_wipes (tok : Token) (now : Instant) :
    Commits (alone (E.hashToken tok)) (Wipes (E.hashToken tok))
    ((sessions E).prog (.rotate tok now)) (.begin d d' false) := by
  refine commits_map ?_
  refine commits_bind (R := fun claims σ' => σ' = .begin d d' false)
    (.orFail (fun _ _ => rfl) trivial) fun claims σ₁ _ h₁ => ?_
  subst h₁
  refine commits_then (rotateTx_wipes claims.sub (E.hashToken tok) now rfl rfl)
    (fun o σ' hl h => ?_) fun o σ' => (Quiet.orFail _ _).commits
  intro row hrow
  rw [hl.now] at hrow
  exact h row hrow

end wiped

end DreamFly.Auth
