import DreamFly.Proof.Replay
import DreamFly.Run.Tokens
import DreamFly.Txn.Begun

/-!
# Replays over whole runs

A revoked token that comes back is taken for stolen, and its replay is to end the sessions
of its user. It deletes the tokens that its DELETE has seen: a token stored in the
meantime, by a rotation or a new session, outlives it.

* `replay_ends_family`: where nobody stores a token of the user while a replay deletes, no
  token that goes back to one from before the replay is ever rotated after it.
-/

namespace DreamFly.Auth

open Txn Prog

variable {Token Hash : Type} [DecidableEq Hash] {E : AuthEnv Token Hash}
  {d d' d₁ d₂ : Store (Accounts Hash)}
  {tok tok' : Token} {now now' : Instant} {a a' : AuthResponse Token} {u v : Uuid}
  {s s' : SessionSys Token Hash} {x y : SessionEntry Token Hash}
    {γ γ₁ γ₂ γ₃ : List (SessionEntry Token Hash)}

/-- Call `t` is a rotation that has met its token, one of user `u`, revoked, and is deleting all
tokens of `u`. -/
def Deleting (E : AuthEnv Token Hash) (s : SessionSys Token Hash) (t : ℕ) (u : Uuid) : Prop :=
  ∃ c tok now row, s.call t = some c ∧ c.req = .rotate tok now ∧
    Holds c.held (.row .refreshTokens (E.hashToken tok)) .update ∧
    Holds c.held (.uniq .rowExclusive) .keyShare ∧ s.db.get .refreshTokens (E.hashToken tok) =
    some row ∧ row.revoked = true ∧
    row.userId = u

/-- No commit brings a token of a user whose tokens another call is deleting over a replay. -/
def NoneMeanwhile (E : AuthEnv Token Hash) (s : SessionSys Token Hash)
    (_ : Event (SessionReq Token)) (s' : SessionSys Token Hash) :
    Prop :=
  ∀ t c t' u, CommitStep s t c s' → t' ≠ t → Deleting E s t' u →
    ∀ k r', s'.db.get .refreshTokens k = some r' → r'.userId = u →
    ∃ r, s.db.get .refreshTokens k = some r ∧ r.userId = u

/-- A token that was stored for user `u` in the part `γ` of a run that began with `d`. -/
def Belongs (E : AuthEnv Token Hash) (d : Store (Accounts Hash))
    (γ : List (SessionEntry Token Hash)) (u : Uuid) (tok : Token) : Prop :=
  ∃ γ₁ γ₂ d₁ r, γ = γ₁ ++ γ₂ ∧ Linked d γ₁ d₁ ∧ d₁.get .refreshTokens (E.hashToken tok) = some r ∧
    r.userId = u

/-- `tok'` goes back to `tok` by successful rotations. -/
inductive Descends (γ : List (SessionEntry Token Hash)) (tok : Token) : Token → Prop
  | refl : Descends γ tok tok
  | rotated {tok' : Token} {x : SessionEntry Token Hash} {now : Instant} {a : AuthResponse Token} :
      Descends γ tok tok' → x ∈ γ → Rotates x tok' now a → Descends γ tok a.refreshToken

/-! ## No token is left -/

/-- The call of a replay can rely on it. -/
theorem noneMeanwhile_rel {c c₂ : Call (Accounts Hash) AppError (SessionReply Token)
    (SessionReq Token)}
    {e : Event (SessionReq Token)} {t t₂ : ℕ} (hok : NoneMeanwhile E s e s')
    (hs : (sessions E).Reach (NoneMeanwhile E) (Sys.init d) s)
    (hc : s.call t = some c) (hreq : c.req = .rotate tok now) (hcs : CommitStep s t₂ c₂ s')
    (hne : t₂ ≠ t) :
    (noneMeanwhile (E.hashToken tok)).rel c.held s.db s'.db := by
  intro row hheld htable hk hrev
  refine ⟨?_, fun k' r' hr' hu => ?_⟩
  · rw [← (rowLocks (Accounts Hash)).same
      ((sessions_ok hs).rel_other hcs hc hne.symm) .refreshTokens _ (hheld.weaken (by decide))]
    exact hk
  · exact hok t₂ c₂ t row.userId hcs hne.symm ⟨c, tok, now, row, hc, hreq, hheld, htable, hk, hrev,
      rfl⟩ k' r' hr' hu

/-- **A replay has left no token of its user.** -/
theorem replay_wiped (hj : (sessions E).Journaled (NoneMeanwhile E) d s γ) (hx : x ∈ γ)
    (hreq : x.req = .rotate tok now)
    {row : RefreshToken} (hrow : x.before.get .refreshTokens (E.hashToken tok) = some row)
    (hrev : row.revoked = true) :
    Wiped row.userId x.after := by
  obtain ⟨σ, hnow, hdb, hwipes⟩ := journal_under (fun _ h => sessions_ok h)
    (fun _ _ _ => rotate_wipes tok now)
    (fun s₁ t c₁ u c₂ s₂ e hs₁ hc₁ hq he hok hcs hne => noneMeanwhile_rel hok hs₁ hc₁ hq hcs hne)
      hj hx hreq
  rw [← hdb]
  exact hwipes row (by rw [hnow]; exact hrow) hrev

/-! ## The family of a token -/

theorem Belongs.of_stored (E : AuthEnv Token Hash) (tok : Token) {r : RefreshToken}
    (hl : Linked d γ d₁) (hr : d₁.get .refreshTokens (E.hashToken tok) = some r) :
    Belongs E d γ r.userId tok := ⟨γ, [], d₁, r, (List.append_nil γ).symm, hl, hr, rfl⟩

section family
variable (hinj : Function.Injective E.hashToken)
include hinj

/-- Who belongs to a user belongs to that user only. -/
theorem Belongs.owner (hb : Belongs E d γ₁ u tok) (hd : Distinct E d (γ₁ ++ γ₂))
    (hkept : ∀ y ∈ γ₁ ++ γ₂, Kept E y)
    (hl : Linked d (γ₁ ++ γ₂) d₂) : Known E d γ₁ tok ∧
    ∀ r, d₂.get .refreshTokens (E.hashToken tok) = some r → r.userId = u := by
  obtain ⟨γ₃, γ₄, d₃, r, rfl, hl₃, hr, hu⟩ := hb
  rw [List.append_assoc] at hd hkept hl
  have hk : Known E d γ₃ tok :=
    known_of_some hinj (fun y hy => hkept y (List.mem_append_left _ hy)) hl₃
      (Option.isSome_iff_exists.2 ⟨r, hr⟩)
  obtain ⟨d₄, hl₄, hrest⟩ := hl.split
  cases hl₃.unique hl₄
  refine ⟨hk.mono, hd.owner hinj (fun y hy => hkept y (List.mem_append_right _ hy)) hk hrest
    fun r' hr' => ?_⟩
  rw [hr] at hr'
  cases hr'
  exact hu

/-- The successor of a token belongs to the same user. -/
theorem Belongs.rotated (hb : Belongs E d γ₁ u tok) (hd : Distinct E d γ₁)
    (hkept : ∀ y ∈ γ₁, Kept E y) (hl : Linked d γ₁ d₁)
    (hy : y ∈ γ₁) (hrot : Rotates y tok now a) : Belongs E d γ₁ u a.refreshToken := by
  obtain ⟨r, r', hr, hr', howner⟩ := ((hkept y hy).succession hrot).owner
  obtain ⟨γ₅, γ₆, rfl⟩ := List.append_of_mem hy
  obtain ⟨hbefore, -⟩ := hl.at_entry
  -- the token was stored for `u` before the rotation, or it still is after it
  have hu : r.userId = u := by
    obtain ⟨γ₃, γ₄, d₃, r₃, hγ, hl₃, hr₃, hu₃⟩ := hb
    rcases List.append_eq_append_iff.1 hγ with ⟨δ, rfl, hδ⟩ | ⟨δ, rfl, rfl⟩
    · rw [hγ] at hd hkept
      have hfirst := Belongs.of_stored E tok hbefore hr
      have hlast := (hfirst.owner hinj hd.left (fun z hz => hkept z
        (List.mem_append_left _ hz)) hl₃).2 r₃ hr₃
      exact hlast.symm.trans hu₃
    · have hfirst := Belongs.of_stored E tok hl₃ hr₃
      rw [hu₃] at hfirst
      exact (hfirst.owner hinj hd.left (fun z hz => hkept z
        (List.mem_append_left _ hz)) hbefore).2 r hr
  refine ⟨γ₅ ++ [y], γ₆, y.after, r', by rw [List.append_assoc]; rfl, hbefore.append ⟨rfl, rfl⟩,
    hr', howner.trans hu⟩

/-- What belongs to the user of a replay is not usable after it. -/
theorem Belongs.gone (hb : Belongs E d γ₁ u tok) (hd : Distinct E d (γ₁ ++ x :: γ₂))
    (hkept : ∀ y ∈ γ₁ ++ x :: γ₂, Kept E y)
    (hl : Linked d (γ₁ ++ x :: γ₂) d₁) (hw : Wiped u x.after)
    (hy : y ∈ γ₂) : ¬ Rotates y tok now a := by
  obtain ⟨hbefore, hafter⟩ := hl.at_entry
  rw [List.append_cons] at hd hkept
  obtain ⟨hknown, howner⟩ := hb.owner hinj hd.left (fun z hz => hkept z (List.mem_append_left _ hz))
    (hbefore.append ⟨rfl, rfl⟩)
  refine hd.later hinj (fun z hz => hkept z (List.mem_append_right _ hz)) hknown.mono hafter
    (fun husable => ?_) hy
  obtain ⟨r, -, hr, -⟩ := husable
  exact hw _ r hr (howner r hr)

end family

/-- **A replay ends the family of its token.** In every run in which nobody stores a token
for a user while a replay is deleting the tokens of that user: once a rotation that met a
revoked token has committed, no token that goes back to one stored for its user before is
rotated any more. -/
theorem replay_ends_family (E : AuthEnv Token Hash) (hinj : Function.Injective E.hashToken)
    {d : Store (Accounts Hash)}
    {s : SessionSys Token Hash} {γ γ₁ γ₂ : List (SessionEntry Token Hash)}
    {x : SessionEntry Token Hash}
    (hj : (sessions E).Journaled (NoneMeanwhile E) d s γ) (hd : Distinct E d γ)
    (hγ : γ = γ₁ ++ x :: γ₂) {tok : Token} {now : Instant}
    {row : RefreshToken} (hreq : x.req = .rotate tok now)
    (hrow : x.before.get .refreshTokens (E.hashToken tok) = some row)
    (hrev : row.revoked = true) {tok₁ tok₂ : Token} (hb : Belongs E d γ₁ row.userId tok₁)
    (hdesc : Descends γ tok₁ tok₂)
    {y : SessionEntry Token Hash} (hy : y ∈ γ₂) {now' : Instant} {a : AuthResponse Token} :
    ¬ Rotates y tok₂ now' a := by
  subst hγ
  have hkept := session_kept hj
  have hlinked := journal_linked hj
  have hx : x ∈ γ₁ ++ x :: γ₂ := List.mem_append_right _ List.mem_cons_self
  have hw := replay_wiped hj hx hreq hrow hrev
  have hall : Belongs E d γ₁ row.userId tok₂ := by
    -- each successor belongs to the same user, and none comes after the replay
    clear hy
    induction hdesc with
    | refl => exact hb
    | @rotated tok' z _ a _ hz hrot ih =>
      rcases List.mem_append.1 hz with hz | hz
      · exact ih.rotated hinj hd.left (fun z hz => hkept z
          (List.mem_append_left _ hz)) hlinked.at_entry.1 hz hrot
      rcases List.mem_cons.1 hz with rfl | hz
      · -- the replay itself has rotated nothing
        obtain ⟨r, _, hr, -, hlive, -⟩ := ((hkept z hx).succession hrot).usable
        have hsame := hrot.1.symm.trans hreq
        cases hsame
        rw [hrow] at hr
        cases hr
        rw [hrev] at hlive
        cases hlive
      · exact absurd hrot (ih.gone hinj hd hkept hlinked hw hz)
  exact hall.gone hinj hd hkept hlinked hw hy

/-! ## Two replays -/

def thirdToken : RefreshClaims := ⟨1, 2592300, 300, 51⟩
def fourthToken : RefreshClaims := ⟨1, 2592500, 500, 91⟩

/-- A session and its rotation. -/
def sampleChain : List (Event (SessionReq RefreshClaims)) :=
  .start 0 (.start 1 sampleUser 100) :: Event.steps 0 10 8 ++ .start 1 (.rotate firstToken 200) ::
  Event.steps 1 20 19

/-- The first token comes back. After the DELETE has taken its snapshot, the second one is
rotated into a third, and that one into a fourth at the end. -/
def sampleOutlived : List (Event (SessionReq RefreshClaims)) :=
  sampleChain ++ .start 2 (.rotate firstToken 400) :: Event.steps 2 0 8 ++
  .start 3 (.rotate secondToken 300) :: Event.steps 3 40 19 ++
    Event.steps 2 0 8 ++ .start 4 (.rotate thirdToken 500) :: Event.steps 4 80 19

/-- The chain, the first token once more when nobody else is in flight, and a new session. -/
def sampleAlone : List (Event (SessionReq RefreshClaims)) :=
  sampleChain ++ .start 2 (.rotate firstToken 400) :: Event.steps 2 0 16 ++
  .start 3 (.start 1 sampleUser 600) :: Event.steps 3 100 8

/-- Who is about to commit does so while the others hold no lock. -/
def othersIdle (s : SessionSys RefreshClaims RefreshClaims) (_ : Event (SessionReq RefreshClaims))
    (_ : SessionSys RefreshClaims RefreshClaims) : Bool :=
  s.calls.rows.all fun p => !p.2.prog.isCommit || s.calls.rows.all fun q =>
    q.1 = p.1 || q.2.held.isEmpty

theorem othersIdle_meanwhile {s s' : SessionSys RefreshClaims RefreshClaims}
    {e : Event (SessionReq RefreshClaims)}
    (h : othersIdle s e s' = true) : NoneMeanwhile plainTokens s e s' := by
  intro t c t' u hcs hne hdel
  obtain ⟨c', tok, now, row, hc', -, ⟨m, hheld, -⟩, -⟩ := hdel
  obtain ⟨hc, k', hk', -⟩ := hcs
  have hp := List.all_eq_true.1 h (t, c) (Table.mem_rows.2 hc)
  rw [hk'] at hp
  rw [Prog.isCommit, Bool.not_true, Bool.false_or] at hp
  have hq := List.all_eq_true.1 hp (t', c') (Table.mem_rows.2 hc')
  simp only [hne, decide_false, Bool.false_or, List.isEmpty_iff] at hq
  rw [hq] at hheld
  cases hheld

theorem entry_at {i : ℕ} {x : SessionEntry Token Hash} (h : γ[i]? = some x) :
    γ = γ.take i ++ x :: γ.drop (i + 1) := by
  obtain ⟨hi, rfl⟩ := List.getElem?_eq_some_iff.1 h
  rw [← List.drop_eq_getElem_cons hi, List.take_append_drop]

theorem replay_ends_family_alone :
    let γ := ((sessions plainTokens).journalAfter sampleAlone oneUser).2
    ∃ γ₁ x γ₂, γ = γ₁ ++ x :: γ₂ ∧ x.req = .rotate firstToken 400 ∧
      Belongs plainTokens oneUser γ₁ 1 firstToken ∧
      Descends γ firstToken secondToken ∧ γ₂.map Entry.call = [3] ∧
      ∀ z ∈ γ₂, ∀ now a, ¬ Rotates z secondToken now a := by
  have hrun : ∀ γ, γ = ((sessions plainTokens).journalAfter sampleAlone oneUser).2 →
      issued γ = [firstToken, secondToken, ⟨1, 2592600, 600, 100⟩] ∧
      ((γ[1]?).map fun x => (x.req, x.reply)) = some (.rotate firstToken 200,
        some (.ok (.session ⟨secondToken, 1⟩))) ∧
      ((γ[2]?).map fun x => (x.req, x.before.get .refreshTokens firstToken)) =
      some (.rotate firstToken 400, some ⟨1, 2592100, true⟩) ∧
      (γ.drop 3).map Entry.call = [3] := by
    rintro _ rfl
    decide +kernel
  -- whoever commits in this run does so while the others hold no lock
  have hj : (sessions plainTokens).Journaled (NoneMeanwhile plainTokens) oneUser
      ((sessions plainTokens).journalAfter sampleAlone oneUser).1
      ((sessions plainTokens).journalAfter sampleAlone oneUser).2 :=
    (journaled_checks (T := othersIdle) (by decide +kernel)).mono fun _ _ _ h =>
      othersIdle_meanwhile h
  obtain ⟨hissued, hone, htwo, hlate⟩ := hrun _ rfl
  intro γ
  obtain ⟨z, hz, hzr⟩ := Option.map_eq_some_iff.1 hone
  obtain ⟨x, hx, hxr⟩ := Option.map_eq_some_iff.1 htwo
  rw [Prod.mk.injEq] at hzr hxr
  have hbelongs : Belongs plainTokens oneUser (γ.take 2) 1 firstToken := by
    have hl := journal_linked hj
    rw [entry_at hx] at hl
    exact .of_stored plainTokens firstToken hl.at_entry.1 hxr.2
  have hdesc : Descends γ firstToken secondToken := .rotated .refl (List.mem_of_getElem? hz) hzr
  have hdistinct : Distinct plainTokens oneUser γ := ⟨by rw [hissued]; decide, fun _ _ => rfl⟩
  exact ⟨γ.take 2, x, γ.drop 3, entry_at hx, hxr.1, hbelongs, hdesc, hlate, fun z hz now a =>
    replay_ends_family plainTokens (fun _ _ h => h) hj hdistinct
      (entry_at hx) hxr.1 hxr.2 rfl hbelongs hdesc hz⟩

/-- **The third token outlives the replay**: it is rotated out of the second one after the
DELETE has taken its snapshot, and rotated itself after the replay has committed. -/
theorem replay_outlived :
    let y := (sessions plainTokens).journalAfter sampleOutlived oneUser
    (sessions plainTokens).Journaled (fun _ _ _ => True) oneUser y.1 y.2 ∧
      Distinct plainTokens oneUser y.2 ∧
      ∃ γ₁ x γ₂ row z, y.2 = γ₁ ++ x :: γ₂ ∧ x.req = .rotate firstToken 400 ∧
        x.before.get .refreshTokens firstToken = some row ∧
        row.revoked = true ∧ Belongs plainTokens oneUser γ₁ row.userId secondToken ∧
        Belongs plainTokens oneUser γ₁ row.userId thirdToken ∧
        Descends y.2 secondToken thirdToken ∧ z ∈ γ₂ ∧
        Rotates z thirdToken 500 ⟨fourthToken, 1⟩ := by
  have hrun : ∀ γ, γ = ((sessions plainTokens).journalAfter sampleOutlived oneUser).2 →
      issued γ = [firstToken, secondToken, thirdToken, fourthToken] ∧
      ((γ[2]?).map fun x => (x.req, x.reply)) = some (.rotate secondToken 300,
        some (.ok (.session ⟨thirdToken, 1⟩))) ∧
      ((γ[3]?).map fun x => (x.req, x.before.get .refreshTokens firstToken,
        x.before.get .refreshTokens secondToken,
        x.before.get .refreshTokens thirdToken)) = some (.rotate firstToken 400,
        some ⟨1, 2592100, true⟩, some ⟨1, 2592200, true⟩,
          some ⟨1, 2592300, false⟩) ∧
      ((γ[4]?).map fun x => (x.req, x.reply)) = some (.rotate thirdToken 500,
        some (.ok (.session ⟨fourthToken, 1⟩))) := by
    rintro _ rfl
    decide +kernel
  intro y
  have hj : (sessions plainTokens).Journaled (fun _ _ _ => True) oneUser y.1 y.2 :=
    journaled_after (fun _ _ _ => trivial) _ _
  obtain ⟨hissued, htwo, hthree, hfour⟩ := hrun _ rfl
  obtain ⟨w, hw, hwr⟩ := Option.map_eq_some_iff.1 htwo
  obtain ⟨x, hx, hxr⟩ := Option.map_eq_some_iff.1 hthree
  obtain ⟨z, hz, hzr⟩ := Option.map_eq_some_iff.1 hfour
  simp only [Prod.mk.injEq] at hwr hxr hzr
  obtain ⟨hxreq, hfirst, hsecond, hthird⟩ := hxr
  have hl := (journal_linked hj)
  rw [entry_at hx] at hl
  have hown₂ : Belongs plainTokens oneUser (y.2.take 3) 1 secondToken :=
    .of_stored plainTokens secondToken hl.at_entry.1 hsecond
  have hown₃ : Belongs plainTokens oneUser (y.2.take 3) 1 thirdToken :=
    .of_stored plainTokens thirdToken hl.at_entry.1 hthird
  refine ⟨hj, ⟨by rw [hissued]; decide, fun _ _ => rfl⟩, y.2.take 3, x, y.2.drop 4, _, z,
    entry_at hx, hxreq, hfirst, rfl,
    hown₂, hown₃, .rotated .refl (List.mem_of_getElem? hw) hwr, ?_, hzr⟩
  rw [show y.2.drop 4 = z :: y.2.drop 5 from ?_]
  · exact List.mem_cons_self
  · obtain ⟨hi, rfl⟩ := List.getElem?_eq_some_iff.1 hz
    exact List.drop_eq_getElem_cons hi

end DreamFly.Auth
