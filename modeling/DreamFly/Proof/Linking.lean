import DreamFly.Proof.Accounts

/-!
# What requests for accounts commit

A sign-in with Google creates an account, returns to one or links one (`Enters`), on a decision
that may be old when it commits. The other requests are births and updates of a row.

* `AccountReq.Deed`: what a request does to its user.
* `AccountReq.does`: every request does so where it commits.
* `AccountReq.fewer`: only a registration or a sign-in adds a session.
-/

namespace DreamFly.Linking

open Txn Prog Plain
open Content (UpdateProfileRequest)

variable {E : AccountEnv} {K : Rely Registry} {C : Pt Registry → Prop} {σ : Pt Registry}
  {d d₁ d' : Store Registry} {u : Uuid} {α : Type}

/-! ## Signing in with Google -/

/-- Somebody has this Google id. -/
def Known (googleId : String) (d : Store Registry) : Prop := ∃ k r, d.get .users k = some r ∧
    r.googleId = some googleId

/-- The account has a Google id. -/
def IsLinked (u : Uuid) (d : Store Registry) : Prop := ∃ r, d.get .users u = some r ∧
    r.googleId.isSome = true

theorem findUserByGoogleId_some {googleId : String} {p : Uuid × User}
    (h : findUserByGoogleId googleId d = some p) :
    d.get .users p.1 = some p.2 ∧ p.2.googleId = some googleId := by
  obtain ⟨hp, hg⟩ := Store.mem_sel.1 (List.mem_of_mem_head? h)
  exact ⟨hp, of_decide_eq_true hg⟩

theorem findUserByGoogleId_none {googleId : String} (h : findUserByGoogleId googleId d = none) :
    ¬ Known googleId d := by
  rintro ⟨k, r, hk, hg⟩
  unfold findUserByGoogleId at h
  rw [List.head?_eq_none_iff] at h
  have hm : (k, r) ∈ d.sel .users fun _ u => u.googleId = some googleId :=
    Store.mem_sel.2 ⟨hk, decide_eq_true hg⟩
  rw [h] at hm
  cases hm

theorem findUserByEmail_some {email : String} {p : Uuid × User}
    (h : findUserByEmail E email d = some p) :
    d.get .users p.1 = some p.2 ∧ E.letters.lower p.2.email = E.letters.lower email := by
  obtain ⟨hp, he⟩ := Store.mem_sel.1 (List.mem_of_mem_head? h)
  exact ⟨hp, of_decide_eq_true he⟩

/-- The DO UPDATE finds the account still linked, or does nothing. -/
theorem refreshGoogleUser_acts {email name googleId : String} {avatarUrl : Option String} :
    Plain (accountRules E K) C σ (refreshGoogleUser E u email name googleId avatarUrl) fun o σ' =>
      Only (S := Registry) [.users] σ.db σ'.db ∧
      Acts E u σ.db σ'.db ∧ (o = none ∧ σ'.db = σ.db ∨ ∃ r, σ.db.get .users u = some r ∧
        r.googleId = some googleId ∧
        o = some (u, r.refresh email name avatarUrl) ∧
        σ'.db.get .users u = some (r.refresh email name avatarUrl)) := by
  unfold refreshGoogleUser
  refine Yields.bind (Yields.selectFor (m := .update) (by decide) trivial) fun o σ₁ h1 hsel => ?_
  obtain ⟨hd₁, hrow⟩ := hsel
  cases o with
  | none => exact .pure ⟨hd₁ ▸ .refl _ _, hd₁ ▸ .refl _ _, .inl ⟨rfl, hd₁⟩⟩
  | some r =>
    obtain ⟨hh, hr, hg⟩ := hrow r rfl
    have hg : r.googleId = some googleId := of_decide_eq_true hg
    refine Yields.bind (Quiet.ensure _ _ _) fun _ σ₂ h2 hd₂ => ?_
    have hmove : Plain (accountRules E K) C σ₂ (moveEmail E u r.email email) fun _ σ' =>
        σ'.db = σ₂.db ∧
        Holds σ'.held (.uniq (.email (E.letters.lower email))) .update ∧
          ∀ k r', σ'.db.get .users k = some r' → k ≠ u →
            E.letters.lower r'.email ≠ E.letters.lower email := by
      refine Yields.bind (Quiet.lockRes _ _ _) fun _ σ₃ _ hd₃ =>
        takeEmail_free.imp (fun _ σ₄ _ h => ?_) fun _ h => h
      obtain ⟨hd₄, hheld, hfree⟩ := h
      refine ⟨hd₄.trans hd₃, hheld, fun k r' hk hne => hfree k r' hk ?_⟩
      intro h
      exact hne (Option.some.inj h)
    refine Yields.bind hmove fun _ σ₃ h3 hemail => ?_
    obtain ⟨hd₃, hheld, hfree⟩ := hemail
    have hd : σ₃.db = σ.db := by rw [hd₃, hd₂, hd₁]
    set f : User → User := onlyIf (fun u => u.googleId = some googleId)
      (User.refresh email name avatarUrl) with hf
    have hfr : f r = r.refresh email name avatarUrl := if_pos (decide_eq_true hg)
    -- whoever the UPDATE changes is linked
    have hcases : ∀ r₀ : User, f r₀ = r₀ ∨ r₀.googleId = some googleId ∧
        f r₀ = r₀.refresh email name avatarUrl := by
      intro r₀
      rw [hf]
      unfold onlyIf
      split
      next hp => exact .inr ⟨of_decide_eq_true hp, rfl⟩
      next => exact .inl rfl
    have hgoes : ∀ r₀ : User, r₀.GoesTo (f r₀) := by
      intro r₀
      rcases hcases r₀ with he | ⟨hg₀, he⟩
      · rw [he]
        exact .refl r₀
      · rw [he]
        refine ⟨fun h => h, fun hn => ?_, rfl⟩
        have hn : r₀.googleId = none := hn
        rw [hg₀] at hn
        cases hn
    have hsame : ∀ r₀ : User, (f r₀).googleId = r₀.googleId := by
      intro r₀
      rcases hcases r₀ with he | ⟨-, he⟩
      · rw [he]
      · rw [he]
        rfl
    have hcov : (accountRules E K).Covers σ₃.held (.mod AccountTbl.users u f) := by
      refine covers_user (h3.holds (h2.holds (hh.weaken (by decide)))) hgoes (fun r₀ => ?_)
        fun r₀ x hx => .inl (by rw [← hsame]; exact hx)
      rcases hcases r₀ with he | ⟨-, he⟩
      · exact .inl (by rw [he])
      · right
        rw [he]
        exact hheld
    refine Yields.bind (Yields.put hcov) fun _ σ₄ _ hs => .pure ?_
    have hr₃ : σ₃.db.get .users u = some r := by rw [hd]; exact hr
    rw [hs, Pt.write_db, ← hd]
    refine ⟨Only.write (S := Registry) (w := .mod AccountTbl.users u f) _ List.mem_cons_self, ?_,
      .inr ⟨r, hr₃, hg, rfl, ?_⟩⟩
    · refine Acts.mod_user hr₃ (hgoes r) (.inr ?_) (.inl (hsame r))
      rw [hfr]
      exact hfree
    · rw [Store.get_mod, if_pos rfl, hr₃, Option.map_some, hfr]

/-- A user with this Google id is there afterwards: a new one, which nobody had had, or the one
who had it, refreshed. -/
theorem createOrUpdateGoogleUserTx_acts {email name googleId : String} {avatarUrl : Option String} :
    Plain (accountRules E K) C σ (createOrUpdateGoogleUserTx E email name googleId avatarUrl)
    fun p σ' => Only (S := Registry) [.users] σ.db σ'.db ∧
      Acts E p.1 σ.db σ'.db ∧ σ'.db.get .users p.1 = some p.2 ∧
      (σ.now.get .users p.1 = none ∧ σ.db.get .users p.1 = none ∧ ¬ Known googleId σ.db ∧
          p.2 = ⟨email, name, none, false, avatarUrl, none, some googleId, true, none, none⟩ ∨
        ∃ r, σ.db.get .users p.1 = some r ∧ r.googleId = some googleId ∧
          p.2 = r.refresh email name avatarUrl) := by
  unfold createOrUpdateGoogleUserTx
  refine Yields.bind (Quiet.lockRes _ _ _) fun _ σ₁ h1 hd₁ =>
    Yields.bind (Quiet.read _ _) fun existing σ₂ h2 hd₂ => ?_
  have hd : σ₂.db = σ.db := by rw [hd₂, hd₁]
  have hupdate : Plain (accountRules E K) C σ₂
      (refreshExisting E existing email name googleId avatarUrl) fun o σ' =>
      (o = none ∧ σ'.db = σ₂.db) ∨
        ∃ p r, o = some p ∧ Only (S := Registry) [.users] σ₂.db σ'.db ∧ Acts E p.1 σ₂.db σ'.db ∧
          σ'.db.get .users p.1 = some p.2 ∧
          σ₂.db.get .users p.1 = some r ∧ r.googleId = some googleId ∧
          p.2 = r.refresh email name avatarUrl := by
    cases existing with
    | none => exact .pure (.inl ⟨rfl, rfl⟩)
    | some p =>
      refine (refreshGoogleUser_acts (u := p.1)).imp (fun o σ' _ h => ?_) fun _ h => h
      obtain ⟨ho, ha, hcase⟩ := h
      rcases hcase with ⟨rfl, hs⟩ | ⟨r, hr, hg, rfl, hr'⟩
      · exact .inl ⟨rfl, hs⟩
      · exact .inr ⟨_, r, rfl, ho, ha, hr', hr, hg, rfl⟩
  refine Yields.bind hupdate fun o σ₃ h3 hcase => ?_
  rcases hcase with ⟨rfl, hd₃⟩ | ⟨p, r, rfl, ho, ha, hp, hr, hg, he⟩
  · refine insertUser_adds.imp (fun p σ' _ h => ?_) fun _ h => h
    obtain ⟨hp, hnow, hn, hfree, ho, hr, ha⟩ := h
    rw [hd₃, hd] at hn hfree ho ha
    rw [h3.now, h2.now, h1.now] at hnow
    refine ⟨ho, ha, by rw [hp]; exact hr, .inl ⟨hnow, hn, ?_, hp⟩⟩
    rintro ⟨k, r, hk, hg⟩
    exact hfree googleId rfl k r hk hg
  · rw [hd] at ho ha hr
    exact .pure ⟨ho, ha, hp, .inr ⟨r, hr, hg, he⟩⟩

/-- The account has this Google id afterwards, whatever it had. -/
theorem linkGoogleAccountTx_acts {googleId : String} {avatarUrl : Option String} :
    Plain (accountRules E K) C σ (linkGoogleAccountTx u googleId avatarUrl) fun p σ' =>
      Only (S := Registry) [.users] σ.db σ'.db ∧
      Acts E u σ.db σ'.db ∧ p.1 = u ∧ σ'.db.get .users u = some p.2 ∧
      ∃ r, σ.db.get .users u = some r ∧ p.2 = r.link googleId avatarUrl := by
  unfold linkGoogleAccountTx
  refine Yields.bind (Yields.selectFor (m := .update) (by decide) trivial) fun o σ₁ h1 hsel => ?_
  obtain ⟨hd₁, hrow⟩ := hsel
  refine Yields.bind (R := fun r σ' => σ' = σ₁ ∧ o = some r)
    (.orFail (fun r hr => ⟨rfl, hr⟩) trivial) fun r σ₂ _ hor => ?_
  obtain ⟨rfl, rfl⟩ := hor
  obtain ⟨hh, hr, -⟩ := hrow r rfl
  refine Yields.bind (Quiet.ensure _ _ _) fun _ σ₃ h3 hd₃ => ?_
  have hmove : Plain (accountRules E K) C σ₃ (moveGoogleId u r.googleId googleId) fun _ σ' =>
      σ'.db = σ₃.db ∧
      Holds σ'.held (.uniq (.googleId googleId)) .update ∧
        ∀ k r', σ'.db.get .users k = some r' → k ≠ u → r'.googleId ≠ some googleId := by
    have hold : Quiet (accountRules E K) C (lockGoogleId r.googleId) := by
      cases r.googleId with
      | none => exact Quiet.ret ()
      | some old => exact Quiet.lockRes _ _
    refine Yields.bind (hold _) fun _ σ₄ _ hd₄ => takeGoogleId_free.imp (fun _ σ₅ _ h => ?_)
      fun _ h => h
    obtain ⟨hd₅, hheld, hfree⟩ := h
    refine ⟨hd₅.trans hd₄, hheld, fun k r' hk hne => hfree k r' hk ?_⟩
    intro h
    exact hne (Option.some.inj h)
  refine Yields.bind hmove fun _ σ₄ h4 hgoogle => ?_
  obtain ⟨hd₄, hheld, hfree⟩ := hgoogle
  have hd : σ₄.db = σ.db := by rw [hd₄, hd₃, hd₁]
  have hgoes : ∀ r₀ : User, r₀.GoesTo (r₀.link googleId avatarUrl) := by
    intro r₀
    refine ⟨fun _ => rfl, fun hn => ?_, rfl⟩
    cases hn
  have hcov : (accountRules E K).Covers σ₄.held
      (.mod AccountTbl.users u (User.link googleId avatarUrl)) := by
    refine covers_user (h4.holds (h3.holds (hh.weaken (by decide)))) hgoes (fun r₀ => .inl rfl)
      fun r₀ x hx => ?_
    cases hx
    exact .inr hheld
  refine Yields.bind (Yields.put hcov) fun _ σ₅ _ hs => .pure ?_
  have hr₄ : σ₄.db.get .users u = some r := by rw [hd]; exact hr
  rw [hs, Pt.write_db, ← hd]
  refine ⟨Only.write (S := Registry)
    (w := .mod AccountTbl.users u (User.link googleId avatarUrl)) _ List.mem_cons_self, ?_, rfl, ?_,
    r, hr₄, rfl⟩
  · refine Acts.mod_user hr₄ (hgoes r) (.inl rfl) (.inr fun k r' hk hne x hx => ?_)
    cases hx
    exact hfree k r' hk hne
  · rw [Store.get_mod, if_pos rfl, hr₄, Option.map_some]

/-- What a plan says of the store the call began on and of the one it commits over. -/
def Planned (E : AccountEnv) (K : Rely Registry) (googleId email : String) (b a : Store Registry)
    (p : LinkPlan) : Prop :=
  match p.action with
  | .create =>
    p.grantMember = true ∧ p.emitRegisteredEvent = true ∧ ∃ v, K.rel [] v a ∧ ¬ Known googleId v
  | .link u => p.grantMember = false ∧ p.emitRegisteredEvent = true ∧ ¬ IsLinked u b ∧
      ∀ r, a.get .users u = some r → r.googleId = none →
        E.letters.lower r.email = E.letters.lower email
  | .refresh =>
    p.grantMember = false ∧ p.emitRegisteredEvent = false ∧ ∃ v, K.rel [] v a ∧ Known googleId v

theorem lookUp_plans {identity : GoogleIdentity} {email : String} (hws : σ.ws = [])
    (hdb' : σ.db = σ.now) :
    Plain (accountRules E K) C σ (lookUp E identity email) fun p σ' => σ' = σ ∧
    Planned E K identity.sub email σ.start σ.now p := by
  have hdb : ∀ v₀, Store.overlay σ.ws v₀ = v₀ := fun v₀ => by rw [hws]; rfl
  have hkeep : ∀ {v₀}, (accountRules E K).more.rel σ.held v₀ σ.now → K.rel [] v₀ σ.now :=
    fun h => K.anti (List.nil_subset _) h
  unfold lookUp
  refine Yields.bind (R := fun o σ' => σ' = σ ∧ ∃ v, K.rel [] v σ.now ∧
    o = findUserByGoogleId identity.sub v) ?_ fun byGoogle σ₁ _ h => ?_
  · refine Yields.snapshot fun v₀ _ _ hmore => ⟨rfl, v₀, hkeep hmore, ?_⟩
    rw [hdb]
  obtain ⟨rfl, v, hv, hgoogle⟩ := h
  cases byGoogle with
  | some p =>
    have hknown : Known identity.sub v := ⟨p.1, p.2, (findUserByGoogleId_some hgoogle.symm).1,
      (findUserByGoogleId_some hgoogle.symm).2⟩
    refine Yields.bind (R := fun o σ' => σ' = σ₁ ∧ o = none)
      (.pure ⟨rfl, rfl⟩) fun byEmail σ₂ _ h => ?_
    obtain ⟨rfl, rfl⟩ := h
    exact .ret ⟨rfl, rfl, rfl, v, hv, hknown⟩
  | none =>
    -- nobody is linked to the Google account, so the address decides
    have hunknown : ¬ Known identity.sub v := findUserByGoogleId_none hgoogle.symm
    refine Yields.bind (R := fun o σ' => σ' = σ₁ ∧ ∃ v, (accountRules E K).rel [] σ₁.start v ∧
      (accountRules E K).rel σ₁.held v σ₁.db ∧
      o = findUserByEmail E email v) (.read fun v hs hv => ⟨rfl, v, hs, hv, rfl⟩)
        fun byEmail σ₂ _ h => ?_
    obtain ⟨rfl, v', hstart, hnow, hemail⟩ := h
    cases byEmail with
    | none => exact .ret ⟨rfl, rfl, rfl, v, hv, hunknown⟩
    | some p =>
      obtain ⟨hp, he⟩ := findUserByEmail_some hemail.symm
      unfold plan
      dsimp only
      cases hg : p.2.googleId with
      | some g =>
        rw [if_pos (show (some g).isSome = true from rfl)]
        exact .fail trivial
      | none =>
        rw [if_neg (by decide)]
        refine .ret ⟨rfl, rfl, rfl, fun hlinked => ?_, fun r hr hn => ?_⟩
        · -- who was linked at the start still is
          obtain ⟨r₀, hr₀, hs⟩ := hlinked
          obtain ⟨r', hr', hgoes⟩ := rel_users hstart hr₀
          rw [hp] at hr'
          cases hr'
          have hs' := hgoes.linked hs
          rw [hg] at hs'
          cases hs'
        · obtain ⟨r', hr', hgoes⟩ := rel_users hnow hp
          rw [hdb', hr] at hr'
          cases hr'
          rw [hgoes.email hn]
          exact he

/-- The role and the event of a new account. -/
structure Welcomed (u : Uuid) (email name : String) (correlationId : Option String)
    (a d' : Store Registry) : Prop where
  role : (d'.get .userRoles (u, .member)).isSome = true
  event : ∃ k, a.get .eventsOutbox k = none ∧ d'.get .eventsOutbox k = some ⟨⟨u, email, name⟩,
    correlationId⟩

/-- How somebody with a Google identity gets to the account `u`. -/
inductive Enters (E : AccountEnv) (K : Rely Registry) (i : GoogleIdentity)
    (correlationId : Option String) (b a d' : Store Registry) (u : Uuid) : Prop
  /-- A new account, since nobody has the Google id. It is welcomed, unless somebody had been found
  who had it. -/
  | created (l : Option Instant) (new : a.get .users u = none) (unknown : ¬ Known i.sub a)
      (row : d'.get .users u = some ⟨normalizeEmail E i.email, i.name.getD i.email, none, false,
        i.picture, none, some i.sub, true, l, none⟩)
      (told : Welcomed u (normalizeEmail E i.email) (i.name.getD i.email) correlationId a d' ∨
        ∃ v, K.rel [] v a ∧ Known i.sub v)
  /-- The account that has the Google id. Its roles stay, unless nobody had been found who had it.
  -/
  | returned (l : Option Instant) (r : User) (old : a.get .users u = some r)
  (known : r.googleId = some i.sub)
      (row : d'.get .users u = some { r.refresh (normalizeEmail E i.email)
        (i.name.getD i.email) i.picture with lastLogin := l })
      (told : ((∀ k, d'.get .userRoles k = a.get .userRoles k) ∧
        ∀ k, d'.get .eventsOutbox k = a.get .eventsOutbox k) ∨
        ∃ v, K.rel [] v a ∧ ¬ Known i.sub v)
  /-- The account that has the email; it was not linked when the call began. -/
  | linked (l : Option Instant) (r : User) (old : a.get .users u = some r) (free : ¬ IsLinked u b)
      (email : r.googleId = none → E.letters.lower r.email =
        E.letters.lower (normalizeEmail E i.email))
      (row : d'.get .users u = some { r.link i.sub i.picture with lastLogin := l })
      (roles : ∀ k, d'.get .userRoles k = a.get .userRoles k)
      (event : ∃ k, a.get .eventsOutbox k = none ∧
        d'.get .eventsOutbox k = some ⟨⟨u, r.email, r.name⟩, correlationId⟩)

/-- What `carryOut` does to the row, by the action. -/
inductive Carried (E : AccountEnv) (i : GoogleIdentity) (action : LinkAction)
    (a d' : Store Registry) (p : Uuid × User) : Prop
  | created (upsert : ∀ u, action ≠ .link u) (new : a.get .users p.1 = none)
  (unknown : ¬ Known i.sub a)
      (row : p.2 = ⟨normalizeEmail E i.email, i.name.getD i.email, none, false, i.picture, none,
        some i.sub, true, none, none⟩)
  | returned (upsert : ∀ u, action ≠ .link u) (r : User) (old : a.get .users p.1 = some r)
  (known : r.googleId = some i.sub)
      (row : p.2 = r.refresh (normalizeEmail E i.email) (i.name.getD i.email) i.picture)
  | linked (link : action = .link p.1) (r : User) (old : a.get .users p.1 = some r)
  (row : p.2 = r.link i.sub i.picture)

theorem carryOut_acts {i : GoogleIdentity} {action : LinkAction} (hdb : σ.db = σ.now) :
    Plain (accountRules E K) C σ (carryOut E action i (normalizeEmail E i.email)
      (i.name.getD i.email)) fun p σ' =>
      Only (S := Registry) [.users] σ.db σ'.db ∧ Acts E p.1 σ.db σ'.db ∧
      σ'.db.get .users p.1 = some p.2 ∧ Carried E i action σ.now σ'.db p := by
  have hupsert : (∀ u, action ≠ .link u) → Plain (accountRules E K) C σ
      (createOrUpdateGoogleUserTx E (normalizeEmail E i.email)
        (i.name.getD i.email) i.sub i.picture) fun p σ' =>
        Only (S := Registry) [.users] σ.db σ'.db ∧ Acts E p.1 σ.db σ'.db ∧
          σ'.db.get .users p.1 = some p.2 ∧ Carried E i action σ.now σ'.db p := by
    intro ha
    refine createOrUpdateGoogleUserTx_acts.imp (fun p σ' _ h => ⟨h.1, h.2.1, h.2.2.1, ?_⟩)
      fun _ h => h
    rw [hdb] at h
    rcases h.2.2.2 with ⟨-, hn, hu, he⟩ | ⟨r, hr, hg, he⟩
    · exact .created ha hn hu he
    · exact .returned ha r hr hg he
  cases action with
  | create => exact hupsert fun _ h => by cases h
  | refresh => exact hupsert fun _ h => by cases h
  | link u =>
    refine linkGoogleAccountTx_acts.imp (fun p σ' _ h => ?_) fun _ h => h
    obtain ⟨ho, ha, hu, hrow, r, hr, he⟩ := h
    subst hu
    exact ⟨ho, ha, hrow, .linked rfl r (hdb ▸ hr) he⟩

/-- **What a sign-in with Google commits.** -/
theorem googleAuthTx_enters {i : GoogleIdentity} {correlationId : Option String} {now : Instant}
    (hws : σ.ws = []) (hdb : σ.db = σ.now) :
    Plain (accountRules E K) C σ (googleAuthTx E i correlationId now) fun _ σ' =>
      ∃ u, Acts E u σ.now σ'.db ∧
      Enters E K i correlationId σ.start σ.now σ'.db u ∧ ∃ r, σ'.db.get .users u = some r ∧
        r.googleId = some i.sub ∧ r.isActive = true := by
  unfold googleAuthTx
  refine Yields.bind (lookUp_plans hws hdb) fun p σ₁ _ hplan => ?_
  obtain ⟨rfl, hplan⟩ := hplan
  refine Yields.bind (carryOut_acts hdb) fun user σ₂ h2 hcarried => ?_
  obtain ⟨ho₂, ha₂, hrow₂, hcarried⟩ := hcarried
  have hgrant : Plain (accountRules E K) C σ₂ (if p.grantMember = true then
      assignRole user.1 .member else pure ()) fun _ σ' =>
      Only (S := Registry) [.userRoles] σ₂.db σ'.db ∧ Acts E user.1 σ₂.db σ'.db ∧
        (p.grantMember = true → (σ'.db.get .userRoles (user.1, .member)).isSome = true) ∧
        (p.grantMember = false → σ'.db = σ₂.db) := by
    cases p.grantMember with
    | true =>
      exact assignRole_grants.imp (fun _ _ _ h => ⟨h.1, h.2.1, fun _ => h.2.2,
        fun hf => by cases hf⟩) fun _ h => h
    | false => exact .pure ⟨.refl _ _, .refl _ _, fun ht => (by cases ht), fun _ => rfl⟩
  refine Yields.bind hgrant fun _ σ₃ h3 hgranted =>
    Yields.bind updateLastLogin_acts fun _ σ₄ h4 hlogin => ?_
  obtain ⟨ho₃, ha₃, hgranted, hungranted⟩ := hgranted
  obtain ⟨ho₄, ha₄, hlogin⟩ := hlogin
  refine Yields.bind start_opens fun response σ₅ h5 hopens => ?_
  obtain ⟨ho₅, ha₅, hactive, -⟩ := hopens
  have htell : Plain (accountRules E K) C σ₅ (if p.emitRegisteredEvent = true then
        insertDomainEventTx ⟨user.1, user.2.email, user.2.name⟩ correlationId else pure ())
          fun _ σ' =>
      Only (S := Registry) [.eventsOutbox] σ₅.db σ'.db ∧ Acts E user.1 σ₅.db σ'.db ∧
        (p.emitRegisteredEvent = true → ∃ k, σ₅.now.get .eventsOutbox k = none ∧
          σ'.db.get .eventsOutbox k = some ⟨⟨user.1, user.2.email, user.2.name⟩, correlationId⟩) ∧
        (p.emitRegisteredEvent = false → σ'.db = σ₅.db) := by
    cases p.emitRegisteredEvent with
    | true =>
      exact insertDomainEventTx_tells.imp (fun _ _ _ h =>
        ⟨h.1, h.2.1, fun _ => h.2.2, fun hf => by cases hf⟩) fun _ h => h
    | false => exact .pure ⟨.refl _ _, .refl _ _, fun ht => (by cases ht), fun _ => rfl⟩
  refine Yields.bind htell fun _ σ₆ h6 htold => .pure ?_
  obtain ⟨ho₆, ha₆, htold, huntold⟩ := htold
  have hnow : σ₅.now = σ₁.now := by rw [h5.now, h4.now, h3.now, h2.now]
  rw [hnow] at htold
  rw [hdb] at ha₂ ho₂
  -- the row of the user, after the last write to it
  have hrow₃ : σ₃.db.get .users user.1 = some user.2 := by
    rw [ho₃.get (by decide)]
    exact hrow₂
  obtain ⟨l, hl⟩ := hlogin user.2 hrow₃
  have hrow : σ₆.db.get .users user.1 = some { user.2 with lastLogin := l } := by
    rw [ho₆.get (by decide), ho₅.get (by decide)]
    exact hl
  -- where no role was granted or no event written, the table is as it was
  have hroles : p.grantMember = false → ∀ k, σ₆.db.get .userRoles k = σ₁.now.get .userRoles k := by
    intro hg k
    rw [ho₆.get (by decide), ho₅.get (by decide), ho₄.get (by decide), hungranted hg,
      ho₂.get (by decide)]
  have hevents : p.emitRegisteredEvent = false → ∀ k, σ₆.db.get .eventsOutbox k =
      σ₁.now.get .eventsOutbox k := by
    intro he k
    rw [huntold he, ho₅.get (by decide), ho₄.get (by decide), ho₃.get (by decide),
      ho₂.get (by decide)]
  have hmember : p.grantMember = true → (σ₆.db.get .userRoles (user.1, .member)).isSome = true := by
    intro hg
    rw [ho₆.get (by decide), ho₅.get (by decide), ho₄.get (by decide)]
    exact hgranted hg
  unfold Planned at hplan
  refine ⟨user.1, ha₂.trans (ha₃.trans (ha₄.trans (ha₅.trans ha₆))), ?_, _, hrow, ?_, hactive⟩
  · cases hcarried with
    | created upsert new unknown row =>
      rw [row] at hrow htold
      refine .created l new unknown hrow ?_
      cases hp : p.action with
      | link u => exact absurd hp (upsert u)
      | create =>
        rw [hp] at hplan
        exact .inl ⟨hmember hplan.1, htold hplan.2.1⟩
      | refresh =>
        rw [hp] at hplan
        exact .inr hplan.2.2
    | returned upsert r old known row =>
      rw [row] at hrow
      refine .returned l r old known hrow ?_
      cases hp : p.action with
      | link u => exact absurd hp (upsert u)
      | create =>
        rw [hp] at hplan
        exact .inr hplan.2.2
      | refresh =>
        rw [hp] at hplan
        exact .inl ⟨hroles hplan.1, hevents hplan.2.1⟩
    | linked link r old row =>
      rw [link] at hplan
      obtain ⟨hg, he, hfree, hemail⟩ := hplan
      rw [row] at hrow htold
      exact .linked l r old hfree (fun hn => hemail r old hn) hrow (hroles hg) (htold he)
  · cases hcarried with
    | created upsert new unknown row => rw [row]
    | returned upsert r old known row =>
      rw [row]
      exact known
    | linked link r old row =>
      rw [row]
      rfl

/-! ## Requests -/

/-- A new account with a password. -/
structure Born (E : AccountEnv) (account : NewAccount) (correlationId : Option String)
    (a d' : Store Registry) (u : Uuid) : Prop where
  new : a.get .users u = none
  row : d'.get .users u = some ⟨normalizeEmail E account.email, account.name, account.phone, false,
    none, some account.passwordHash, none, true, none,
    account.birthDate⟩
  welcomed : Welcomed u (normalizeEmail E account.email) account.name correlationId a d'

theorem createAccount_born {account : NewAccount} {correlationId : Option String}
    (hdb : σ.db = σ.now) :
    Plain (accountRules E K) C σ (createAccount E account correlationId) fun p σ' =>
      Acts E p.1 σ.now σ'.db ∧
      Born E account correlationId σ.now σ'.db p.1 := by
  unfold createAccount createUserTx
  refine Yields.bind insertUser_adds fun user σ₁ h1 hnew =>
    Yields.bind assignRole_grants fun _ σ₂ h2 hrole => ?_
  obtain ⟨huser, hn, -, -, -, hrow, ha₁⟩ := hnew
  obtain ⟨ho₂, ha₂, hrole⟩ := hrole
  refine Yields.bind insertDomainEventTx_tells fun _ σ₃ h3 hevent => .pure ?_
  obtain ⟨ho₃, ha₃, k, hk, hevent⟩ := hevent
  rw [hdb] at ha₁
  rw [h2.now, h1.now] at hk
  rw [huser] at hevent
  refine ⟨ha₁.trans (ha₂.trans ha₃), hn, ?_, ?_, k, hk, hevent⟩
  · rw [ho₃.get (by decide), ho₂.get (by decide)]
    exact hrow
  · rw [ho₃.get (by decide)]
    exact hrole

/-- What a committed request does to its user. -/
def AccountReq.Deed (E : AccountEnv) (K : Rely Registry) (b a d' : Store Registry) (u : Uuid) :
    AccountReq → Prop
  | .register req correlationId _ => ∃ salt hash, E.hashForStorage salt req.password = .ok hash ∧
      Born E ⟨req.email, req.name, none, none, hash⟩ correlationId a d' u
  | .createUser req correlationId _ => ∃ salt hash, E.hashForStorage salt req.password = .ok hash ∧
      Born E ⟨req.email, req.name, req.phone, req.birthDate, hash⟩ correlationId a d' u
  | .googleAuth verified correlationId _ =>
    ∃ i, verified = .ok i ∧ Enters E K i correlationId b a d' u ∧
      ∃ r, d'.get .users u = some r ∧ r.googleId = some i.sub ∧ r.isActive = true
  | .adminUpdateUser userId req =>
    u = userId ∧ ∃ r active, a.get .users u = some r ∧
      (active = r.isActive ∨ req.isActive = some active) ∧
      d'.get .users u = some (User.adminUpdate req { r with isActive := active })
  | .updateMe userId req _ =>
    u = userId ∧ ∃ r, a.get .users u = some r ∧ d'.get .users u = some (r.updateProfile req)

/-- What a committed request does: it is about one user. -/
def AccountReq.Does (E : AccountEnv) (K : Rely Registry) (q : AccountReq) (b : Store Registry)
    (σ : Pt Registry) : Prop :=
  ∃ u, Acts E u σ.now σ.db ∧ q.Deed E K b σ.now σ.db u

theorem withPhone_same (phone : Option String) (r : User) : r.SameIdentity (r.withPhone phone) := by
  cases phone <;> exact ⟨rfl, rfl, rfl⟩

theorem adminUpdate_same (req : UpdateUserRequest) (r : User) :
    r.SameIdentity (r.adminUpdate req) := by
  obtain ⟨h1, h2, h3⟩ := withPhone_same req.phone r
  exact ⟨h1, h2, h3⟩

theorem updateProfile_same (req : UpdateProfileRequest) (r : User) :
    r.SameIdentity (r.updateProfile req) := by
  obtain ⟨h1, h2, h3⟩ := withPhone_same req.phone r
  exact ⟨h1, h2, h3⟩

/-- An UPDATE of a user's own columns. -/
theorem updateUser_acts {f : User → User} (hf : ∀ r : User, r.SameIdentity (f r)) :
    Plain (accountRules E K) C σ (updateUser u f) fun o σ' => Acts E u σ.db σ'.db ∧
    (o = none ∧ σ'.db = σ.db ∨
      ∃ r, σ.db.get .users u = some r ∧ o = some (f r) ∧ σ'.db.get .users u = some (f r)) := by
  unfold updateUser
  refine Yields.bind (updateRow_acts hf) fun o σ₁ _ h =>
    Yields.bind (Quiet.ensure _ _ _) fun _ σ₂ _ hd => .pure ?_
  rw [hd]
  exact h.2

/-- The flag, and the sessions. -/
theorem updateActive_acts {isActive : Option Bool} :
    Plain (accountRules E K) C σ (updateActive u isActive) fun _ σ' => Acts E u σ.db σ'.db ∧
        ∀ r', σ'.db.get .users u = some r' → ∃ r active, σ.db.get .users u = some r ∧
          (active = r.isActive ∨ isActive = some active) ∧
          r' = { r with isActive := active } := by
  have hset : ∀ b, Plain (accountRules E K) C σ (setActiveTx u b) fun _ σ' => Acts E u σ.db σ'.db ∧
      ∀ r', σ'.db.get .users u = some r' → ∃ r active, σ.db.get .users u = some r ∧
        (active = r.isActive ∨ some b = some active) ∧
        r' = { r with isActive := active } := by
    intro b
    unfold setActiveTx
    refine Yields.bind (updateRow_acts fun r => ⟨rfl, rfl, rfl⟩) fun o σ₁ _ h =>
      .pure ⟨h.2.1, fun r' hr' => ?_⟩
    rcases h.2.2 with ⟨-, hd⟩ | ⟨r, hr, -, hrow⟩
    · rw [hd] at hr'
      exact ⟨r', r'.isActive, hr', .inl rfl, rfl⟩
    · rw [hr'] at hrow
      exact ⟨r, b, hr, .inr rfl, Option.some.inj hrow⟩
  cases isActive with
  | none => exact .pure ⟨.refl _ _, fun r hr => ⟨r, r.isActive, hr, .inl rfl, rfl⟩⟩
  | some b =>
    cases b with
    | true => exact hset true
    | false =>
      refine Yields.bind (hset false) fun _ σ₁ _ h =>
        endAll_acts.imp (fun _ σ₂ _ he => ⟨h.1.trans he.2.1, fun r' hr' => ?_⟩) fun _ h => h
      rw [he.1.get (by decide)] at hr'
      exact h.2 r' hr'

theorem Born.later {account : NewAccount} {correlationId : Option String} {a : Store Registry}
    (h : Born E account correlationId a d u)
    (ho : Only (S := Registry) [.refreshTokens] d d') : Born E account correlationId a d' u := by
  obtain ⟨hn, hrow, hrole, k, hk, hevent⟩ := h
  refine ⟨hn, ?_, ?_, k, hk, ?_⟩
  · rw [ho.get (by decide)]
    exact hrow
  · rw [ho.get (by decide)]
    exact hrole
  · rw [ho.get (by decide)]
    exact hevent

theorem salt_yields : Plain (accountRules E K) C σ (choose : Tx ℕ) fun _ σ' => σ' = σ :=
    fun _ => ⟨.refl _, rfl⟩

theorem rolesAfter_quiet {g : List Role → α} (userId : Uuid) :
    Quiet (accountRules E K) C (findRoleNamesByUser userId >>= fun roles => pure (g roles)) :=
  (Quiet.read _).bind fun _ => Quiet.ret _

/-- **Each request is about one user where it commits.** -/
theorem AccountReq.does (E : AccountEnv) (K : Rely Registry) (q : AccountReq)
    (b d' : Store Registry) :
    Commits (accountRules E K) (q.Does E K b) ((accounts E).prog q) (.begin b d' false) := by
  cases q with
  | register req correlationId now =>
    refine commits_map ?_
    refine commits_bind salt_yields fun salt σ₁ h₁ hs =>
      commits_bind plain_checked_same fun hash σ₂ h₂ hhash => ?_
    subst hs
    obtain ⟨rfl, hhash⟩ := hhash
    -- salt and hash are made before the transaction begins
    refine commits_atomically (R := fun _ σ' => ∃ u, Acts E u d' σ'.db ∧
      Born E ⟨req.email, req.name, none, none, hash⟩ correlationId d' σ'.db u) ?_
      fun _ σ' hl h => ?_
    · refine Yields.bind (conflictOnUnique_yields (createAccount_born rfl)) fun user σ₃ _ hborn =>
        start_opens.imp (fun _ σ₄ _ h => ?_) fun _ h => h
      exact ⟨user.1, hborn.1.trans h.2.1, hborn.2.later h.1⟩
    · obtain ⟨u, ha, hborn⟩ := h
      have hnow : σ'.now = d' := hl.now
      rw [← hnow] at ha hborn
      exact ⟨u, ha, salt, hash, hhash, hborn⟩
  | createUser req correlationId today =>
    refine commits_map ?_
    refine commits_bind plain_checked_same fun _ σ₁ h₁ hs =>
      commits_bind salt_yields fun salt σ₂ h₂ hsalt =>
      commits_bind plain_checked_same fun hash σ₃ h₃ hhash => ?_
    obtain ⟨rfl, -⟩ := hs
    subst hsalt
    obtain ⟨rfl, hhash⟩ := hhash
    refine commits_atomically (R := fun _ σ' => ∃ u, Acts E u d' σ'.db ∧
      Born E ⟨req.email, req.name, req.phone, req.birthDate, hash⟩ correlationId d' σ'.db u) ?_
        fun _ σ' hl h => ?_
    · refine Yields.bind (conflictOnUnique_yields (createAccount_born rfl)) fun user σ₃ _ hborn =>
        Yields.bind (Quiet.read _ _) fun _ σ₄ _ hd => .pure ?_
      rw [hd]
      exact ⟨user.1, hborn⟩
    · obtain ⟨u, ha, hborn⟩ := h
      have hnow : σ'.now = d' := hl.now
      rw [← hnow] at ha hborn
      exact ⟨u, ha, salt, hash, hhash, hborn⟩
  | googleAuth verified correlationId now =>
    refine commits_map ?_
    refine commits_bind plain_checked_same fun i σ₁ h₁ hs => ?_
    obtain ⟨rfl, hi⟩ := hs
    refine commits_atomically (googleAuthTx_enters rfl rfl) fun _ σ' hl h => ?_
    obtain ⟨u, ha, henters, hrow⟩ := h
    have hnow : σ'.now = d' := hl.now
    rw [← hnow] at ha
    refine ⟨u, ha, i, hi, ?_, hrow⟩
    rw [hnow]
    exact henters
  | adminUpdateUser userId req =>
    refine commits_map ?_
    refine commits_bind (R := fun _ σ' => σ' = .begin b d' false)
      (.ensure (fun _ => rfl) trivial) fun _ σ₁ _ hs => ?_
    subst hs
    -- both updates are in the transaction, the roles are read after it
    refine commits_then (R := fun _ σ' => Acts E userId d' σ'.db ∧
      ∃ r active, d'.get .users userId = some r ∧
      (active = r.isActive ∨ req.isActive = some active) ∧
      σ'.db.get .users userId = some (User.adminUpdate req { r with isActive := active })) ?_
      (fun _ σ' hl h => ?_) fun user σ' => ?_
    · refine Yields.bind updateActive_acts fun _ σ₂ _ hactive =>
        Yields.bind (updateUser_acts (adminUpdate_same req)) fun o σ₃ _ hupdate => ?_
      refine Yields.orFail (fun r hr => ?_) trivial
      subst hr
      rcases hupdate.2 with ⟨he, -⟩ | ⟨r₁, hr₁, -, hr₃⟩
      · cases he
      obtain ⟨r, active, hr, hact, rfl⟩ := hactive.2 r₁ hr₁
      exact ⟨hactive.1.trans hupdate.1, r, active, hr, hact, hr₃⟩
    · obtain ⟨ha, r, active, hr, hact, hrow⟩ := h
      have hnow : σ'.now = d' := hl.now
      rw [← hnow] at ha hr
      exact ⟨userId, ha, rfl, r, active, hr, hact, hrow⟩
    · exact (rolesAfter_quiet userId).commits
  | updateMe userId req today =>
    refine commits_map ?_
    refine commits_bind plain_checked_same fun _ σ₁ h₁ hs => ?_
    obtain ⟨rfl, -⟩ := hs
    refine commits_then (R := fun _ σ' => Acts E userId d' σ'.db ∧
      ∃ r, d'.get .users userId = some r ∧
      σ'.db.get .users userId = some (r.updateProfile req)) ?_ (fun _ σ' hl h =>
        ?_) fun user σ' => ?_
    · refine Yields.bind (updateUser_acts (updateProfile_same req)) fun o σ₃ _ hupdate =>
        Yields.orFail (fun r hr => ?_) trivial
      subst hr
      rcases hupdate.2 with ⟨he, -⟩ | ⟨r₁, hr₁, -, hr₃⟩
      · cases he
      · exact ⟨hupdate.1, r₁, hr₁, hr₃⟩
    · obtain ⟨ha, r, hr, hrow⟩ := h
      have hnow : σ'.now = d' := hl.now
      rw [← hnow] at ha hr
      exact ⟨userId, ha, rfl, r, hr, hrow⟩
    · exact (rolesAfter_quiet userId).commits

/-! ## Sessions -/

/-- The requests that start a session. -/
def AccountReq.Earns : AccountReq → Prop
  | .register .. | .googleAuth .. => True
  | .createUser .. | .adminUpdateUser .. | .updateMe .. => False

theorem createAccount_only {account : NewAccount} {correlationId : Option String} :
    Plain (accountRules E K) C σ (createAccount E account correlationId) fun _ σ' =>
      Only (S := Registry) [.users, .userRoles, .eventsOutbox] σ.db σ'.db := by
  unfold createAccount createUserTx
  refine Yields.bind insertUser_adds fun user σ₁ _ hnew =>
    Yields.bind assignRole_grants fun _ σ₂ _ hrole => ?_
  refine Yields.bind insertDomainEventTx_tells fun _ σ₃ _ hevent => .pure ?_
  obtain ⟨-, -, -, -, ho₁, -⟩ := hnew
  exact (ho₁.mono (by decide)).trans ((hrole.1.mono (by decide)).trans (hevent.1.mono (by decide)))

theorem updateUser_only {f : User → User} (hf : ∀ r : User, r.SameIdentity (f r)) :
    Plain (accountRules E K) C σ (updateUser u f) fun _ σ' => Only (S := Registry)
    [.users] σ.db σ'.db := by
  unfold updateUser
  refine Yields.bind (updateRow_acts hf) fun o σ₁ _ h =>
    Yields.bind (Quiet.ensure _ _ _) fun _ σ₂ _ hd => .pure ?_
  rw [hd]
  exact h.1

theorem updateActive_fewer {isActive : Option Bool} :
    Plain (accountRules E K) C σ (updateActive u isActive) fun _ σ' => Fewer σ.db σ'.db := by
  have hset : ∀ b, Plain (accountRules E K) C σ (setActiveTx u b) fun _ σ' => Fewer σ.db σ'.db := by
    intro b
    unfold setActiveTx
    exact Yields.bind (updateRow_acts fun r => ⟨rfl, rfl, rfl⟩) fun o σ₁ _ h =>
      .pure (.of_only h.1 (by decide))
  cases isActive with
  | none => exact .pure (.refl _)
  | some b =>
    cases b with
    | true => exact hset true
    | false =>
      exact Yields.bind (hset false) fun _ σ₁ _ h =>
        endAll_acts.imp (fun _ σ₂ _ he => h.trans he.2.2) fun _ h => h

/-- **Only a registration or a sign-in adds a session.** -/
theorem AccountReq.fewer (E : AccountEnv) (K : Rely Registry) (q : AccountReq)
    (b d' : Store Registry) :
    Commits (accountRules E K) (fun σ => ¬ q.Earns → Fewer σ.now σ.db) ((accounts E).prog q)
    (.begin b d' false) := by
  cases q with
  | register req correlationId now =>
    exact commits_imp (fun _ _ h => absurd trivial h) (AccountReq.does E K _ b d')
  | googleAuth verified correlationId now =>
    exact commits_imp (fun _ _ h => absurd trivial h) (AccountReq.does E K _ b d')
  | createUser req correlationId today =>
    refine commits_map ?_
    refine commits_bind plain_checked_same fun _ σ₁ h₁ hs =>
      commits_bind salt_yields fun salt σ₂ h₂ hsalt =>
      commits_bind plain_checked_same fun hash σ₃ h₃ hhash => ?_
    obtain ⟨rfl, -⟩ := hs
    subst hsalt
    obtain ⟨rfl, -⟩ := hhash
    refine commits_atomically (R := fun _ σ' => Fewer d' σ'.db) ?_ fun _ σ' hl h _ => ?_
    · refine Yields.bind (conflictOnUnique_yields createAccount_only) fun user σ₃ _ ho =>
        Yields.bind (Quiet.read _ _) fun _ σ₄ _ hd => .pure ?_
      rw [hd]
      exact .of_only ho (by decide)
    · have hnow : σ'.now = d' := hl.now
      rw [hnow]
      exact h
  | adminUpdateUser userId req =>
    refine commits_map ?_
    refine commits_bind (R := fun _ σ' => σ' = .begin b d' false)
      (.ensure (fun _ => rfl) trivial) fun _ σ₁ _ hs => ?_
    subst hs
    refine commits_then (R := fun _ σ' => Fewer d' σ'.db) ?_ (fun _ σ' hl h _ => ?_) fun user σ' =>
      (rolesAfter_quiet userId).commits
    · refine Yields.bind updateActive_fewer fun _ σ₂ _ hactive =>
        Yields.bind (updateUser_only (adminUpdate_same req)) fun o σ₃ _ ho => ?_
      exact Yields.orFail (fun _ _ => hactive.trans (.of_only ho (by decide))) trivial
    · have hnow : σ'.now = d' := hl.now
      rw [hnow]
      exact h
  | updateMe userId req today =>
    refine commits_map ?_
    refine commits_bind plain_checked_same fun _ σ₁ h₁ hs => ?_
    obtain ⟨rfl, -⟩ := hs
    refine commits_then (R := fun _ σ' => Fewer d' σ'.db) ?_ (fun _ σ' hl h _ => ?_) fun user σ' =>
      (rolesAfter_quiet userId).commits
    · refine Yields.bind (updateUser_only (updateProfile_same req)) fun o σ₃ _ ho => ?_
      exact Yields.orFail (fun _ _ => .of_only ho (by decide)) trivial
    · have hnow : σ'.now = d' := hl.now
      rw [hnow]
      exact h

end DreamFly.Linking
