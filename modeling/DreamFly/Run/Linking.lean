import DreamFly.Proof.Linking
import DreamFly.Txn.Begun

/-!
# Accounts over whole runs

Any calls for any accounts, in any order of their steps.

* `accounts_kept`: emails and Google ids stay unique, and each column that identifies a user
  changes only by the request that may change it. A Google id that is set is replaced only by a
  call that somebody has overtaken.
* `one_account_each`: a Google account leads to one and the same account.
* `sessions_earned`: each session was started by a registration or a sign-in of its user.
* `newcomers_welcomed`: whoever is new is a member, and an event tells of it.
-/

namespace DreamFly.Linking

open Txn Prog

abbrev AccountSys := Sys Registry AppError AccountReply AccountReq

abbrev AccountEntry := Entry Registry AppError AccountReply AccountReq

variable {E : AccountEnv} {K : Rely Registry} {q : AccountReq} {a b d d' : Store Registry}
  {s : AccountSys} {γ γ₁ γ₂ : List AccountEntry}
  {x y : AccountEntry} {u : Uuid} {ok : AccountSys → Event AccountReq → AccountSys → Prop}

/-- Whose sign-in the request is. -/
def AccountReq.identity : AccountReq → Option GoogleIdentity
  | .googleAuth (.ok i) _ _ => some i
  | _ => none

def AccountReq.correlationId : AccountReq → Option String
  | .register _ correlationId _ | .createUser _ correlationId _ | .googleAuth _ correlationId _ =>
    correlationId
  | .adminUpdateUser .. | .updateMe .. => none

/-- While the call of `x` was under way, somebody has linked the account. -/
def Overtaken (E : AccountEnv) (ok : AccountSys → Event AccountReq → AccountSys → Prop)
    (d : Store Registry) (γ : List AccountEntry)
    (x : AccountEntry) (u : Uuid) : Prop :=
  ∃ γ₀ b γ₁ y γ₂, BeganAt (accounts E) ok d γ x γ₀ b ∧ γ = γ₀ ++ (γ₁ ++ y :: γ₂) ∧
    ¬ IsLinked u y.before ∧ IsLinked u y.after

/-- What a request changes of the columns that identify its user; `late` says that somebody has
linked the account meanwhile. -/
structure Changes (E : AccountEnv) (q : AccountReq) (late : Prop) (u : Uuid)
    (r r' : User) : Prop where
  password : r'.passwordHash = r.passwordHash
  email : r'.email = r.email ∨ ∃ i, q.identity = some i ∧ r.googleId = some i.sub ∧
    r'.email = normalizeEmail E i.email
  isActive : r'.isActive = r.isActive ∨ ∃ req, q = .adminUpdateUser u req ∧
    req.isActive = some r'.isActive
  googleId : r'.googleId = r.googleId ∨ ∃ i, q.identity = some i ∧ r'.googleId = some i.sub ∧
    (r.googleId = none ∧ E.letters.lower r.email = E.letters.lower (normalizeEmail E i.email) ∨
      r.googleId.isSome = true ∧ late)

/-- **What a request can be to its user**: a birth, a sign-in, or an update of the row. -/
theorem deed_cases (h : q.Deed E K b a d' u) :
    (q.identity = none ∧ ∃ account, Born E account q.correlationId a d' u) ∨
      (∃ i, q.identity = some i ∧ Enters E K i q.correlationId b a d' u ∧
        ∃ r, d'.get .users u = some r ∧ r.googleId = some i.sub ∧ r.isActive = true) ∨
      q.identity = none ∧ ∃ r r', a.get .users u = some r ∧ d'.get .users u = some r' ∧
        r.SameIdentity r' ∧
        (r'.isActive = r.isActive ∨ ∃ req, q = .adminUpdateUser u req ∧
          req.isActive = some r'.isActive) := by
  cases q with
  | register req correlationId now =>
    obtain ⟨salt, hash, -, hborn⟩ := h
    exact .inl ⟨rfl, _, hborn⟩
  | createUser req correlationId today =>
    obtain ⟨salt, hash, -, hborn⟩ := h
    exact .inl ⟨rfl, _, hborn⟩
  | googleAuth verified correlationId now =>
    obtain ⟨i, rfl, henters, hrow⟩ := h
    exact .inr (.inl ⟨i, rfl, henters, hrow⟩)
  | adminUpdateUser userId req =>
    obtain ⟨rfl, r, active, hr, hactive, hrow⟩ := h
    have hsame := adminUpdate_same req { r with isActive := active }
    have hact : (User.adminUpdate req { r with isActive := active }).isActive = active := by
      unfold User.adminUpdate User.withPhone
      cases req.phone <;> rfl
    refine .inr (.inr ⟨rfl, r, _, hr, hrow, ⟨hsame.email, hsame.googleId, hsame.password⟩, ?_⟩)
    rw [hact]
    exact hactive.imp id fun hreq => ⟨req, rfl, hreq⟩
  | updateMe userId req today =>
    obtain ⟨rfl, r, hr, hrow⟩ := h
    have hact : (r.updateProfile req).isActive = r.isActive := by
      unfold User.updateProfile User.withPhone
      cases req.phone <;> rfl
    exact .inr (.inr ⟨rfl, r, _, hr, hrow, updateProfile_same req r, .inl hact⟩)

/-- A row of nobody before is one that a request has made. -/
theorem deed_new (h : q.Deed E K b a d' u) (hn : a.get .users u = none) :
    (q.identity = none ∧ ∃ r, d'.get .users u = some r ∧ r.googleId = none ∧
      r.passwordHash.isSome = true ∧ r.isActive = true) ∨
      ∃ i, q.identity = some i ∧ ¬ Known i.sub a ∧ ∃ r, d'.get .users u = some r ∧
        r.googleId = some i.sub ∧ r.passwordHash = none ∧ r.isActive = true := by
  rcases deed_cases h with ⟨hi, account, hborn⟩ | ⟨i, hi, henters, -⟩ | ⟨-, r, r', hr, -⟩
  · exact .inl ⟨hi, _, hborn.row, rfl, rfl, rfl⟩
  · cases henters with
    | created l new unknown row told => exact .inr ⟨i, hi, unknown, _, row, rfl, rfl, rfl⟩
    | returned l r old known row told =>
      rw [hn] at old
      cases old
    | linked l r old free email row roles event =>
      rw [hn] at old
      cases old
  · rw [hn] at hr
    cases hr

/-- After a request that starts a session its user is active. -/
theorem deed_active (h : q.Deed E K b a d' u) (hq : q.Earns) : ∃ r, d'.get .users u = some r ∧
    r.isActive = true := by
  cases q with
  | register req correlationId now =>
    obtain ⟨salt, hash, -, hborn⟩ := h
    exact ⟨_, hborn.row, rfl⟩
  | googleAuth verified correlationId now =>
    obtain ⟨i, -, -, r, hr, -, hactive⟩ := h
    exact ⟨r, hr, hactive⟩
  | createUser req correlationId today => exact hq.elim
  | adminUpdateUser userId req => exact hq.elim
  | updateMe userId req today => exact hq.elim

/-- **What a request changes of its user's row.** -/
theorem deed_changes {r : User} (h : q.Deed E K b a d' u) (hr : a.get .users u = some r) :
    ∃ r', d'.get .users u = some r' ∧ Changes E q (¬ IsLinked u b) u r r' := by
  rcases deed_cases h with ⟨-, account, hborn⟩ | ⟨i, hi, henters, -⟩ |
      ⟨-, r₀, r', hr₀, hr', hsame, hactive⟩
  · have hn := hborn.new
    rw [hr] at hn
    cases hn
  · cases henters with
    | created l new unknown row told =>
      rw [hr] at new
      cases new
    | returned l r₀ old known row told =>
      rw [hr] at old
      cases old
      exact ⟨_, row, rfl, .inr ⟨i, hi, known, rfl⟩, .inl rfl, .inl rfl⟩
    | linked l r₀ old free email row roles event =>
      rw [hr] at old
      cases old
      refine ⟨_, row, rfl, .inl rfl, .inl rfl, .inr ⟨i, hi, rfl, ?_⟩⟩
      cases hg : r.googleId with
      | none => exact .inl ⟨rfl, email hg⟩
      | some g => exact .inr ⟨rfl, free⟩
  · rw [hr] at hr₀
    cases hr₀
    exact ⟨r', hr', hsame.password, .inl hsame.email, hactive, .inl hsame.googleId⟩

/-! ## Entries -/

/-- **Each entry, and the store its call began on.** -/
theorem accounts_begun (hj : (accounts E).Journaled ok d s γ) :
    ∀ γ₁ x γ₂, γ = γ₁ ++ x :: γ₂ → ∃ γ₀ γ' b, Begun (accounts E) ok
      (AccountReq.Does E (.free Registry)) d γ₁ x γ₀ γ' b :=
  journal_begun (D := accountRules E (.free Registry)) (fun _ _ _ => trivial)
    (fun q b d' _ => q.does E _ b d') hj

/-- What an entry does to its user. -/
structure Serves (E : AccountEnv) (ok : AccountSys → Event AccountReq → AccountSys → Prop)
    (d : Store Registry) (γ : List AccountEntry)
    (x : AccountEntry) (u : Uuid) : Prop where
  concerns : Concerns u x.before x.after
  changes : ∀ r, x.before.get .users u = some r → ∃ r', x.after.get .users u = some r' ∧
    Changes E x.req (Overtaken E ok d γ x u) u r r'
  new : x.before.get .users u = none →
    (x.req.identity = none ∧ ∃ r, x.after.get .users u = some r ∧ r.googleId = none ∧
      r.passwordHash.isSome = true ∧ r.isActive = true) ∨
      ∃ i, x.req.identity = some i ∧ ¬ Known i.sub x.before ∧
        ∃ r, x.after.get .users u = some r ∧ r.googleId = some i.sub ∧ r.passwordHash = none ∧
          r.isActive = true
  active : x.req.Earns → ∃ r, x.after.get .users u = some r ∧ r.isActive = true
  signedIn : ∀ i, x.req.identity = some i → ∃ r, x.after.get .users u = some r ∧
    r.googleId = some i.sub ∧ r.isActive = true

theorem Changes.imp {late late' : Prop} {r r' : User} (h : Changes E q late u r r')
    (hl : r.googleId.isSome = true → late → late') :
    Changes E q late' u r r' := by
  refine ⟨h.password, h.email, h.isActive, h.googleId.imp id ?_⟩
  rintro ⟨i, hi, hr', hcase⟩
  exact ⟨i, hi, hr', hcase.imp id fun hlate => ⟨hlate.1, hl hlate.1 hlate.2⟩⟩

/-- **Each entry serves one user**, and keeps emails and Google ids unique. -/
theorem entry_serves (hj : (accounts E).Journaled ok d s γ) (hγ : γ = γ₁ ++ x :: γ₂) :
    ∃ u, Serves E ok d γ₁ x u ∧ (Sound E x.before → Sound E x.after) := by
  obtain ⟨γ₀, γ', b, hb⟩ := accounts_begun hj γ₁ x γ₂ hγ
  obtain ⟨σ, hnow, hdb, u, hacts, hdeed⟩ := hb.does
  rw [hnow, hdb] at hacts hdeed
  refine ⟨u, ⟨hacts.toConcerns, fun r hr => ?_, deed_new hdeed, deed_active hdeed, fun i hi => ?_⟩,
    hacts.sound⟩
  · obtain ⟨r', hr', hchanges⟩ := deed_changes hdeed hr
    refine ⟨r', hr', hchanges.imp fun hlinked hfree => ?_⟩
    -- linked now and not when the call began: by an entry in between
    obtain ⟨γ₃, y, γ₄, hy, hn, hp⟩ := hb.changed hfree ⟨r, hr, hlinked⟩
    exact ⟨γ₀, b, γ₃, y, γ₄, hb.began, hy, hn, hp⟩
  · rcases deed_cases hdeed with ⟨hnone, -⟩ | ⟨j, hj, -, hrow⟩ | ⟨hnone, -⟩
    · rw [hi] at hnone
      cases hnone
    · rw [hi] at hj
      cases hj
      exact hrow
    · rw [hi] at hnone
      cases hnone

/-- At each place of the journal accounts are sound. -/
theorem sound_linked (hj : (accounts E).Journaled ok d s γ) (h0 : Sound E d) (hγ : γ = γ₁ ++ γ₂)
    (hl : Linked d γ₁ d') : Sound E d' := by
  refine hl.inv (fun x hx => ?_) h0
  obtain ⟨γ₃, γ₄, rfl⟩ := List.append_of_mem hx
  rw [List.append_assoc, List.cons_append] at hγ
  obtain ⟨u, -, hs⟩ := entry_serves hj hγ
  exact hs

/-- The user has this Google id. -/
def HasGoogleId (u : Uuid) (googleId : String) (d : Store Registry) : Prop :=
  ∃ r, d.get .users u = some r ∧ r.googleId = some googleId

/-- Who has the Google id when somebody else's sign-in commits has it afterwards too. -/
theorem Serves.others {v : Uuid} {googleId : String} (h : Serves E ok d γ x v) (hne : u ≠ v)
    (hu : HasGoogleId u googleId x.before) :
    HasGoogleId u googleId x.after := by
  obtain ⟨r, hr, hg⟩ := hu
  exact ⟨r, (h.concerns.users u hne).trans hr, hg⟩

theorem Sound.one {v : Uuid} {googleId : String} (h : Sound E d) (hu : HasGoogleId u googleId d)
    (hv : HasGoogleId v googleId d) : v = u := by
  obtain ⟨r, hr, hg⟩ := hu
  obtain ⟨r', hr', hg'⟩ := hv
  exact h.googleIds v u r' r hr' hr ⟨googleId, hg', hg⟩

/-- **A Google id that is set goes only where a sign-in has been overtaken.** -/
theorem Serves.lost {v : Uuid} {googleId : String} (h : Serves E ok d γ x v)
    (hb : HasGoogleId u googleId x.before)
    (ha : ¬ HasGoogleId u googleId x.after) : v = u ∧ ∃ k, x.req.identity = some k ∧
      k.sub ≠ googleId ∧ Overtaken E ok d γ x u := by
  by_cases hne : u = v
  · subst hne
    obtain ⟨r, hr, hg⟩ := hb
    obtain ⟨r', hr', hchanges⟩ := h.changes r hr
    rcases hchanges.googleId with hsame | ⟨k, hk, hset, hcase⟩
    · exact absurd ⟨r', hr', hsame.trans hg⟩ ha
    · refine ⟨rfl, k, hk, fun he => ha ⟨r', hr', by rw [hset, he]⟩, ?_⟩
      rcases hcase with ⟨hnone, -⟩ | ⟨-, hlate⟩
      · rw [hg] at hnone
        cases hnone
      · exact hlate
  · exact absurd (h.others hne hb) ha

/-- **Who may change what of an account.** Over any run emails and Google ids stay unique and
everybody keeps a way to log in. Each commit serves one user and leaves everybody else's row and
sessions alone. Nobody's password changes; an email changes only when the Google account that
the user is linked to signs in, and becomes its email; the active flag changes only as an
administrator asks. A Google id is given only by a sign-in of its own, to an account that has
none and has the verified email, unless somebody else has linked the account while that sign-in
was under way. -/
theorem accounts_kept (E : AccountEnv) {d : Store Registry} {s : AccountSys} {γ : List AccountEntry}
    (h0 : Sound E d)
    (hj : (accounts E).Journaled (fun _ _ _ => True) d s γ) :
    Sound E s.db ∧ ∀ γ₁ x γ₂, γ = γ₁ ++ x :: γ₂ → ∃ u, Serves E (fun _ _ _ => True) d γ₁ x u := by
  refine ⟨sound_linked hj h0 (List.append_nil γ).symm (journal_linked hj), fun γ₁ x γ₂ hγ => ?_⟩
  obtain ⟨u, hserves, -⟩ := entry_serves hj hγ
  exact ⟨u, hserves⟩

/-- **One Google account, one account.** Of two sign-ins with the same Google account the later
one gets to the account of the earlier one, unless another Google account has taken its place
there in between, by a call that somebody had overtaken. -/
theorem one_account_each (E : AccountEnv) {d : Store Registry} {s : AccountSys}
    {γ γ₁ γ₂ γ₃ : List AccountEntry} {x y : AccountEntry}
    {i j : GoogleIdentity} (h0 : Sound E d) (hj : (accounts E).Journaled (fun _ _ _ => True) d s γ)
    (hγ : γ = γ₁ ++ x :: (γ₂ ++ y :: γ₃))
    (hx : x.req.identity = some i) (hy : y.req.identity = some j) (hsub : j.sub = i.sub) :
    ∃ u u', Serves E (fun _ _ _ => True) d γ₁ x u ∧
      Serves E (fun _ _ _ => True) d (γ₁ ++ x :: γ₂) y u' ∧
      (u' = u ∨ ∃ γ₄ z γ₅ k, γ₂ = γ₄ ++ z :: γ₅ ∧ z.req.identity = some k ∧ k.sub ≠ i.sub ∧
        Serves E (fun _ _ _ => True) d (γ₁ ++ x :: γ₄) z u ∧
        Overtaken E (fun _ _ _ => True) d (γ₁ ++ x :: γ₄) z u) := by
  have hy' : γ = (γ₁ ++ x :: γ₂) ++ y :: γ₃ := by rw [hγ, List.append_assoc, List.cons_append]
  obtain ⟨u, hu, -⟩ := entry_serves hj hγ
  obtain ⟨u', hu', hsound⟩ := entry_serves hj hy'
  refine ⟨u, u', hu, hu', ?_⟩
  obtain ⟨r, hr, hg, -⟩ := hu.signedIn i hx
  obtain ⟨r', hr', hg', -⟩ := hu'.signedIn j hy
  have hl : Linked d (γ₁ ++ x :: (γ₂ ++ y :: γ₃)) s.db := hγ ▸ journal_linked hj
  have hbetween : Linked x.after γ₂ y.before := hl.at_entry.2.at_entry.1
  have hbefore : Linked d (γ₁ ++ x :: γ₂) y.before :=
    (hy' ▸ journal_linked hj : Linked d ((γ₁ ++ x :: γ₂) ++ y :: γ₃) s.db).at_entry.1
  have hfrom : HasGoogleId u i.sub x.after := ⟨r, hr, hg⟩
  by_cases hstill : HasGoogleId u i.sub y.before
  · left
    by_contra hne
    have hafter : HasGoogleId u i.sub y.after := hu'.others (Ne.symm hne) hstill
    exact hne ((hsound (sound_linked hj h0 hy' hbefore)).one hafter ⟨r', hr', hsub ▸ hg'⟩)
  · right
    -- lost by an entry in between
    obtain ⟨γ₄, z, γ₅, rfl, hn, hp⟩ := hbetween.since (P := fun d => ¬ HasGoogleId u i.sub d)
      (fun h => h hfrom) hstill
    have hz : γ = (γ₁ ++ x :: γ₄) ++ z :: (γ₅ ++ y :: γ₃) := by
      rw [hγ]
      simp only [List.append_assoc, List.cons_append]
    obtain ⟨v, hv, -⟩ := entry_serves hj hz
    obtain ⟨rfl, k, hk, hne, hlate⟩ := hv.lost (not_not.1 hn) hp
    exact ⟨γ₄, z, γ₅, k, rfl, hk, hne, hv, hlate⟩

/-! ## Sessions -/

theorem entry_fewer (hj : (accounts E).Journaled ok d s γ) (hx : x ∈ γ) (hq : ¬ x.req.Earns) :
    Fewer x.before x.after := by
  obtain ⟨σ, hnow, hdb, -, hfewer⟩ := journal_meets
    (C := plainContract (C := fun q σ => ¬ q.Earns → Fewer σ.now σ.db) fun q b d' _ => q.fewer E
      (.free Registry) b d')
    (fun _ hr => plain_ok (fun _ _ _ => trivial) hr) hj x hx
  rw [← hnow, ← hdb]
  exact hfewer hq

/-- **Sessions are earned.** Each session at the end that was not there at the start was started by
a commit of a registration or of a sign-in with Google, which served the session's user, who was
active then. -/
theorem sessions_earned (E : AccountEnv) {d : Store Registry} {s : AccountSys}
    {γ : List AccountEntry}
    (hj : (accounts E).Journaled (fun _ _ _ => True) d s γ) {h : String} {tok : RefreshToken}
    (hs : s.db.get .refreshTokens h = some tok)
    (hn : d.get .refreshTokens h ≠ some tok) :
    ∃ γ₁ x γ₂, γ = γ₁ ++ x :: γ₂ ∧ x.before.get .refreshTokens h ≠ some tok ∧
      x.after.get .refreshTokens h = some tok ∧ x.req.Earns ∧
      Serves E (fun _ _ _ => True) d γ₁ x tok.userId := by
  have hl : Linked d γ s.db := journal_linked hj
  obtain ⟨γ₁, x, γ₂, hγ, hbefore, hafter⟩ :=
    hl.since (P := fun (d : Store Registry) => d.get .refreshTokens h = some tok) hn hs
  obtain ⟨u, hserves, -⟩ := entry_serves hj hγ
  have hu : tok.userId = u := by
    by_contra hne
    exact hbefore ((hserves.concerns.tokens h tok hne).1 hafter)
  subst hu
  refine ⟨γ₁, x, γ₂, hγ, hbefore, hafter, ?_, hserves⟩
  by_contra hq
  exact hbefore (entry_fewer hj (hγ ▸ List.mem_append_right _ List.mem_cons_self) hq h tok hafter)

/-! ## Newcomers -/

/-- Google ids that somebody has stay with somebody. -/
def lasting : Rely Registry where
  rel _ a b := ∀ googleId, Known googleId a → Known googleId b
  refl _ _ _ h := h
  trans h h' g hg := h' g (h g hg)
  anti _ h := h

/-- The step loses no Google id. -/
def NoneLost (s : AccountSys) (_ : Event AccountReq) (s' : AccountSys) : Prop :=
  ∀ googleId, Known googleId s.db → Known googleId s'.db

/-- **Who is new is welcomed.** -/
theorem deed_welcomes {r : User} (h : q.Deed E lasting b a d' u) (hn : a.get .users u = none)
    (hr : d'.get .users u = some r) :
    Welcomed u r.email r.name q.correlationId a d' := by
  rcases deed_cases h with ⟨-, account, hborn⟩ | ⟨i, -, henters, -⟩ | ⟨-, r₀, r', hr₀, -⟩
  · rw [hborn.row] at hr
    cases hr
    exact hborn.welcomed
  · cases henters with
    | created l new unknown row told =>
      rw [row] at hr
      cases hr
      rcases told with hwelcomed | ⟨v, hlast, hknown⟩
      · exact hwelcomed
      -- somebody had been found who had the Google id, so somebody has it
      · exact absurd (hlast _ hknown) unknown
    | returned l r₀ old known row told =>
      rw [hn] at old
      cases old
    | linked l r₀ old free email row roles event =>
      rw [hn] at old
      cases old
  · rw [hn] at hr₀
    cases hr₀

/-- The contract of the service, in runs that lose no Google id. -/
def accountContract (E : AccountEnv) : Contract (accounts E) (accountRules E lasting) :=
  plainContract (C := fun q σ => ∃ b, q.Does E lasting b σ) fun q b d' _ =>
    commits_imp (fun _ h => ⟨b, h⟩) (q.does E lasting b d')

theorem accounts_ok (hr : (accounts E).Reach NoneLost (Sys.init d) s) : s.OK (accountContract E) :=
  reach_ok (fun _ _ _ _ _ hok _ _ _ _ => hok) (ok_init d) hr

theorem entry_deeds (hj : (accounts E).Journaled NoneLost d s γ) (hx : x ∈ γ) :
    ∃ u b, Concerns u x.before x.after ∧ x.req.Deed E lasting b x.before x.after u := by
  obtain ⟨σ, hnow, hdb, -, b, u, hacts, hdeed⟩ := journal_meets (fun _ hr => accounts_ok hr) hj x hx
  rw [hnow, hdb] at hacts hdeed
  exact ⟨u, b, hacts.toConcerns, hdeed⟩

/-- The user is a member, and an event of the outbox tells of it. -/
structure Greeted (u : Uuid) (email name : String) (correlationId : Option String)
    (d : Store Registry) : Prop where
  role : (d.get .userRoles (u, .member)).isSome = true
  event : ∃ k, d.get .eventsOutbox k = some ⟨⟨u, email, name⟩, correlationId⟩

theorem Greeted.kept {v : Uuid} {email name : String} {correlationId : Option String}
    (h : Greeted u email name correlationId a)
    (hc : Concerns v a d) : Greeted u email name correlationId d := by
  obtain ⟨k, hk⟩ := h.event
  exact ⟨hc.roles _ h.role, k, hc.events k _ hk⟩

/-- **Newcomers are welcomed.** In any run in which no Google id is lost, whoever has an account
at the end and had none at the start got it by a commit that made the row, and has been a member
ever since, with an event of the outbox about the account as it was made. -/
theorem newcomers_welcomed (E : AccountEnv) {d : Store Registry} {s : AccountSys}
    {γ : List AccountEntry}
    (hj : (accounts E).Journaled NoneLost d s γ) {u : Uuid} {r : User}
    (hu : s.db.get .users u = some r) (hn : d.get .users u = none) :
    ∃ γ₁ x γ₂ r₀, γ = γ₁ ++ x :: γ₂ ∧ x.before.get .users u = none ∧
      x.after.get .users u = some r₀ ∧
      Welcomed u r₀.email r₀.name x.req.correlationId x.before x.after ∧
      Greeted u r₀.email r₀.name x.req.correlationId s.db := by
  have hl : Linked d γ s.db := journal_linked hj
  obtain ⟨γ₁, x, γ₂, rfl, hnone, hsome⟩ :=
    hl.since (P := fun (d : Store Registry) => (d.get .users u).isSome = true) (by rw [hn]; decide)
      (by rw [hu]; rfl)
  have hx : x ∈ γ₁ ++ x :: γ₂ := List.mem_append_right _ List.mem_cons_self
  rw [Bool.not_eq_true, Option.isSome_eq_false_iff, Option.isNone_iff_eq_none] at hnone
  obtain ⟨r₀, hr₀⟩ := Option.isSome_iff_exists.1 hsome
  obtain ⟨v, b, hconcerns, hdeed⟩ := entry_deeds hj hx
  -- an entry concerns one user: this one, who was not there before it
  have hv : v = u := by
    by_contra hne
    rw [hconcerns.users u (Ne.symm hne), hnone] at hr₀
    cases hr₀
  subst hv
  have hwelcomed := deed_welcomes hdeed hnone hr₀
  have hgreeted : Greeted v r₀.email r₀.name x.req.correlationId x.after :=
    ⟨hwelcomed.role, hwelcomed.event.imp fun _ hk => hk.2⟩
  refine ⟨γ₁, x, γ₂, r₀, rfl, hnone, hr₀, hwelcomed, ?_⟩
  refine hl.at_entry.2.inv (P := Greeted v r₀.email r₀.name x.req.correlationId)
    (fun y hy hg => ?_) hgreeted
  obtain ⟨w, -, hc, -⟩ := entry_deeds hj (List.mem_append_right _ (List.mem_cons_of_mem x hy))
  exact hg.kept hc

/-! ## Samples -/

/-- Tokens are told apart by the number drawn for them, and nothing is hashed. -/
def sampleEnv : AccountEnv where
  encodeRefreshToken c := String.ofList (List.replicate c.jti 'r')
  decodeRefreshToken _ _ := none
  hashToken token := token
  verifyPassword _ _ := false
  jwtRefreshExpirationDays := 7
  letters := ⟨fun s => s, fun s => s⟩
  hashForStorage _ password := .ok password

/-- One member, with a password. -/
def onePassword : Store Registry
  | .users =>
    AList.singleton 1 ⟨"ann@home", "Ann", none, false, none, some "secret", none, true, none, none⟩
  | .roles => AList.singleton .member ()
  | .userRoles => AList.singleton (1, .member) ()
  | .refreshTokens => ∅
  | .eventsOutbox => ∅

/-- Her Google account, with this email. -/
def ann (email : String) : GoogleIdentity := ⟨"g-1", email, some "Ann", none⟩

/-- She signs in with Google, which links her account, and again with another email. Then
somebody registers. -/
def sampleSignIns : List (Event AccountReq) :=
  .start 0 (.googleAuth (.ok (ann "ann@home")) none 1000) :: Event.steps 0 10 23 ++
    .start 1 (.googleAuth (.ok (ann "ann@work")) none 2000) :: Event.steps 1 40 23 ++
    .start 2 (.register ⟨"bob@home", "Bob", "hidden"⟩ (some "r-1") 3000) :: Event.steps 2 70 23

theorem sound_onePassword : Sound sampleEnv onePassword := by
  have hone : ∀ x ∈ (onePassword .users).rows, x.1 = 1 := by decide
  have hall : ∀ {k k' : Uuid} {r r' : User}, onePassword.get .users k = some r →
      onePassword.get .users k' = some r' → k = k' := by
    intro k k' r r' hk hk'
    exact (hone (k, r) (Table.mem_rows.2 hk)).trans (hone (k', r') (Table.mem_rows.2 hk')).symm
  refine ⟨fun k k' r r' hk hk' _ => hall hk hk', fun k k' r r' hk hk' _ => hall hk hk',
    fun k r hk => ?_⟩
  exact Store.get_all (P := fun _ (r : User) => r.hasAuthMethod = true) (by decide +kernel) hk

theorem accounts_kept_linked :
    let y := (accounts sampleEnv).journalAfter sampleSignIns onePassword
    Sound sampleEnv y.1.db ∧ y.2.map Entry.call = [0, 1, 2] ∧
      (y.1.db.get .users 1).map (fun u => (u.email, u.googleId, u.passwordHash)) = some ("ann@work",
        some "g-1", some "secret") := by
  have hrun : ∀ y, y = (accounts sampleEnv).journalAfter sampleSignIns onePassword →
      y.2.map Entry.call = [0, 1, 2] ∧
      (y.1.db.get .users 1).map (fun u => (u.email, u.googleId, u.passwordHash)) = some ("ann@work",
        some "g-1", some "secret") := by
    rintro _ rfl
    decide +kernel
  exact ⟨(accounts_kept sampleEnv sound_onePassword (journaled_after (fun _ _ _ => trivial) _ _)).1,
    hrun _ rfl⟩

theorem one_account_each_twice :
    let y := (accounts sampleEnv).journalAfter sampleSignIns onePassword
    ∃ u x x' γ, y.2 = x :: x' :: γ ∧ Serves sampleEnv (fun _ _ _ => True) onePassword [] x u ∧
      Serves sampleEnv (fun _ _ _ => True) onePassword [x] x' u := by
  intro y
  have hrun : ∀ y, y = (accounts sampleEnv).journalAfter sampleSignIns onePassword →
      y.2.map (fun x => x.req.identity) = [some (ann "ann@home"), some (ann "ann@work"), none] := by
    rintro _ rfl
    decide +kernel
  obtain ⟨x, γ, hγ, hx, hrest⟩ := List.map_eq_cons_iff.1 (hrun y rfl)
  obtain ⟨x', γ', rfl, hx', -⟩ := List.map_eq_cons_iff.1 hrest
  have hγ : y.2 = [] ++ x :: ([] ++ x' :: γ') := hγ
  obtain ⟨u, u', hu, hu', hsame⟩ :=
    one_account_each sampleEnv sound_onePassword
      (journaled_after (fun _ _ _ => trivial) _ _) hγ hx hx' rfl
  rcases hsame with rfl | ⟨γ₄, z, γ₅, k, hnil, -⟩
  · exact ⟨u', x, x', γ', hγ, hu, hu'⟩
  · cases γ₄ <;> cases hnil

theorem sessions_earned_registered :
    let y := (accounts sampleEnv).journalAfter sampleSignIns onePassword
    ∃ (tok : RefreshToken) (γ₁ : List AccountEntry) (x : AccountEntry) (γ₂ : List AccountEntry),
      y.2 = γ₁ ++ x :: γ₂ ∧ x.req.Earns ∧
      Serves sampleEnv (fun _ _ _ => True) onePassword γ₁ x tok.userId := by
  intro y
  have hrun : ∀ y, y = (accounts sampleEnv).journalAfter sampleSignIns onePassword →
      (y.1.db .refreshTokens).rows ≠ [] := by
    rintro _ rfl
    decide +kernel
  obtain ⟨⟨h, tok⟩, hm⟩ := List.exists_mem_of_ne_nil _ (hrun y rfl)
  obtain ⟨γ₁, x, γ₂, hγ, -, -, hearns, hserves⟩ :=
    sessions_earned sampleEnv (journaled_after (fun _ _ _ => trivial) _ _) (Table.mem_rows.1 hm)
      (fun he => by cases he)
  exact ⟨tok, γ₁, x, γ₂, hγ, hearns, hserves⟩

/-- Each Google id of the users is still one of somebody. -/
def keepsIds (s : AccountSys) (_ : Event AccountReq) (s' : AccountSys) : Bool :=
  (s.db .users).rows.all fun p => p.2.googleId.all fun googleId => (s'.db .users).rows.any fun p' =>
    p'.2.googleId = some googleId

theorem keepsIds_noneLost {s s' : AccountSys} {e : Event AccountReq} (h : keepsIds s e s' = true) :
    NoneLost s e s' := by
  rintro googleId ⟨k, r, hk, hg⟩
  unfold keepsIds at h
  have hr := List.all_eq_true.1 h (k, r) (Table.mem_rows.2 hk)
  rw [hg] at hr
  obtain ⟨p, hp, hgp⟩ := List.any_eq_true.1 hr
  exact ⟨p.1, p.2, Table.mem_rows.1 hp, of_decide_eq_true hgp⟩

theorem newcomers_welcomed_once :
    let y := (accounts sampleEnv).journalAfter sampleSignIns onePassword
    ∃ x ∈ y.2, ∃ r, x.after.get .users 73 = some r ∧
      Greeted 73 r.email r.name x.req.correlationId y.1.db := by
  intro y
  have hchecks : (accounts sampleEnv).checks keepsIds sampleSignIns (Sys.init onePassword) =
      true := by decide +kernel
  have hrun : ∀ y, y = (accounts sampleEnv).journalAfter sampleSignIns onePassword →
      (y.1.db.get .users 73).isSome = true := by
    rintro _ rfl
    decide +kernel
  obtain ⟨r, hr⟩ := Option.isSome_iff_exists.1 (hrun y rfl)
  have hj := (journaled_checks hchecks).mono fun _ _ _ h => keepsIds_noneLost h
  obtain ⟨γ₁, x, γ₂, r₀, hγ, -, hr₀, -, hgreeted⟩ := newcomers_welcomed sampleEnv hj hr (by decide)
  refine ⟨x, ?_, r₀, hr₀, hgreeted⟩
  rw [show y.2 = γ₁ ++ x :: γ₂ from hγ]
  exact List.mem_append_right _ List.mem_cons_self

end DreamFly.Linking
