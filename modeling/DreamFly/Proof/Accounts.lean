import DreamFly.Auth.Linking
import DreamFly.Txn.Exclusion

/-!
# Pieces of requests for accounts

Each piece of a transaction is about one user (`Concerns`): it adds the row or changes it, may
grant the member role, start a session and tell of the user, and leaves everybody else alone.
Emails and Google ids stay unique, since whoever gives a user one holds its entry of the index
(`Sound`).

* `accountRules`: what every call keeps to.
* `Acts`: what the pieces have in common; one lemma for each of them.
-/

namespace DreamFly.Linking

open Txn Prog Plain

variable {E : AccountEnv} {K : Rely Registry} {C : Pt Registry → Prop} {σ : Pt Registry}
  {d d₁ d' : Store Registry} {u : Uuid}
  {H : Locks (Res Registry)} {w : Write Registry} {α : Type}

/-! ## Rules -/

def emailKeys (E : AccountEnv) : Exclusion Registry .users String where
  has u x := E.letters.lower u.email = x
  entry x := .email x

def googleKeys : Exclusion Registry .users String where
  has u x := u.googleId = some x
  entry x := .googleId x

/-- What an UPDATE leaves of a user: who is linked stays linked, who is not has kept the email,
and nobody's password changes. -/
structure User.GoesTo (u u' : User) : Prop where
  linked : u.googleId.isSome = true → u'.googleId.isSome = true
  email : u'.googleId = none → u'.email = u.email
  password : u'.passwordHash = u.passwordHash

theorem User.GoesTo.refl (u : User) : u.GoesTo u := ⟨fun h => h, fun _ => rfl, rfl⟩

theorem User.GoesTo.trans {u u₁ u' : User} (h : u.GoesTo u₁) (h' : u₁.GoesTo u') : u.GoesTo u' := by
  refine ⟨fun hu => h'.linked (h.linked hu), fun hn => ?_, h'.password.trans h.password⟩
  have hn₁ : u₁.googleId = none := by
    cases hg : u₁.googleId with
    | none => rfl
    | some g =>
      have hs := h'.linked (by rw [hg]; rfl)
      rw [hn] at hs
      cases hs
  exact (h'.email hn).trans (h.email hn₁)

theorem User.GoesTo.method {u u' : User} (h : u.GoesTo u') (hm : u.hasAuthMethod = true) :
    u'.hasAuthMethod = true := by
  unfold User.hasAuthMethod at hm ⊢
  rw [decide_eq_true_eq] at hm ⊢
  rw [h.password]
  exact hm.imp_right h.linked

/-- No column that identifies a user changes. -/
structure User.SameIdentity (u u' : User) : Prop where
  email : u'.email = u.email
  googleId : u'.googleId = u.googleId
  password : u'.passwordHash = u.passwordHash

theorem User.SameIdentity.goesTo {u u' : User} (h : u.SameIdentity u') : u.GoesTo u' :=
  ⟨fun hs => by rw [h.googleId]; exact hs, fun _ => h.email, h.password⟩

def userRows : Protect Registry := .upward .users User.GoesTo User.GoesTo.refl fun _ _ _ h h' =>
    h.trans h'

/-- The rules everybody keeps; `K` is what the runs at hand keep besides. -/
def accountRules (E : AccountEnv) (K : Rely Registry) : Discipline Registry :=
  (Protect.all [(emailKeys E).protect, googleKeys.protect, userRows, .noDelete .userRoles,
    .appendOnly .eventsOutbox]).discipline.under K

theorem account_covers (hh : Holds H w.res .noKeyUpdate) (h₁ : (emailKeys E).protect.guard H w)
    (h₂ : googleKeys.protect.guard H w)
    (h₃ : userRows.guard H w) (h₄ : ∀ k, w ≠ .del .userRoles k) (h₅ : w.tbl = .eventsOutbox →
      ∃ k r, w = .add .eventsOutbox k r) :
    (accountRules E K).Covers H w := by
  refine ⟨hh, fun P hP => ?_⟩
  simp only [List.mem_cons, List.not_mem_nil, or_false] at hP
  rcases hP with rfl | rfl | rfl | rfl | rfl
  · exact h₁
  · exact h₂
  · exact h₃
  · exact h₄
  · exact h₅

theorem rel_emails {v : Store Registry} (h : (accountRules E K).rel H v d) :
    (emailKeys E).protect.rel H v d :=
  h.2 _ (by simp)

theorem rel_googleIds {v : Store Registry} (h : (accountRules E K).rel H v d) :
    googleKeys.protect.rel H v d :=
  h.2 _ (by simp)

theorem rel_users {v : Store Registry} (h : (accountRules E K).rel H v d) {k : Uuid} {r : User}
    (hk : v.get .users k = some r) :
    ∃ r', d.get .users k = some r' ∧ r.GoesTo r' := by
  have hu : userRows.rel H v d := h.2 _ (by simp)
  exact hu k r hk

theorem rel_roles {v : Store Registry} (h : (accountRules E K).rel H v d) {k : Uuid × Role}
    (hk : (v.get .userRoles k).isSome = true) :
    (d.get .userRoles k).isSome = true := by
  have hr : (Protect.noDelete (S := Registry) .userRoles).rel H v d := h.2 _ (by simp)
  exact hr k hk

/-- A write to another table than `users`. -/
theorem covers_other (hh : Holds H w.res .noKeyUpdate) (hu : w.tbl ≠ .users)
    (hr : ∀ k, w ≠ .del .userRoles k)
    (he : w.tbl = .eventsOutbox → ∃ k r, w = .add .eventsOutbox k r) :
    (accountRules E K).Covers H w := by
  refine account_covers hh (Exclusion.guard_other hu) (Exclusion.guard_other hu)
    ⟨fun k hk => ?_, fun k f hk => ?_⟩ hr he
  · exact absurd (by rw [hk]; rfl) hu
  · exact absurd (by rw [hk]; rfl) hu

/-- An UPDATE of a user, under the entries of what it gives. -/
theorem covers_user {k : Uuid} {f : User → User} (hh : Holds H (.row .users k) .noKeyUpdate)
    (hf : ∀ r : User, r.GoesTo (f r))
    (he : ∀ r : User, (f r).email = r.email ∨
      Holds H (.uniq (.email (E.letters.lower (f r).email))) .update)
    (hg : ∀ (r : User) x, (f r).googleId = some x → r.googleId = some x ∨
      Holds H (.uniq (.googleId x)) .update) :
    (accountRules E K).Covers H (.mod AccountTbl.users k f) := by
  refine account_covers hh (Exclusion.guard_mod_held fun r x hx => ?_) (Exclusion.guard_mod_held hg)
    ⟨fun k' h => (by cases h), fun k' g h => ?_⟩
    (fun k' h => by cases h) fun h => by cases h
  · have hx : E.letters.lower (f r).email = x := hx
    rcases he r with he | he
    · left
      rw [he] at hx
      exact hx
    · right
      rw [hx] at he
      exact he
  · cases h
    exact hf

theorem covers_same {k : Uuid} {f : User → User} (hh : Holds H (.row .users k) .noKeyUpdate)
    (hf : ∀ r : User, r.SameIdentity (f r)) :
    (accountRules E K).Covers H (.mod AccountTbl.users k f) := by
  refine covers_user hh (fun r => (hf r).goesTo) (fun r => .inl (hf r).email) fun r x hx => .inl ?_
  rw [(hf r).googleId] at hx
  exact hx

/-! ## Commits that are about one user -/

/-- Emails and Google ids are unique, and everybody can log in somehow. -/
structure Sound (E : AccountEnv) (d : Store Registry) : Prop where
  emails : (emailKeys E).Apart d
  googleIds : googleKeys.Apart d
  methods : ∀ k r, d.get .users k = some r → r.hasAuthMethod = true

/-- The commit is about `u`, and leaves everybody else alone. -/
structure Concerns (u : Uuid) (d d' : Store Registry) : Prop where
  users : ∀ k, k ≠ u → d'.get .users k = d.get .users k
  row : ∀ r, d.get .users u = some r → ∃ r', d'.get .users u = some r' ∧ r.GoesTo r'
  roles : ∀ k, (d.get .userRoles k).isSome = true → (d'.get .userRoles k).isSome = true
  granted : ∀ k, (d'.get .userRoles k).isSome = true → (d.get .userRoles k).isSome = true ∨
    k = (u, .member)
  tokens : ∀ h tok, tok.userId ≠ u → (d'.get .refreshTokens h = some tok ↔
    d.get .refreshTokens h = some tok)
  events : ∀ k ev, d.get .eventsOutbox k = some ev → d'.get .eventsOutbox k = some ev
  told : ∀ k ev, d'.get .eventsOutbox k = some ev → d.get .eventsOutbox k = some ev ∨
    ev.payload.userId = u

structure Acts (E : AccountEnv) (u : Uuid) (d d' : Store Registry) :
    Prop extends Concerns u d d' where
  sound : Sound E d → Sound E d'

theorem Acts.refl (u : Uuid) (d : Store Registry) : Acts E u d d :=
  ⟨⟨fun _ _ => rfl, fun r hr => ⟨r, hr, .refl r⟩, fun _ h => h, fun _ h => .inl h,
    fun _ _ _ => Iff.rfl, fun _ _ h => h, fun _ _ h => .inl h⟩,
    fun h => h⟩

theorem Acts.trans (h : Acts E u d d₁) (h' : Acts E u d₁ d') : Acts E u d d' := by
  refine ⟨⟨fun k hk => (h'.users k hk).trans (h.users k hk), fun r hr => ?_,
    fun k hk => h'.roles k (h.roles k hk), fun k hk => ?_,
    fun x tok ht => (h'.tokens x tok ht).trans (h.tokens x tok ht), fun k ev he =>
      h'.events k ev (h.events k ev he), fun k ev he => ?_⟩,
    fun hs => h'.sound (h.sound hs)⟩
  · obtain ⟨r₁, hr₁, hg₁⟩ := h.row r hr
    obtain ⟨r', hr', hg'⟩ := h'.row r₁ hr₁
    exact ⟨r', hr', hg₁.trans hg'⟩
  · rcases h'.granted k hk with hk | hk
    · exact h.granted k hk
    · exact .inr hk
  · rcases h'.told k ev he with he | he
    · exact h.told k ev he
    · exact .inr he

theorem Sound.only {ts : List AccountTbl} (h : Sound E d) (ho : Only (S := Registry) ts d d')
    (ht : .users ∉ ts) : Sound E d' :=
  ⟨h.emails.only ho ht, h.googleIds.only ho ht, fun k r hk =>
    h.methods k r (by rw [← ho.get ht]; exact hk)⟩

/-- A piece that leaves the rows of users as they are. -/
theorem Acts.of_only {ts : List AccountTbl} (ho : Only (S := Registry) ts d d') (hu : .users ∉ ts)
    (roles : ∀ k, (d.get .userRoles k).isSome = true → (d'.get .userRoles k).isSome = true)
    (granted : ∀ k, (d'.get .userRoles k).isSome = true → (d.get .userRoles k).isSome = true ∨
      k = (u, .member))
    (tokens : ∀ h tok, tok.userId ≠ u → (d'.get .refreshTokens h = some tok ↔
      d.get .refreshTokens h = some tok))
    (events : ∀ k ev, d.get .eventsOutbox k = some ev → d'.get .eventsOutbox k = some ev)
    (told : ∀ k ev, d'.get .eventsOutbox k = some ev → d.get .eventsOutbox k = some ev ∨
      ev.payload.userId = u) : Acts E u d d' := by
  refine ⟨⟨fun k _ => ho.get hu k, fun r hr => ⟨r, ?_, .refl r⟩, roles, granted, tokens, events,
    told⟩, fun hs => hs.only ho hu⟩
  rw [ho.get hu]
  exact hr

/-- A piece that changes rows of users only. -/
theorem Acts.of_users (ho : Only (S := Registry) [.users] d d')
    (users : ∀ k, k ≠ u → d'.get .users k = d.get .users k)
    (row : ∀ r, d.get .users u = some r → ∃ r', d'.get .users u = some r' ∧ r.GoesTo r')
      (sound : Sound E d → Sound E d') : Acts E u d d' := by
  refine ⟨⟨users, row, fun k hk => ?_, fun k hk => .inl ?_, fun x tok _ => ?_, fun k ev he => ?_,
    fun k ev he => .inl ?_⟩, sound⟩
  · rw [ho.get (by decide)]
    exact hk
  · rw [ho.get (by decide)] at hk
    exact hk
  · rw [ho.get (by decide)]
  · rw [ho.get (by decide)]
    exact he
  · rw [ho.get (by decide)] at he
    exact he

/-! ## Users -/

theorem users_add {r : User} (hn : d.get .users u = none) (k : Uuid) :
    (d.apply (.add AccountTbl.users u r)).get .users k = if k = u then some r else
      d.get .users k := by
  rw [Store.get_add, hn, Option.getD_none]

/-- A new user with an email and a Google id that nobody has. -/
theorem Acts.add_user {r : User} (hn : d.get .users u = none) (hm : r.hasAuthMethod = true)
    (he : (emailKeys E).Free r d)
    (hg : googleKeys.Free r d) : Acts E u d (d.apply (.add AccountTbl.users u r)) := by
  refine Acts.of_users (Only.write (S := Registry)
    (w := .add AccountTbl.users u r) d List.mem_cons_self) (fun k hk => ?_) (fun r₀ hr₀ => ?_)
    fun hs => ⟨hs.emails.add hn he, hs.googleIds.add hn hg, fun k r' hk => ?_⟩
  · rw [users_add hn, if_neg hk]
  · rw [hn] at hr₀
    cases hr₀
  · rw [users_add hn] at hk
    split at hk
    next => cases hk; exact hm
    next => exact hs.methods k r' hk

/-- A row that is changed, with an email and a Google id that nobody else has. -/
theorem Acts.mod_user {r : User} {f : User → User} (hr : d.get .users u = some r)
    (hf : r.GoesTo (f r))
    (he : (f r).email = r.email ∨ ∀ k r', d.get .users k = some r' → k ≠ u →
      E.letters.lower r'.email ≠ E.letters.lower (f r).email)
    (hg : (f r).googleId = r.googleId ∨ ∀ k r', d.get .users k = some r' → k ≠ u →
      ∀ x, (f r).googleId = some x → r'.googleId ≠ some x) :
    Acts E u d (d.apply (.mod AccountTbl.users u f)) := by
  -- both unique columns keep their value or take one that nobody has
  refine Acts.of_users (Only.write (S := Registry)
    (w := .mod AccountTbl.users u f) d List.mem_cons_self) (fun k hk => ?_) (fun r₀ hr₀ => ?_)
    fun hs => ⟨?_, ?_, fun k r' hk => ?_⟩
  · rw [Store.get_mod, if_neg hk]
  · rw [hr] at hr₀
    cases hr₀
    exact ⟨f r, by rw [Store.get_mod, if_pos rfl, hr]; rfl, hf⟩
  · refine hs.emails.change hr fun x hx => ?_
    have hx : E.letters.lower (f r).email = x := hx
    rcases he with he | he
    · left
      rw [he] at hx
      exact hx
    · right
      intro k r' hk hne
      rw [← hx]
      exact he k r' hk hne
  · refine hs.googleIds.change hr fun x hx => ?_
    have hx : (f r).googleId = some x := hx
    rcases hg with hg | hg
    · left
      rw [hg] at hx
      exact hx
    · right
      intro k r' hk hne
      exact hg k r' hk hne x hx
  · rw [Store.get_mod] at hk
    split at hk
    next =>
      rw [hr] at hk
      cases hk
      exact hf.method (hs.methods u r hr)
    next => exact hs.methods k r' hk

/-- Errors are translated, and nothing else. -/
theorem conflictOnUnique_yields {p : Tx α} {msg : String} {R : α → Pt Registry → Prop}
    (h : Plain (accountRules E K) C σ p R) :
    Plain (accountRules E K) C σ (conflictOnUnique msg p) R :=
  (wp_handle _ _ p σ).2 (Yields.wp h (fun _ _ hl hr => ⟨hl, hr⟩) fun _ _ hl _ => ⟨hl, trivial⟩)

theorem takeEmail_free {id : Option Uuid} {email : String} :
    Plain (accountRules E K) C σ (takeEmail E id email) fun _ σ' => σ'.db = σ.db ∧
      Holds σ'.held (.uniq (.email (E.letters.lower email))) .update ∧
      ∀ k r, σ'.db.get .users k = some r → some k ≠ id →
        E.letters.lower r.email ≠ E.letters.lower email := by
  refine (Exclusion.take (X := emailKeys E) (P := fun k => some k ≠ id) rel_emails
    (fun v hv k r hk hne hx => ?_) trivial trivial).imp
    (fun _ σ' _ h => ?_) fun _ h => h
  · rw [Bool.not_eq_false', List.isEmpty_iff] at hv
    have hm : (k, r) ∈ v.sel .users fun k u => some k ≠ id ∧
        E.letters.lower u.email = E.letters.lower email :=
      Store.mem_sel.2 ⟨hk, decide_eq_true ⟨hne, hx⟩⟩
    rw [hv] at hm
    cases hm
  · obtain ⟨hs, hh, hfree⟩ := h
    exact ⟨by rw [hs]; rfl, hh, hfree⟩

theorem takeGoogleId_free {id : Option Uuid} {googleId : String} :
    Plain (accountRules E K) C σ (takeGoogleId id googleId) fun _ σ' => σ'.db = σ.db ∧
    Holds σ'.held (.uniq (.googleId googleId)) .update ∧
      ∀ k r, σ'.db.get .users k = some r → some k ≠ id → r.googleId ≠ some googleId := by
  refine (Exclusion.take (X := googleKeys) (P := fun k => some k ≠ id) rel_googleIds
    (fun v hv k r hk hne hx => ?_) trivial trivial).imp
    (fun _ σ' _ h => ?_) fun _ h => h
  · rw [Bool.not_eq_false', List.isEmpty_iff] at hv
    have hm : (k, r) ∈ v.sel .users fun k u => some k ≠ id ∧ u.googleId = some googleId :=
      Store.mem_sel.2 ⟨hk, decide_eq_true ⟨hne, hx⟩⟩
    rw [hv] at hm
    cases hm
  · obtain ⟨hs, hh, hfree⟩ := h
    exact ⟨by rw [hs]; rfl, hh, hfree⟩

/-- INSERT of a user: a new row, whose email and Google id nobody has. -/
theorem insertUser_adds {r : User} :
    Plain (accountRules E K) C σ (insertUser E r) fun p σ' => p.2 = r ∧
    σ.now.get .users p.1 = none ∧ σ.db.get .users p.1 = none ∧
      (∀ x, r.googleId = some x → ∀ k r', σ.db.get .users k = some r' → r'.googleId ≠ some x) ∧
      Only (S := Registry) [.users] σ.db σ'.db ∧ σ'.db.get .users p.1 = some r ∧
      Acts E p.1 σ.db σ'.db := by
  unfold insertUser
  refine Yields.bind (Quiet.ensure _ _ _) fun _ σ₁ h1 hd₁ => ?_
  refine Yields.bind (R := fun _ σ' => σ' = σ₁ ∧ r.hasAuthMethod = true)
    (.ensure (fun h => ⟨rfl, h⟩) trivial) fun _ σ₂ _ hens => ?_
  obtain ⟨rfl, hm⟩ := hens
  refine Yields.bind takeEmail_free fun _ σ₃ h3 hemail => ?_
  obtain ⟨hd₃, hheld, hemail⟩ := hemail
  have hgoogle : Plain (accountRules E K) C σ₃ (takeGoogleIdOf r) fun _ σ' => σ'.db = σ₃.db ∧
      ∀ x, r.googleId = some x → Holds σ'.held (.uniq (.googleId x)) .update ∧
        ∀ k r', σ'.db.get .users k = some r' → r'.googleId ≠ some x := by
    unfold takeGoogleIdOf
    cases hg : r.googleId with
    | none => exact .pure ⟨rfl, fun x hx => by cases hx⟩
    | some g =>
      refine takeGoogleId_free.imp (fun _ σ' _ h => ⟨h.1, fun x hx => ?_⟩) fun _ h => h
      cases hx
      exact ⟨h.2.1, fun k r' hk => h.2.2 k r' hk (by simp)⟩
  refine Yields.bind hgoogle fun _ σ₄ h4 hg => ?_
  obtain ⟨hd₄, hg⟩ := hg
  have hd : σ₄.db = σ.db := by rw [hd₄, hd₃, hd₁]
  have hnow : σ₄.now = σ.now := by rw [h4.now, h3.now, h1.now]
  refine Yields.bind (Yields.insert fun n => ?_) fun n σ₅ _ hnew => ?_
  · refine account_covers (holds_acquire _ _ _) (Exclusion.guard_add fun x hx => ?_)
      (Exclusion.guard_add fun x hx => ?_)
      ⟨fun k he => (by cases he), fun k f he => by cases he⟩
        (fun k he => by cases he) fun he => by cases he
    · rw [← hx]
      exact (h4.holds hheld).mono (subset_acquire _ _ _)
    · exact (hg x hx).1.mono (subset_acquire _ _ _)
  · obtain ⟨hn, hn', -, rfl⟩ := hnew
    rw [hnow] at hn
    rw [hd] at hn'
    have hfree : (emailKeys E).Free r σ.db := by
      rintro k r' hk ⟨x, hx', hx⟩
      refine hemail k r' (by rw [hd₃, hd₁]; exact hk) (by simp) ?_
      exact Eq.trans hx' (Eq.symm hx)
    have hgfree : ∀ x, r.googleId = some x → ∀ k r', σ.db.get .users k = some r' →
        r'.googleId ≠ some x := by
      intro x hx k r' hk
      exact (hg x hx).2 k r' (by rw [hd]; exact hk)
    refine .pure ⟨rfl, hn, hn', hgfree, ?_, ?_, ?_⟩
    all_goals rw [Pt.write_db, Pt.grant_db, hd]
    · exact Only.write (S := Registry) (w := .add AccountTbl.users n r) _ List.mem_cons_self
    · exact (users_add hn' n).trans (if_pos rfl)
    · exact Acts.add_user hn' hm hfree fun k r' hk ⟨x, hx', hx⟩ => hgfree x hx k r' hk hx'

/-- An UPDATE of a user that changes no column by which the user is known. -/
theorem updateRow_acts {f : User → User} (hf : ∀ r : User, r.SameIdentity (f r)) :
    Plain (accountRules E K) C σ (updateRow (E := AppError)
      (S := Registry) .users u (fun _ => true) f) fun o σ' => Only (S := Registry)
      [.users] σ.db σ'.db ∧
      Acts E u σ.db σ'.db ∧ (o = none ∧ σ'.db = σ.db ∨
        ∃ r, σ.db.get .users u = some r ∧ o = some (f r) ∧ σ'.db.get .users u = some (f r)) := by
  refine (Yields.updateRow trivial fun σ' _ hh => covers_same hh fun r => ?_).imp
    (fun o σ' _ h => ?_) fun _ h => h
  · exact hf r
  rcases h with ⟨ho, hd⟩ | ⟨r, hr, -, ho, -, hd⟩
  · rw [hd]
    exact ⟨.refl _ _, .refl _ _, .inl ⟨ho, rfl⟩⟩
  · rw [hd]
    refine ⟨Only.write (S := Registry)
      (w := .mod AccountTbl.users u (onlyIf (fun _ => true) f)) _ List.mem_cons_self, ?_,
      .inr ⟨r, hr, ho, ?_⟩⟩
    · exact Acts.mod_user hr (hf r).goesTo (.inl (hf r).email) (.inl (hf r).googleId)
    · rw [Store.get_mod, if_pos rfl, hr]
      rfl

theorem updateLastLogin_acts : Plain (accountRules E K) C σ (updateLastLogin u) fun _ σ' =>
    Only (S := Registry) [.users] σ.db σ'.db ∧
    Acts E u σ.db σ'.db ∧ ∀ r, σ.db.get .users u = some r →
      ∃ l, σ'.db.get .users u = some { r with lastLogin := l } := by
  unfold updateLastLogin
  refine Yields.bind (R := fun _ σ' => σ' = σ) (fun n => ⟨.refl _, rfl⟩) fun n σ₁ _ hs => ?_
  subst hs
  refine Yields.bind (updateRow_acts fun r => ⟨rfl, rfl, rfl⟩) fun o σ₂ _ h =>
    .pure ⟨h.1, h.2.1, fun r hr => ?_⟩
  rcases h.2.2 with ⟨-, hd⟩ | ⟨r₀, hr₀, -, hr'⟩
  · exact ⟨r.lastLogin, by rw [hd, hr]⟩
  · rw [hr] at hr₀
    cases hr₀
    exact ⟨_, hr'⟩

/-! ## Roles, events and sessions -/

theorem assignRole_grants : Plain (accountRules E K) C σ (assignRole u .member) fun _ σ' =>
    Only (S := Registry) [.userRoles] σ.db σ'.db ∧
    Acts E u σ.db σ'.db ∧ (σ'.db.get .userRoles (u, .member)).isSome = true := by
  unfold assignRole
  refine Yields.bind (Quiet.read _ _) fun row σ₁ h1 hd₁ =>
    Yields.bind (Quiet.orFail _ _ _) fun _ σ₂ h2 hd₂ => ?_
  refine Yields.bind (Yields.claim trivial) fun b σ₃ h3 hclaim => ?_
  obtain ⟨hs₃, v, -, hv, hb⟩ := hclaim
  have hd₃ : σ₃.db = σ.db := by rw [hs₃, Pt.grant_db, hd₂, hd₁]
  rw [← Pt.grant_db, ← hs₃] at hv
  have hrow : Holds σ₃.held (.row .userRoles (u, .member)) .update := by
    rw [hs₃]
    exact holds_acquire _ _ _
  -- the claim tells whether the user has the role already
  cases b with
  | true =>
    rw [if_pos rfl]
    refine .pure ⟨hd₃ ▸ .refl _ _, hd₃ ▸ .refl _ _, ?_⟩
    exact rel_roles hv hb.symm
  | false =>
    rw [if_neg (by decide)]
    have hnone : σ.db.get .userRoles (u, .member) = none := by
      have hsame := (accountRules E K).same hv .userRoles (u, .member) (hrow.weaken (by decide))
      rw [hd₃] at hsame
      rw [← hsame, ← Option.isNone_iff_eq_none, ← Option.not_isSome, ← hb]
      rfl
    refine Yields.bind (Quiet.references _ _ _ _) fun _ σ₄ h4 hd₄ =>
      Yields.bind (Quiet.references _ _ _ _) fun _ σ₅ h5 hd₅ => ?_
    have hd : σ₅.db = σ.db := by rw [hd₅, hd₄, hd₃]
    have hheld : Holds σ₅.held (.row .userRoles (u, .member)) .noKeyUpdate :=
      h5.holds (h4.holds (hrow.weaken (by decide)))
    have hcov : (accountRules E K).Covers σ₅.held (.add AccountTbl.userRoles (u, .member) ()) :=
      covers_other hheld (fun he => by cases he) (fun _ he => by cases he) fun he => by cases he
    refine (Yields.put hcov).imp (fun _ σ₆ _ hs => ?_) fun _ h => h
    have hget : ∀ k, σ₆.db.get .userRoles k = if k = (u, .member) then some () else
        σ.db.get .userRoles k := by
      intro k
      rw [hs, Pt.write_db, hd, Store.get_add, hnone, Option.getD_none]
    have ho : Only (S := Registry) [.userRoles] σ.db σ₆.db := by
      rw [hs, Pt.write_db, hd]
      exact Only.write (S := Registry) (w := .add AccountTbl.userRoles (u, .member)
        ()) _ List.mem_cons_self
    refine ⟨ho, Acts.of_only ho (by decide) (fun k hk => ?_) (fun k hk => ?_)
      (fun x tok _ => by rw [ho.get (by decide)])
      (fun k ev he => by rw [ho.get (by decide)]; exact he)
        (fun k ev he => .inl (by rw [← ho.get (by decide)]; exact he)), ?_⟩
    · rw [hget]
      split
      · rfl
      · exact hk
    · rw [hget] at hk
      split at hk
      next he => exact .inr he
      next => exact .inl hk
    · rw [hget, if_pos rfl]
      rfl

theorem insertDomainEventTx_tells {payload : UserRegisteredPayload}
    {correlationId : Option String} :
    Plain (accountRules E K) C σ (insertDomainEventTx payload correlationId) fun _ σ' =>
      Only (S := Registry) [.eventsOutbox] σ.db σ'.db ∧
      Acts E payload.userId σ.db σ'.db ∧ ∃ k, σ.now.get .eventsOutbox k = none ∧
        σ'.db.get .eventsOutbox k = some ⟨payload, correlationId⟩ := by
  unfold insertDomainEventTx
  refine Yields.bind (Yields.insert fun n => covers_other (holds_acquire _ _ _)
    (fun he => by cases he) (fun _ he => by cases he) fun _ => ⟨_, _, rfl⟩)
    fun n σ₁ _ hnew => ?_
  obtain ⟨hnow, hn, -, hs⟩ := hnew
  have hget : ∀ k, σ₁.db.get .eventsOutbox k = if k = n then some ⟨payload, correlationId⟩ else
      σ.db.get .eventsOutbox k := by
    intro k
    rw [hs, Pt.write_db, Pt.grant_db, Store.get_add]
    exact congrArg (fun o => if k = n then some (Option.getD o _) else _) hn
  have ho : Only (S := Registry) [.eventsOutbox] σ.db σ₁.db := by
    rw [hs, Pt.write_db, Pt.grant_db]
    exact Only.write (S := Registry) (w := .add AccountTbl.eventsOutbox n ⟨payload,
      correlationId⟩) _ List.mem_cons_self
  refine .pure ⟨ho, Acts.of_only ho (by decide) (fun k hk => by rw [ho.get (by decide)]; exact hk)
    (fun k hk => .inl (by rw [← ho.get (by decide)]; exact hk))
      (fun x tok _ => by rw [ho.get (by decide)]) (fun k ev he => ?_) (fun k ev he => ?_),
      n, hnow, ?_⟩
  · have hne : k ≠ n := by
      rintro rfl
      rw [show σ.db.get .eventsOutbox k = none from hn] at he
      cases he
    rw [hget, if_neg hne]
    exact he
  · rw [hget] at he
    split at he
    next => cases he; exact .inr rfl
    next => exact .inl he
  · rw [hget, if_pos rfl]

/-- A session is started for an active user. -/
theorem start_opens {user : Uuid × User} {now : Instant} :
    Plain (accountRules E K) C σ (start E user now) fun r σ' => Only (S := Registry)
    [.refreshTokens] σ.db σ'.db ∧ Acts E user.1 σ.db σ'.db ∧
      user.2.isActive = true ∧ r.user.id = user.1 ∧ r.user.user = user.2 ∧
      ∃ tok, tok.userId = user.1 ∧ σ'.db.get .refreshTokens (E.hashToken r.refreshToken) =
        some tok := by
  unfold start
  refine Yields.bind (R := fun _ σ' => σ' = σ ∧ user.2.isActive = true)
    (.ensure (fun h => ⟨rfl, h⟩) trivial) fun _ σ₁ _ hens => ?_
  obtain ⟨rfl, hactive⟩ := hens
  refine Yields.bind (R := fun _ σ' => σ' = σ₁) (fun n => ⟨.refl _, rfl⟩) fun jti σ₂ _ hs => ?_
  subst hs
  set token := E.encodeRefreshToken ⟨user.1, Auth.refreshExpiry E.toAuthEnv now, now, jti⟩
  -- the claim of the hash has found no such token, so the insert adds one
  have hsave : Plain (accountRules E K) C σ₂ (saveRefreshToken user.1 (E.hashToken token)
      (Auth.refreshExpiry E.toAuthEnv now)) fun _ σ' =>
      Only (S := Registry) [.refreshTokens] σ₂.db σ'.db ∧ Acts E user.1 σ₂.db σ'.db ∧
        σ'.db.get .refreshTokens (E.hashToken token) = some ⟨user.1,
          Auth.refreshExpiry E.toAuthEnv now, false⟩ := by
    unfold saveRefreshToken
    refine Yields.bind (Yields.claim trivial) fun b σ₃ h3 hclaim => ?_
    obtain ⟨hs₃, v, -, hv, hb⟩ := hclaim
    rw [← Pt.grant_db, ← hs₃] at hv
    have hrow : Holds σ₃.held (.row .refreshTokens (E.hashToken token)) .update := by
      rw [hs₃]
      exact holds_acquire _ _ _
    refine Yields.bind (R := fun _ σ' => σ' = σ₃ ∧ b = false)
      (.ensure (fun h => ⟨rfl, by simpa using h⟩) trivial) fun _ σ₄ _ hens => ?_
    obtain ⟨rfl, hbf⟩ := hens
    have hnone : σ₄.db.get .refreshTokens (E.hashToken token) = none := by
      rw [← (accountRules E K).same hv .refreshTokens (E.hashToken token) (hrow.weaken (by decide)),
        ← Option.isNone_iff_eq_none,
        ← Option.not_isSome, ← hb, hbf]
      rfl
    have hd₄ : σ₄.db = σ₂.db := by rw [hs₃, Pt.grant_db]
    refine Yields.bind (Quiet.references _ _ _ _) fun _ σ₅ h5 hd₅ => ?_
    have hd : σ₅.db = σ₂.db := by rw [hd₅, hd₄]
    have hcov : (accountRules E K).Covers σ₅.held (.add AccountTbl.refreshTokens (E.hashToken token)
        ⟨user.1, Auth.refreshExpiry E.toAuthEnv now, false⟩) :=
      covers_other (h5.holds (hrow.weaken (by decide))) (fun he => by cases he)
        (fun _ he => by cases he) fun he => by cases he
    refine (Yields.put hcov).imp (fun _ σ₆ _ hs => ?_) fun _ h => h
    have hget : ∀ k, σ₆.db.get .refreshTokens k = if k = E.hashToken token then
        some ⟨user.1, Auth.refreshExpiry E.toAuthEnv now, false⟩
        else σ₂.db.get .refreshTokens k := by
      intro k
      rw [hs, Pt.write_db, hd, Store.get_add, ← hd₄, hnone, Option.getD_none]
    have ho : Only (S := Registry) [.refreshTokens] σ₂.db σ₆.db := by
      rw [hs, Pt.write_db, hd]
      exact Only.write (S := Registry) (w := .add AccountTbl.refreshTokens
        (E.hashToken token) _) _ List.mem_cons_self
    refine ⟨ho, Acts.of_only ho (by decide) (fun k hk => by rw [ho.get (by decide)]; exact hk)
      (fun k hk => .inl (by rw [← ho.get (by decide)]; exact hk)) (fun x tok ht => ?_)
        (fun k ev he => by rw [ho.get (by decide)]; exact he)
      (fun k ev he => .inl (by rw [← ho.get (by decide)]; exact he)), ?_⟩
    · rw [hget]
      split
      next he =>
        rw [he, ← hd₄, hnone]
        constructor
        · intro h
          cases h
          exact absurd rfl ht
        · intro h
          cases h
      next => rfl
    · rw [hget, if_pos rfl]
  refine Yields.bind hsave fun _ σ₃ _ h => Yields.bind (Quiet.read _ _)
    fun roles σ₄ _ hd₄ => .pure ?_
  rw [hd₄]
  exact ⟨h.1, h.2.1, hactive, rfl, rfl, _, rfl, h.2.2⟩

/-- No session is added. -/
def Fewer (a d' : Store Registry) : Prop := ∀ h tok, d'.get .refreshTokens h = some tok →
    a.get .refreshTokens h = some tok

theorem Fewer.refl (a : Store Registry) : Fewer a a := fun _ _ h => h

theorem Fewer.trans (h : Fewer d d₁) (h' : Fewer d₁ d') : Fewer d d' :=
    fun x tok ht => h x tok (h' x tok ht)

theorem Fewer.of_only {ts : List AccountTbl} (ho : Only (S := Registry) ts d d')
    (ht : .refreshTokens ∉ ts) : Fewer d d' := by
  intro x tok hx
  rw [ho.get ht] at hx
  exact hx

theorem endAll_acts : Plain (accountRules E K) C σ (endAll u) fun _ σ' => Only (S := Registry)
    [.refreshTokens] σ.db σ'.db ∧
    Acts E u σ.db σ'.db ∧ Fewer σ.db σ'.db := by
  unfold endAll
  refine Yields.bind (Yields.deleteAll (fun _ _ => trivial) fun σ' k _ hh => ?_)
    fun gone σ₁ _ hdel => ?_
  · exact covers_other (hh.weaken (by decide)) (fun he => by cases he)
      (fun _ he => by cases he) fun he => by cases he
  obtain ⟨ho, ⟨v₀, -, -, -, hgone⟩, hget⟩ := hdel
  refine .pure ⟨ho, Acts.of_only ho (by decide) (fun k hk => by rw [ho.get (by decide)]; exact hk)
    (fun k hk => .inl (by rw [← ho.get (by decide)]; exact hk)) (fun x tok ht => ?_)
      (fun k ev he => by rw [ho.get (by decide)]; exact he)
    (fun k ev he => .inl (by rw [← ho.get (by decide)]; exact he)), fun x tok ht => ?_⟩
  rotate_left
  · rw [hget] at ht
    split at ht
    next => cases ht
    next => exact ht
  rw [hget]
  split
  next hm =>
    obtain ⟨⟨k, r⟩, hin, rfl⟩ := List.mem_map.1 hm
    obtain ⟨hr, hp, -⟩ := (hgone k r).1 hin
    have hid : r.userId = u := by simpa using hp
    rw [hr]
    constructor
    · intro h
      cases h
    · intro h
      cases h
      exact absurd hid ht
  next => rfl

end DreamFly.Linking
