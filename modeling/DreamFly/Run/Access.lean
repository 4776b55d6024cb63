import DreamFly.Proof.Access

/-!
# What the access cache answers

A cached entry was read from the database at some moment. When every committed change of
a user has been flushed, an entry written afterwards was read afterwards as well
(`timely`), so it is what is committed; a lost entry and a failing cache lead to the
database. Hence a `resolve` that starts at such a moment answers what is committed, if no
change of the user commits before it ends.
-/

namespace DreamFly.Access

open Conc Code

/-! ## What has happened -/

/-- The calls that have committed a change, in order, each with its user; those whose
flush was carried out; how many commits there were at a call's last read of the database;
the calls that could not read it. -/
structure History where
  commits : List (ℕ × Uuid)
  flushes : List ℕ
  read : ℕ → ℕ
  failed : List ℕ

namespace History

def none : History := ⟨[], [], fun _ => 0, []⟩

/-- A read of the database, which fails unless its outcome is 0. -/
def reads (h : History) (t n : ℕ) : History :=
  { h with read := Function.update h.read t h.commits.length, failed := if n = 0 then h.failed else
    t :: h.failed }

def after (h : History) (t : ℕ) : Req → access.Cmd → ℕ → History
  | _, .findActive _, n => h.reads t n
  | _, .findRoleNamesByUser _, n => h.reads t n
  | .change c, .commit, n => if n = 0 then { h with commits := h.commits ++ [(t, c.user)] } else h
  | .change _, .del _, n => if n = 1 then h else { h with flushes := t :: h.flushes }
  | _, _, _ => h

def note (h : History) (s : Sys access AppError Reply Req) (e : Event access Req)
    (_ : Sys access AppError Reply Req) :
    History :=
  match e, s.does e with
  | .step t _, some (q, c, n) => h.after t q c n
  | _, _ => h

end History

abbrev State := Sys access AppError Reply Req × History

abbrev cached : Lts State (Event access Req) := accounts.lts.noting History.note

/-- An empty cache and no call yet. -/
def fresh (d : Db) : State := (.init ⟨fun _ => none, d, fun _ => none⟩, .none)

/-- The commits of user `u` since call `t` has read the database. -/
def since (x : State) (t : ℕ) (u : Uuid) : List (ℕ × Uuid) :=
  (x.2.commits.drop (x.2.read t)).filter fun c => c.2 = u

/-- Every flush succeeds, and no `resolve` reads the database before a change commits and
writes the cache after that change's flush. -/
def timely (x : State) (e : Event access Req) : Bool :=
  match e, x.1.does e with
  | .step _ _, some (_, .del _, n) => n ≠ 1 && n ≠ 2
  | .step t _, some (.resolve u, .setEx _ _ _, n) =>
    n = 1 || (since x t u).all fun c => !x.2.flushes.contains c.1
  | _, _ => true

/-- Every committed change of the user has been flushed. -/
def Settled (x : State) (u : Uuid) : Prop := ∀ c, (c, u) ∈ x.2.commits → c ∈ x.2.flushes

/-- The event commits a change of user `u`. -/
def commitsOf (u : Uuid) (x : State) (e : Event access Req) : Bool :=
  match x.1.does e with
  | some (.change c, .commit, n) => n = 0 && c.user = u
  | _ => false

abbrev db (x : State) : Db := x.1.state.db

/-- The flag the user has. -/
def flag (x : State) (u : Uuid) : Bool := ((db x).users u).getD false

/-! ## The invariant -/

/-- What is cached about a user is what is committed. -/
structure Right (x : State) (u : Uuid) : Prop where
  active : ∀ v, x.1.state.cache (.active u) = some v → v = encodeActive (flag x u)
  roles : ∀ v, x.1.state.cache (.roles u) = some v → v = encodeRoles ((db x).userRoles u)

structure Cached (x : State) : Prop where
  right : ∀ u, Settled x u → Right x u
  valid : ∀ u, ∀ name ∈ (db x).userRoles u, name ∈ (db x).roles
  /-- Who has committed. -/
  owner : ∀ t u, (t, u) ∈ x.2.commits → ∃ c p, x.1.call t = some ⟨.change c, p⟩ ∧ c.user = u
  bound : ∀ t, x.2.read t ≤ x.2.commits.length

/-- What a call knows: the value it is about to cache is the committed one, unless a change
of the user has committed since; only a read that failed has made it fail; a change is not
flushed before its commit, and its transaction writes what it says. -/
def knows (x : State) (t : ℕ) : Req → Phase → Prop
  | .resolve u, .putActive b => since x t u = [] → b = flag x u
  | .resolve u, .putRoles l => since x t u = [] → l = (db x).userRoles u
  | .resolve _, .failed => t ∈ x.2.failed
  | .change _, .write => t ∉ x.2.flushes
  | .change c, .commit =>
    t ∉ x.2.flushes ∧ x.1.state.tx t = some c ∧ ∀ u role, c = .assignRole u role →
      role ∈ (db x).roles
  | _, _ => True

section steps
variable {x y : State} {e : Event access Req} {t n : ℕ} {q : Req}
  {p p' : Code access AppError Reply} {c : access.Cmd}
  {r : access.Reply c} {σ : Phase} {f : access.Reply c → Phase} {d : access.State} {u : Uuid}

/-- Who has committed is still there. -/
theorem owner_step (h : Cached x) (he : cached.step e x = some y) (hc : y.2.commits = x.2.commits) :
    ∀ t u, (t, u) ∈ y.2.commits → ∃ c p, y.1.call t = some ⟨.change c, p⟩ ∧ c.user = u := by
  intro t u hm
  rw [hc] at hm
  obtain ⟨c, p, hcall, hu⟩ := h.owner t u hm
  obtain ⟨⟨q, p'⟩, hcall', hreq⟩ := Service.step_call (Lts.noting_step.1 he).1 hcall
  cases hreq
  exact ⟨c, p', hcall', hu⟩

/-- An event that writes nothing down but the moment of a read. -/
theorem Cached.quiet (h : Cached x) (he : cached.step e x = some y) (hdb : db y = db x)
    (hcache : ∀ k v, y.1.state.cache k = some v → x.1.state.cache k = some v)
    (hc : y.2.commits = x.2.commits)
    (hf : y.2.flushes = x.2.flushes) (hr : ∀ t, y.2.read t ≤ x.2.commits.length) : Cached y where
  right u hs := by
    have hx : Settled x u := by
      unfold Settled at hs ⊢
      rwa [hc, hf] at hs
    obtain ⟨h1, h2⟩ := h.right u hx
    refine ⟨fun v hv => ?_, fun v hv => ?_⟩
    · rw [flag, hdb]
      exact h1 v (hcache _ v hv)
    · rw [hdb]
      exact h2 v (hcache _ v hv)
  valid := by
    rw [hdb]
    exact h.valid
  owner := owner_step h he hc
  bound t := by
    rw [hc]
    exact hr t

/-- `resolve` fills in a value; it is right if the user's changes are all flushed. -/
theorem Cached.put (h : Cached x) (he : cached.step e x = some y) {k : Key} {v : String}
    (hdb : db y = db x)
    (hput : y.1.state.cache = Function.update x.1.state.cache k (some v)) (hrec : y.2 = x.2)
    (hactive : ∀ u, k = .active u → Settled x u → v = encodeActive (flag x u))
    (hroles : ∀ u, k = .roles u → Settled x u → v = encodeRoles ((db x).userRoles u)) :
    Cached y where
  right u hs := by
    -- what is put is current whenever the user is settled
    have hx : Settled x u := by rwa [Settled, hrec] at hs
    obtain ⟨h1, h2⟩ := h.right u hx
    refine ⟨fun w hw => ?_, fun w hw => ?_⟩
    · rw [flag, hdb]
      rw [hput] at hw
      by_cases hk : Key.active u = k
      · rw [← hk, Function.update_self] at hw
        cases hw
        exact hactive u hk.symm hx
      · rw [Function.update_of_ne hk] at hw
        exact h1 w hw
    · rw [hdb]
      rw [hput] at hw
      by_cases hk : Key.roles u = k
      · rw [← hk, Function.update_self] at hw
        cases hw
        exact hroles u hk.symm hx
      · rw [Function.update_of_ne hk] at hw
        exact h2 w hw
  valid := by
    rw [hdb]
    exact h.valid
  owner := owner_step h he (by rw [hrec])
  bound t := by
    rw [hrec]
    exact h.bound t

theorem apply_other {d : Db} {c : Change} (hu : c.user ≠ u) : (d.apply c).users u = d.users u ∧
    (d.apply c).userRoles u = d.userRoles u := by
  cases c with
  | deactivate u' => exact ⟨Function.update_of_ne (Ne.symm hu) _ _, rfl⟩
  | reactivate u' => exact ⟨Function.update_of_ne (Ne.symm hu) _ _, rfl⟩
  | assignRole u' role => exact ⟨rfl, Function.update_of_ne (Ne.symm hu) _ _⟩

theorem apply_roles (d : Db) (c : Change) : (d.apply c).roles = d.roles := by
  cases c <;> rfl

theorem apply_valid {d : Db} {c : Change} (h : ∀ u, ∀ name ∈ d.userRoles u, name ∈ d.roles)
    (hc : ∀ u role, c = .assignRole u role → role ∈ d.roles) :
    ∀ u, ∀ name ∈ (d.apply c).userRoles u, name ∈ (d.apply c).roles := by
  intro u name hn
  rw [apply_roles]
  cases c with
  | deactivate u' => exact h u name hn
  | reactivate u' => exact h u name hn
  | assignRole u' role =>
    by_cases hu : u = u'
    · subst hu
      have hroles : (d.apply (.assignRole u role)).userRoles u =
          if role ∈ d.userRoles u then d.userRoles u else (d.userRoles u).orderedInsert
            (· ≤ ·) role :=
        Function.update_self ..
      rw [hroles] at hn
      split at hn
      · exact h u name hn
      · rcases (List.mem_orderedInsert _).1 hn with rfl | hn
        · exact hc u name rfl
        · exact h u name hn
    · rw [(apply_other (u := u) (c := .assignRole u' role) (fun heq => hu heq.symm)).2] at hn
      exact h u name hn

/-- A change commits; until its flush nothing is asked of its user's entries. -/
theorem Cached.commit (h : Cached x) (he : cached.step e x = some y) {c : Change}
    (hcall : ∃ p, y.1.call t = some ⟨.change c, p⟩) (hdb : db y = (db x).apply c)
    (hcache : y.1.state.cache = x.1.state.cache)
    (hrec : y.2 = { x.2 with commits := x.2.commits ++ [(t, c.user)] })
    (hnew : t ∉ x.2.flushes) (hrole : ∀ u role, c = .assignRole u role → role ∈ (db x).roles) :
      Cached y where
  right u hs := by
    -- a user with a commit that nobody has flushed is not settled
    have hne : c.user ≠ u := by
      rintro rfl
      refine hnew ?_
      have := hs t (by rw [hrec]; exact List.mem_append_right _ List.mem_cons_self)
      rwa [hrec] at this
    have hx : Settled x u := by
      intro t' ht'
      have := hs t' (by rw [hrec]; exact List.mem_append_left _ ht')
      rwa [hrec] at this
    obtain ⟨h1, h2⟩ := h.right u hx
    obtain ⟨ha1, ha2⟩ := apply_other (d := db x) hne
    refine ⟨fun v hv => ?_, fun v hv => ?_⟩
    · rw [hcache] at hv
      rw [flag, hdb, ha1]
      exact h1 v hv
    · rw [hcache] at hv
      rw [hdb, ha2]
      exact h2 v hv
  valid := by
    rw [hdb]
    exact apply_valid h.valid hrole
  owner t' u hm := by
    rw [hrec] at hm
    rcases List.mem_append.1 hm with hm | hm
    · obtain ⟨c', p, hcall', hu⟩ := h.owner t' u hm
      obtain ⟨⟨q, p'⟩, hcall'', hreq⟩ := Service.step_call (Lts.noting_step.1 he).1 hcall'
      cases hreq
      exact ⟨c', p', hcall'', hu⟩
    · cases List.mem_singleton.1 hm
      obtain ⟨p, hp⟩ := hcall
      exact ⟨c, p, hp, rfl⟩
  bound t' := by
    have := h.bound t'
    rw [hrec]
    simp only [List.length_append, List.length_singleton]
    omega

/-- A flush takes the user's two entries away. -/
theorem Cached.flush (h : Cached x) (he : cached.step e x = some y) {c : Change}
    (hcall : ∃ p, x.1.call t = some ⟨.change c, p⟩) (hdb : db y = db x)
    (hdrop : y.1.state = x.1.state.drop [.roles c.user, .active c.user])
    (hrec : y.2 = { x.2 with flushes := t :: x.2.flushes }) : Cached y where
  right u hs := by
    -- the flushed user has no entry left, for the others the flush settles nothing
    by_cases hu : u = c.user
    · subst hu
      refine ⟨fun v hv => ?_, fun v hv => ?_⟩
      · rw [hdrop] at hv
        simp [Store.drop] at hv
      · rw [hdrop] at hv
        simp [Store.drop] at hv
    · have hx : Settled x u := by
        intro t' ht'
        have hf := hs t' (by rw [hrec]; exact ht')
        rw [hrec] at hf
        rcases List.mem_cons.1 hf with rfl | hf
        · obtain ⟨c', p', hcall', rfl⟩ := h.owner t' u ht'
          obtain ⟨p, hp⟩ := hcall
          rw [hp] at hcall'
          cases hcall'
          exact absurd rfl hu
        · exact hf
      obtain ⟨h1, h2⟩ := h.right u hx
      refine ⟨fun v hv => ?_, fun v hv => ?_⟩
      · rw [hdrop] at hv
        rw [flag, hdb]
        exact h1 v (by simpa [Store.drop, hu] using hv)
      · rw [hdrop] at hv
        rw [hdb]
        exact h2 v (by simpa [Store.drop, hu] using hv)
  valid := by
    rw [hdb]
    exact h.valid
  owner := owner_step h he (by rw [hrec])
  bound t' := by
    rw [hrec]
    exact h.bound t'

/-- Nothing changes but the calls and what a call has read. -/
theorem Cached.still (h : Cached x) (he : cached.step e x = some y) (hs : y.1.state = x.1.state)
    (hc : y.2.commits = x.2.commits)
    (hf : y.2.flushes = x.2.flushes) (hr : ∀ t, y.2.read t = x.2.read t ∨
      y.2.read t = x.2.commits.length) : Cached y := by
  refine h.quiet he (by rw [db, hs]) (fun k v hv => by rwa [hs] at hv) hc hf fun t => ?_
  have := h.bound t
  have := hr t
  omega

/-- The moment of a read is written down, or it is not. -/
theorem read_update (x : State) (t t' : ℕ) :
    Function.update x.2.read t x.2.commits.length t' = x.2.read t' ∨
      Function.update x.2.read t x.2.commits.length t' = x.2.commits.length := by
  by_cases ht : t' = t
  · subst ht
    exact .inr (Function.update_self ..)
  · exact .inl (Function.update_of_ne ht ..)

/-- When the user is settled, a call that may cache its value has read after every commit. -/
theorem since_settled (hs : Settled x u) (ht : ∀ c ∈ since x t u, c.1 ∉ x.2.flushes) :
    since x t u = [] := by
  rw [List.eq_nil_iff_forall_not_mem]
  rintro ⟨t', u'⟩ hc
  obtain ⟨hm, hu⟩ := List.mem_filter.1 hc
  have hu : u' = u := by simpa using hu
  subst hu
  exact ht _ hc (hs t' (List.mem_of_mem_drop hm))

/-- **What is cached about a settled user stays right.** -/
theorem Cached.step (h : Cached x) (hc : Service.Conforms protocol (knows x) x.1)
    (he : cached.step e x = some y)
    (ht : timely x e = true) : Cached y := by
  obtain ⟨he1, hrec⟩ := Lts.noting_step.1 he
  rcases hc.step_cases he1 with ⟨t, q, rfl, hn, hy⟩ | ⟨t, n, q, p, p', c, r, σ, f, s, rfl, hk, hg⟩ |
      ⟨k, rfl, hy⟩
  · exact h.still he (by rw [hy, Sys.set_state]) (by rw [hrec]; rfl) (by rw [hrec]; rfl) fun t =>
      .inl (by rw [hrec]; rfl)
  · have hdoes := hg.does
    have hrec : y.2 = x.2.after t q c n := by
      rw [hrec]
      unfold History.note
      simp only [hdoes]
    unfold timely at ht
    simp only [hdoes] at ht
    have hstate := hg.state
    have hexec := hg.exec
    have hcall := hg.call
    have hafter : y.1.call t = some ⟨q, p'⟩ := by rw [hg.after, Sys.call_set_self]
    cases hg.gives with
    | getActive u =>
      cases hexec
      exact h.still he hstate (by rw [hrec]; rfl) (by rw [hrec]; rfl) fun t =>
        .inl (by rw [hrec]; rfl)
    | getRoles u =>
      cases hexec
      exact h.still he hstate (by rw [hrec]; rfl) (by rw [hrec]; rfl) fun t =>
        .inl (by rw [hrec]; rfl)
    | readActive u =>
      cases hexec
      exact h.still he hstate (by rw [hrec]; rfl) (by rw [hrec]; rfl) fun t' => by
        rw [hrec]; exact read_update x t t'
    | readRoles u =>
      cases hexec
      exact h.still he hstate (by rw [hrec]; rfl) (by rw [hrec]; rfl) fun t' => by
        rw [hrec]; exact read_update x t t'
    | putActive u b =>
      by_cases hn : n = 1
      · subst hn
        cases hexec
        exact h.still he hstate (by rw [hrec]; rfl) (by rw [hrec]; rfl) fun t =>
          .inl (by rw [hrec]; rfl)
      -- the value was read after every commit of a settled user
      have hall : ∀ c ∈ since x t u, c.1 ∉ x.2.flushes := by simpa [hn] using ht
      have hs : s = x.1.state.put (.active u) (some (encodeActive b)) := by
        have := congrArg Prod.snd (Option.some.inj hexec)
        simpa [hn] using this.symm
      rw [hs] at hstate
      refine h.put he (by rw [db, hstate]; rfl) (by rw [hstate]; rfl)
        (by rw [hrec]; rfl) ?_ (fun _ hk => by cases hk)
      rintro u' hu' hset
      cases hu'
      rw [hk (since_settled hset hall)]
    | putRoles u l =>
      by_cases hn : n = 1
      · subst hn
        cases hexec
        exact h.still he hstate (by rw [hrec]; rfl) (by rw [hrec]; rfl) fun t =>
          .inl (by rw [hrec]; rfl)
      have hall : ∀ c ∈ since x t u, c.1 ∉ x.2.flushes := by simpa [hn] using ht
      have hs : s = x.1.state.put (.roles u) (some (encodeRoles l)) := by
        have := congrArg Prod.snd (Option.some.inj hexec)
        simpa [hn] using this.symm
      rw [hs] at hstate
      refine h.put he (by rw [db, hstate]; rfl) (by rw [hstate]; rfl) (by rw [hrec]; rfl)
        (fun _ hk => by cases hk) ?_
      rintro u' hu' hset
      cases hu'
      rw [hk (since_settled hset hall)]
    | write c =>
      have hs : s.db = x.1.state.db ∧ s.cache = x.1.state.cache := by
        have := congrArg (Option.map Prod.snd) hexec
        revert this
        dsimp only
        split
        · rintro ⟨⟩
          exact ⟨rfl, rfl⟩
        · split <;> rintro ⟨⟩ <;> exact ⟨rfl, rfl⟩
      have hr : y.2 = x.2 := hrec
      refine h.quiet he (by rw [db, hstate, hs.1]) (fun k v hv => by rwa [hstate, hs.2] at hv)
        (by rw [hr]) (by rw [hr]) fun t => ?_
      rw [hr]
      exact h.bound t
    | commit c =>
      obtain ⟨hf, htx, hrole⟩ := hk
      by_cases hn : n = 0
      · subst hn
        have hs : s = x.1.state.commit t := (congrArg Prod.snd (Option.some.inj hexec)).symm
        rw [hs, Store.commit, htx] at hstate
        exact h.commit he ⟨_, hafter⟩ (by rw [db, hstate]; rfl) (by rw [hstate]; rfl) hrec hf hrole
      · have hs : s = x.1.state.setTx t none := by
          have := congrArg (Option.map Prod.snd) hexec
          dsimp only at this
          rw [if_neg hn] at this
          exact (Option.some.inj this).symm
        have hr : y.2 = x.2 := by
          rw [hrec]
          exact if_neg hn
        refine h.quiet he (by rw [db, hstate, hs]; rfl) (fun k v hv => by rwa [hstate, hs] at hv)
          (by rw [hr]) (by rw [hr]) fun t => ?_
        rw [hr]
        exact h.bound t
    | flush c =>
      have hn : n ≠ 1 ∧ n ≠ 2 := by simpa using ht
      have hs : s = x.1.state.drop [.roles c.user, .active c.user] := by
        have := congrArg Prod.snd (Option.some.inj hexec)
        simpa [hn.1] using this.symm
      have hr : y.2 = { x.2 with flushes := t :: x.2.flushes } := by
        rw [hrec]
        exact if_neg hn.1
      exact h.flush he ⟨_, hcall⟩ (by rw [db, hstate, hs]; rfl) (by rw [hstate, hs]) hr
  · have hr : y.2 = x.2 := by rw [hrec]; rfl
    have hstate : y.1.state = x.1.state.put k none := by rw [hy]
    refine h.quiet he (by rw [db, hstate, Store.put]) (fun k' v hv => ?_) (by rw [hr])
      (by rw [hr]) fun t => ?_
    · rw [hstate] at hv
      change Function.update x.1.state.cache k none k' = some v at hv
      by_cases hkk : k' = k
      · rw [hkk, Function.update_self] at hv
        cases hv
      · rwa [Function.update_of_ne hkk] at hv
    · rw [hr]
      exact h.bound t

/-! ## What the calls know -/

/-- What an event does beside the cache: at most one more commit, no flush undone, and
nothing to the reads, flushes and transactions of the calls that do not step. -/
structure Effect (x y : State) (e : Event access Req) : Prop where
  commits : (y.2.commits = x.2.commits ∧ db y = db x) ∨
    ∃ t c, y.2.commits = x.2.commits ++ [(t, c.user)] ∧ db y = (db x).apply c ∧ ∀ u, c.user = u →
      commitsOf u x e = true
  flushes : ∀ t ∈ x.2.flushes, t ∈ y.2.flushes
  failed : ∀ t ∈ x.2.failed, t ∈ y.2.failed
  others : ∀ t, (∀ n, e ≠ .step t n) →
    y.2.read t = x.2.read t ∧ (t ∈ y.2.flushes → t ∈ x.2.flushes) ∧ y.1.state.tx t = x.1.state.tx t

/-- An event that commits and flushes nothing. -/
theorem Effect.still (hc : y.2.commits = x.2.commits) (hf : y.2.flushes = x.2.flushes)
    (hb : ∀ t ∈ x.2.failed, t ∈ y.2.failed) (hdb : db y = db x)
    (ho : ∀ t, (∀ n, e ≠ .step t n) → y.2.read t = x.2.read t ∧ y.1.state.tx t = x.1.state.tx t) :
    Effect x y e where
  commits := .inl ⟨hc, hdb⟩
  flushes t ht := by rwa [hf]
  failed := hb
  others t ht := ⟨(ho t ht).1, fun h => by rwa [hf] at h, (ho t ht).2⟩

theorem effect_step (hc : Service.Conforms protocol (knows x) x.1) (he : cached.step e x = some y) :
    Effect x y e := by
  obtain ⟨he1, hrec⟩ := Lts.noting_step.1 he
  rcases hc.step_cases he1 with ⟨t, q, rfl, hn, hy⟩ | ⟨t, n, q, p, p', c, r, σ, f, s, rfl, hk, hg⟩ |
      ⟨k, rfl, hy⟩
  · have hr : y.2 = x.2 := by rw [hrec]; rfl
    exact .still (by rw [hr]) (by rw [hr]) (by rw [hr]; exact fun _ => id)
      (by rw [db, hy, Sys.set_state]) fun t _ =>
      ⟨by rw [hr], by rw [hy, Sys.set_state]⟩
  · have hrec : y.2 = x.2.after t q c n := by
      rw [hrec]
      unfold History.note
      simp only [hg.does]
    have hstate := hg.state
    have hexec := hg.exec
    have hother : ∀ t', (∀ m, Event.step t n ≠ (.step t' m : Event access Req)) → t' ≠ t := by
      rintro t' h rfl
      exact h n rfl
    have still : ∀ h', y.2 = h' → h'.commits = x.2.commits → h'.flushes = x.2.flushes →
        (∀ t ∈ x.2.failed, t ∈ h'.failed) →
        (∀ t' ≠ t, h'.read t' = x.2.read t' ∧ s.tx t' = x.1.state.tx t') → s.db = x.1.state.db →
        Effect x y (.step t n) := by
      rintro h' rfl h1 h2 hb h3 h4
      exact .still h1 h2 hb (by rw [db, hstate, h4]) fun t' ht' =>
        ⟨(h3 t' (hother t' ht')).1, by rw [hstate, (h3 t' (hother t' ht')).2]⟩
    -- only a commit moves the database, and only a flush is recorded as one
    cases hg.gives with
    | getActive u | getRoles u =>
      cases hexec
      exact still _ hrec rfl rfl (fun _ => id) (fun _ _ => ⟨rfl, rfl⟩) rfl
    | readActive u | readRoles u =>
      cases hexec
      refine still _ hrec rfl rfl (fun t' ht' => ?_)
        (fun t' ht' => ⟨Function.update_of_ne ht' .., rfl⟩) rfl
      dsimp only [History.after, History.reads]
      split
      · exact ht'
      · exact List.mem_cons_of_mem t ht'
    | putActive u b | putRoles u l =>
      have hs := congrArg Prod.snd (Option.some.inj hexec)
      dsimp only at hs
      have hsame : s.tx = x.1.state.tx ∧ s.db = x.1.state.db := by
        rw [← hs]
        split <;> exact ⟨rfl, rfl⟩
      exact still _ hrec rfl rfl (fun _ => id) (fun t' _ => ⟨rfl, by rw [hsame.1]⟩) hsame.2
    | write c =>
      have hsame : (∀ t' ≠ t, s.tx t' = x.1.state.tx t') ∧ s.db = x.1.state.db := by
        have := congrArg (Option.map Prod.snd) hexec
        revert this
        dsimp only
        split
        · rintro ⟨⟩
          exact ⟨fun _ _ => rfl, rfl⟩
        · split <;> rintro ⟨⟩
          · exact ⟨fun _ _ => rfl, rfl⟩
          · exact ⟨fun t' ht' => Function.update_of_ne ht' .., rfl⟩
      exact still _ hrec rfl rfl (fun _ => id) (fun t' ht' => ⟨rfl, hsame.1 t' ht'⟩) hsame.2
    | commit c =>
      -- the choice 0 is a commit that goes through
      by_cases hn : n = 0
      · subst hn
        have hs : s = x.1.state.commit t := (congrArg Prod.snd (Option.some.inj hexec)).symm
        obtain ⟨-, htx, -⟩ := hk
        rw [hs, Store.commit, htx] at hstate
        refine ⟨.inr ⟨t, c, by rw [hrec]; rfl, by rw [db, hstate]; rfl, fun u hu => ?_⟩,
          fun t' ht' => by rw [hrec]; exact ht',
          by rw [hrec]; exact fun _ => id,
          fun t' ht' => ⟨by rw [hrec]; rfl, by rw [hrec]; exact id, ?_⟩⟩
        · unfold commitsOf
          simp only [hg.does, hu, decide_true, Bool.and_self]
        · rw [hstate]
          exact Function.update_of_ne (hother t' ht') ..
      · have hs : s = x.1.state.setTx t none := by
          have := congrArg (Option.map Prod.snd) hexec
          dsimp only at this
          rw [if_neg hn] at this
          exact (Option.some.inj this).symm
        refine still _ (hrec.trans (if_neg hn)) rfl rfl (fun _ => id) (fun t' ht' => ⟨rfl, ?_⟩)
          (by rw [hs]; rfl)
        rw [hs]
        exact Function.update_of_ne ht' ..
    | flush c =>
      have hs := congrArg Prod.snd (Option.some.inj hexec)
      dsimp only at hs
      have hsame : s.tx = x.1.state.tx ∧ s.db = x.1.state.db := by
        rw [← hs]
        split <;> exact ⟨rfl, rfl⟩
      -- the choice 1 is a flush that fails
      by_cases hn : n = 1
      · exact still _ (hrec.trans (if_pos hn)) rfl rfl (fun _ => id)
          (fun t' _ => ⟨rfl, by rw [hsame.1]⟩) hsame.2
      · have hr : y.2 = { x.2 with flushes := t :: x.2.flushes } := hrec.trans (if_neg hn)
        refine ⟨.inl ⟨by rw [hr], by rw [db, hstate, hsame.2]⟩,
          fun t' ht' => by rw [hr]; exact List.mem_cons_of_mem t ht',
          by rw [hr]; exact fun _ => id,
          fun t' ht' => ⟨by rw [hr], fun hf => ?_, by rw [hstate, hsame.1]⟩⟩
        rw [hr] at hf
        exact (List.mem_cons.1 hf).resolve_left (hother t' ht')
  · have hr : y.2 = x.2 := by rw [hrec]; rfl
    have hstate : y.1.state = x.1.state.put k none := by rw [hy]
    exact .still (by rw [hr]) (by rw [hr]) (by rw [hr]; exact fun _ => id)
      (by rw [db, hstate, Store.put]) fun t _ =>
      ⟨by rw [hr], by rw [hstate, Store.put]⟩

/-- The user's rows, after an event that commits no change of the user. -/
structure Same (x y : State) (u : Uuid) : Prop where
  users : (db y).users u = (db x).users u
  roles : (db y).userRoles u = (db x).userRoles u

namespace Effect

theorem roles (h : Effect x y e) : (db y).roles = (db x).roles := by
  rcases h.commits with ⟨-, hd⟩ | ⟨t', c, -, hd, -⟩
  · rw [hd]
  · rw [hd, apply_roles]

theorem same (h : Effect x y e) (hu : commitsOf u x e = false) : Same x y u := by
  rcases h.commits with ⟨-, hd⟩ | ⟨t', c, -, hd, hc⟩
  · exact ⟨by rw [hd], by rw [hd]⟩
  · have hne : c.user ≠ u := fun heq => by
      rw [hc u heq] at hu
      cases hu
    obtain ⟨h1, h2⟩ := apply_other (d := db x) hne
    exact ⟨by rw [hd, h1], by rw [hd, h2]⟩

theorem settled (h : Effect x y e) (hu : commitsOf u x e = false) (hs : Settled x u) :
    Settled y u := by
  intro t ht
  rcases h.commits with ⟨hc, -⟩ | ⟨t', c, hc, -, hcu⟩
  · rw [hc] at ht
    exact h.flushes t (hs t ht)
  · rw [hc] at ht
    rcases List.mem_append.1 ht with ht | ht
    · exact h.flushes t (hs t ht)
    · cases List.mem_singleton.1 ht
      rw [hcu _ rfl] at hu
      cases hu

/-- If no change of the user has committed since a call's read, none has in between. -/
theorem since (h : Effect x y e) (hne : ∀ n, e ≠ .step t n) (hb : x.2.read t ≤ x.2.commits.length)
    (hy : since y t u = []) :
    since x t u = [] ∧ Same x y u := by
  unfold Access.since at hy ⊢
  rw [(h.others t hne).1] at hy
  rcases h.commits with ⟨hc, hd⟩ | ⟨t', c, hc, hd, -⟩
  · rw [hc] at hy
    exact ⟨hy, by rw [hd], by rw [hd]⟩
  · rw [hc, List.drop_append_of_le_length hb, List.filter_append, List.append_eq_nil_iff] at hy
    have hne : c.user ≠ u := by
      rintro rfl
      have := hy.2
      simp at this
    obtain ⟨h1, h2⟩ := apply_other (d := db x) hne
    exact ⟨hy.1, by rw [hd, h1], by rw [hd, h2]⟩

/-- What a call knows stays true while others step. -/
theorem knows (h : Effect x y e) (hne : ∀ n, e ≠ .step t n) (hb : x.2.read t ≤ x.2.commits.length)
    (hk : knows x t q σ) :
    knows y t q σ := by
  obtain ⟨-, hflushes, htx⟩ := h.others t hne
  cases q with
  | resolve u =>
    cases σ with
    | putActive b =>
      intro hy
      obtain ⟨hx, hs⟩ := h.since hne hb hy
      rw [hk hx, flag, flag, hs.users]
    | putRoles l =>
      intro hy
      obtain ⟨hx, hs⟩ := h.since hne hb hy
      rw [hk hx, hs.roles]
    | failed => exact h.failed t hk
    | _ => trivial
  | change c =>
    cases σ with
    | write => exact fun hf => hk (hflushes hf)
    | commit =>
      obtain ⟨hf, hc, hrole⟩ := hk
      refine ⟨fun hf' => hf (hflushes hf'), by rw [htx, hc], ?_⟩
      rw [h.roles]
      exact hrole
    | _ => trivial

end Effect

/-- A flush belongs to a call. -/
def Flushed (x : State) : Prop := ∀ t ∈ x.2.flushes, ∃ c, x.1.call t = some c

theorem Flushed.step (h : Flushed x) (hc : Service.Conforms protocol (knows x) x.1)
    (he : cached.step e x = some y) :
    Flushed y := by
  intro t ht
  have he1 := (Lts.noting_step.1 he).1
  by_cases hne : ∀ n, e ≠ .step t n
  · obtain ⟨c, hcall⟩ := h t (((effect_step hc he).others t hne).2.1 ht)
    obtain ⟨c', hcall', -⟩ := Service.step_call he1 hcall
    exact ⟨c', hcall'⟩
  · push Not at hne
    obtain ⟨n, rfl⟩ := hne
    rcases Service.step_cases he1 with ⟨_, _, heq, -⟩ | ⟨t', n', q, p, p', s, heq, -, -, hy⟩ |
        ⟨_, heq, -⟩
    · cases heq
    · cases heq
      exact ⟨_, by rw [hy, Sys.call_set_self]⟩
    · cases heq

/-- **What the calls know stays true.** -/
theorem knows_step (h : Cached x) (hf : Flushed x) (hc : Service.Conforms protocol (knows x) x.1)
    (he : cached.step e x = some y) : Service.Conforms protocol (knows y) y.1 := by
  have heff := effect_step hc he
  obtain ⟨he1, hrec⟩ := Lts.noting_step.1 he
  refine hc.step he1 ?_ (fun t c σ hne _ _ hk => heff.knows hne (h.bound t) hk) ?_
  · rintro t q rfl
    refine ⟨q.first, ?_, accounts_keeps q⟩
    cases q with
    | resolve u => trivial
    | change c =>
      -- who has flushed is a call already, and this one is new
      intro ht
      obtain ⟨c', hcall⟩ := hf t ((heff.others t fun _ => by nofun).2.1 ht)
      rcases Service.step_cases he1 with ⟨_, _, heq, hn, -⟩ | ⟨_, _, _, _, _, _, heq, -⟩ |
          ⟨_, heq, -⟩
      · cases heq
        rw [hn] at hcall
        cases hcall
      · cases heq
      · cases heq
  · rintro t n q p p' c r σ f s rfl hk hg
    have hrec : y.2 = x.2.after t q c n := by
      rw [hrec]
      unfold History.note
      simp only [hg.does]
    have hstate := hg.state
    have hexec := hg.exec
    cases hg.gives with
    | getActive u =>
      unfold afterGetActive afterActive
      split
      · split <;> trivial
      · trivial
    | getRoles u =>
      unfold afterGetRoles
      split <;> trivial
    | readActive u =>
      cases hexec
      by_cases hn : n = 0
      · subst hn
        intro _
        rw [flag, db, hstate]
      · rw [if_neg hn]
        change t ∈ y.2.failed
        rw [hrec]
        dsimp only [History.after, History.reads]
        rw [if_neg hn]
        exact List.mem_cons_self
    | readRoles u =>
      cases hexec
      by_cases hn : n = 0
      · subst hn
        intro _
        rw [db, hstate]
      · rw [if_neg hn]
        change t ∈ y.2.failed
        rw [hrec]
        dsimp only [History.after, History.reads]
        rw [if_neg hn]
        exact List.mem_cons_self
    | putActive u b =>
      unfold afterActive
      split <;> trivial
    | putRoles u l => trivial
    | write c =>
      have hf : t ∉ y.2.flushes := by
        rw [hrec]
        exact hk
      have hdo := congrArg (Option.map id) hexec
      revert hdo
      dsimp only
      split
      · rintro ⟨⟩
        trivial
      split
      · rintro ⟨⟩
        trivial
      · next hok =>
        rintro ⟨⟩
        refine ⟨hf, by rw [hstate]; exact Function.update_self .., ?_⟩
        rintro u role rfl
        rw [heff.roles]
        -- without the role the statement would have been refused
        by_contra hrole
        have hno : (db x).refuses (.assignRole u role) = some .rowNotFound := if_pos hrole
        rw [hno] at hok
        cases hok
    | commit c =>
      unfold unlessFailed
      split <;> trivial
    | flush c => trivial

end steps

end DreamFly.Access
