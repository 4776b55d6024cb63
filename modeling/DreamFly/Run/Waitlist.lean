import DreamFly.Proof.Waitlist
import DreamFly.Txn.Journal
import DreamFly.Txn.Plain

/-!
# Waitlists over whole runs

Any joins, cancellations and listings, while others enrol, leave and change courses.

* `waitlist_kept`: nobody waits twice, and entries come and go by their own requests only.
* `joins_justified`: who joins has found the course on offer and full.
* `queue_moves_up`: a listing is in order of arrival, and nobody falls back in it.
-/

namespace DreamFly.Waitlist

open Txn Prog

abbrev WaitSys := Sys Waiting AppError WaitReply WaitReq

abbrev ListEntry := Entry Waiting AppError WaitReply WaitReq

variable {K : Rely Waiting} {a d d' : Store Waiting} {s : WaitSys} {γ : List ListEntry}
  {x : ListEntry}
  {ok : WaitSys → Event WaitReq → WaitSys → Prop} {σ : Pt Waiting}

/-- The contract of the service. -/
def waitContract (K : Rely Waiting) : Contract waitlist (waitRules K) :=
  plainContract (C := fun q σ => q.Does K σ) fun q b d' _ => q.does K b d'

theorem waitlist_ok (hK : ∀ s e s', ok s e s' → ∀ L, K.rel L s.db s'.db)
    (hr : waitlist.Reach ok (Sys.init d) s) : s.OK (waitContract K) :=
  reach_ok (fun s e s' _ _ hok _ _ _ _ => hK s e s' hok _) (ok_init d) hr

/-- What an entry of the journal does to the stores. -/
def Serves (K : Rely Waiting) (x : ListEntry) : Prop := ∃ σ : Pt Waiting, σ.now = x.before ∧
    σ.db = x.after ∧ x.req.Does K σ

theorem entry_serves (hK : ∀ s e s', ok s e s' → ∀ L, K.rel L s.db s'.db)
    (hj : waitlist.Journaled ok d s γ) : ∀ x ∈ γ, Serves K x := by
  intro x hx
  obtain ⟨σ, hnow, hdb, -, hdoes⟩ := journal_meets (fun _ hr => waitlist_ok hK hr) hj x hx
  exact ⟨σ, hnow, hdb, hdoes⟩

theorem serves_free (hj : waitlist.Journaled ok d s γ) : ∀ x ∈ γ, Serves (.free Waiting) x :=
  entry_serves (fun _ _ _ _ _ => trivial) hj

/-! ## One entry -/

/-- **What an entry of the journal can be**: a join, a cancellation, or none of the waitlist's
business. -/
theorem Serves.cases (h : Serves K x) :
    (∃ userId courseId, x.req = .join userId courseId ∧ Joined userId courseId x.before x.after ∧
      FoundFull K courseId x.before) ∨
      (∃ auth id, x.req = .cancel auth id ∧ Left auth id x.before x.after) ∨
      ∃ q, x.req = .elsewhere q ∧ Beside x.before x.after := by
  obtain ⟨σ, hnow, hdb, hdoes⟩ := h
  rw [← hnow, ← hdb]
  cases hq : x.req with
  | join userId courseId =>
    rw [hq] at hdoes
    exact .inl ⟨userId, courseId, rfl, hdoes⟩
  | cancel auth id =>
    rw [hq] at hdoes
    exact .inr (.inl ⟨auth, id, rfl, hdoes⟩)
  | listMine userId => rw [hq] at hdoes; exact hdoes.elim
  | listForCourse courseId => rw [hq] at hdoes; exact hdoes.elim
  | elsewhere q =>
    rw [hq] at hdoes
    exact .inr (.inr ⟨q, rfl, hdoes⟩)

theorem Joined.only {userId courseId : Uuid} (h : Joined userId courseId a d') :
    Only (S := Waiting) [.waitlistEntries] a d' := by
  obtain ⟨-, k, t, -, -, rfl⟩ := h
  exact Only.write (S := Waiting) (w := .add WaitTbl.waitlistEntries k ⟨userId, courseId, .waiting,
    t⟩) _ List.mem_cons_self

theorem Left.only {auth : AuthUser} {id : Uuid} (h : Left auth id a d') :
    Only (S := Waiting) [.waitlistEntries] a d' := by
  obtain ⟨w, -, -, -, rfl⟩ := h
  exact Only.write (S := Waiting)
    (w := .mod WaitTbl.waitlistEntries id cancelling) _ List.mem_cons_self

/-- An entry that is there already. -/
theorem Serves.row (h : Serves K x) {k : Uuid} {r : WaitlistEntry}
    (hr : x.before.get .waitlistEntries k = some r) :
    ∃ r', x.after.get .waitlistEntries k = some r' ∧ r.GoesTo r' ∧
      (r' = r ∨ ∃ auth, x.req = .cancel auth k ∧ r.status = .waiting ∧
      (auth.userId = r.userId ∨ auth.isAdmin = true) ∧ r' = r.cancel) := by
  rcases h.cases with ⟨userId, courseId, -, ⟨-, k', t, hn, -, hd⟩, -⟩ |
      ⟨auth, id, hreq, w, hw, hwaits, hmay, hd⟩ | ⟨-, -, ho, -⟩
  · have hne : k ≠ k' := by
      rintro rfl
      rw [hr] at hn
      cases hn
    refine ⟨r, ?_, .refl r, .inl rfl⟩
    rw [hd, Store.get_add, if_neg hne]
    exact hr
  · by_cases he : k = id
    · subst he
      rw [hr] at hw
      cases hw
      have hcancel : cancelling r = r.cancel := by
        rcases cancelling_of r with ⟨hc, -⟩ | ⟨-, hc⟩
        · exact hc
        · rw [hwaits] at hc
          cases hc
      refine ⟨r.cancel, ?_, hcancel ▸ cancelling_goesTo r, .inr ⟨auth, hreq, hwaits, hmay, rfl⟩⟩
      rw [hd, Store.get_mod, if_pos rfl, hr, Option.map_some, hcancel]
    · refine ⟨r, ?_, .refl r, .inl rfl⟩
      rw [hd, Store.get_mod, if_neg he]
      exact hr
  · refine ⟨r, ?_, .refl r, .inl rfl⟩
    rw [ho.get (by decide)]
    exact hr

/-- An entry that is new. -/
theorem Serves.new (h : Serves K x) {k : Uuid} {r : WaitlistEntry}
    (hn : x.before.get .waitlistEntries k = none)
    (hr : x.after.get .waitlistEntries k = some r) : x.req = .join r.userId r.courseId ∧
    r.status = .waiting := by
  rcases h.cases with ⟨userId, courseId, hreq, ⟨-, k', t, hn', -, hd⟩, -⟩ |
      ⟨auth, id, -, w, hw, -, -, hd⟩ | ⟨-, -, ho, -⟩
  · rw [hd, Store.get_add, hn', Option.getD_none] at hr
    split at hr
    next => cases hr; exact ⟨hreq, rfl⟩
    next => rw [hn] at hr; cases hr
  · rw [hd, Store.get_mod] at hr
    split at hr
    next he =>
      subst he
      rw [hn] at hw
      cases hw
    next => rw [hn] at hr; cases hr
  · rw [ho.get (by decide), hn] at hr
    cases hr

/-- Nobody waits twice, and each entry is for a course that there is. -/
structure Tidy (d : Store Waiting) : Prop where
  apart : waitingKeys.Apart d
  courses : ∀ k r, d.get .waitlistEntries k = some r → (d.get .courses r.courseId).isSome = true

theorem Serves.tidy (h : Serves K x) (ht : Tidy x.before) : Tidy x.after := by
  rcases h.cases with ⟨userId, courseId, -, hjoined, -⟩ | ⟨auth, id, -, hleft⟩ |
      ⟨-, -, ho, hcourses⟩
  · have ho := hjoined.only
    obtain ⟨hcourse, k, t, hn, hfree, hd⟩ := hjoined
    refine ⟨hd ▸ ht.apart.add hn hfree, fun k' r hk' => ?_⟩
    rw [ho.get (by decide)]
    rw [hd, Store.get_add, hn, Option.getD_none] at hk'
    split at hk'
    next => cases hk'; exact hcourse
    next => exact ht.courses k' r hk'
  · have ho := hleft.only
    obtain ⟨w, hw, -, -, hd⟩ := hleft
    refine ⟨hd ▸ ht.apart.mod fun r x hx => cancelling_waits hx, fun k' r hk' => ?_⟩
    rw [ho.get (by decide)]
    rw [hd, Store.get_mod] at hk'
    split at hk'
    next =>
      obtain ⟨r₀, hr₀, rfl⟩ := Option.map_eq_some_iff.1 hk'
      rw [(cancelling_goesTo r₀).course]
      exact ht.courses _ r₀ hr₀
    next => exact ht.courses k' r hk'
  · refine ⟨ht.apart.only ho (by decide), fun k r hk => ?_⟩
    rw [ho.get (by decide)] at hk
    exact hcourses _ (ht.courses k r hk)

/-! ## Runs -/

/-- Entries stay, and are what they were. -/
theorem linked_row {k : Uuid} {r : WaitlistEntry} (hs : ∀ x ∈ γ, Serves K x) (hl : Linked d γ d')
    (hr : d.get .waitlistEntries k = some r) :
    ∃ r', d'.get .waitlistEntries k = some r' ∧ r.GoesTo r' := by
  refine hl.inv (P := fun (d : Store Waiting) => ∃ r', d.get .waitlistEntries k = some r' ∧
    r.GoesTo r') (fun x hx h => ?_) ⟨r, hr, .refl r⟩
  obtain ⟨r₁, hr₁, hgoes⟩ := h
  obtain ⟨r', hr', hgoes', -⟩ := (hs x hx).row hr₁
  exact ⟨r', hr', hgoes.trans hgoes'⟩

/-- A new entry has been added by a join. -/
theorem linked_new {k : Uuid} {r : WaitlistEntry} (hs : ∀ x ∈ γ, Serves K x) (hl : Linked d γ d')
    (hn : d.get .waitlistEntries k = none)
    (hr : d'.get .waitlistEntries k = some r) :
    ∃ x ∈ γ, x.req = .join r.userId r.courseId ∧ x.before.get .waitlistEntries k = none ∧
      ∃ r₀, x.after.get .waitlistEntries k = some r₀ ∧ r₀.status = .waiting ∧ r₀.GoesTo r := by
  obtain ⟨γ₁, x, γ₂, rfl, hnone, hsome⟩ :=
    hl.since (P := fun (d : Store Waiting) => (d.get .waitlistEntries k).isSome = true)
      (by rw [hn]; decide) (by rw [hr]; rfl)
  rw [Bool.not_eq_true, Option.isSome_eq_false_iff, Option.isNone_iff_eq_none] at hnone
  obtain ⟨r₀, hr₀⟩ := Option.isSome_iff_exists.1 hsome
  have hx : x ∈ γ₁ ++ x :: γ₂ := List.mem_append_right _ List.mem_cons_self
  obtain ⟨hreq, hwaits⟩ := (hs x hx).new hnone hr₀
  obtain ⟨r', hr', hgoes⟩ := linked_row (fun y hy =>
    hs y (List.mem_append_right _ (List.mem_cons_of_mem x hy))) hl.at_entry.2 hr₀
  rw [hr] at hr'
  cases hr'
  rw [← hgoes.user, ← hgoes.course] at hreq
  exact ⟨x, hx, hreq, hnone, r₀, hr₀, hwaits, hgoes⟩

/-- The entry `x` of the journal takes `k` off the list, for its user or an admin. -/
structure Cancels (k : Uuid) (r : WaitlistEntry) (x : ListEntry) : Prop where
  req : ∃ auth, x.req = .cancel auth k ∧ (auth.userId = r.userId ∨ auth.isAdmin = true)
  waited : ∃ r₀, x.before.get .waitlistEntries k = some r₀ ∧ r₀.status = .waiting ∧
    x.after.get .waitlistEntries k = some r₀.cancel

/-- An entry that is cancelled was so at the start, or has been cancelled by its user or an
admin, whenever it was added. -/
theorem linked_cancelled {k : Uuid} {r : WaitlistEntry} (hs : ∀ x ∈ γ, Serves K x)
    (hl : Linked d γ d')
    (hr : d'.get .waitlistEntries k = some r) (hc : r.status = .cancelled) :
    (∃ r₀, d.get .waitlistEntries k = some r₀ ∧ r₀.status = .cancelled) ∨
    ∃ x ∈ γ, Cancels k r x := by
  by_cases hstart : ∃ r₀, d.get .waitlistEntries k = some r₀ ∧ r₀.status = .cancelled
  · exact .inl hstart
  -- the entry of the journal since which it is cancelled
  obtain ⟨γ₁, x, γ₂, rfl, hbefore, r₂, hr₂, hc₂⟩ :=
    hl.since (P := fun (d : Store Waiting) => ∃ r', d.get .waitlistEntries k = some r' ∧
      r'.status = .cancelled) hstart ⟨r, hr, hc⟩
  have hx : x ∈ γ₁ ++ x :: γ₂ := List.mem_append_right _ List.mem_cons_self
  obtain ⟨r', hr', hgoes⟩ := linked_row (fun y hy =>
    hs y (List.mem_append_right _ (List.mem_cons_of_mem x hy))) hl.at_entry.2 hr₂
  rw [hr] at hr'
  cases hr'
  cases hr₁ : x.before.get .waitlistEntries k with
  | none =>
    -- what is new waits
    obtain ⟨-, hwaits⟩ := (hs x hx).new hr₁ hr₂
    rw [hwaits] at hc₂
    cases hc₂
  | some r₁ =>
    obtain ⟨r₃, hr₃, hgoes₁, hcase⟩ := (hs x hx).row hr₁
    rw [hr₂] at hr₃
    cases hr₃
    rcases hcase with rfl | ⟨auth, hreq, hwaits, hmay, rfl⟩
    · exact absurd ⟨_, hr₁, hc₂⟩ hbefore
    · rw [← hgoes₁.user, ← hgoes.user] at hmay
      exact .inr ⟨x, hx, ⟨auth, hreq, hmay⟩, r₁, hr₁, hwaits, hr₂⟩

theorem linked_tidy (hs : ∀ x ∈ γ, Serves K x) (hl : Linked d γ d') (h0 : Tidy d) : Tidy d' :=
    hl.inv (fun x hx => (hs x hx).tidy) h0

/-- **The waitlist keeps its entries.** Over any run no user waits twice for one course and every
entry is for a course that there is. From every state of the run on entries stay, with their user,
course and time, and a cancelled one stays cancelled. Each entry that was not there at the start
was added, waiting, by a join of its user for its course, and each cancelled one was so at the
start or was taken off the list by its user or an admin. -/
theorem waitlist_kept {d : Store Waiting} {s : WaitSys} {γ : List ListEntry} (h0 : Tidy d)
    (hj : waitlist.Journaled (fun _ _ _ => True) d s γ) :
    Tidy s.db ∧
    (∀ γ₁ γ₂ d₁, γ = γ₁ ++ γ₂ → Linked d γ₁ d₁ → ∀ k r, d₁.get .waitlistEntries k = some r →
      ∃ r', s.db.get .waitlistEntries k = some r' ∧ r.GoesTo r') ∧
    (∀ k r, d.get .waitlistEntries k = none → s.db.get .waitlistEntries k = some r →
      ∃ x ∈ γ, x.req = .join r.userId r.courseId ∧ x.before.get .waitlistEntries k = none ∧
        ∃ r₀, x.after.get .waitlistEntries k = some r₀ ∧ r₀.status = .waiting ∧ r₀.GoesTo r) ∧
    ∀ k r, s.db.get .waitlistEntries k = some r → r.status = .cancelled →
      (∃ r₀, d.get .waitlistEntries k = some r₀ ∧ r₀.status = .cancelled) ∨
      ∃ x ∈ γ, Cancels k r x := by
  have hs := serves_free hj
  have hl := journal_linked hj
  refine ⟨linked_tidy hs hl h0, fun γ₁ γ₂ d₁ hγ hl₁ k r hr => ?_,
    fun k r hn hr => linked_new hs hl hn hr,
    fun k r hr hc => linked_cancelled hs hl hr hc⟩
  subst hγ
  obtain ⟨d₂, hl₂, hrest⟩ := hl.split
  cases hl₁.unique hl₂
  exact linked_row (fun x hx => hs x (List.mem_append_right _ hx)) hrest hr

/-! ## Who may join -/

/-- Each step is taken where `P` holds. -/
def Always (P : Store Waiting → Prop) (s : WaitSys) (_ : Event WaitReq)
    (_ : WaitSys) : Prop := P s.db

theorem before_always {P : Store Waiting → Prop} (hj : waitlist.Journaled (Always P) d s γ) :
    ∀ x ∈ γ, P x.before := by
  refine journaled_induct (P := fun _ γ => ∀ x ∈ γ, P x.before) (fun x hx => by cases hx)
    (fun s γ e s' _ he hok ih x hx => ?_) hj
  rcases List.mem_append.1 hx with hx | hx
  · exact ih x hx
  rcases entry_cases he with ⟨hn, -⟩ | ⟨t, n, c, k, -, -, -, -, hn⟩
  · rw [hn] at hx
    cases hx
  · rw [hn] at hx
    cases List.mem_singleton.1 hx
    exact hok

/-- What is so all the time is so of what a join has read. -/
theorem join_read {P : Store Waiting → Prop} {userId courseId : Uuid}
    (hj : waitlist.Journaled (Always P) d s γ) (hx : x ∈ γ)
    (hreq : x.req = .join userId courseId) : P x.before ∧
    FoundFull (.past P) courseId x.before := by
  refine ⟨before_always hj x hx, ?_⟩
  rcases (entry_serves (K := .past P) (fun s e s' hok _ _ => hok) hj x hx).cases with ⟨u, c, hjoin,
    -, hfull⟩ | ⟨auth, id, hcancel, -⟩ | ⟨q, helse, -⟩
  · rw [hreq] at hjoin
    cases hjoin
    exact hfull
  · rw [hreq] at hcancel
    cases hcancel
  · rw [hreq] at helse
    cases helse

/-- Fewer than `n` are enrolled, and there is room for `n`. -/
def HasRoom (n : ℕ) (courseId : Uuid) (d : Store Waiting) : Prop :=
  d.count .enrolments (activeIn courseId) < n ∧ ∀ c, d.get .courses courseId = some c →
    (n : ℤ) ≤ c.maxStudents

/-- The course is not on offer. -/
def Withdrawn (courseId : Uuid) (d : Store Waiting) : Prop :=
  ∀ c, d.get .courses courseId = some c → c.isActive = false

/-- **Nobody waits for a course that has room, or is not on offer.** Where a course has had room
all the time, with the same bound between the enrolled and its limit, or has been withdrawn all the
time, no join for it commits. -/
theorem joins_justified {d : Store Waiting} {s : WaitSys} {γ : List ListEntry}
    {courseId : Uuid} {n : ℕ}
    (hj : waitlist.Journaled (Always (HasRoom n courseId)) d s γ ∨
      waitlist.Journaled (Always (Withdrawn courseId)) d s γ) :
    ∀ x ∈ γ, ∀ userId, x.req ≠ .join userId courseId := by
  intro x hx userId hreq
  rcases hj with hj | hj
  · obtain ⟨hroom, -, v, v', c, hv, hv', hc, hfull⟩ := join_read hj hx hreq
    -- two reads at two moments, with `n` between them
    have hmax := (hv hroom).2 c hc
    have hcount := (hv' hroom).1
    omega
  · obtain ⟨hgone, ⟨v, c, hv, hc, hactive⟩, -⟩ := join_read hj hx hreq
    rw [hv hgone c hc] at hactive
    cases hactive

/-! ## The queue -/

/-- How many of a listing came before `t`. -/
def aheadOf (t : Instant) (l : List WaitlistResponse) : ℕ := l.countP fun r => r.createdAt < t

/-- An entry of the course that waits, and came before `t`. -/
def early (courseId : Uuid) (t : Instant) (k : Uuid) (w : WaitlistEntry) : Bool :=
  w.createdAt < t && waitingIn courseId k w

theorem view_of {e : Uuid × WaitlistEntry} (ht : Tidy d)
    (he : d.get .waitlistEntries e.1 = some e.2) :
    ∃ r, view d e = some r ∧ r.id = e.1 ∧ r.createdAt = e.2.createdAt := by
  obtain ⟨c, hc⟩ := Option.isSome_iff_exists.1 (ht.courses e.1 e.2 he)
  exact ⟨⟨e.1, e.2.courseId, c.name, e.2.status, e.2.createdAt⟩, by rw [view, hc]; rfl, rfl, rfl⟩

/-- Rows whose courses are there are all shown. -/
theorem map_views {β : Type} {f : WaitlistResponse → β} {g : Uuid × WaitlistEntry → β}
    {l : List (Uuid × WaitlistEntry)}
    (h : ∀ e ∈ l, ∃ r, view d e = some r ∧ f r = g e) : (l.filterMap (view d)).map f = l.map g := by
  induction l with
  | nil => rfl
  | cons e l ih =>
    obtain ⟨r, hr, hf⟩ := h e List.mem_cons_self
    rw [List.filterMap_cons_some hr, List.map_cons, List.map_cons, hf,
      ih fun e' he' => h e' (List.mem_cons_of_mem e he')]

/-- The scan behind a listing. -/
theorem queue_scan (n : ℕ) (courseId : Uuid) (ht : Tidy d) {β : Type} {f : WaitlistResponse → β}
    {g : Uuid × WaitlistEntry → β}
    (h : ∀ e r, r.id = e.1 → r.createdAt = e.2.createdAt → f r = g e) :
    ((queueOf n courseId d).map f).Perm ((d.sel .waitlistEntries (waitingIn courseId)).map g) ∧
      (queueOf n courseId d).map f =
      ((arrange n (d.sel .waitlistEntries (waitingIn courseId))).insertionSort
        fun a b => a.2.createdAt ≤ b.2.createdAt).map g := by
  have hperm := (List.perm_insertionSort (fun a b : Uuid × WaitlistEntry => a.2.createdAt ≤
    b.2.createdAt) _).trans
    (arrange_perm n (d.sel .waitlistEntries (waitingIn courseId)))
  have hmap : (queueOf n courseId d).map f =
      ((arrange n (d.sel .waitlistEntries (waitingIn courseId))).insertionSort
      fun a b => a.2.createdAt ≤ b.2.createdAt).map g := by
    refine map_views fun e he => ?_
    obtain ⟨r, hr, hid, ht'⟩ := view_of ht (Store.mem_sel.1 (hperm.mem_iff.1 he)).1
    exact ⟨r, hr, h e r hid ht'⟩
  rw [hmap]
  exact ⟨hperm.map g, rfl⟩

theorem queue_sorted (n : ℕ) (courseId : Uuid) (ht : Tidy d) :
    ((queueOf n courseId d).map (·.createdAt)).Pairwise (· ≤ ·) := by
  rw [(queue_scan n courseId ht (f := (·.createdAt))
    (g := fun e => e.2.createdAt) fun _ _ _ h => h).2, List.pairwise_map]
  exact List.pairwise_insertionSort (fun a b : Uuid × WaitlistEntry => a.2.createdAt ≤
    b.2.createdAt) _

theorem aheadOf_queue (n : ℕ) (courseId : Uuid) (t : Instant) (ht : Tidy d) :
    aheadOf t (queueOf n courseId d) = d.count .waitlistEntries (early courseId t) := by
  have hscan := (queue_scan n courseId ht (f := (·.createdAt))
    (g := fun e => e.2.createdAt) fun _ _ _ h => h).1.countP_eq (fun c => decide (c < t))
  rw [List.countP_map, List.countP_map] at hscan
  refine hscan.trans ?_
  rw [List.countP_eq_length_filter]
  unfold Store.sel Table.only
  rw [List.filter_filter]
  rfl

/-- **The queue is in order of arrival.** In every state that a run reaches, a listing shows each
waiting entry of the course once, by the time it came. Where every join of the run came at `t` or
later, no more of the listing are before `t` at the end than at the start: who waits since `t` does
not fall back. -/
theorem queue_moves_up {d : Store Waiting} {s : WaitSys} {γ : List ListEntry} (h0 : Tidy d)
    (hj : waitlist.Journaled (fun _ _ _ => True) d s γ) (courseId : Uuid) :
    (∀ n, ((queueOf n courseId s.db).map (·.createdAt)).Pairwise (· ≤ ·) ∧
      ((queueOf n courseId s.db).map (·.id)).Perm
        ((s.db.sel .waitlistEntries (waitingIn courseId)).map Prod.fst)) ∧
    ∀ n n' t, (∀ x ∈ γ, ∀ k r, x.before.get .waitlistEntries k = none →
      x.after.get .waitlistEntries k = some r → r.courseId = courseId →
        t ≤ r.createdAt) →
      aheadOf t (queueOf n courseId s.db) ≤ aheadOf t (queueOf n' courseId d) := by
  have hs := serves_free hj
  have hl := journal_linked hj
  have ht := linked_tidy hs hl h0
  refine ⟨fun n => ⟨queue_sorted n courseId ht, (queue_scan n courseId ht fun _ _ h _ => h).1⟩,
    fun n n' t hlate => ?_⟩
  rw [aheadOf_queue n courseId t ht, aheadOf_queue n' courseId t h0]
  refine Store.count_le fun k r hr hp => ?_
  unfold early waitingIn at hp ⊢
  rw [Bool.and_eq_true, decide_eq_true_eq, decide_eq_true_eq] at hp
  obtain ⟨hearly, hcourse, hwaits⟩ := hp
  cases hstart : d.get .waitlistEntries k with
  | none =>
    -- new in the run, so not before `t`
    obtain ⟨x, hx, -, hn, r₀, hr₀, -, hgoes⟩ := linked_new hs hl hstart hr
    have hle := hlate x hx k r₀ hn hr₀ (hgoes.course.symm.trans hcourse)
    rw [← hgoes.since] at hle
    exact absurd hearly (not_lt_of_ge hle)
  | some r₀ =>
    obtain ⟨r', hr', hgoes⟩ := linked_row hs hl hstart
    rw [hr] at hr'
    cases hr'
    refine ⟨r₀, rfl, ?_⟩
    have hw₀ : r₀.status = .waiting := by
      cases h : r₀.status with
      | waiting => rfl
      | cancelled =>
        have hc := hgoes.cancelled h
        rw [hwaits] at hc
        cases hc
    rw [Bool.and_eq_true, decide_eq_true_eq, decide_eq_true_eq, ← hgoes.since, ← hgoes.course]
    exact ⟨hearly, hcourse, hw₀⟩

/-! ## Samples -/

/-- A full course with two on its waitlist. -/
def fullCourse : Store Waiting
  | .users => (((AList.singleton 1 ()).insert 2 ()).insert 3 ()).insert 4 ()
  | .courses => AList.singleton 5 ⟨"Tumbling", 100000, 1, none, none, true, none⟩
  | .enrolments => AList.singleton 21 ⟨4, 5, none, .active, 50⟩
  | .waitlistEntries => (AList.singleton 11 ⟨1, 5, .waiting, 100⟩).insert 12 ⟨2, 5, .waiting, 200⟩

/-- The first one leaves, and somebody else joins. -/
def sampleWaits : List (Event WaitReq) :=
  .start 0 (.cancel ⟨1, []⟩ 11) :: Event.steps 0 300 12 ++ .start 1 (.join 3 5) ::
  Event.steps 1 400 15

/-- Who has joined leaves again. -/
def sampleLeaves : List (Event WaitReq) := sampleWaits ++ .start 2 (.cancel ⟨3, []⟩ 411) ::
    Event.steps 2 500 12

theorem tidy_fullCourse : Tidy fullCourse := by
  refine ⟨fun k k' r r' hk hk' hc => ?_, fun k r hk => ?_⟩
  · have hall : ∀ p ∈ (fullCourse .waitlistEntries).rows, ∀ p' ∈ (fullCourse .waitlistEntries).rows,
        (p.2.userId, p.2.courseId) = (p'.2.userId, p'.2.courseId) → p.1 = p'.1 := by decide +kernel
    obtain ⟨x, ⟨-, hx⟩, -, hx'⟩ := hc
    exact hall (k, r) (Table.mem_rows.2 hk) (k', r') (Table.mem_rows.2 hk') (hx.trans hx'.symm)
  · exact Store.get_all (P := fun _ (r : WaitlistEntry) =>
      (fullCourse.get .courses r.courseId).isSome = true) (by decide +kernel) hk

theorem waitlist_kept_cancelled :
    let y := waitlist.journalAfter sampleLeaves fullCourse
    Tidy y.1.db ∧ y.2.map Entry.call = [0, 1, 2] ∧
      (∃ r, y.1.db.get .waitlistEntries 411 = some r ∧ r.userId = 3 ∧ r.status = .cancelled ∧
        ∃ x ∈ y.2, Cancels 411 r x) ∧
      ∃ r, y.1.db.get .waitlistEntries 12 = some r ∧
        WaitlistEntry.GoesTo ⟨2, 5, .waiting, 200⟩ r := by
  intro y
  have hrun : ∀ y, y = waitlist.journalAfter sampleLeaves fullCourse →
      (y.1.db.get .waitlistEntries 411).map (fun r => (r.userId, r.status)) = some (3, .cancelled) ∧
      y.2.map Entry.call = [0, 1, 2] := by
    rintro _ rfl
    decide +kernel
  obtain ⟨hcancelled, hcalls⟩ := hrun y rfl
  obtain ⟨r, hr, hr'⟩ := Option.map_eq_some_iff.1 hcancelled
  rw [Prod.mk.injEq] at hr'
  obtain ⟨htidy, hstays, -, hgone⟩ := waitlist_kept tidy_fullCourse
    (journaled_after (fun _ _ _ => trivial) sampleLeaves fullCourse)
  have hstart : ¬ ∃ r₀, fullCourse.get .waitlistEntries 411 = some r₀ ∧ r₀.status = .cancelled := by
    rintro ⟨r₀, hr₀, -⟩
    cases hr₀
  exact ⟨htidy, hcalls, ⟨r, hr, hr'.1, hr'.2, (hgone 411 r hr hr'.2).resolve_left hstart⟩,
    hstays [] y.2 fullCourse rfl rfl 12 ⟨2, 5, .waiting, 200⟩ (by decide +kernel)⟩

theorem queue_moves_up_one :
    let y := waitlist.journalAfter sampleWaits fullCourse
    aheadOf 200 (queueOf 0 5 fullCourse) = 1 ∧ aheadOf 200 (queueOf 0 5 y.1.db) ≤ 1 := by
  intro y
  have hstart : aheadOf 200 (queueOf 0 5 fullCourse) = 1 := by decide +kernel
  -- whatever is new in the journal came after 200
  have hrun : ∀ y, y = waitlist.journalAfter sampleWaits fullCourse →
      ∀ x ∈ y.2, ∀ p ∈ (x.after .waitlistEntries).rows,
      (x.before.get .waitlistEntries p.1).isSome = true ∨ 200 ≤ p.2.createdAt := by
    rintro _ rfl
    decide +kernel
  have hmoves := (queue_moves_up tidy_fullCourse
    (journaled_after (fun _ _ _ => trivial) sampleWaits fullCourse) 5).2 0 0 200
    fun x hx k r hn hr _ => by
      rcases hrun y rfl x hx (k, r) (Table.mem_rows.2 hr) with hold | hlate
      · rw [hn] at hold
        cases hold
      · exact hlate
  rw [hstart] at hmoves
  exact ⟨hstart, hmoves⟩

/-- A course with room for three. -/
def roomyCourse : Store Waiting
  | .users => AList.singleton 1 ()
  | .courses => AList.singleton 5 ⟨"Tumbling", 100000, 3, none, none, true, none⟩
  | .enrolments => AList.singleton 21 ⟨4, 5, none, .active, 50⟩
  | .waitlistEntries => ∅

def hasRoom (n : ℕ) (courseId : Uuid) (s : WaitSys) (_ : Event WaitReq) (_ : WaitSys) : Bool :=
  s.db.count .enrolments (activeIn courseId) < n ∧ (s.db.get .courses courseId).all fun c =>
    (n : ℤ) ≤ c.maxStudents

theorem hasRoom_always {n : ℕ} {courseId : Uuid} {s s' : WaitSys} {e : Event WaitReq}
    (h : hasRoom n courseId s e s' = true) :
    Always (HasRoom n courseId) s e s' := by
  obtain ⟨hcount, hmax⟩ := of_decide_eq_true h
  refine ⟨hcount, fun c hc => ?_⟩
  rw [hc] at hmax
  exact of_decide_eq_true hmax

/-- Somebody enrols, and a join is turned away. -/
def sampleJoin : List (Event WaitReq) :=
  .start 0 (.elsewhere (.enrol ⟨2, 5, none, .active, 60⟩)) :: Event.steps 0 300 3 ++
  .start 1 (.join 1 5) :: Event.steps 1 400 3

theorem joins_justified_roomy :
    let y := waitlist.journalAfter sampleJoin roomyCourse
    y.2.map Entry.call = [0] ∧ ∀ x ∈ y.2, ∀ userId, x.req ≠ .join userId 5 := by
  intro y
  have hchecks : waitlist.checks (hasRoom 3 5) sampleJoin (Sys.init roomyCourse) = true := by
    decide +kernel
  have hrun : ∀ y, y = waitlist.journalAfter sampleJoin roomyCourse → y.2.map Entry.call = [0] := by
    rintro _ rfl
    decide +kernel
  exact ⟨hrun y rfl, joins_justified
    (.inl ((journaled_checks hchecks).mono fun _ _ _ h => hasRoom_always h))⟩

end DreamFly.Waitlist
