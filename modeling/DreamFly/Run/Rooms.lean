import DreamFly.Run.Leaves

/-!
# The seats of a session over whole runs

A course counts its active enrolments, a session its leaves and makeups beside.

* `remaining_eq`: the seats of a session that are left, as the limit less the members
  who come and the makeups.
* `overbooked_session`: a checkout, which looks at the course only, can take the last
  seat that a makeup has.
* `session_seats`: what any other commit can take, and when the seats stay at zero or more.
-/

namespace DreamFly

open Txn

variable {co sess : Uuid} {d d' : Db} {q : Req} {σ : Pt Shop} {s s' : ShopSys} {K : Rely Shop}

/-! ## The seats that are left -/

/-- `SessionSeats::remaining` of a session in a store. -/
def remaining (co sess : Uuid) (d : Db) : ℤ :=
  ((sessionSeats co sess d).map SessionSeats.remaining).getD 0

/-- A member of the course who comes: an active enrolment without an approved leave
for the session. -/
def comes (co sess : Uuid) (d : Db) (k : Uuid) (e : Enrolment) : Bool :=
  activeIn co k e && (d.sel .leaveRequests fun _ r => approvedLeave sess r && r.enrolmentId =
    k).isEmpty

/-- A makeup into the session that an active enrolment holds. -/
def makesUp (sess : Uuid) (d : Db) (_ : Uuid) (r : LeaveRequest) : Bool :=
  makeupInto sess r && enrolmentActive d r.enrolmentId

/-- The leaves for a session are its course's, each enrolment's once. -/
structure RoomsOK (co sess : Uuid) (d : Db) : Prop where
  session : ∃ x, d.get .sessions sess = some x ∧ x.courseId = co
  course : ∀ k r, d.get .leaveRequests k = some r → r.sessionId = sess →
    ∃ e, d.get .enrolments r.enrolmentId = some e ∧ e.courseId = co
  leaves : LeavesOK d

theorem comes_eq_true {k : Uuid} {e : Enrolment} :
    comes co sess d k e = true ↔ activeIn co k e = true ∧ ¬ ApprovedLeave k sess d := by
  simp only [comes, Bool.and_eq_true, List.isEmpty_iff, List.eq_nil_iff_forall_not_mem]
  refine and_congr_right fun _ => ⟨?_, ?_⟩
  · rintro h ⟨k', r, hr, he, hs, ha⟩
    exact h (k', r) (Store.mem_sel.2 ⟨hr, by simp [approvedLeave, he, hs, ha]⟩)
  · rintro h ⟨k', r⟩ hm
    obtain ⟨hr, hp⟩ := Store.mem_sel.1 hm
    simp only [approvedLeave, Bool.and_eq_true, decide_eq_true_eq] at hp
    exact h ⟨k', r, hr, hp.2, hp.1.1, hp.1.2⟩

theorem enrolmentActive_eq_true {k : Uuid} : enrolmentActive d k = true ↔
    ∃ e, d.get .enrolments k = some e ∧ e.status = .active := by
  simp [enrolmentActive, Option.any_eq_true]

theorem makesUp_eq_true {k : Uuid} {r : LeaveRequest} : makesUp sess d k r = true ↔
    r.makeupSessionId = some sess ∧ ∃ e, d.get .enrolments r.enrolmentId = some e ∧
      e.status = .active := by
  simp only [makesUp, makeupInto, Bool.and_eq_true, decide_eq_true_eq, enrolmentActive_eq_true]

/-- Every approved leave is one member who does not come. -/
theorem RoomsOK.leave_count (h : RoomsOK co sess d) :
    d.count .leaveRequests (fun _ r => approvedLeave sess r && enrolmentActive d r.enrolmentId) =
      d.count .enrolments fun k e => activeIn co k e && !comes co sess d k e := by
  let p : Uuid → LeaveRequest → Bool := fun _ r =>
    approvedLeave sess r && enrolmentActive d r.enrolmentId
  let p' : Uuid → Enrolment → Bool := fun k e => activeIn co k e && !comes co sess d k e
  have hp : ∀ k r, p k r = true ↔ r.sessionId = sess ∧ r.status = .approved ∧
      ∃ e, d.get .enrolments r.enrolmentId = some e ∧ e.status = .active := by
    intro k r
    simp only [p, approvedLeave, Bool.and_eq_true, decide_eq_true_eq, enrolmentActive_eq_true,
      and_assoc]
  have hp' : ∀ k e, p' k e = true ↔ (e.courseId = co ∧ e.status = .active) ∧
      ApprovedLeave k sess d := by
    intro k e
    have hc : comes co sess d k e = true ↔ activeIn co k e = true ∧ ¬ ApprovedLeave k sess d :=
      comes_eq_true
    cases hb : comes co sess d k e with
    | true => simp [p', hb, (hc.1 hb).2]
    | false =>
      simp only [hb, Bool.false_eq_true, false_iff, not_and, not_not] at hc
      simp only [p', hb, activeIn, Bool.not_false, Bool.and_true, decide_eq_true_eq] at hc ⊢
      exact ⟨fun h => ⟨h, hc h⟩, fun h => h.1⟩
  -- the two lists of enrolments have the same members, each once
  have hnodup : ((d.sel .leaveRequests p).map fun x => x.2.enrolmentId).Nodup := by
    refine List.Nodup.map_on ?_ (d.sel_nodup _ _)
    rintro ⟨k, r⟩ hx ⟨k', r'⟩ hy he
    obtain ⟨hr, h1⟩ := Store.mem_sel.1 hx
    obtain ⟨hr', h1'⟩ := Store.mem_sel.1 hy
    obtain ⟨hs, ha, -⟩ := (hp k r).1 h1
    obtain ⟨hs', ha', -⟩ := (hp k' r').1 h1'
    obtain rfl := h.leaves.single k k' r r' hr hr' (.inr ha) (.inr ha') he (hs.trans hs'.symm)
    rw [hr] at hr'
    cases hr'
    rfl
  have hmem : ∀ k, k ∈ (d.sel .leaveRequests p).map (fun x => x.2.enrolmentId) ↔
      k ∈ (d.sel .enrolments p').map Prod.fst := by
    intro k
    constructor
    · intro hk
      obtain ⟨⟨k', r⟩, hx, rfl⟩ := List.mem_map.1 hk
      obtain ⟨hr, h1⟩ := Store.mem_sel.1 hx
      obtain ⟨hs, ha, e, he, hact⟩ := (hp k' r).1 h1
      obtain ⟨e', he', hc⟩ := h.course k' r hr hs
      rw [he] at he'
      cases he'
      exact List.mem_map.2 ⟨(r.enrolmentId, e), Store.mem_sel.2 ⟨he,
        (hp' _ _).2 ⟨⟨hc, hact⟩, k', r, hr, rfl, hs, ha⟩⟩, rfl⟩
    · intro hk
      obtain ⟨⟨k, e⟩, hx, rfl⟩ := List.mem_map.1 hk
      obtain ⟨he, h1⟩ := Store.mem_sel.1 hx
      obtain ⟨⟨-, hact⟩, k', r, hr, hre, hs, ha⟩ := (hp' _ _).1 h1
      exact List.mem_map.2 ⟨(k', r), Store.mem_sel.2 ⟨hr,
        (hp k' r).2 ⟨hs, ha, e, hre ▸ he, hact⟩⟩, hre⟩
  have hperm := (List.perm_ext_iff_of_nodup hnodup (d.sel_keys_nodup _ _)).2 hmem
  have hlen := hperm.length_eq
  simp only [List.length_map] at hlen
  exact hlen

/-- **The seats left, member by member.** -/
theorem RoomsOK.remaining_eq (h : RoomsOK co sess d) {course : Course}
    (hc : d.get .courses co = some course) :
    remaining co sess d = course.maxStudents - d.count .enrolments
      (comes co sess d) - d.count .leaveRequests (makesUp sess d) := by
  -- of the active ones those without an approved leave come
  have hsplit : d.count .enrolments (activeIn co) = d.count .enrolments (comes co sess d) +
      d.count .enrolments fun k e => activeIn co k e && !comes co sess d k e := by
    rw [Store.count_split d .enrolments (activeIn co) (comes co sess d)]
    congr 1
    refine congrArg (d.count .enrolments) (funext fun k => funext fun e => ?_)
    unfold comes
    cases activeIn co k e <;> rfl
  have hseats : remaining co sess d = course.maxStudents - d.count .enrolments (activeIn co) +
      d.count .leaveRequests (fun _ r => approvedLeave sess r && enrolmentActive d r.enrolmentId) -
      d.count .leaveRequests (makesUp sess d) := by
    simp only [remaining, sessionSeats, hc]
    rfl
  rw [hseats, h.leave_count, hsplit]
  omega

/-! ## What commits do to them -/

theorem RoomsOK.course_later (h : RoomsOK co sess d) (hr : shopRules.rel [] d d') {k : Uuid}
    {r : LeaveRequest}
    (hk : d.get .leaveRequests k = some r) (hs : r.sessionId = sess) :
    ∃ e, d'.get .enrolments r.enrolmentId = some e ∧ e.courseId = co := by
  obtain ⟨e, he, hc⟩ := h.course k r hk hs
  obtain ⟨e', he', hu⟩ := rel_enrolment hr he
  exact ⟨e', he', hu.course.trans hc⟩

/-- A commit keeps the leaves in order. -/
theorem RoomsOK.commit (hr : shopRules.rel [] σ.now σ.db) (h : q.Commits K σ)
    (hp : RoomsOK co sess σ.now) :
    RoomsOK co sess σ.db where
  session := by
    obtain ⟨x, hx, hc⟩ := hp.session
    exact ⟨x, rel_session hr hx, hc⟩
  course k r hk hs := by
    -- the request was there before, for the same enrolment and session, or is new
    rcases h.leave_cases k with hsame | ⟨x, hx, hnew⟩ | ⟨r₀, h0, -, hx⟩ |
        ⟨r₀, st, u, -, -, h0, -, hx, -⟩ | ⟨_, _, m, -, x, hx⟩
    · exact hp.course_later hr (hsame ▸ hk) hs
    · rw [hk] at hnew
      cases hnew
      obtain ⟨e, he, hu⟩ := rel_enrolment hr x.enrolment_eq
      obtain ⟨y, hy, hc⟩ := hp.session
      have hses := x.session_eq
      rw [hs, hy] at hses
      cases hses
      exact ⟨e, he, hu.course.trans (x.course.trans hc)⟩
    · rw [hk] at hx
      cases hx
      exact hp.course_later (r := r₀) hr h0 hs
    · rw [hk] at hx
      cases hx
      exact hp.course_later (r := r₀) hr h0 hs
    · rw [hk] at hx
      cases hx
      exact hp.course_later (r := x.row) hr x.row_eq hs
  leaves := hp.leaves.commit hr h

theorem ApprovedLeave.kept (hr : shopRules.rel [] d d') {e : Uuid} (h : ApprovedLeave e sess d) :
    ApprovedLeave e sess d' := by
  obtain ⟨k, r, hk, he, hs, ha⟩ := h
  obtain ⟨r', hk', hu⟩ := rel_leave hr hk
  exact ⟨k, r', hk', hu.enrolment.trans he, hu.session.trans hs,
    (hu.decided (by rw [ha]; simp)).trans ha⟩

/-- Without a purchase, fewer members come. -/
theorem comes_le (co sess : Uuid) (hr : shopRules.rel [] d d') (hf : FewerSeats d d') :
    d'.count .enrolments (comes co sess d') ≤ d.count .enrolments (comes co sess d) := by
  refine Store.count_le fun k e hk hc => ?_
  obtain ⟨hact, hno⟩ := comes_eq_true.1 hc
  have hs := hact
  simp only [activeIn, decide_eq_true_eq] at hs
  exact ⟨e, hf k e hk hs.2, comes_eq_true.2 ⟨hact, fun ha => hno (ha.kept hr)⟩⟩

/-- A commit that neither purchases nor books into the session adds no makeup to it. -/
theorem Req.Commits.makesUp_le (h : q.Commits K σ) (hf : FewerSeats σ.now σ.db)
    (hq : ∀ at' auth k, q ≠ .bookMakeup at' auth k sess) :
    σ.db.count .leaveRequests (makesUp sess σ.db) ≤ σ.now.count .leaveRequests
      (makesUp sess σ.now) := by
  refine Store.count_le fun k r hk hm => ?_
  obtain ⟨hms, e, he, hact⟩ := makesUp_eq_true.1 hm
  have hbefore : ∀ r₀ : LeaveRequest, r₀.enrolmentId = r.enrolmentId →
      r₀.makeupSessionId = some sess →
      makesUp sess σ.now k r₀ = true := fun r₀ h1 h2 =>
        makesUp_eq_true.2 ⟨h2, e, h1 ▸ hf _ _ he hact, hact⟩
  rcases h.leave_cases k with hsame | ⟨x, -, hx⟩ | ⟨r₀, h0, -, hx⟩ |
      ⟨r₀, st, u, -, -, h0, -, hx, -⟩ | ⟨at', auth, m, hreq, x, hx⟩
  · exact ⟨r, hsame ▸ hk, hbefore r rfl hms⟩
  · rw [hk] at hx
    cases hx
    rw [x.unbooked] at hms
    cases hms
  · rw [hk] at hx
    cases hx
    exact ⟨r₀, h0, hbefore r₀ rfl hms⟩
  · rw [hk] at hx
    cases hx
    exact ⟨r₀, h0, hbefore r₀ rfl hms⟩
  · rw [hk] at hx
    cases hx
    cases hms
    exact absurd hreq (hq at' auth k)

/-- A booking into the session adds one makeup at most. -/
theorem MakeupBooked.makesUp_le {at' : StudioNow} {id m : Uuid} (x : MakeupBooked at' id m d d')
    (sess : Uuid) :
    d'.count .leaveRequests (makesUp sess d') ≤ d.count .leaveRequests (makesUp sess d) + 1 := by
  have henr : ∀ k, d'.get .enrolments k = d.get .enrolments k := by
    intro k
    have h := congrArg (fun b : Db => b.get .enrolments k) x.booked
    exact h.trans (Store.get_apply_other _ (by simp [Write.tbl]) k)
  rw [Store.count_split d' .leaveRequests (makesUp sess d') fun k _ => k ≠ id]
  refine Nat.add_le_add (Store.count_le fun k r hk hp => ?_)
    (Store.count_le_one fun k k' r r' _ _ hp hp' => ?_)
  · simp only [Bool.and_eq_true, decide_eq_true_eq] at hp
    rw [x.leave, if_neg hp.2] at hk
    refine ⟨r, hk, makesUp_eq_true.2 ?_⟩
    simpa only [henr] using makesUp_eq_true.1 hp.1
  · simp only [Bool.and_eq_true, Bool.not_eq_true', decide_eq_false_iff_not, not_not] at hp hp'
    exact hp.2.trans hp'.2.symm

/-- **A commit that neither purchases nor books into the session takes no seat of it.** -/
theorem Req.Commits.remaining_le (h : q.Commits K σ) (hr : shopRules.rel [] σ.now σ.db)
    (hmax : ∀ course course', σ.now.get .courses co = some course →
      σ.db.get .courses co = some course' →
      course.maxStudents ≤ course'.maxStudents) (hp : RoomsOK co sess σ.now)
      (hq : ∀ u key req now, q ≠ .checkout u key req now)
    (hq' : ∀ at' auth k, q ≠ .bookMakeup at' auth k sess) : remaining co sess σ.now ≤
    remaining co sess σ.db := by
  have hf := h.fewer hq
  have hcourses := rel_courses hr co
  cases hc : σ.now.get .courses co with
  | none =>
    rw [hc] at hcourses
    have hc' : σ.db.get .courses co = none := by simpa using hcourses.symm
    simp [remaining, sessionSeats, hc, hc']
  | some course =>
    rw [hc] at hcourses
    obtain ⟨course', hc'⟩ := Option.isSome_iff_exists.1 hcourses.symm
    rw [hp.remaining_eq hc, (hp.commit hr h).remaining_eq hc']
    -- fewer come, fewer make up, and there is room for as many
    have h1 := comes_le co sess hr hf
    have h2 := h.makesUp_le hf hq'
    have h3 := hmax course course' hc hc'
    omega

/-! ## Whole runs -/

/-- While the session is locked, a seat that was left stays. -/
def roomKept (co sess : Uuid) : Rely Shop where
  rel L a b := Holds L (.row (S := Shop) .sessions sess) .update → 1 ≤ remaining co sess a →
    1 ≤ remaining co sess b
  refl _ _ _ h := h
  trans h h' hh h1 := h' hh (h hh h1)
  anti hs h hh h1 := h (hh.mono hs) h1

/-- The limit of the course stays, and a checkout that takes a seat of the session takes
neither one that a makeup has nor one that a booking under way has counted. -/
def SparesSeats (co sess : Uuid) (s : ShopSys) (e : Event Req) (s' : ShopSys) : Prop :=
  KeepsLimit co s e s' ∧ ∀ t c u key req now, CommitStep s t c s' →
    c.req = .checkout u key req now →
    remaining co sess s'.db < remaining co sess s.db → 0 ≤ remaining co sess s'.db ∧
      ∀ t' c', s.call t' = some c' → t' ≠ t →
        Holds c'.held (.row (S := Shop) .sessions sess) .update → 1 ≤ remaining co sess s'.db

/-- In such a run the leaves stay in order. -/
theorem reach_rooms {ok : ShopSys → Event Req → ShopSys → Prop} (h0 : RoomsOK co sess d)
    (h : shop.Reach ok (Sys.init d) s) :
    RoomsOK co sess s.db :=
  shop_inv h0 (fun _ _ hr hc hp => hp.commit hr hc) h

/-- **A seat that a booking has counted is there when it commits.** -/
theorem reach_room (h0 : RoomsOK co sess d) (h : shop.Reach (SparesSeats co sess) (Sys.init d) s) :
    s.OK (shopContract (roomKept co sess)) := by
  refine reach_ok (fun s e s' hs he hok => keeps_of_commit he fun t c u c' hcs hu hne hh h1 => ?_)
    (ok_init d) (h.carry fun _ => reach_rooms h0)
  obtain ⟨⟨hlim, hspare⟩, hrooms, -⟩ := hok
  by_cases hlt : remaining co sess s.db ≤ remaining co sess s'.db
  · omega
  · obtain ⟨σ, hnow, hdb, hheld, -, -, hcommits⟩ := Sys.OK.commits rfl hs hcs
    have hrel := hs.rel_commit hcs
    -- seats are taken by a checkout or by a booking into the session
    by_cases hq : ∃ u key req now, c.req = .checkout u key req now
    · obtain ⟨u', key, req, now, hq⟩ := hq
      exact (hspare t c u' key req now hcs hq (by omega)).2 u c' hu hne hh
    · push Not at hq
      by_cases hq' : ∃ at' auth k, c.req = .bookMakeup at' auth k sess
      · -- a booking into the session has its lock itself
        obtain ⟨at', auth, k, hq'⟩ := hq'
        rw [hq'] at hcommits
        have hself : Holds c.held (.row (S := Shop) .sessions sess) .update := hheld ▸ hcommits.1
        exact absurd hself ((hs.compat u t c' c hu hcs.1 hne).not_holds hh rfl)
      · push Not at hq'
        unfold KeepsLimit at hlim
        rw [← hnow, ← hdb] at hlim hrel
        rw [← hnow] at hrooms
        have hle := hcommits.remaining_le hrel hlim hrooms hq hq'
        rw [hnow, hdb] at hle
        exact absurd hle hlt

/-- A booking into the session takes one seat of it at most. -/
theorem Req.Commits.remaining_booked {at' : StudioNow} {auth : AuthUser} {id : Uuid}
    (hr : shopRules.rel [] σ.now σ.db)
    (h : (Req.bookMakeup at' auth id sess).Commits K σ)
    (hmax : ∀ course course', σ.now.get .courses co = some course →
      σ.db.get .courses co = some course' →
      course.maxStudents ≤ course'.maxStudents) (hp : RoomsOK co sess σ.now) :
    remaining co sess σ.now ≤ remaining co sess σ.db + 1 := by
  have hcourses := rel_courses hr co
  cases hc : σ.now.get .courses co with
  | none =>
    rw [hc] at hcourses
    have hc' : σ.db.get .courses co = none := by simpa using hcourses.symm
    simp [remaining, sessionSeats, hc, hc']
  | some course =>
    rw [hc] at hcourses
    obtain ⟨course', hc'⟩ := Option.isSome_iff_exists.1 hcourses.symm
    have hle := hmax course course' hc hc'
    have hcomes := comes_le co sess hr (h.fewer fun u key req now he => by cases he)
    rw [hp.remaining_eq hc, (hp.commit hr h).remaining_eq hc']
    obtain ⟨-, x, -⟩ := h
    have hmake := x.makesUp_le sess
    omega

/-- What a commit takes of the session's seats, unless it is a checkout: nothing, or one for
a makeup. -/
theorem Req.Commits.remaining_cases (hr : shopRules.rel [] σ.now σ.db) (h : q.Commits K σ)
    (hmax : ∀ course course', σ.now.get .courses co = some course →
      σ.db.get .courses co = some course' →
      course.maxStudents ≤ course'.maxStudents) (hp : RoomsOK co sess σ.now) :
    (∃ u key req now, q = .checkout u key req now) ∨
    remaining co sess σ.now ≤ remaining co sess σ.db ∨
      (∃ at' auth k, q = .bookMakeup at' auth k sess) ∧
      remaining co sess σ.now ≤ remaining co sess σ.db + 1 := by
  by_cases hq : ∃ u key req now, q = .checkout u key req now
  · exact .inl hq
  by_cases hq' : ∃ at' auth k, q = .bookMakeup at' auth k sess
  · obtain ⟨at', auth, k, rfl⟩ := hq'
    exact .inr (.inr ⟨⟨at', auth, k, rfl⟩, h.remaining_booked hr hmax hp⟩)
  · push Not at hq hq'
    exact .inr (.inl (h.remaining_le hr hmax hp hq hq'))

/-- A course within its limit has at most as many seats too few in a session as there are
makeups into it. -/
theorem SeatsOK.remaining_ge (hs : SeatsOK co d) (hp : RoomsOK co sess d) {course : Course}
    (hc : d.get .courses co = some course) :
    -(d.count .leaveRequests (makesUp sess d) : ℤ) ≤ remaining co sess d := by
  have hlimit := hs.limit course hc
  have hcome : d.count .enrolments (comes co sess d) ≤ activeCount co d :=
    Store.count_le fun k e hk hcomes => ⟨e, hk, (comes_eq_true.1 hcomes).1⟩
  rw [hp.remaining_eq hc]
  omega

/-- **A booking under way finds the seat it has counted**, as long as checkouts spare the
seats: whatever commits, the session keeps zero or more. -/
theorem reach_spared (hrooms : RoomsOK co sess d) (h0 : 0 ≤ remaining co sess d)
    (h : shop.Reach (SparesSeats co sess) (Sys.init d) s) : 0 ≤ remaining co sess s.db := by
  refine reach_inv_step (P := fun d => 0 ≤ remaining co sess d) h0
    (fun s₁ t c s₂ e hr _ hok hcs hp => ?_) h
  have hs₁ := reach_room hrooms hr
  obtain ⟨σ, hnow, hdb, hheld, -, -, hcommits⟩ := Sys.OK.commits rfl hs₁ hcs
  have hrel := hs₁.rel_commit hcs
  have hrooms₁ := reach_rooms hrooms hr
  obtain ⟨hlim, hspare⟩ := hok
  unfold KeepsLimit at hlim
  by_cases hlt : remaining co sess s₁.db ≤ remaining co sess s₂.db
  · omega
  rw [← hnow, ← hdb] at hlim hrel hlt
  rw [← hnow] at hrooms₁
  rcases hcommits.remaining_cases hrel hlim hrooms₁ with ⟨u, key, req, now, hq⟩ | hle |
      ⟨⟨at', auth, k, hq⟩, hone⟩
  · rw [hnow, hdb] at hlt
    exact (hspare t c u key req now hcs hq (by omega)).1
  · exact absurd hle hlt
  · rw [hq] at hcommits
    -- the seat that the booking has counted is still there under its lock
    obtain ⟨-, x, L, v, seats, -, hkept, hh, hv, hroom⟩ := hcommits
    obtain ⟨y, hy, hyc⟩ := hrooms₁.session
    have hses := x.session_eq
    rw [hy] at hses
    obtain rfl := Option.some.inj hses
    rw [hyc] at hv
    have h1 : 1 ≤ remaining co sess v := by
      simp only [SessionSeats.hasRoom, decide_eq_true_eq] at hroom
      simp only [remaining, hv, Option.map_some, Option.getD_some]
      omega
    have h2 := hkept hh h1
    rw [← hdb]
    omega

/-- **The seats of a session.** From a store within limits, in every run that does not lower
the limit of the course: the active enrolments stay within it, and the session lacks at
most as many seats as it has makeups; a commit takes seats of the session only if it is a
checkout's or books a makeup into the session, and that takes one. The seats left stay at
zero or more as long as no checkout's commit takes them below, or to zero while another
call holds the session's lock. -/
theorem session_seats (hseats : SeatsOK co d) (hrooms : RoomsOK co sess d) :
    (∀ s, shop.Reach (KeepsLimit co) (Sys.init d) s → ∀ course, s.db.get .courses co = some course →
      activeCount co s.db ≤ course.maxStudents ∧
        -(s.db.count .leaveRequests (makesUp sess s.db) : ℤ) ≤ remaining co sess s.db) ∧
    (∀ s e s' t c, shop.Reach (KeepsLimit co) (Sys.init d) s → KeepsLimit co s e s' →
      CommitStep s t c s' →
      (∃ u key req now, c.req = .checkout u key req now) ∨
      remaining co sess s.db ≤ remaining co sess s'.db ∨
        (∃ at' auth k, c.req = .bookMakeup at' auth k sess) ∧
        remaining co sess s.db ≤ remaining co sess s'.db + 1) ∧
    ∀ s, 0 ≤ remaining co sess d → shop.Reach (SparesSeats co sess) (Sys.init d) s →
      0 ≤ remaining co sess s.db := by
  refine ⟨fun s h course hc => ?_, fun s e s' t c h hlim hcs => ?_,
    fun s h0 h => reach_spared hrooms h0 h⟩
  · have hs := reach_seats hseats h
    exact ⟨hs.limit course hc, hs.remaining_ge (reach_rooms hrooms h) hc⟩
  · have hs := shop_ok h
    obtain ⟨σ, hnow, hdb, -, -, -, hcommits⟩ := Sys.OK.commits rfl hs hcs
    have hrel := hs.rel_commit hcs
    have hrooms₁ := reach_rooms hrooms h
    unfold KeepsLimit at hlim
    rw [← hnow, ← hdb] at hlim hrel ⊢
    rw [← hnow] at hrooms₁
    exact hcommits.remaining_cases hrel hlim hrooms₁

/-- Requests that write neither courses nor enrolments spare the seats. -/
theorem reach_spares (h : shop.ReachOf (fun q => .courses ∉ q.writes ∧ .enrolments ∉ q.writes)
    (Sys.init d) s) :
    shop.Reach (SparesSeats co sess) (Sys.init d) s := by
  refine (h.carry (I := fun s => s.OK (shopContract (.free Shop)) ∧ ∀ u c, s.call u = some c →
    .courses ∉ c.req.writes ∧
    .enrolments ∉ c.req.writes) fun s₁ hr => ⟨shop_ok hr,
    reach_req (fun t c hc => by rw [Sys.call_init] at hc; cases hc) hr⟩).imp
    fun s e s' he hok => ?_
  obtain ⟨-, ⟨hs, hreq⟩, -⟩ := hok
  refine ⟨fun course course' hc hc' => ?_, fun t c u key req now hcs hq => ?_⟩
  · rcases step_db he with hd | ⟨u, c, hcs⟩
    · rw [hd, hc] at hc'
      cases hc'
      exact le_rfl
    · obtain ⟨σ, hnow, hdb, -, -, -, hcommits⟩ := Sys.OK.commits rfl hs hcs
      rw [← hdb, hcommits.only.get (t := ShopTbl.courses) (hreq u c hcs.1).1, hnow, hc] at hc'
      cases hc'
      exact le_rfl
  · have hno := (hreq t c hcs.1).2
    rw [hq] at hno
    simp [Req.writes] at hno

/-- A member of the course with an approved leave, a free seat, and a buyer of the course. -/
def sampleRoom : Db :=
  Store.overlay [.add .users 1 ⟨0⟩, .add .users 2 ⟨0⟩,
    .add .courses 4 ⟨"yoga", 10000, 2, none, none, true, none⟩,
    .add .sessions 5 ⟨4, 10, 0⟩, .add .sessions 6 ⟨4, 11, 0⟩,
    .add .enrolments 7 ⟨2, 4, none, .active, 0⟩,
    .add .leaveRequests 8 ⟨7, 6, none, .approved, none, some 9⟩, .add .cartItems (1, 3)
      ⟨.course 4, 1, 0⟩] fun _ => ∅

/-- User 2 makes up in session 5. -/
def sampleRoomMakeup : List (Event Req) := .start 0 (.bookMakeup sampleNow ⟨2, []⟩ 8 5) ::
    Event.steps 0 100 14

/-- Then user 1 buys the course. -/
def sampleRoomSale : List (Event Req) :=
  sampleRoomMakeup ++ .start 1 (.checkout 1 none ⟨none, none, none⟩ 0) :: Event.steps 1 200 56

theorem seatsOK_sampleRoom : SeatsOK 4 sampleRoom where
  limit _ hc := Store.get_all (d := sampleRoom) (t := ShopTbl.courses)
    (P := fun _ row => (activeCount 4 sampleRoom : ℤ) ≤ row.maxStudents) (by decide) hc
  once k k' e e' hk hk' _ _ _ := by
    have h : ∀ k e, sampleRoom.get .enrolments k = some e → k = 7 := fun k e =>
      Store.get_all (d := sampleRoom) (t := ShopTbl.enrolments) (P := fun k _ => k = 7) (by decide)
    rw [h k e hk, h k' e' hk']

theorem roomsOK_sampleRoom : RoomsOK 4 5 sampleRoom := by
  have h : ∀ k r, sampleRoom.get .leaveRequests k = some r → k = 8 ∧ r.sessionId = 6 ∧
      r.makeupSessionId = none := fun k r =>
    Store.get_all (d := sampleRoom) (t := ShopTbl.leaveRequests) (P := fun k r => k = 8 ∧
      r.sessionId = 6 ∧ r.makeupSessionId = none)
      (by decide)
  refine ⟨⟨⟨4, 10, 0⟩, by decide, rfl⟩, fun k r hk hs => ?_, fun k r m hk hm => ?_,
    fun k k' r r' hk hk' _ _ _ _ => ?_⟩
  · rw [(h k r hk).2.1] at hs
    cases hs
  · rw [(h k r hk).2.2] at hm
    cases hm
  · rw [(h k r hk).1, (h k' r' hk').1]

theorem session_seats_makeup :
    let s := shop.after sampleRoomMakeup (.init sampleRoom)
    (∀ course, s.db.get .courses 4 = some course → activeCount 4 s.db ≤ course.maxStudents ∧
      -(s.db.count .leaveRequests (makesUp 5 s.db) : ℤ) ≤ remaining 4 5 s.db) ∧
      0 ≤ remaining 4 5 s.db := by
  have h := session_seats seatsOK_sampleRoom roomsOK_sampleRoom
  have hspares : shop.Reach (SparesSeats 4 5) (.init sampleRoom)
      (shop.after sampleRoomMakeup (.init sampleRoom)) := by
    refine reach_spares (Service.reach_after fun e he _ _ t q hq => ?_)
    subst hq
    simp only [sampleRoomMakeup, Event.steps, List.mem_cons, List.mem_map, reduceCtorEq, and_false,
      exists_false, or_false,
      Event.start.injEq] at he
    obtain ⟨-, rfl⟩ := he
    simp [Req.writes]
  exact ⟨h.1 _ (hspares.mono fun _ _ _ hok => hok.1), h.2.2 _ (by decide) hspares⟩

/-- **A checkout can sell the seat of a makeup.** It counts the members of the course, not
the makeups of its sessions. -/
theorem overbooked_session : ¬ ∀ (co sess : Uuid) (d : Db) (s : ShopSys), SeatsOK co d →
    RoomsOK co sess d →
    0 ≤ remaining co sess d → shop.Reach (KeepsLimit co) (Sys.init d) s →
    0 ≤ remaining co sess s.db := by
  intro h
  have hreqs : shop.ReachOf (fun q => .courses ∉ q.writes) (.init sampleRoom)
      (shop.after sampleRoomSale (.init sampleRoom)) := by
    refine Service.reach_after fun e he _ _ t q hq => ?_
    subst hq
    simp only [sampleRoomSale, sampleRoomMakeup, Event.steps, List.mem_cons, List.mem_append,
      List.mem_map, reduceCtorEq,
      and_false, exists_false, or_false, Event.start.injEq] at he
    rcases he with ⟨-, rfl⟩ | ⟨-, rfl⟩ <;> simp [Req.writes]
  have h1 := h 4 5 sampleRoom _ seatsOK_sampleRoom roomsOK_sampleRoom (by decide)
    (reach_limit hreqs)
  have h2 : remaining 4 5 (shop.after sampleRoomSale (.init sampleRoom)).db = -1 := by
    decide +kernel
  omega

end DreamFly
