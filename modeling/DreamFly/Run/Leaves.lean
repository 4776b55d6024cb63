import DreamFly.Run.Seats
import DreamFly.Proof.LeaveUpdate

/-!
# Leave requests over whole runs

* `Req.Commits.leave_cases`: what a commit can do to a leave request.
* `leave_life_cycle`: requests are decided or cancelled once and made up once, with
  another session of the course that was still ahead; at most one open request for a
  session; a cancelled enrolment takes its pending requests along, and requests that
  come after it stay without approval and makeup.
-/

namespace DreamFly

open Txn Prog

variable {K : Rely Shop} {q : Req} {σ : Pt Shop} {d d' : Db} {s s₁ s' : ShopSys} {t : ℕ}
  {ok : ShopSys → Event Req → ShopSys → Prop}
  {c c₁ : Call Shop AppError Reply Req} {k e : Uuid}

/-! ## What commits do to requests -/

theorem Cancelled.leave_get (h : Cancelled d d') (k : Uuid) :
    d'.get .leaveRequests k = d.get .leaveRequests k ∨
    ∃ r, d.get .leaveRequests k = some r ∧ r.status = .pending ∧
      d'.get .leaveRequests k = some r.cancel :=
  h.leave k

theorem StatusChanged.leave_get {id : Uuid} {target : OrderStatus} {now : Instant}
    (x : StatusChanged id target now d d')
    (k : Uuid) : d'.get .leaveRequests k = d.get .leaveRequests k ∨
      ∃ r, d.get .leaveRequests k = some r ∧ r.status = .pending ∧
        d'.get .leaveRequests k = some r.cancel := by
  rw [x.tail_only.get (t := ShopTbl.leaveRequests) (by simp)]
  cases hc : compensationRequired x.order.status target with
  | false => rw [x.plain hc]; exact .inl rfl
  | true =>
    obtain ⟨y⟩ := x.refund hc
    have hbefore : Only (S := Shop) [.users, .pointLedger, .products] d y.restocked :=
      (y.points_only.mono (by simp)).trans (y.stock_only.mono (by simp))
    rw [y.subscriptions.get (t := ShopTbl.leaveRequests) (by simp),
      ← hbefore.get (t := ShopTbl.leaveRequests) (by simp)]
    exact y.seats.leave_get k

theorem LeaveCreated.leave (x : LeaveCreated d d') (k : Uuid) :
    d'.get .leaveRequests k = if k = x.k then some x.row else d.get .leaveRequests k := by
  have h := congrArg (fun b : Db => b.get .leaveRequests k) x.added
  refine h.trans ?_
  simp only [Store.get_add, x.fresh]
  rfl

theorem MakeupBooked.leave {at' : StudioNow} {id m : Uuid} (x : MakeupBooked at' id m d d')
    (k : Uuid) :
    d'.get .leaveRequests k = if k = id then some (x.row.book m) else d.get .leaveRequests k := by
  have h := congrArg (fun b : Db => b.get .leaveRequests k) x.booked
  refine h.trans ?_
  simp only [Store.get_mod, x.row_eq, Option.map_some]
  rw [onlyIf_pos (by simp [x.approved, x.unbooked])]

/-- **What a commit can do to request `k`**: nothing, open it, cancel it, decide it or
book its makeup. -/
theorem Req.Commits.leave_cases (h : q.Commits K σ) (k : Uuid) :
    σ.db.get .leaveRequests k = σ.now.get .leaveRequests k ∨
    (∃ x : LeaveCreated σ.now σ.db, x.k = k ∧ σ.db.get .leaveRequests k = some x.row) ∨
    (∃ r, σ.now.get .leaveRequests k = some r ∧ r.status = .pending ∧
      σ.db.get .leaveRequests k = some r.cancel) ∨
    (∃ r st u, (st = .approved ∨ st = .rejected) ∧ DecidableAt K k st σ.now ∧
      σ.now.get .leaveRequests k = some r ∧
      r.status = .pending ∧ σ.db.get .leaveRequests k = some (r.decide st u) ∧
      (st = .approved → Holds σ.held (.row (S := Shop) .attendance (r.sessionId,
        r.enrolmentId)) .update ∧
        σ.db.get .attendance (r.sessionId, r.enrolmentId) = some ⟨.leave, u⟩)) ∨
    ∃ at' auth m, q = .bookMakeup at' auth k m ∧ ∃ x : MakeupBooked at' k m σ.now σ.db,
      σ.db.get .leaveRequests k = some (x.row.book m) := by
  cases q with
  | updateOrderStatus id status now =>
    obtain ⟨_, -, ⟨x⟩⟩ := h
    rcases x.leave_get k with h | h
    · exact .inl h
    · exact .inr (.inr (.inl h))
  | cancelEnrolment auth id =>
    rcases Cancelled.leave_get h k with h | h
    · exact .inl h
    · exact .inr (.inr (.inl h))
  | createLeaveRequest at' auth sess reason =>
    obtain ⟨x⟩ := h
    have hget := x.leave k
    by_cases hk : k = x.k
    · rw [if_pos hk] at hget; exact .inr (.inl ⟨x, hk.symm, hget⟩)
    · rw [if_neg hk] at hget; exact .inl hget
  | cancelLeaveRequest auth id =>
    obtain ⟨r, hr, hp, hd⟩ := h
    rw [hd, Store.get_mod]
    by_cases hk : k = id
    · subst hk
      rw [if_pos rfl, hr]
      exact .inr (.inr (.inl ⟨r, rfl, hp, by rw [Option.map_some, onlyIf_pos (by simpa using hp)]⟩))
    · rw [if_neg hk]; exact .inl rfl
  | decideLeaveRequest auth id newStatus =>
    obtain ⟨st, hst, hdec, x, hheld⟩ := h
    rw [x.leave]
    by_cases hk : k = id
    · subst hk
      rw [if_pos rfl]
      refine .inr (.inr (.inr (.inl ⟨x.row, st, auth.userId, hst, hdec, x.row_eq, x.pending, rfl,
        fun hap => ⟨hheld hap, ?_⟩⟩)))
      -- an approval marks the attendance in the same transaction
      rw [x.attendance, if_pos ⟨hap, rfl⟩]
    · rw [if_neg hk]; exact .inl rfl
  | bookMakeup at' auth id m =>
    obtain ⟨-, x, -⟩ := h
    have hget := x.leave k
    by_cases hk : k = id
    · subst hk
      rw [if_pos rfl] at hget
      exact .inr (.inr (.inr (.inr ⟨at', auth, m, rfl, x, hget⟩)))
    · rw [if_neg hk] at hget; exact .inl hget
  | _ => exact .inl (h.only.get (t := ShopTbl.leaveRequests) (by simp [Req.writes]) k)

/-! ## The invariant -/

/-- The makeup of an approved request: another session of its course. -/
def MakeupOK (d : Db) (r : LeaveRequest) (m : Uuid) : Prop :=
  r.status = .approved ∧ m ≠ r.sessionId ∧ ∃ e x, d.get .enrolments r.enrolmentId = some e ∧
    d.get .sessions m = some x ∧
    x.courseId = e.courseId

/-- Makeups are in order, and no two requests are open for the same session of an
enrolment. -/
structure LeavesOK (d : Db) : Prop where
  makeup : ∀ k r m, d.get .leaveRequests k = some r → r.makeupSessionId = some m → MakeupOK d r m
  single : ∀ k k' r r', d.get .leaveRequests k = some r → d.get .leaveRequests k' = some r' →
    r.isOpen → r'.isOpen →
    r.enrolmentId = r'.enrolmentId → r.sessionId = r'.sessionId → k = k'

theorem MakeupOK.later {r : LeaveRequest} {m : Uuid} (hr : shopRules.rel [] d d')
    (h : MakeupOK d r m) : MakeupOK d' r m := by
  obtain ⟨hs, hne, e, x, he, hx, hc⟩ := h
  obtain ⟨e', he', hu⟩ := rel_enrolment hr he
  exact ⟨hs, hne, e', x, he', rel_session hr hx, hc.trans hu.course.symm⟩

/-- A request that a commit leaves open was there, and open, or is the new one. -/
theorem Req.Commits.open_cases (h : q.Commits K σ) {r : LeaveRequest}
    (hk : σ.db.get .leaveRequests k = some r)
    (ho : r.isOpen) : (∃ r₀, σ.now.get .leaveRequests k = some r₀ ∧ r₀.isOpen ∧
      r₀.enrolmentId = r.enrolmentId ∧
      r₀.sessionId = r.sessionId) ∨ ∃ x : LeaveCreated σ.now σ.db, x.k = k ∧ r = x.row := by
  rcases h.leave_cases k with he | ⟨x, hx, he⟩ | ⟨r₀, h0, hp, he⟩ |
      ⟨r₀, st, u, hst, -, h0, hp, he, -⟩ | ⟨_, _, m, -, x, he⟩
  · exact .inl ⟨r, he ▸ hk, ho, rfl, rfl⟩
  · rw [hk] at he
    exact .inr ⟨x, hx, Option.some.inj he⟩
  · rw [hk] at he
    cases he
    exact .inl ⟨r₀, h0, .inl hp, rfl, rfl⟩
  · rw [hk] at he
    cases he
    exact .inl ⟨r₀, h0, .inl hp, rfl, rfl⟩
  · rw [hk] at he
    cases he
    exact .inl ⟨x.row, x.row_eq, ho, rfl, rfl⟩

theorem LeavesOK.commit (hr : shopRules.rel [] σ.now σ.db) (h : q.Commits K σ)
    (hp : LeavesOK σ.now) : LeavesOK σ.db where
  makeup k r m hk hm := by
    rcases h.leave_cases k with he | ⟨x, -, he⟩ | ⟨r₀, h0, hpend, he⟩ |
        ⟨r₀, st, u, -, -, h0, hpend, he, -⟩ | ⟨_, _, m', -, x, he⟩
    · exact (hp.makeup k r m (he ▸ hk) hm).later hr
    · rw [hk] at he
      cases he
      rw [x.unbooked] at hm
      cases hm
    · rw [hk] at he
      cases he
      have hap := (hp.makeup k r₀ m h0 hm).1
      rw [hpend] at hap
      cases hap
    · rw [hk] at he
      cases he
      have hap := (hp.makeup k r₀ m h0 hm).1
      rw [hpend] at hap
      cases hap
    · rw [hk] at he
      cases he
      cases hm
      have hok : MakeupOK σ.now (x.row.book m) m :=
        ⟨x.approved, x.other, x.enrolment, x.session, x.enrolment_eq, x.session_eq, x.course⟩
      exact hok.later hr
  single k k' r r' hk hk' ho ho' he hs := by
    rcases h.open_cases hk ho with ⟨r₀, h0, hopen, he0, hs0⟩ | ⟨x, hx, rfl⟩
    · rcases h.open_cases hk' ho' with ⟨r₁, h1, hopen₁, he1, hs1⟩ | ⟨y, hy, rfl⟩
      · exact hp.single k k' r₀ r₁ h0 h1 hopen hopen₁ (he0.trans (he.trans he1.symm))
          (hs0.trans (hs.trans hs1.symm))
      · exact absurd hopen (y.alone k r₀ h0 (he0.trans he) (hs0.trans hs))
    · rcases h.open_cases hk' ho' with ⟨r₁, h1, hopen₁, he1, hs1⟩ | ⟨y, hy, rfl⟩
      · exact absurd hopen₁ (x.alone k' r₁ h1 (he1.trans he.symm) (hs1.trans hs.symm))
      · -- both are the one new row
        have hget := x.leave k'
        by_cases hkk : k' = x.k
        · rw [hkk, hx]
        · rw [if_neg hkk, hk', ← hy, y.fresh] at hget
          cases hget

/-! ## Makeups and cancellations -/

/-- Requests get makeups from their member's booking only: approved ones, once, a
session that has not started by the booking's clock. -/
def BookedInTime (c : Call Shop AppError Reply Req) (d d' : Db) : Prop :=
  ∀ k r r' m, d.get .leaveRequests k = some r → d'.get .leaveRequests k = some r' →
    r.makeupSessionId ≠ some m →
    r'.makeupSessionId = some m → r.status = .approved ∧ r.makeupSessionId = none ∧ ∃ at' auth x,
      c.req = .bookMakeup at' auth k m ∧ d.get .sessions m = some x ∧
      requireNotStarted at'.tz at'.now x.sessionDate x.startTime "session time"
        (.validation "補課場次已開始") = .ok ()

theorem Req.Commits.bookedInTime (h : c.req.Commits K σ) : BookedInTime c σ.now σ.db := by
  intro k r r' m hr hr' hne hm
  rcases h.leave_cases k with he | ⟨x, hx, -⟩ | ⟨r₀, h0, -, he⟩ | ⟨r₀, st, u, -, -, h0, -, he, -⟩ |
      ⟨at', auth, m', hq, x, he⟩
  · rw [hr, hr'] at he
    cases he
    exact absurd hm hne
  · rw [← hx, x.fresh] at hr; cases hr
  · rw [hr] at h0
    rw [hr'] at he
    cases h0
    cases he
    exact absurd hm hne
  · rw [hr] at h0
    rw [hr'] at he
    cases h0
    cases he
    exact absurd hm hne
  · have hrow := x.row_eq
    rw [hr] at hrow
    rw [hr'] at he
    cases he
    cases hm
    cases hrow
    exact ⟨x.approved, x.unbooked, at', auth, x.session, hq, x.session_eq, x.ahead⟩

/-- Only a cancellation or a status change cancels enrolments. -/
theorem Req.Commits.cancels (h : q.Commits K σ) {a b : Enrolment}
    (ha : σ.now.get .enrolments e = some a)
    (hb : σ.db.get .enrolments e = some b) (hs : a.status ≠ b.status) :
    (∃ auth id, q = .cancelEnrolment auth id) ∨
    ∃ id status now, q = .updateOrderStatus id status now := by
  cases q with
  | cancelEnrolment auth id => exact .inl ⟨auth, id, rfl⟩
  | updateOrderStatus id status now => exact .inr ⟨id, status, now, rfl⟩
  | checkout u key req now =>
    -- a purchase only adds enrolments
    obtain ⟨x⟩ := h
    obtain ⟨hbefore, hchain, hafter⟩ := x.enrolled
    have hkeep : x.steps.enrolled.get .enrolments e = some a := by
      refine hchain.inv (I := fun d : Db => d.get .enrolments e = some a)
        (fun _ _ _ _ he hI => ?_) ?_
      · obtain ⟨course, n, -, -, -, hn, rfl⟩ := he
        rw [Store.get_add, if_neg fun hen => by rw [hen, hn] at hI; cases hI]
        exact hI
      · unfold Store.get at ha ⊢
        rw [hbefore _ (by simp)]
        exact ha
    have hfinal : σ.db.get .enrolments e = some a := by
      unfold Store.get at hkeep ⊢
      rw [hafter _ (by simp)]
      exact hkeep
    rw [hb] at hfinal
    cases hfinal
    exact absurd rfl hs
  | _ =>
    rw [h.only.get (t := ShopTbl.enrolments) (by simp [Req.writes]), ha] at hb
    cases hb
    exact absurd rfl hs

/-- Call `t` cancels enrolment `e`: decided requests are as they were, and whatever run led
there, it passed the beginning of the call's leave update for `e`, and no request of `e`
that was committed by then is pending any more. -/
def CancelsLeaves (d : Db) (t : ℕ) (s s' : ShopSys) : Prop :=
  ∀ e a b, s.db.get .enrolments e = some a → a.status ≠ .cancelled →
    s'.db.get .enrolments e = some b → b.status = .cancelled →
    (∀ k r, s.db.get .leaveRequests k = some r → r.status ≠ .pending →
      s'.db.get .leaveRequests k = some r) ∧
    shop.Passes (Sys.init d) s fun s₁ => ∃ c₁ ids cont err, s₁.call t = some c₁ ∧
      c₁.prog = (cancelPendingForEnrolmentsTx ids).handle cont err ∧ e ∈ ids ∧
      ∀ k r r', s₁.db.get .leaveRequests k = some r → r.enrolmentId = e →
        s.db.get .leaveRequests k = some r' →
        r'.status = .pending → s'.db.get .leaveRequests k = some r'.cancel

/-- A transaction that leaves none of the requests of `ids` pending cancelled the
enrolments among `ids`. -/
theorem nonePending_of_wp {ids : List Uuid} (hr : shop.Reach ok (Sys.init d) s₁)
    (h : shop.Reach ok s₁ s)
    (hc₁ : s₁.call t = some c₁) (hwp : ∀ d', shopRules.rel c₁.held s₁.db d' →
      wp shopRules (leavingNone ids s₁.db) (fun _ _ => True)
      (fun _ _ => True) c₁.prog (c₁.pt s₁.db d'))
    (hcs : CommitStep s t c s') (hcom : c.committed = false) :
    NonePending ids s₁.db s.db s'.db := by
  obtain ⟨hc, k, hk, rfl⟩ := hcs
  obtain ⟨start, ho⟩ := reach_commit (C := shopContract (.free Shop)) (O := leavingNone ids s₁.db)
    (fun s₂ h₂ => shop_ok (hr.trans h₂)) (fun _ _ _ => trivial)
      (fun σ w hw => covers_of hw.1 hw.2) hc₁
    (fun d' hd => wp_under (fun _ _ _ => trivial) _ _ (hwp d' hd)) h hc hk
  exact ho hcom

/-- The point of a call does not depend on the end of its code. -/
theorem flipped_of_tracked {α : Type} {O : Oblig Shop AppError} {R : Rely Shop}
    {Mid : α → Pt Shop → Prop}
    {Out : AppError → Pt Shop → Prop} {b : α} {ids : List Uuid}
    (htr : Tracked R O Mid Out d (c.front (.ret b)))
    (hR : ∀ L a b, shopRules.rel L a b → R.rel L a b) (hmid : ∀ σ, Mid b σ → Flipped ids σ) :
    ∀ d', shopRules.rel c.held d d' → Flipped ids (c.pt d d') := by
  intro d' hd
  obtain ⟨start, -, ht⟩ := htr
  obtain ⟨h1, h2⟩ := hmid _ (ht d' (hR _ _ _ hd))
  exact ⟨h1, h2⟩

/-- A call whose code commits nothing does not come to a commit. -/
theorem never_commits (hr : shop.Reach ok (Sys.init d) s₁) (h : shop.Reach ok s₁ s)
    (hc₁ : s₁.call t = some c₁)
    (hwp : ∀ σ, wp shopRules (writing (fun _ => False) fun _ _ => True) (fun _ _ => True)
      (fun _ _ => True) c₁.prog σ)
    (hcs : CommitStep s t c s') : False := by
  obtain ⟨hc, k, hk, -⟩ := hcs
  obtain ⟨_, ho⟩ := reach_commit (C := shopContract (.free Shop))
    (O := writing (fun _ => False) fun _ _ => True)
    (fun s₂ h₂ => shop_ok (hr.trans h₂)) (fun _ _ _ => trivial)
      (fun σ w hw => covers_of hw.1 hw.2) hc₁
    (fun d' _ => wp_under (fun _ _ _ => trivial) _ _ (hwp _)) h hc hk
  exact ho

/-- The front of a request's code, specified; the call has left it when it commits. -/
theorem shop_front {α : Type} {p : Tx α} {okk : α → Tx Reply} (Mid : α → Pt Shop → Prop)
    (h : shop.Reach ok (Sys.init d) s)
    (hcs : CommitStep s t c s') (hp : c.req.prog = p.handle okk dropTx)
    (hspec : ∀ d d', Does (fun _ => False) (fun _ _ => True)
      (.begin d d' false) p (fun _ => True) fun b σ => Mid b σ) :
    ∃ s₁ c₁ b, shop.Reach ok (Sys.init d) s₁ ∧ shop.Reach ok s₁ s ∧ s₁.call t = some c₁ ∧
      c₁.prog = okk b ∧
      Tracked (shopRules.under (.free Shop)).both (writing (fun _ => False) fun _ _ => True) Mid
        (fun _ _ => True) s₁.db
        (c₁.front (.ret b)) := by
  have hcommit : c.prog.isCommit = true := by
    obtain ⟨-, k, hk, -⟩ := hcs
    rw [hk]
    rfl
  obtain ⟨s₁, c₁, h1, h2, hc₁, -, -, hcase⟩ := reach_front (C := shopContract (.free Shop))
    (O := writing (fun _ => False) fun _ _ => True) (M := Mid) (N := fun _ _ => True)
      (fun s₂ h₂ => shop_ok h₂)
    (fun _ _ _ => trivial) (fun σ w hw => covers_of hw.1 hw.2) (fun _ h => h)
    (fun d d' _ => wp_under (fun _ _ _ => trivial) _ _
      ((hspec d d').wp (fun _ _ _ h => h) fun _ _ _ _ => trivial))
    h hcs.1 hp hcommit
  rcases hcase with ⟨b, hb, htr⟩ | ⟨x, hx⟩
  · exact ⟨s₁, c₁, b, h1, h2, hc₁, hb, htr⟩
  · exact (never_commits h1 h2 hc₁
      (fun σ => by rw [hx]; exact ⟨trivial, fun _ _ => trivial⟩) hcs).elim

/-- Every run comes to a state from which on call `t` leaves none of the requests of `ids`
pending, and unless `ids` is empty this is the beginning of its leave update. -/
def CameThrough (d : Db) (t : ℕ) (s s' : ShopSys) : Prop :=
  shop.Passes (Sys.init d) s fun s₁ => ∃ c₁ ids, s₁.call t = some c₁ ∧
    NonePending ids s₁.db s.db s'.db ∧
    (ids = [] ∨ ∃ cont err, c₁.prog = (cancelPendingForEnrolmentsTx ids).handle cont err)

theorem cameThrough_cancel {auth : AuthUser} {id : Uuid} (hcs : CommitStep s t c s')
    (hcom : c.committed = false) (hq : c.req = .cancelEnrolment auth id) :
    CameThrough d t s s' := by
  intro ok h
  obtain ⟨s₁, c₁, updated, h1, h2, hc₁, hp, htr⟩ := shop_front (fun _ σ => Flipped [id] σ) h hcs
    (by rw [hq]; exact cancelEnrolment_front auth id) fun _ _ => flipEnrolment_spec rfl
  have hflip := flipped_of_tracked htr (fun L a b hab => ⟨hab, trivial⟩) fun _ h => h
  refine ⟨s₁, h1, h2, c₁, [id], hc₁, nonePending_of_wp h1 h2 hc₁ (fun d' hd => ?_) hcs hcom,
    .inr ⟨_, _, hp⟩⟩
  rw [hp]
  exact leaveUpdate_wp (σ := c₁.pt s₁.db d') (hflip d' hd) fun σ' h =>
    ⟨fun _ => h, fun _ _ => trivial⟩

theorem cameThrough_refund {id : Uuid} {status : String} {now : Instant}
    (hcs : CommitStep s t c s') (hcom : c.committed = false)
    (hq : c.req = .updateOrderStatus id status now)
    {target : OrderStatus} (ht : OrderStatus.fromStr status = some target) :
    CameThrough d t s s' := by
  intro ok h
  obtain ⟨s₁, c₁, ⟨order, decision, flipped⟩, h1, h2, hc₁, hp, htr⟩ := shop_front
    (fun (x : RefundFront) σ => Flipped (x.flipped.map Prod.fst) σ ∧
      (x.decision ≠ .flipAndCompensate → x.flipped = [])) h hcs
    (by rw [hq]; exact updateOrderStatus_front ht) fun _ _ => refundFront_spec rfl
  have hflip := flipped_of_tracked htr (fun L a b hab => ⟨hab, trivial⟩) fun _ h => h.1
  have hnone : decision ≠ .flipAndCompensate → flipped = [] := by
    obtain ⟨_, -, h⟩ := htr.here
    exact h.2
  -- a no-op commits nothing; a flip has no leave to cancel
  cases decision with
  | noOp =>
    refine (never_commits h1 h2 hc₁ (fun σ => ?_) hcs).elim
    rw [hp]
    exact ⟨trivial, fun _ _ => statusReply_wp⟩
  | flip =>
    have hnil : flipped = [] := hnone (by simp)
    subst hnil
    refine ⟨s₁, h1, h2, c₁, [], hc₁, nonePending_of_wp h1 h2 hc₁
      (fun d' hd => ?_) hcs hcom, .inl rfl⟩
    rw [hp]
    exact flip_wp (hflip d' hd)
  | flipAndCompensate =>
    -- no enrolment was flipped, or the leave update comes next
    cases flipped with
    | nil =>
      refine ⟨s₁, h1, h2, c₁, [], hc₁, nonePending_of_wp h1 h2 hc₁
        (fun d' hd => ?_) hcs hcom, .inl rfl⟩
      rw [hp]
      refine refundRest_wp ⟨fun k r _ hi => ?_, (hflip d' hd).enrolments⟩
      simp at hi
    | cons y l =>
      refine ⟨s₁, h1, h2, c₁, _, hc₁, nonePending_of_wp h1 h2 hc₁ (fun d' hd => ?_) hcs hcom,
        .inr ⟨_, _, hp⟩⟩
      rw [hp]
      exact leaveUpdate_wp (σ := c₁.pt s₁.db d') (hflip d' hd) fun σ' h => refundRest_wp h

/-- **Cancellations take the pending requests along.** -/
theorem cancelsLeaves_of_commit (h : shop.Reachable (Sys.init d) s) (hcs : CommitStep s t c s') :
    CancelsLeaves d t s s' := by
  intro e a b ha hsa hb hsb
  obtain ⟨σ, hnow, hdb, -, -, hcom, hcommits⟩ := Sys.OK.commits rfl (shop_ok h) hcs
  have hreq : (∃ auth id, c.req = .cancelEnrolment auth id) ∨
      ∃ id status now, c.req = .updateOrderStatus id status now := by
    refine hcommits.cancels (e := e) (a := a) (b := b) ?_ ?_ (by rw [hsb]; exact hsa)
    · rw [hnow]; exact ha
    · rw [hdb]; exact hb
  have hcases : ∀ k, s'.db.get .leaveRequests k = s.db.get .leaveRequests k ∨
      ∃ r, s.db.get .leaveRequests k = some r ∧ r.status = .pending ∧
        s'.db.get .leaveRequests k = some r.cancel := by
    intro k
    rw [← hnow, ← hdb]
    rcases hreq with ⟨auth, id, hq⟩ | ⟨id, status, now, hq⟩
    · rw [hq] at hcommits
      exact Cancelled.leave_get hcommits k
    · rw [hq] at hcommits
      obtain ⟨_, -, ⟨x⟩⟩ := hcommits
      exact x.leave_get k
  have hthrough : CameThrough d t s s' := by
    rcases hreq with ⟨auth, id, hq⟩ | ⟨id, status, now, hq⟩
    · exact cameThrough_cancel hcs hcom hq
    · rw [hq] at hcommits
      obtain ⟨_, ht, -⟩ := hcommits
      exact cameThrough_refund hcs hcom hq ht
  refine ⟨fun k r hk hp => ?_, ?_⟩
  · rcases hcases k with he | ⟨r₀, h0, hpend, -⟩
    · rw [he]; exact hk
    · rw [hk] at h0
      cases h0
      exact absurd hpend hp
  · intro ok hok
    obtain ⟨s₁, h1, h2, c₁, ids, hc₁, hn, hids⟩ := hthrough ok hok
    -- the enrolment has changed, so it is among those of the update
    have hmem : e ∈ ids := by
      by_contra hne
      rw [hn.enrolments e hne, ha] at hb
      cases hb
      exact hsa hsb
    rcases hids with rfl | ⟨cont, err, hp⟩
    · cases hmem
    refine ⟨s₁, h1, h2, c₁, ids, cont, err, hc₁, hp, hmem, fun k r r' hr he hr' hpend => ?_⟩
    obtain ⟨r'', hr'', hne⟩ := hn.leaves k r hr (by simpa [he] using hmem)
    rcases hcases k with hsame | ⟨r₀, h0, -, hcancel⟩
    · rw [hsame, hr'] at hr''
      cases hr''
      exact absurd hpend hne
    · rw [hr'] at h0
      cases h0
      exact hcancel

/-! ## Requests that come too late -/

/-- Request `k` of enrolment `e` only comes with the enrolment no longer active. -/
def Late (k e : Uuid) (d : Db) : Prop :=
  ∀ r, d.get .leaveRequests k = some r → r.enrolmentId = e → enrolmentActive d e = false

/-- Request `k` of enrolment `e` has no approval and no makeup. -/
def Unapproved (k e : Uuid) (d : Db) : Prop :=
  ∀ r, d.get .leaveRequests k = some r → r.enrolmentId = e → r.status ≠ .approved ∧
    r.makeupSessionId = none

/-- What runs respect in which it does: snapshots are no exception. -/
def lateRely (k e : Uuid) : Rely Shop where
  rel _ a b := Late k e b → Late k e a
  refl _ _ := id
  trans h h' := h ∘ h'
  anti _ h := h

theorem get_none_of_rel (hr : shopRules.rel [] d d') (h : d'.get .leaveRequests k = none) :
    d.get .leaveRequests k = none := by
  cases hk : d.get .leaveRequests k with
  | none => rfl
  | some r =>
    obtain ⟨r', hr', -⟩ := rel_leave hr hk
    rw [h] at hr'
    cases hr'

/-- **A request that comes after its enrolment's cancellation** is not approved and
gets no makeup. -/
theorem late_request (h₁ : shop.Reachable (Sys.init d) s₁) (h : shop.Reachable s₁ s) {a : Enrolment}
    (ha : s₁.db.get .enrolments e = some a) (hs : a.status = .cancelled)
    (hk : s₁.db.get .leaveRequests k = none)
    {r : LeaveRequest} (hr : s.db.get .leaveRequests k = some r) (he : r.enrolmentId = e) :
    r.status ≠ .approved ∧ r.makeupSessionId = none := by
  have hrel : ∀ {s s' : ShopSys}, shop.Reachable (Sys.init d) s → shop.Reachable s s' →
      shopRules.rel [] s.db s'.db :=
    fun h0 h1 => reach_rel (C := shopContract (.free Shop)) (fun s₂ h₂ => shop_ok (h0.trans h₂)) h1
  have hbefore : ∀ s₀, shop.Reachable (Sys.init d) s₀ → shop.Reachable s₀ s₁ →
      s₀.db.get .leaveRequests k = none :=
    fun s₀ h0 h1 => get_none_of_rel (hrel h0 h1) hk
  have hlate₁ : ∀ s₀, shop.Reachable (Sys.init d) s₀ → shop.Reachable s₀ s₁ → Late k e s₀.db := by
    intro s₀ h0 h1 r hr
    rw [hbefore s₀ h0 h1] at hr
    cases hr
  have hlate₂ : ∀ s₂, shop.Reachable s₁ s₂ → Late k e s₂.db := by
    intro s₂ h2 r _ _
    obtain ⟨a', ha', hu⟩ := rel_enrolment (hrel h₁ h2) ha
    have hna : a'.status ≠ .active := by
      intro hact
      have hact' := hu.active hact
      rw [hs] at hact'
      cases hact'
    simp [enrolmentActive, ha', hna]
  -- every store of the run is such that the request is late
  have hrun : shop.Reach (fun s _ s' => Late k e s.db ∧ Late k e s'.db) (Sys.init d) s :=
    (h₁.between.mono fun a _ b ⟨ha, hb⟩ => ⟨hlate₁ a ha.1 ha.2, hlate₁ b hb.1 hb.2⟩).trans
      (h.between.mono fun a _ b ⟨ha, hb⟩ => ⟨hlate₂ a ha.1, hlate₂ b hb.1⟩)
  have hOK : ∀ s', shop.Reach (fun s _ s' => Late k e s.db ∧ Late k e s'.db) (Sys.init d) s' →
      s'.OK (shopContract (lateRely k e)) := by
    refine fun s' h' => reach_ok (fun s _ s' _ _ hlate => ?_) (ok_init d) h'
    exact fun _ _ _ _ _ => hlate.1
  refine reach_inv_step (P := Unapproved k e) ?_
    (fun s₂ t c s₃ _ h₂ _ hlate hcs hp => ?_) hrun r hr he
  · intro r hr _
    rw [hbefore (Sys.init d) .refl h₁] at hr
    cases hr
  · have hs₂ := hOK s₂ h₂
    have hrel₂ : shopRules.rel [] s₂.db s₃.db := hs₂.rel_commit hcs
    obtain ⟨σ, hnow, hdb, -, -, -, hcommits⟩ := Sys.OK.commits rfl hs₂ hcs
    rw [← hnow] at hp hlate hrel₂
    rw [← hdb] at hrel₂ ⊢
    intro r hr he
    rcases hcommits.leave_cases k with hsame | ⟨x, -, hx⟩ | ⟨r₀, h0, -, hx⟩ |
        ⟨r₀, st, u, hst, hdec, h0, -, hx, -⟩ |
      ⟨_, _, _, -, x, -⟩
    · exact hp r (hsame ▸ hr) he
    · rw [hr] at hx
      cases hx
      exact ⟨by rw [x.pending]; simp, x.unbooked⟩
    · rw [hr] at hx
      cases hx
      exact ⟨by simp [LeaveRequest.cancel], (hp r₀ h0 he).2⟩
    · rw [hr] at hx
      cases hx
      refine ⟨?_, (hp r₀ h0 he).2⟩
      rintro rfl
      -- the check before the approval saw the request, and so the cancelled enrolment
      obtain ⟨v, r₁, hv, hK, hv₁, hact⟩ := hdec
      obtain ⟨r₂, h₂, hu⟩ := rel_leave hv hv₁
      rw [h0] at h₂
      cases h₂
      have hoff := hK hlate.1 r₁ hv₁ (hu.enrolment.symm.trans he)
      have hon := hact rfl
      rw [hu.enrolment.symm.trans he, hoff] at hon
      cases hon
    · have hin : x.row.enrolmentId = e := by
        obtain ⟨r', hr', hu⟩ := rel_leave hrel₂ x.row_eq
        rw [hr] at hr'
        cases hr'
        exact hu.enrolment.symm.trans he
      exact absurd x.approved (hp x.row x.row_eq hin).1

/-! ## The life cycle -/

/-- **Leave requests follow their life cycle**, however the calls interleave. From a store
in order: the requests stay in order; they keep what they are once they are decided or
made up; makeups are booked by their member, in time; a cancelled enrolment takes the
requests along that were there when its leave update began; and a request that comes
after the cancellation stays without approval and makeup. -/
theorem leave_life_cycle (h0 : LeavesOK d) (h : shop.Reachable (Sys.init d) s) :
    LeavesOK s.db ∧
    (∀ s', shop.Reachable s s' → ∀ k r, s.db.get .leaveRequests k = some r →
      ∃ r', s'.db.get .leaveRequests k = some r' ∧ r.Upto r') ∧
    (∀ t c s', CommitStep s t c s' → BookedInTime c s.db s'.db ∧ CancelsLeaves d t s s') ∧
    ∀ s₁ k e a r, shop.Reachable (Sys.init d) s₁ → shop.Reachable s₁ s →
      s₁.db.get .enrolments e = some a →
      a.status = .cancelled → s₁.db.get .leaveRequests k = none →
      s.db.get .leaveRequests k = some r → r.enrolmentId = e →
      r.status ≠ .approved ∧ r.makeupSessionId = none := by
  refine ⟨?_, fun s' h' k r hr => ?_, fun t c s' hcs => ⟨?_, cancelsLeaves_of_commit h hcs⟩, ?_⟩
  · exact shop_inv h0 (fun q σ hrel hc hp => hp.commit hrel hc) h
  · exact rel_leave (reach_rel (C := shopContract (.free Shop))
      (fun s₂ h₂ => shop_ok (h.trans h₂)) h') hr
  · obtain ⟨σ, hnow, hdb, -, -, -, hcommits⟩ := Sys.OK.commits rfl (shop_ok h) hcs
    rw [← hnow, ← hdb]
    exact hcommits.bookedInTime
  · intro s₁ k e a r h₁ h₂ ha hs hk hr he
    exact late_request h₁ h₂ ha hs hk hr he

/-- The studio's clock at the epoch: a session is a hundred instants for each day later. -/
def sampleNow : StudioNow := ⟨fun date time => some (100 * date + time), 0⟩

/-- User 2 asks for leave from session 5, an admin approves, the makeup is session 6. -/
def sampleMakeup : List (Event Req) :=
  .start 0 (.createLeaveRequest sampleNow ⟨2, []⟩ 5 none) :: (Event.steps 0 100 11 ++
    .start 1 (.decideLeaveRequest ⟨9, ["admin"]⟩ 108 "approved") :: (Event.steps 1 200 18 ++
    .start 2 (.bookMakeup sampleNow ⟨2, []⟩ 108 6) :: Event.steps 2 300 14))

theorem leavesOK_sampleShop : LeavesOK sampleShop := by
  have hnone : ∀ k r, sampleShop.get .leaveRequests k ≠ some r := fun k r =>
    Store.get_all (d := sampleShop) (t := ShopTbl.leaveRequests) (P := fun _ _ => False) (by decide)
  exact ⟨fun k r _ hk => absurd hk (hnone k r), fun k _ r _ hk => absurd hk (hnone k r)⟩

theorem leave_life_cycle_makeup :
    let s := shop.after sampleMakeup (.init sampleShop)
    LeavesOK s.db ∧ ∃ r, s.db.get .leaveRequests 108 = some r ∧ r.makeupSessionId = some 6 ∧
      r.status = .approved := by
  have h := leave_life_cycle leavesOK_sampleShop (Service.reachable_after sampleMakeup)
  exact ⟨h.1, ⟨7, 5, none, .approved, some 6, some 9⟩, by decide +kernel, rfl, rfl⟩

end DreamFly
