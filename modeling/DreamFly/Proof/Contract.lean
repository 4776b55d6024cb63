import DreamFly.Proof.Leaves
import DreamFly.Shop.Requests
import DreamFly.Txn.Sound

/-!
# The contract of the running shop

What every request does where it commits (`Req.Commits`), how it answers and when it
refuses, put together as one contract of the service. In runs that respect `K`
beside the locking rules, every reachable state keeps it.
-/

namespace DreamFly

open Txn Prog

variable {K : Rely Shop} {q : Req} {σ : Pt Shop} {born d : Db}

/-- What a request did to the store where it commits. -/
def Req.Commits (K : Rely Shop) : Req → Pt Shop → Prop
  | .checkout u key _ now, σ => Nonempty (CheckedOut u key now σ.now σ.db)
  | .updateOrderStatus id status now, σ => ∃ target, OrderStatus.fromStr status = some target ∧
      Nonempty (StatusChanged id target now σ.now σ.db)
  | .redeem u _ now, σ => Redeemed u now σ.now σ.db
  | .adjustPoints req now, σ => Applied req.userId now (.adminAdjust req.delta) σ.now σ.db
  | .addItem u _ _ _, σ | .updateQuantity u _ _, σ | .removeItem u _, σ | .clearCart u, σ =>
    CartEdited u σ.now σ.db
  | .updateProduct id req, σ => ProductEdited id req σ.now σ.db
  | .updateCourse id req, σ => CourseEdited id req.apply σ.now σ.db
  | .setCourseActive id b, σ =>
    σ.db = σ.now ∨ CourseEdited id (fun c => { c with isActive := b }) σ.now σ.db
  | .cancelEnrolment _ _, σ => Cancelled σ.now σ.db
  | .createLeaveRequest _ _ _ _, σ => Nonempty (LeaveCreated σ.now σ.db)
  | .cancelLeaveRequest _ id, σ => LeaveCancelled id σ.now σ.db
  | .decideLeaveRequest auth id _, σ => DecidedAt K id auth.userId σ
  | .bookMakeup at' _ id s, σ => BookedAt K at' id s σ
  | .bulkUpsertAttendance _ _ s records, σ =>
    ∃ marks, parseMarks records = .ok marks ∧ BatchAt K s marks σ

/-! ## Which tables a request writes -/

section writes
variable {u id : Uuid} {now : Instant} {d d' : Db} {key : Option IdempotencyKey}

theorem CheckedOut.tail_only {key : Option IdempotencyKey} (x : CheckedOut u key now d d') :
    Only (S := Shop) [.orderIdempotency, .outbox] x.sold d' := by
  have hk : Only (S := Shop) [.orderIdempotency] x.sold x.keyed := by
    have hr := x.recorded
    cases key with
    | none => simp only at hr; rw [hr]; exact Only.refl _ _
    | some k => simp only at hr; rw [hr.2]; exact Only.write _ (by simp [Write.tbl])
  exact (hk.mono (by simp)).trans (x.queued.mono (by simp))

theorem StatusChanged.tail_only {target : OrderStatus} (x : StatusChanged id target now d d') :
    Only (S := Shop) [.orders, .outbox] x.undone d' := by
  have hf : Only (S := Shop) [.orders] x.undone x.flipped := by
    rw [x.flip]; exact Only.write _ (by simp [Write.tbl])
  exact (hf.mono (by simp)).trans (x.queued.mono (by simp))

theorem CheckedOut.only (x : CheckedOut u key now d d') : Only (S := Shop)
    [.products, .orders, .orderItems, .users, .pointLedger, .enrolments, .subscriptions, .cartItems,
      .orderIdempotency,
      .outbox] d d' :=
  (x.steps.only.mono (by simp)).trans (x.tail_only.mono (by simp))

theorem StatusChanged.only {target : OrderStatus} (x : StatusChanged id target now d d') :
    Only (S := Shop)
    [.users, .pointLedger, .products, .enrolments, .leaveRequests, .subscriptions, .orders,
      .outbox] d d' := by
  refine Only.trans ?_ (x.tail_only.mono (by simp))
  cases hc : compensationRequired x.order.status target with
  | true =>
    obtain ⟨y⟩ := x.refund hc
    exact y.only.mono (by simp)
  | false => rw [x.plain hc]; exact Only.refl _ _

/-- The tables a request writes. -/
def Req.writes : Req → List ShopTbl
  | .checkout _ _ _ _ =>
    [.products, .orders, .orderItems, .users, .pointLedger, .enrolments, .subscriptions, .cartItems,
      .orderIdempotency, .outbox]
  | .updateOrderStatus _ _ _ =>
    [.users, .pointLedger, .products, .enrolments, .leaveRequests, .subscriptions, .orders, .outbox]
  | .redeem _ _ _ => [.users, .pointLedger, .rewards, .redemptions]
  | .adjustPoints _ _ => [.users, .pointLedger]
  | .addItem _ _ _ _ | .updateQuantity _ _ _ | .removeItem _ _ | .clearCart _ => [.cartItems]
  | .updateProduct _ _ => [.products]
  | .updateCourse _ _ | .setCourseActive _ _ => [.courses]
  | .cancelEnrolment _ _ => [.enrolments, .leaveRequests]
  | .createLeaveRequest _ _ _ _ | .cancelLeaveRequest _ _ | .bookMakeup _ _ _ _ => [.leaveRequests]
  | .decideLeaveRequest _ _ _ => [.leaveRequests, .attendance]
  | .bulkUpsertAttendance _ _ _ _ => [.attendance]

/-- **A request commits changes to its own tables only.** -/
theorem Req.Commits.only (h : q.Commits K σ) : Only (S := Shop) q.writes σ.now σ.db := by
  cases q with
  | checkout => obtain ⟨x⟩ := h; exact x.only
  | updateOrderStatus => obtain ⟨_, -, ⟨x⟩⟩ := h; exact x.only
  | redeem =>
    obtain ⟨_, _, -, happ, honly⟩ := h
    exact (happ.only.mono (by simp [Req.writes])).trans (honly.mono (by simp [Req.writes]))
  | adjustPoints => exact Applied.only h
  | addItem | updateQuantity | removeItem | clearCart => exact CartEdited.only h
  | updateProduct =>
    obtain ⟨_, _, -, -, he⟩ := h
    rw [he]; exact Only.write _ (by simp [Write.tbl, Req.writes])
  | updateCourse =>
    obtain ⟨_, -, he⟩ := h
    rw [he]; exact Only.write _ (by simp [Write.tbl, Req.writes])
  | setCourseActive =>
    rcases h with he | ⟨_, -, he⟩
    · rw [he]; exact Only.refl _ _
    · rw [he]; exact Only.write _ (by simp [Write.tbl, Req.writes])
  | cancelEnrolment => exact Cancelled.only h
  | createLeaveRequest =>
    obtain ⟨x⟩ := h
    rw [x.added]; exact Only.write _ (by simp [Write.tbl, Req.writes])
  | cancelLeaveRequest =>
    obtain ⟨_, -, -, he⟩ := h
    rw [he]; exact Only.write _ (by simp [Write.tbl, Req.writes])
  | decideLeaveRequest => obtain ⟨_, -, -, x, -⟩ := h; exact x.only
  | bookMakeup =>
    obtain ⟨-, x, -⟩ := h
    rw [x.booked]; exact Only.write _ (by simp [Write.tbl, Req.writes])
  | bulkUpsertAttendance => obtain ⟨_, -, x⟩ := h; exact x.only

end writes

/-! ## The contract -/

/-- A 409 rolls a status change back only when the refund lacks points. -/
def Req.Rolls : Req → Option AppError → Pt Shop → Prop
  | .updateOrderStatus id status _, e, σ => ∀ m, e = some (.conflict m) →
      ∃ target, OrderStatus.fromStr status = some target ∧ Refused id target σ.now
  | _, _, _ => True

/-- How a request answers. -/
def Req.Answered : Req → Reply → Pt Shop → Prop
  | .checkout u key _ _, a, σ => ∃ r, a = .order r ∧ Answers u key r σ.now
  | _, _, _ => True

/-- How a request fails, unless its connection is lost. -/
def Req.Failed (born : Db) : Req → AppError → Pt Shop → Prop
  | .checkout u key _ _, e, σ => e ≠ .database .connection →
      σ.committed = false ∧ ∀ k, key = some k → ¬ KeyUsed u k born
  | .updateOrderStatus _ _ _, e, σ => e ≠ .database .connection → σ.committed = false
  | _, _, _ => True

def Req.oblig (K : Rely Shop) (q : Req) : Oblig Shop AppError :=
  writing (fun σ => σ.committed = false ∧ q.Commits K σ) q.Rolls

theorem wp_reply {α β : Type} {D : Discipline Shop} {O : Oblig Shop AppError} {p : Tx α} {f : α → β}
    {Q : β → Pt Shop → Prop} {X : AppError → Pt Shop → Prop} (h : wp D O (fun a => Q (f a)) X p σ) :
    wp D O Q X (p >>= fun a => pure (f a)) σ := by
  rw [wp_bind]
  exact h

/-- **Every request keeps its contract**, on its own. -/
theorem Req.meets (q : Req) :
    wp (shopRules.under K) (q.oblig K) q.Answered (q.Failed born) q.prog (.begin born d false) := by
  have hB : ∀ (e : Option AppError) (σ : Pt Shop), True := fun _ _ => trivial
  -- what is met under the shop's rules is met when the calls rely on more
  have hin : ∀ {α : Type} {O : Oblig Shop AppError} {Q : α → Pt Shop → Prop}
      {X : AppError → Pt Shop → Prop} {p : Tx α}
      {σ : Pt Shop}, wp shopRules O Q X p σ → wp (shopRules.under K) O Q X p σ :=
        fun h => wp_under (fun _ _ _ => trivial) _ _ h
  cases q with
  | checkout u key req now =>
    refine wp_reply (hin ?_)
    have h : wp shopRules (oblig K (.checkout u key req now)) (fun r σ' => Answers u key r σ'.now)
        (fun _ σ' => σ'.committed = false ∧ ∀ k, key = some k → ¬ KeyUsed u k born)
        (DreamFly.checkout u key req now) (.begin born d false) :=
          checkout_wp hB fun σ' hc h => ⟨hc, h⟩
    refine wp_mono (fun r _ h => ?_) (fun _ _ h => ?_) _ _ h
    · exact ⟨r, rfl, h⟩
    · exact fun _ => h
  | updateOrderStatus id status now =>
    refine wp_reply (hin ?_)
    have h : wp shopRules (oblig K (.updateOrderStatus id status now)) (fun _ _ => True)
        (fun _ σ' => σ'.committed = false)
        (DreamFly.updateOrderStatus id status now) (.begin born d false) :=
      updateOrderStatus_wp (fun _ _ h => (nomatch h)) (fun e σ' h _ m hm => h m (by simpa using hm))
        fun σ' hc h => ⟨hc, h⟩
    refine wp_mono (fun _ _ _ => ?_) (fun _ _ h => ?_) _ _ h
    · trivial
    · exact fun _ => h
  | redeem u rewardId now =>
    exact wp_reply (hin (redeem_wp rfl hB (fun σ' hl h => ⟨hl.committed, h⟩)
      (fun _ _ => trivial) fun _ _ => trivial))
  | adjustPoints req now =>
    exact wp_reply (hin (adjustPoints_wp rfl hB (fun σ' hl h => ⟨hl.committed, h⟩)
      (fun _ _ => trivial) fun _ _ => trivial))
  | addItem u itemType itemId quantity =>
    exact wp_reply (hin (addItem_wp rfl hB (fun σ' hl h => ⟨hl.committed, h⟩)
      (fun _ _ => trivial) fun _ _ => trivial))
  | updateQuantity u itemId quantity =>
    exact wp_reply (hin (updateQuantity_wp rfl hB (fun σ' hl h => ⟨hl.committed, h⟩)
      (fun _ _ => trivial) fun _ _ => trivial))
  | removeItem u itemId =>
    exact wp_reply (hin (removeItem_wp rfl hB (fun σ' hl h => ⟨hl.committed, h⟩)
      (fun _ _ => trivial) fun _ _ => trivial))
  | clearCart u =>
    exact wp_reply (f := fun _ => Reply.done)
      (hin (clear_wp rfl hB (fun σ' hl h => ⟨hl.committed, h⟩)
        (fun _ _ => trivial) fun _ _ => trivial))
  | updateProduct id req =>
    exact wp_reply (hin (updateProduct_wp rfl hB (fun σ' hl h => ⟨hl.committed, h⟩)
      (fun _ _ => trivial) fun _ _ => trivial))
  | updateCourse id req =>
    exact wp_reply (hin (updateCourse_wp rfl hB (fun σ' hl h => ⟨hl.committed, h⟩)
      (fun _ _ => trivial) fun _ _ => trivial))
  | setCourseActive id b =>
    exact wp_reply (f := fun _ => Reply.done)
      (hin (setCourseActive_wp rfl hB (fun σ' hl h => ⟨hl.committed, h⟩)
        (fun _ _ => trivial) fun _ _ => trivial))
  | cancelEnrolment auth id =>
    exact wp_reply (hin (cancelEnrolment_wp rfl hB (fun σ' hl h => ⟨hl.committed, h⟩)
      (fun _ _ => trivial) fun _ _ => trivial))
  | createLeaveRequest at' auth s reason =>
    exact wp_reply (hin (createLeaveRequest_wp rfl hB (fun σ' hl h => ⟨hl.committed, h⟩)
      (fun _ _ => trivial) fun _ _ => trivial))
  | cancelLeaveRequest auth id =>
    exact wp_reply (f := fun _ => Reply.done)
      (hin (cancelLeaveRequest_wp rfl hB (fun σ' hl h => ⟨hl.committed, h⟩)
        (fun _ _ => trivial) fun _ _ => trivial))
  | decideLeaveRequest auth id newStatus =>
    exact wp_reply (decideLeaveRequest_wp hB (fun σ' hc h => ⟨hc, h⟩)
      (fun _ _ => trivial) fun _ _ => trivial)
  | bookMakeup at' auth id s =>
    exact wp_reply (bookMakeup_wp hB (fun σ' hc h => ⟨hc, h⟩)
      (fun _ _ => trivial) fun _ _ => trivial)
  | bulkUpsertAttendance at' auth s records =>
    exact wp_reply (bulkUpsertAttendance_wp hB (fun σ' marks hc hm h => ⟨hc, marks, hm, h⟩)
      (fun _ _ => trivial)
      fun _ _ => trivial)

/-- **The shop's contract**, in runs that respect `K`. -/
def shopContract (K : Rely Shop) : Contract shop (shopRules.under K) where
  oblig q := q.oblig K
  post q _ := q.Answered
  err q born := q.Failed born
  covers q σ w h := covers_of h.1 h.2
  crash q d σ := by
    cases q
    case checkout => exact fun h => absurd rfl h
    case updateOrderStatus => exact fun h => absurd rfl h
    all_goals trivial
  meets q d d' _ := q.meets

abbrev ShopSys := Sys Shop AppError Reply Req

variable {ok : ShopSys → Event Req → ShopSys → Prop} {s s' : ShopSys}
  {c : Call Shop AppError Reply Req} {t : ℕ}

/-- Every reachable state keeps the contract. -/
theorem shop_ok (h : shop.Reach ok (Sys.init d) s) : s.OK (shopContract (.free Shop)) :=
  reach_ok (fun _ _ _ _ _ _ _ _ _ _ => trivial) (ok_init d) h

/-- A commit in a state that keeps the contract: what the request did to the store. -/
theorem Sys.OK.commits {C : Contract shop (shopRules.under K)} (hC : C = shopContract K)
    (hs : s.OK C) (h : CommitStep s t c s') :
    ∃ σ : Pt Shop, σ.now = s.db ∧ σ.db = s'.db ∧ σ.held = c.held ∧ σ.committed = c.committed ∧
      c.committed = false ∧
      c.req.Commits K σ := by
  subst hC
  obtain ⟨start, -, hc, hcom⟩ := hs.commit h
  obtain ⟨-, k, -, rfl⟩ := h
  exact ⟨c.pt start s.db, rfl, rfl, rfl, rfl, hc, hcom⟩

/-- **A property that every commit keeps holds in every reachable state.** -/
theorem shop_inv {P : Db → Prop} (h0 : P d)
    (hP : ∀ (q : Req) (σ : Pt Shop), shopRules.rel [] σ.now σ.db → q.Commits (.free Shop) σ →
      P σ.now → P σ.db)
    (h : shop.Reach ok (Sys.init d) s) : P s.db :=
  reach_inv (C := shopContract (.free Shop)) (fun _ => shop_ok) h0
    (fun q σ hr ho => hP q σ hr ho.2) h

/-- The same where only some requests are let in. -/
theorem shop_inv_of {W : Req → Prop} {P : Db → Prop} (h0 : P d)
    (hP : ∀ (q : Req) (σ : Pt Shop), W q → shopRules.rel [] σ.now σ.db → q.Commits (.free Shop) σ →
      P σ.now → P σ.db)
    (h : shop.ReachOf W (Sys.init d) s) : P s.db :=
  reach_inv_of (C := shopContract (.free Shop))
    (fun _ => shop_ok) h0 (fun t c hc => by rw [Sys.call_init] at hc; cases hc)
    (fun q σ hw hr ho => hP q σ hw hr ho.2) h

/-- A table that no request of the run writes stays as it is, step by step. -/
theorem reach_keeps {t : ShopTbl} (h : shop.ReachOf (fun q => t ∉ q.writes) (Sys.init d) s) :
    shop.Reach (fun s _ s' => s'.db t = s.db t) (Sys.init d) s := by
  refine (h.carry (I := fun s => s.OK (shopContract (.free Shop)) ∧ ∀ u c, s.call u = some c →
    t ∉ c.req.writes) fun s₁ hr =>
    ⟨shop_ok hr, reach_req (fun t c hc => by rw [Sys.call_init] at hc; cases hc) hr⟩).imp
      fun s e s' he hok => ?_
  obtain ⟨-, ⟨hs, hreq⟩, -⟩ := hok
  rcases step_db he with hd | ⟨u, c, hcs⟩
  · rw [hd]
  · obtain ⟨σ, hnow, hdb, -, -, -, hcommits⟩ := Sys.OK.commits rfl hs hcs
    rw [← hnow, ← hdb]
    exact hcommits.only t (hreq u c hcs.1)

end DreamFly
