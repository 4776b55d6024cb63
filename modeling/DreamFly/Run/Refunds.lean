import DreamFly.Run.Points
import DreamFly.Txn.Seen

/-!
# Refunds over whole runs

* `order_points`: in a run from a store without orders, an order's ledger rows are
  those of its price while it counts as revenue and cancel out once it is reversed;
  each kind of refund row is there at most once.
* `refund_exact`: a status change that fails has changed nothing, one that is answered
  has committed or found nothing to do, and it is refused for too few points exactly
  when the balance with the restored points does not cover the earned ones.

`OrderLedgerOK` describes the rows of an order completely, as what any quantity `g`
sums up to over them.
-/

namespace DreamFly

open Txn Prog

variable {u o id : Uuid} {now : Instant} {d d' d₁ d₂ : Db} {q : Req} {σ : Pt Shop}
  {ld : LedgerDelta} {lds : List LedgerDelta}
  {ok : ShopSys → Event Req → ShopSys → Prop} {s s' : ShopSys}
    {c : Call Shop AppError Reply Req} {t : ℕ}
  {g : PointReason → ℤ → ℤ}

/-! ## The rows of an order -/

/-- The sum of `g` over the ledger rows of order `o`. -/
def orderLedger (o : Uuid) (g : PointReason → ℤ → ℤ) (d : Db) : ℤ :=
  d.total .pointLedger fun _ r => if r.orderId = some o then g r.reason r.delta else 0

/-- The same over ledger moves. -/
def movesOf (o : Uuid) (g : PointReason → ℤ → ℤ) (lds : List LedgerDelta) : ℤ :=
  (lds.map fun ld => if ld.orderId = some o then g ld.reason ld.delta else 0).sum

theorem SamePoints.orderLedger (h : SamePoints d d') :
    orderLedger o g d' = orderLedger o g d := h.total _

theorem PointsMoved.orderLedger (h : PointsMoved u now lds d d') :
    orderLedger o g d' = orderLedger o g d + movesOf o g lds := by
  obtain ⟨d₁, d₂, h1, h2, h3⟩ := h
  rw [h3.orderLedger, ← h1.orderLedger]
  exact h2.sum fun ld _ a b ha =>
    ha.total (fun _ r => if r.orderId = some o then g r.reason r.delta else 0) (fun _ _ _ => rfl) 0

theorem movesOf_other (h : ∀ ld ∈ lds, ld.orderId ≠ some o) : movesOf o g lds = 0 := by
  refine List.sum_eq_zero fun x hx => ?_
  obtain ⟨ld, hld, rfl⟩ := List.mem_map.1 hx
  exact if_neg (h ld hld)

/-- What a sale books. -/
def paidRows (g : PointReason → ℤ → ℤ) (row : Order) : ℤ :=
  (if row.pointsUsed > 0 then g .checkoutRedeem (-row.pointsUsed) else 0) +
    if row.pointsEarned > 0 then g .checkoutEarn row.pointsEarned else 0

/-- What a refund books. -/
def undoneRows (g : PointReason → ℤ → ℤ) (row : Order) : ℤ :=
  (if row.pointsUsed > 0 then g .refundRestore row.pointsUsed else 0) +
    if row.pointsEarned > 0 then g .refundClawback (-row.pointsEarned) else 0

/-- The ledger rows of an order, by its status. -/
structure OrderLedgerOK (o : Uuid) (row : Order) (d : Db) : Prop where
  used : 0 ≤ row.pointsUsed
  earned : 0 ≤ row.pointsEarned
  placed : row.status ≠ .pending
  revenue : row.status.isRevenue = true → ∀ g, orderLedger o g d = paidRows g row
  reversed : row.status.isReversal = true → ∀ g, orderLedger o g d = paidRows g row +
    undoneRows g row

/-- Every order's rows are as its status says; no row has an order that is not there. -/
structure OrdersOK (d : Db) : Prop where
  order : ∀ o row, d.get .orders o = some row → OrderLedgerOK o row d
  missing : ∀ o, d.get .orders o = none → ∀ g, orderLedger o g d = 0

theorem movesOf_ledgerDeltas (x : PricingOutcome) : movesOf o g (x.ledgerDeltas o) =
    (if x.pointsUsed > 0 then g .checkoutRedeem (-x.pointsUsed) else 0) +
      if x.pointsEarned > 0 then g .checkoutEarn x.pointsEarned else 0 := by
  unfold PricingOutcome.ledgerDeltas movesOf
  split <;> split <;> simp [LedgerDelta.checkoutRedeem, LedgerDelta.checkoutEarn]

theorem movesOf_reversalDeltas (f : OrderPointsFlow) : movesOf o g (f.reversalDeltas o) =
    (if f.redeemed > 0 then g .refundRestore f.redeemed else 0) +
      if f.earned > 0 then g .refundClawback (-f.earned) else 0 := by
  unfold OrderPointsFlow.reversalDeltas movesOf
  split <;> split <;> simp [LedgerDelta.refundRestore, LedgerDelta.refundClawback]

/-- What an order earned and redeemed, of any quantity of its rows. -/
theorem orderFlowSums_eq (d : Db) (o : Uuid) : orderFlowSums d o =
    ⟨orderLedger o (fun r δ => if r = .checkoutEarn then δ else 0) d,
      - orderLedger o (fun r δ => if r = .checkoutRedeem then δ else 0) d⟩ := by
  unfold orderFlowSums orderLedger
  congr 2
  · funext _ r; by_cases h : r.orderId = some o <;> simp [h]
  · congr 1; funext _ r; by_cases h : r.orderId = some o <;> simp [h]

/-- A revenue order's flow is its price. -/
theorem OrderLedgerOK.flow {row : Order} (h : OrderLedgerOK o row d)
    (hr : row.status.isRevenue = true) :
    orderFlowSums d o = ⟨row.pointsEarned, row.pointsUsed⟩ := by
  have h1 := h.used
  have h2 := h.earned
  rw [orderFlowSums_eq, h.revenue hr, h.revenue hr]
  simp only [paidRows]
  congr 1 <;> split <;> split <;> simp_all <;> omega

theorem OrderLedgerOK.congr {row row' : Order} (h : OrderLedgerOK o row d)
    (hl : ∀ g, orderLedger o g d' = orderLedger o g d)
    (hs : row' = row) : OrderLedgerOK o row' d' := by
  subst hs
  exact ⟨h.used, h.earned, h.placed, fun hr g => by rw [hl]; exact h.revenue hr g,
    fun hr g => by rw [hl]; exact h.reversed hr g⟩

/-- A commit that touches neither orders nor their ledger rows. -/
theorem OrdersOK.congr (h : OrdersOK d) (ho : ∀ k, d'.get .orders k = d.get .orders k)
    (hl : ∀ o g, orderLedger o g d' = orderLedger o g d) : OrdersOK d' where
  order o row hr := (h.order o row (ho o ▸ hr)).congr (hl o) rfl
  missing o hr g := by rw [hl]; exact h.missing o (ho o ▸ hr) g

theorem CheckedOut.orders {key : Option IdempotencyKey} (x : CheckedOut u key now d d') (k : Uuid) :
    d'.get .orders k = if k = x.o then some (paidOrder u x.outcome x.method now) else
      d.get .orders k := by
  have ht : Only (S := Shop) [.orderItems, .users, .pointLedger, .enrolments, .subscriptions,
    .cartItems, .orderIdempotency,
      .outbox] x.steps.placed d' :=
    (x.steps.items_only.mono (by simp)).trans <| (x.steps.points_only.mono (by simp)).trans <|
      (x.steps.enrol_only.mono (by simp)).trans <| (x.steps.grants.mono (by simp)).trans <|
      (x.steps.cleared.mono (by simp)).trans (x.tail_only.mono (by simp))
  have hs := x.steps.stock_only.get (t := ShopTbl.orders) (by simp)
  rw [ht.get (t := ShopTbl.orders) (by simp), x.steps.order, Store.get_add, hs, hs]
  split
  · rw [x.steps.fresh]; rfl
  · rfl

theorem StatusChanged.orders {target : OrderStatus} (x : StatusChanged id target now d d')
    (k : Uuid) :
    d'.get .orders k = if k = id then some { x.order with status := target } else
      d.get .orders k := by
  have hu : ∀ k, x.undone.get .orders k = d.get .orders k := by
    intro k
    cases hc : compensationRequired x.order.status target with
    | true =>
      obtain ⟨y⟩ := x.refund hc
      exact y.only.get (t := ShopTbl.orders) (by simp) k
    | false => rw [x.plain hc]
  rw [x.queued.get (t := ShopTbl.orders) (by simp), x.flip, Store.get_mod, hu, hu]
  split
  next hk => subst hk; rw [x.order_eq]; rfl
  · rfl

theorem CheckedOut.ordersOK {key : Option IdempotencyKey} (x : CheckedOut u key now d d')
    (h : OrdersOK d) : OrdersOK d' := by
  have hmove : ∀ o g, orderLedger o g d' = orderLedger o g d +
      movesOf o g (x.outcome.ledgerDeltas x.o) :=
    fun o g => x.points.orderLedger
  have hother : ∀ o, o ≠ x.o → ∀ g, orderLedger o g d' = orderLedger o g d := by
    intro o ho g
    rw [hmove, movesOf_other fun ld hld he => ?_, add_zero]
    simp only [PricingOutcome.ledgerDeltas, List.mem_append] at hld
    rcases hld with hld | hld <;> split at hld <;> simp at hld <;> subst hld <;>
      simp [LedgerDelta.checkoutRedeem, LedgerDelta.checkoutEarn] at he <;> exact ho he.symm
  have hchecks : 0 ≤ x.outcome.totalCents ∧ 0 ≤ x.outcome.discountCents ∧ 0 ≤ x.outcome.pointsUsed ∧
      0 ≤ x.outcome.pointsEarned := of_decide_eq_true x.steps.checks
  refine ⟨fun o row hr => ?_, fun o hr g => ?_⟩
  · rw [x.orders] at hr
    split at hr
    next hk =>
      cases hr
      subst hk
      refine ⟨hchecks.2.2.1, hchecks.2.2.2, by simp [paidOrder], fun _ g =>
        ?_, by simp [paidOrder, OrderStatus.isReversal]⟩
      rw [hmove, h.missing _ x.steps.fresh, zero_add, movesOf_ledgerDeltas]
      rfl
    next hk => exact (h.order o row hr).congr (hother o hk) rfl
  · rw [x.orders] at hr
    split at hr
    · cases hr
    next hk => rw [hother o hk]; exact h.missing o hr g

theorem canTransitionTo_revenue {a b : OrderStatus} (h : a.canTransitionTo b = true)
    (hp : a ≠ .pending) :
    a.isRevenue = true ∧ a.isReversal = false ∧ b ≠ .pending := by
  cases a <;> cases b <;> simp_all [OrderStatus.canTransitionTo, OrderStatus.isRevenue,
    OrderStatus.isReversal]

theorem StatusChanged.ordersOK {target : OrderStatus} (x : StatusChanged id target now d d')
    (h : OrdersOK d) : OrdersOK d' := by
  have hx := h.order id x.order x.order_eq
  obtain ⟨hrev, -, htp⟩ := canTransitionTo_revenue x.allowed hx.placed
  have hmove : ∀ o g, orderLedger o g d' = orderLedger o g d +
      movesOf o g (if compensationRequired x.order.status target then
      (orderFlowSums d id).reversalDeltas id else []) := fun o g => x.points.orderLedger
  -- the moves of a refund name its own order only
  have hother : ∀ o, o ≠ id → ∀ g, orderLedger o g d' = orderLedger o g d := by
    intro o ho g
    rw [hmove, movesOf_other fun ld hld he => ?_, add_zero]
    split at hld
    · simp only [OrderPointsFlow.reversalDeltas, List.mem_append] at hld
      rcases hld with hld | hld <;> split at hld <;> simp at hld <;> subst hld <;>
        simp [LedgerDelta.refundRestore, LedgerDelta.refundClawback] at he <;> exact ho he.symm
    · cases hld
  refine ⟨fun o row hr => ?_, fun o hr g => ?_⟩
  · rw [x.orders] at hr
    split at hr
    next hk =>
      cases hr
      subst hk
      refine ⟨hx.used, hx.earned, htp, fun hr g => ?_, fun hr g => ?_⟩
      · -- the order stays in revenue: no refund
        have hc : compensationRequired x.order.status target = false := by
          cases target <;> simp_all [compensationRequired, OrderStatus.isReversal,
            OrderStatus.isRevenue]
        rw [hmove, hc, if_neg (by simp), hx.revenue hrev]
        simp [movesOf, paidRows]
      · have hc : compensationRequired x.order.status target = true := by
          simp [compensationRequired, hrev]; exact hr
        rw [hmove, hc, if_pos rfl, hx.revenue hrev, movesOf_reversalDeltas, hx.flow hrev]
        rfl
    next hk => exact (h.order o row hr).congr (hother o hk) rfl
  · rw [x.orders] at hr
    split at hr
    · cases hr
    next hk => rw [hother o hk]; exact h.missing o hr g

theorem OrdersOK.commit (h : q.Commits (.free Shop) σ) (hp : OrdersOK σ.now) : OrdersOK σ.db := by
  cases q with
  | checkout => obtain ⟨x⟩ := h; exact x.ordersOK hp
  | updateOrderStatus => obtain ⟨_, -, ⟨x⟩⟩ := h; exact x.ordersOK hp
  | redeem u rewardId now =>
    refine OrdersOK.congr hp (h.only.get (t := ShopTbl.orders) (by simp [Req.writes])) fun o g => ?_
    obtain ⟨cost, -, hm⟩ := Redeemed.points h
    rw [hm.orderLedger, movesOf_other (by simp [LedgerDelta.redeem]), add_zero]
  | adjustPoints req now =>
    refine OrdersOK.congr hp (h.only.get (t := ShopTbl.orders) (by simp [Req.writes])) fun o g => ?_
    have hm : PointsMoved req.userId now [.adminAdjust req.delta] σ.now σ.db :=
      ⟨σ.now, σ.db, ⟨rfl, rfl⟩, ⟨σ.db, h, rfl⟩, rfl, rfl⟩
    rw [hm.orderLedger, movesOf_other (by simp [LedgerDelta.adminAdjust]), add_zero]
  | _ =>
    refine OrdersOK.congr hp (h.only.get (t := ShopTbl.orders) (by simp [Req.writes])) fun o g => ?_
    exact h.only.total (t := ShopTbl.pointLedger) (by simp [Req.writes]) _

/-- **Checkout and refund cancel exactly, once per order.** -/
theorem order_points (h0 : ∀ o, d.get .orders o = none) (hl : ∀ k r, d.get .pointLedger k = some r →
    r.orderId = none)
    (h : shop.Reachable (Sys.init d) s) {o : Uuid} {row : Order}
    (hr : s.db.get .orders o = some row) :
    (row.status.isRevenue = true → orderLedger o (fun _ δ => δ) s.db =
      row.pointsEarned - row.pointsUsed) ∧
    (row.status.isReversal = true → orderLedger o (fun _ δ => δ) s.db = 0) ∧
    s.db.count .pointLedger (fun _ r => r.orderId = some o ∧ r.reason = .refundRestore) ≤ 1 ∧
    s.db.count .pointLedger (fun _ r => r.orderId = some o ∧ r.reason = .refundClawback) ≤ 1 := by
  have hstart : OrdersOK d := by
    refine ⟨fun o row hr => ?_, fun o _ g => Store.total_eq_zero fun k r hk => ?_⟩
    · rw [h0] at hr; cases hr
    · rw [if_neg (by rw [hl k r hk]; simp)]
  have hok := (shop_inv hstart (fun _ _ _ hc hp => hp.commit hc) h).order o row hr
  have hcount : ∀ reason, (s.db.count .pointLedger (fun _ r => r.orderId = some o ∧
      r.reason = reason) : ℤ) =
      orderLedger o (fun r _ => if r = reason then 1 else 0) s.db := by
    intro reason
    rw [Store.count_eq_total]
    refine Store.total_ext fun k r _ => ?_
    by_cases ho : r.orderId = some o <;> simp [ho]
  have h1 := hok.used
  have h2 := hok.earned
  refine ⟨fun hrev => ?_, fun hrev => ?_, ?_, ?_⟩
  · rw [hok.revenue hrev]
    simp only [paidRows]
    split <;> split <;> omega
  · rw [hok.reversed hrev]
    simp only [paidRows, undoneRows]
    split <;> split <;> omega
  all_goals
    refine Int.ofNat_le.1 ?_
    rw [hcount]
    rcases Bool.eq_false_or_eq_true row.status.isRevenue with hrev | hrev
    · rw [hok.revenue hrev]
      simp [paidRows]
    · have hreversed : row.status.isReversal = true := by
        have := hok.placed
        cases hs : row.status <;> simp_all [OrderStatus.isRevenue, OrderStatus.isReversal]
      rw [hok.reversed hreversed]
      simp only [paidRows, undoneRows, reduceCtorEq, if_false, if_true, ite_self,
        add_zero, zero_add]
      split <;> decide

theorem order_points_sale :
    let s := shop.after sampleSale (.init sampleShop)
    (orderLedger 118 (fun _ δ => δ) s.db = 30) ∧
    s.db.count .pointLedger (fun _ r => r.orderId = some 118 ∧ r.reason = .refundRestore) ≤ 1 := by
  intro s
  have hr : s.db.get .orders 118 = some (paidOrder 1 ⟨60000, 0, none, 0, 60000,
      30⟩ "credit_card" 0) := by decide +kernel
  have h := order_points (d := sampleShop) (fun _ => rfl) (fun k r hr => by cases hr)
    (Service.reachable_after _) hr
  exact ⟨h.1 rfl, h.2.2.1⟩

/-! ## Failing refunds -/

theorem overdrawn_nil {b : ℤ} : ¬ Overdrawn b [] := by
  rintro ⟨pre, ld, suf, h, -⟩
  exact absurd h (by simp)

theorem overdrawn_cons {b : ℤ} : Overdrawn b (ld :: lds) ↔ b + ld.delta < 0 ∨
    Overdrawn (b + ld.delta) lds := by
  constructor
  · rintro ⟨pre, x, suf, h, hneg⟩
    cases pre with
    | nil => cases h; exact .inl (by simpa [moved] using hneg)
    | cons y pre =>
      cases h
      refine .inr ⟨pre, x, suf, rfl, ?_⟩
      simp only [moved, List.map_cons, List.sum_cons] at hneg ⊢
      omega
  · rintro (h | ⟨pre, x, suf, rfl, hneg⟩)
    · exact ⟨[], ld, lds, rfl, by simpa [moved] using h⟩
    · refine ⟨ld :: pre, x, suf, rfl, ?_⟩
      simp only [moved, List.map_cons, List.sum_cons] at hneg ⊢
      omega

/-- **What a reversal needs**: the earned points, out of the balance with the
redeemed ones restored. -/
theorem overdrawn_reversal {b : ℤ} {f : OrderPointsFlow} (hb : 0 ≤ b) (hr : 0 ≤ f.redeemed) :
    Overdrawn b (f.reversalDeltas o) ↔ b + f.redeemed < f.earned := by
  unfold OrderPointsFlow.reversalDeltas
  split <;> split <;>
    simp only [List.nil_append, List.append_nil, List.cons_append, overdrawn_cons, overdrawn_nil,
      or_false, false_iff,
      LedgerDelta.refundRestore, LedgerDelta.refundClawback]
  all_goals omega

variable {b₀ : Uuid → ℤ}

theorem PointsOK.redeemed_nonneg (h : PointsOK b₀ d) (o : Uuid) :
    0 ≤ (orderFlowSums d o).redeemed := by
  have hsum : 0 ≤ d.total .pointLedger fun _ r => -(if r.orderId = some o ∧
      r.reason = .checkoutRedeem then r.delta else 0) := by
    refine Store.total_nonneg fun k r hr => ?_
    split
    next hk =>
      have := h.signed k r hr
      rw [hk.2] at this
      simp only [PointReason.Signed] at this
      omega
    · omega
  have hneg : d.total .pointLedger (fun _ r => -(if r.orderId = some o ∧
      r.reason = .checkoutRedeem then r.delta else 0)) =
      -(d.total .pointLedger fun _ r => if r.orderId = some o ∧
        r.reason = .checkoutRedeem then r.delta else 0) := by
    have hadd := Store.total_add d .pointLedger
      (fun _ r => -(if r.orderId = some o ∧ r.reason = .checkoutRedeem then r.delta else 0))
      (fun _ r => if r.orderId = some o ∧ r.reason = .checkoutRedeem then r.delta else 0)
    simp only [neg_add_cancel] at hadd
    exact eq_neg_of_add_eq_zero_left (hadd.symm.trans (Store.total_eq_zero fun _ _ _ => rfl))
  rw [hneg] at hsum
  exact hsum

/-- A committed refund was covered. -/
theorem StatusChanged.covered {target : OrderStatus} {row : User}
    (x : StatusChanged id target now d d') (hp : PointsOK b₀ d)
    (hc : compensationRequired x.order.status target = true)
    (hu : d.get .users x.order.userId = some row) :
    ¬ row.pointsBalance + (orderFlowSums d id).redeemed < (orderFlowSums d id).earned := by
  obtain ⟨y⟩ := x.refund hc
  rw [← overdrawn_reversal (o := id) (hp.balance _ _ hu).2 (hp.redeemed_nonneg id)]
  exact applied_not_overdrawn y.points hu

/-- A refused one was not. -/
theorem Refused.short {target : OrderStatus} {order : Order} {row : User} (h : Refused id target d)
    (hp : PointsOK b₀ d)
    (ho : d.get .orders id = some order) (hu : d.get .users order.userId = some row) :
    row.pointsBalance + (orderFlowSums d id).redeemed < (orderFlowSums d id).earned := by
  obtain ⟨order', row', ho', -, hu', hover⟩ := h
  rw [ho] at ho'
  cases ho'
  rw [hu] at hu'
  cases hu'
  exact (overdrawn_reversal (hp.balance _ _ hu).2 (hp.redeemed_nonneg id)).1 hover

/-- What a status change has seen when it is answered: its own commit, or the order in the
status it was asked for. -/
theorem updateOrderStatus_seen {K : Passage Shop} {i : K.State} {status : String}
    {target : OrderStatus} {P : Prop}
    (ht : OrderStatus.fromStr status = some target) (hdone : ∀ i j, K.later i j → K.done j → P)
    (hsame : ∀ i j row, K.later i j → (K.store j).get .orders id = some row →
      row.status = target → P) :
    Shows K (fun _ _ _ => P) i [] (Req.updateOrderStatus id status now).prog := by
  refine Shows.bind (M := fun _ _ _ => P) ?_ fun _ _ _ h => h
  refine Shows.bind (M := fun _ ws t => ws = [] ∧ t = target)
    (Shows.orFail fun t h => ⟨rfl, ?_⟩) fun i ws t ⟨hws, h⟩ => ?_
  · rw [ht] at h
    exact (Option.some.inj h).symm
  subst hws h
  refine Shows.bind (M := fun _ _ _ => P) ?_ fun _ _ _ h => Shows.always h _
  refine (seen_handle _ _ _ _ _).2 (seen_mono (X := fun _ _ _ => True) (fun _ _ _ h => h)
    (fun _ _ _ _ => trivial) _ _ _ ?_)
  refine Shows.bind (M := fun i ws row => ws = [] ∧ ∀ r, row = some r → (∃ h, K.later h i) ∧
    (K.store i).get .orders id = some r)
    (Shows.selectFor (fun _ _ => ⟨rfl, fun _ h => by cases h⟩) fun j h _ hj => ⟨rfl,
      fun r hr => ⟨⟨h, hj⟩, ?_⟩⟩)
    fun i ws row ⟨hws, hrow⟩ => ?_
  · exact (Option.filter_eq_some_iff.1 hr).1
  subst hws
  refine Shows.bind (M := fun j ws r => j = i ∧ ws = [] ∧ row = some r)
    (Shows.orFail fun r h => ⟨rfl, rfl, h⟩)
    fun j ws current ⟨hj, hws, hr⟩ => ?_
  subst hj hws
  obtain ⟨⟨h, hlater⟩, horder⟩ := hrow current hr
  refine Shows.bind (M := fun _ ws r => decideTransition current.status t = .ok r)
    (Shows.checked fun r h => h)
    fun _ _ decision hdec => ?_
  cases decision with
  | noOp =>
    refine hsame h j current hlater horder ?_
    by_contra hne
    unfold decideTransition at hdec
    rw [if_neg hne] at hdec
    split at hdec
    · cases hdec
    · split at hdec <;> cases hdec
  | flip =>
    exact Shows.after fun _ _ _ => Shows.after fun _ _ _ => Shows.after fun _ _ _ =>
      Shows.after fun i _ _ j hj hd => hdone i j hj hd
  | flipAndCompensate =>
    exact Shows.after fun _ _ _ => Shows.after fun _ _ _ => Shows.after fun _ _ _ =>
      Shows.after fun i _ _ j hj hd => hdone i j hj hd

/-- **A failing refund changes nothing, and its points refusal is exact.** A status
change that has not committed has left the store alone at each of its events; one that
has failed, unless its connection broke after the commit, has not committed; one that
is answered has committed, or has found the order in that status already; and where
the transaction of a reversal ends, by its commit or by the refusal, it is refused
exactly when the balance with the redeemed points restored is short of the earned
ones. -/
theorem refund_exact {status : String} (hb : ∀ u row, d.get .users u = some row →
    0 ≤ row.pointsBalance)
    (hl : ∀ k r, d.get .pointLedger k = some r → r.reason.Signed r.delta)
    (h : shop.Reach ok (Sys.init d) s)
    (hc : s.call t = some c) (hq : c.req = .updateOrderStatus id status now) :
    (c.committed = false → shop.Reach (fun s e s' => ok s e s' ∧ (e.call = t → s'.db = s.db))
      (Sys.init d) s) ∧
    (∀ e, c.prog = .fail e → e ≠ .database .connection → c.committed = false) ∧
    (∀ a target, c.prog = .ret a → OrderStatus.fromStr status = some target → c.committed = true ∨
      ∃ s₁ order, shop.Reach ok (Sys.init d) s₁ ∧ shop.Reach ok s₁ s ∧
        s₁.db.get .orders id = some order ∧ order.status = target) ∧
    ∀ s' target order row, OrderStatus.fromStr status = some target →
      s.db.get .orders id = some order →
      compensationRequired order.status target = true → s.db.get .users order.userId = some row →
      CommitStep s t c s' ∨ RollbackStep s t c (some insufficientPoints) s' →
      (RollbackStep s t c (some insufficientPoints) s' ↔
        row.pointsBalance + (orderFlowSums s.db id).redeemed < (orderFlowSums s.db id).earned) := by
  have hs : s.OK (shopContract (.free Shop)) := shop_ok h
  have hp : PointsOK (fun u => ((d.get .users u).elim 0 User.pointsBalance) -
      ledgerSum u d) s.db := by
    refine pointsOK_reach ⟨fun u row hu => ?_, hl⟩ h
    rw [hu]
    exact ⟨by simp, hb u row hu⟩
  refine ⟨fun hf => reach_quiet h fun c' hc' => ?_, fun e he hne => ?_,
    fun a target ha ht => ?_, ?_⟩
  · rw [hc] at hc'
    cases hc'
    exact hf
  · obtain ⟨start, -, hfail⟩ := hs.fail hc he
    simp only [shopContract, hq, Req.Failed] at hfail
    exact hfail hne
  · obtain ⟨i, -, hseen⟩ := reach_seen (V := shop) (d := d)
      (P := fun q => q = .updateOrderStatus id status now)
      (R := fun _ _ _ => c.committed = true ∨ ∃ s₁ order, shop.Reach ok (Sys.init d) s₁ ∧
        shop.Reach ok s₁ s ∧
        s₁.db.get .orders id = some order ∧ order.status = target)
      (fun q i hi => by
        subst hi
        refine updateOrderStatus_seen ht (fun i j hj hd => .inl ?_) fun i j row hj hrow hst =>
          .inr ⟨j, row, hj.1, hj.2.2.1, hrow, hst⟩
        obtain ⟨c₁, hc₁, hcom⟩ := hd
        obtain ⟨c₂, hc₂, -, hkept⟩ := reach_call hj.2.2.1 hc₁
        rw [hc] at hc₂
        cases hc₂
        -- what had committed on the way has committed at the end
        exact hkept hcom) h hc hq
    rw [ha] at hseen
    exact hseen
  · rintro s' target order row htarget horder hcomp hrow hend
    have hshort : RollbackStep s t c (some insufficientPoints) s' →
        row.pointsBalance + (orderFlowSums s.db id).redeemed < (orderFlowSums s.db id).earned := by
      intro hr
      obtain ⟨start, -, hrolls⟩ := hs.rollback hr
      simp only [shopContract, Req.oblig, writing, hq, Req.Rolls] at hrolls
      obtain ⟨target', ht', href⟩ := hrolls _ rfl
      exact href.short hp horder hrow
    -- conversely a refund that is not covered does not commit
    refine ⟨hshort, fun hlt => hend.resolve_left fun hcom => ?_⟩
    obtain ⟨σ, hnow, hdb, -, -, -, hcommits⟩ := Sys.OK.commits rfl hs hcom
    rw [hq] at hcommits
    rw [← hnow] at horder hrow hp hlt
    obtain ⟨target', ht', ⟨x⟩⟩ := hcommits
    rw [htarget] at ht'
    cases ht'
    cases x.order_eq.symm.trans horder
    exact x.covered hp hcomp hrow hlt

/-- The sale; then all of its points but one are taken away; then its refund, up to the
end of its transaction. -/
def sampleRefusal : List (Event Req) :=
  sampleSale ++ .start 1 (.adjustPoints ⟨1, -29, 30⟩ 1) :: Event.steps 1 200 12 ++
    .start 2 (.updateOrderStatus 118 "refunded" 2) :: Event.steps 2 300 14

theorem refund_exact_refused :
    let s := shop.after sampleRefusal (.init sampleShop)
    ∃ c s', s.call 2 = some c ∧ RollbackStep s 2 c (some insufficientPoints) s' ∧
      c.committed = false ∧
      shop.Reach (fun s e s' => True ∧ (e.call = 2 → s'.db = s.db)) (Sys.init sampleShop) s := by
  intro s
  have hrun : ∀ y, y = s → ((y.call 2).map fun c =>
      (c.committed, c.prog.isCommit || c.prog.rollsBack == some (some insufficientPoints))) =
        some (false, true) ∧
      (y.db.get .users 1).map User.pointsBalance = some 1 ∧ (orderFlowSums y.db 118).redeemed = 0 ∧
      (orderFlowSums y.db 118).earned = 30 ∧
      (y.db.get .orders 118).map (fun r => (r.userId, r.status)) = some (1, .paid) := by
    rintro _ rfl
    decide +kernel
  obtain ⟨hcall, hrow, hredeemed, hearned, horder⟩ := hrun _ rfl
  obtain ⟨c, hc, hends⟩ := Option.map_eq_some_iff.1 hcall
  obtain ⟨hcom, hends⟩ := Prod.mk.inj hends
  obtain ⟨row, hrow, hbalance⟩ := Option.map_eq_some_iff.1 hrow
  obtain ⟨order, horder, hfields⟩ := Option.map_eq_some_iff.1 horder
  obtain ⟨hbuyer, hpaid⟩ := Prod.mk.inj hfields
  have hq : c.req = .updateOrderStatus 118 "refunded" 2 := by
    have h : (s.call 2).map (·.req) = some (.updateOrderStatus 118 "refunded" 2) := by rfl
    rw [hc] at h
    exact Option.some.inj h
  -- its transaction ends, one way or the other
  obtain ⟨s', hend⟩ : ∃ s', CommitStep s 2 c s' ∨
      RollbackStep s 2 c (some insufficientPoints) s' := by
    rcases Bool.or_eq_true_iff.1 hends with h | h
    · exact (exists_commitStep hc h).imp fun _ => .inl
    · obtain ⟨k, hk⟩ := rollsBack_eq_some.1 (beq_iff_eq.1 h)
      exact ⟨_, .inr ⟨hc, k, hk, rfl⟩⟩
  obtain ⟨hquiet, -, -, hexact⟩ := refund_exact (fun _ _ => Store.get_all (d := sampleShop)
    (t := ShopTbl.users)
    (P := fun _ row => 0 ≤ row.pointsBalance) (by decide)) (fun k r hr => by cases hr)
      (Service.reachable_after _) hc hq
  have hrefused := (hexact s' .refunded order row (by decide) horder (by rw [hpaid]; rfl)
    (by rw [hbuyer]; exact hrow) hend).2
    (by rw [hbalance, hredeemed, hearned]; decide)
  exact ⟨c, s', hc, hrefused, hcom, hquiet hcom⟩

end DreamFly
