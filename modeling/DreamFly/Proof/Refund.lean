import DreamFly.Proof.Checkout

/-!
# Status changes and refunds, proved

What a committed status change did (`StatusChanged`), with the compensation of a
refund as its stages (`Compensated`), and when one is refused for too few points
(`Refused`): exactly when some ledger move of the reversal overdraws the balance.
-/

namespace DreamFly

open Txn Prog

variable {C : Pt Shop → Prop} {B : Option AppError → Pt Shop → Prop} {σ : Pt Shop}
  {F : AppError → Prop} {u o id : Uuid} {now : Instant} {d d' : Db} {target : OrderStatus}

/-! ## Reversing the points -/

/-- The sum of some deltas. -/
def moved (lds : List LedgerDelta) : ℤ := (lds.map LedgerDelta.delta).sum

/-- Some move among `lds`, made in order from balance `b` on, would overdraw it. -/
def Overdrawn (b : ℤ) (lds : List LedgerDelta) : Prop :=
  ∃ pre ld suf, lds = pre ++ ld :: suf ∧ b + moved pre + ld.delta < 0

/-- A sum of the order's ledger rows is no BIGINT, or the balance is none after one of the
moves of the reversal. -/
def PointsOverflow (b : ℤ) (flow : OrderPointsFlow) (o : Uuid) : Prop :=
  flow.fits = false ∨ ∃ pre ld suf, flow.reversalDeltas o = pre ++ ld :: suf ∧
    fitsI64 (b + moved pre + ld.delta) = false

theorem Applied.balance {ld : LedgerDelta} (h : Applied u now ld d d') {row : User}
    (hr : d.get .users u = some row) :
    d'.get .users u = some (row.move ld.delta) ∧ 0 ≤ row.pointsBalance + ld.delta := by
  obtain ⟨row', id, -, hr', hpos, -, rfl⟩ := h
  rw [hr] at hr'
  cases hr'
  refine ⟨?_, hpos⟩
  rw [Store.get_apply_other _ (by simp [Write.tbl]), Store.get_mod, if_pos rfl, hr]
  rfl

theorem User.move_zero (row : User) : row.move 0 = row := by
  simp [User.move]

theorem User.move_move (row : User) (a b : ℤ) : (row.move a).move b = row.move (a + b) := by
  simp [User.move, add_assoc]

/-- The balance after some moves. -/
theorem applied_balance {lds : List LedgerDelta} (h : Chain (Applied u now) lds d d') {row : User}
    (hr : d.get .users u = some row) : d'.get .users u = some (row.move (moved lds)) := by
  induction lds generalizing d row with
  | nil => cases h; rw [hr]; simp [moved, User.move_zero]
  | cons ld lds ih =>
    obtain ⟨d₁, h1, h2⟩ := h
    rw [ih h2 (h1.balance hr).1, User.move_move]
    simp [moved]

/-- A balance that all moves went through was never overdrawn. -/
theorem applied_not_overdrawn {lds : List LedgerDelta} (h : Chain (Applied u now) lds d d')
    {row : User}
    (hr : d.get .users u = some row) : ¬ Overdrawn row.pointsBalance lds := by
  rintro ⟨pre, ld, suf, rfl, hneg⟩
  induction pre generalizing d row with
  | nil =>
    obtain ⟨d₁, h1, -⟩ := h
    have := (h1.balance hr).2
    simp only [moved, List.map_nil, List.sum_nil] at hneg
    omega
  | cons x pre ih =>
    obtain ⟨d₁, h1, h2⟩ := h
    refine ih (h1.balance hr).1 ?_ h2
    simp only [moved, List.map_cons, List.sum_cons] at hneg
    simp only [User.move, moved]
    omega

theorem reverseOrderTx_spec {lock : BalanceLock} {row : User}
    (ho : Holds σ.held (.row (S := Shop) .orders o) .noKeyUpdate)
    (hu : Holds σ.held (.row (S := Shop) .users lock.userId) .noKeyUpdate)
    (hr : σ.db.get .users lock.userId = some row) (hF : ∀ e, Routine e → F e)
    (hI : Overdrawn row.pointsBalance ((orderFlowSums σ.db o).reversalDeltas o) →
      F insufficientPoints)
    (hO : PointsOverflow row.pointsBalance (orderFlowSums σ.db o) o → F (.database .outOfRange)) :
    Does C B σ (reverseOrderTx lock o now) F fun _ σ' =>
      Chain (Applied lock.userId now) ((orderFlowSums σ.db o).reversalDeltas o) σ.db σ'.db := by
  refine Yields.bind (findOrderFlowSumsTx_spec ho fun hfit => hO (.inl hfit))
    fun flow σ₁ _ ⟨h₁, hf⟩ => ?_
  subst h₁
  subst hf
  set lds := (orderFlowSums σ₁.db o).reversalDeltas o with hlds
  have horder : ∀ ld ∈ lds, ld.orderId = some o := by
    intro ld hld
    simp only [hlds, OrderPointsFlow.reversalDeltas, List.mem_append] at hld
    rcases hld with hld | hld <;> split at hld <;> simp at hld <;> subst hld <;> rfl
  have hmap : ∀ {done : List LedgerDelta} {bs : List ℤ} {d : Db}, bs.length = done.length →
      Chain (fun x : LedgerDelta × ℤ => Applied lock.userId now x.1) (done.zip bs) σ₁.db d →
      Chain (Applied lock.userId now) done σ₁.db d := by
    intro done bs d hn hc
    have hm := hc.map Prod.fst
    rwa [List.map_fst_zip (by omega)] at hm
  refine Yields.bind (Yields.each (P := fun x => Applied lock.userId now x.1)
    fun done ld rest bs σ' he hn hl hc => ?_)
    fun bs σ₂ _ ⟨hn, hc⟩ => .pure (hmap hn hc)
  -- the balance before a move is what the moves so far have left
  refine applyDeltaTx_spec (hl.holds hu) (fun o' ho' => ?_) hF
    (fun row' hr' hneg => hI ⟨done, ld, rest, he, ?_⟩)
    fun row' hr' hfit => hO (.inr ⟨done, ld, rest, hlds ▸ he, ?_⟩)
  · rw [horder ld (by rw [he]; simp)] at ho'
    cases ho'
    exact hl.holds ho
  · rw [applied_balance (hmap hn hc) hr] at hr'
    cases hr'
    exact hneg
  · rw [applied_balance (hmap hn hc) hr] at hr'
    cases hr'
    exact hfit

/-! ## Compensation -/

/-- The stages of a compensation, from the store `d` it is decided on to `d'`. -/
structure Compensated (id u : Uuid) (now : Instant) (d d' : Db) where
  buyer : User
  lines : List (Uuid × ℤ)
  (reversed restocked vacated : Db)
  buyer_eq : d.get .users u = some buyer
  lines_perm : lines.Perm (tookStock id d)
  points : Chain (Applied u now) ((orderFlowSums d id).reversalDeltas id) d reversed
  stock : Chain Given lines reversed restocked
  seats : Cancelled restocked vacated
  subscriptions : Only (S := Shop) [.subscriptions] vacated d'
  unsubscribed : Edited (S := Shop) .subscriptions (cancelsWith id) Subscription.cancel vacated d'

namespace Compensated

variable (s : Compensated id u now d d')
include s

theorem points_only : Only (S := Shop) [.users, .pointLedger] d s.reversed :=
  s.points.only fun _ _ _ _ h => Applied.only h

theorem stock_only : Only (S := Shop) [.products] s.reversed s.restocked :=
    s.stock.only fun _ _ _ _ h => Given.only h

/-- The tables a compensation writes. -/
theorem only : Only (S := Shop) [.users, .pointLedger, .products, .enrolments, .leaveRequests,
    .subscriptions] d d' :=
  (s.points_only.mono (by simp)).trans <| (s.stock_only.mono (by simp)).trans <|
    (s.seats.only.mono (by simp)).trans (s.subscriptions.mono (by simp))

end Compensated

theorem Overfull.congr {lines lines' : List (Uuid × ℤ)} (h : Overfull lines d')
    (hl : lines.Perm lines')
    (hd : d' .products = d .products) : Overfull lines' d := by
  obtain ⟨pre, x, suf, row, n, hp, hr, hs, hfit⟩ := h
  refine ⟨pre, x, suf, row, n, hp.trans hl, ?_, hs, hfit⟩
  unfold Store.get at hr ⊢
  rw [← hd]
  exact hr

/-- **A compensation runs through all its stages**, or fails; it is refused for too
few points only if the reversal overdraws the balance, and for a number out of range only
if points or stock leave theirs. -/
theorem compensate_spec {order : Order}
    (ho : Holds σ.held (.row (S := Shop) .orders id) .noKeyUpdate)
    (hF : ∀ e, Routine e → F e)
    (hI : ∀ row, σ.db.get .users order.userId = some row →
      Overdrawn row.pointsBalance ((orderFlowSums σ.db id).reversalDeltas id) →
      F insufficientPoints)
    (hO : ∀ row, σ.db.get .users order.userId = some row →
      PointsOverflow row.pointsBalance (orderFlowSums σ.db id) id ∨
      Overfull (tookStock id σ.db) σ.db → F (.database .outOfRange)) :
    Does C B σ (compensateOrderArtifactsTx id order now) F fun _ σ' =>
      Nonempty (Compensated id order.userId now σ.db σ'.db) := by
  refine Yields.bind (R := fun locks σ' => σ'.db = σ.db ∧
    (∃ row, σ.db.get .users order.userId = some row ∧
      locks.balance = ⟨order.userId, row.pointsBalance⟩) ∧
      Holds σ'.held (.row (S := Shop) .users order.userId) .update ∧
      locks.restock.lines.Perm (tookStock id σ.db) ∧ locks.restock.locks.Good σ') ?_
    fun locks σ₁ hl₁ ⟨hd₁, ⟨buyer, hbuyer, hbal⟩, hu, hlines, hg⟩ => ?_
  · refine Yields.bind (lockBalanceTx_spec hF) fun lock σ₁ hl₁ ⟨row, hd₁, hr, hlock, hu⟩ => ?_
    refine Yields.bind (lockRestockForOrderTx_spec (hl₁.holds ho))
      fun restock σ₂ hl₂ ⟨hd₂, hp, hg⟩ =>
      .pure ⟨hd₂.trans hd₁, ⟨row, hr, hlock⟩, hl₂.holds hu, hd₁ ▸ hp, hg⟩
  have hb : locks.balance.userId = order.userId := by rw [hbal]
  have hbuyer₁ : σ₁.db.get .users locks.balance.userId = some buyer := by rw [hb, hd₁]; exact hbuyer
  refine Yields.bind (reverseOrderTx_spec (hl₁.holds ho) ((hb ▸ hu).weaken (by decide)) hbuyer₁ hF
    (fun h => hI buyer hbuyer (hd₁ ▸ h)) fun h => hO buyer hbuyer (.inl (hd₁ ▸ h)))
      fun _ σ₂ hl₂ hpoints => ?_
  have hproducts : σ₂.db .products = σ.db .products := by
    have honly : Only (S := Shop) [.users, .pointLedger] σ₁.db σ₂.db :=
      hpoints.only fun _ _ _ _ h => Applied.only h
    rw [honly _ (by simp), hd₁]
  refine Yields.bind (restoreForOrderTx_spec hF (fun h =>
    hO buyer hbuyer (.inr (h.congr hlines hproducts)))
    fun e he => hl₂.holds (hg e he).2) fun _ σ₃ _ ⟨lines, hperm, hstock⟩ => ?_
  refine Yields.bind cancelEnrolmentsByOrder_spec fun _ σ₄ _ hseats => ?_
  refine Yields.bind cancelSubscriptionsByOrder_spec fun _ σ₅ _ hsubs => .pure ⟨?_⟩
  rw [hb, hd₁] at hpoints
  exact
    { buyer := buyer, lines := lines, reversed := σ₂.db, restocked := σ₃.db, vacated := σ₄.db
      buyer_eq := hbuyer, lines_perm := hperm.trans hlines, points := hpoints, stock := hstock
      seats := hseats, subscriptions := hsubs.only, unsubscribed := hsubs }

/-! ## The whole call -/

/-- A committed status change of order `id`. -/
structure StatusChanged (id : Uuid) (target : OrderStatus) (now : Instant) (d d' : Db) where
  order : Order
  (undone flipped : Db)
  order_eq : d.get .orders id = some order
  allowed : order.status.canTransitionTo target = true
  refund : compensationRequired order.status target = true →
    Nonempty (Compensated id order.userId now d undone)
  plain : compensationRequired order.status target = false → undone = d
  flip : flipped = undone.apply (.mod .orders id fun o => { o with status := target })
  queued : Only (S := Shop) [.outbox] flipped d'

/-- Too few points for the refund of order `id`. -/
def Refused (id : Uuid) (target : OrderStatus) (d : Db) : Prop :=
  ∃ order row, d.get .orders id = some order ∧ compensationRequired order.status target = true ∧
    d.get .users order.userId = some row ∧
    Overdrawn row.pointsBalance ((orderFlowSums d id).reversalDeltas id)

/-- Points or stock leave their range in the refund of order `id`. -/
def OutOfRange (id : Uuid) (target : OrderStatus) (d : Db) : Prop :=
  ∃ order row, d.get .orders id = some order ∧ compensationRequired order.status target = true ∧
    d.get .users order.userId = some row ∧
    (PointsOverflow row.pointsBalance (orderFlowSums d id) id ∨ Overfull (tookStock id d) d)

theorem decideTransition_ok {current : OrderStatus} {decision : TransitionDecision}
    (h : decideTransition current target = .ok decision) (hn : decision ≠ .noOp) :
    current.canTransitionTo target = true ∧
      (decision = .flipAndCompensate ↔ compensationRequired current target = true) := by
  unfold decideTransition at h
  split at h
  · cases h; exact absurd rfl hn
  · split at h
    · cases h
    next hcan =>
      simp only [Bool.not_eq_true', Bool.not_eq_false] at hcan
      split at h
      next hc => cases h; exact ⟨hcan, by simp [hc]⟩
      next hc => cases h; exact ⟨hcan, by simp [hc]⟩

theorem decideTransition_error {current : OrderStatus} {e : AppError}
    (h : decideTransition current target = .error e) : Routine e := by
  unfold decideTransition at h
  split at h
  · cases h
  · split at h
    · cases h; exact ⟨fun _ => by simp, by simp⟩
    · split at h <;> cases h

/-- **The transaction of a status change.** -/
theorem updateOrderStatusTx_wp {Q : Order → Pt Shop → Prop} {X : AppError → Pt Shop → Prop}
    (hB : ∀ σ, B none σ) (hc : σ.committed = false) (hd : σ.db = σ.now)
    (hC : ∀ σ', σ'.committed = false → Nonempty (StatusChanged id target now σ'.now σ'.db) → C σ')
    (hQ : ∀ order σ', Q order σ')
    (hX : ∀ e σ', σ'.committed = false → (∀ m, e = .conflict m → Refused id target σ'.now) →
      (e = .database .outOfRange → OutOfRange id target σ'.now) → X e σ') :
    wp shopRules (writing C B) Q X (updateOrderStatusTx id target now) σ := by
  have hX' : ∀ {σ₁ : Pt Shop}, σ.Later σ₁ → ∀ e σ', σ₁.Later σ' → Routine e → X e σ' :=
    fun hl e σ' hl' he => hX e σ' ((hl.trans hl').committed.trans hc)
      (fun m h => absurd h (he.1 m)) fun h => absurd h he.2
  refine Yields.bind_wp (F := Routine) (Yields.selectFor (m := .update) (by decide) trivial)
    (fun r σ₁ hl₁ ⟨hd₁, hr⟩ => ?_) (hX' (.refl σ))
  refine Yields.bind_wp (F := Routine) (R := fun order σ' => r = some order ∧ σ' = σ₁)
    (Yields.orFail (fun _ h => ⟨h, rfl⟩) ⟨fun _ => by simp, by simp⟩)
      (fun order σ₂ _ ho₂ => ?_) (hX' hl₁)
  obtain ⟨hro, h₂⟩ := ho₂
  subst h₂
  obtain ⟨ho, horder, -⟩ := hr order hro
  refine Yields.bind_wp (F := Routine) (R := fun decision σ' =>
    decideTransition order.status target = .ok decision ∧ σ' = σ₂)
    (Yields.checked (fun _ h => ⟨h, rfl⟩) fun _ h => decideTransition_error h)
      (fun decision σ₃ _ hd₃ => ?_) (hX' hl₁)
  obtain ⟨hdec, h₃⟩ := hd₃
  subst h₃
  split
  · exact ⟨hB _, fun d _ => hQ _ _⟩
  next hnoop =>
  obtain ⟨hallowed, hcomp⟩ := decideTransition_ok hdec hnoop
  have horder' : σ₃.db.get .orders id = some order := by rw [hd₁]; exact horder
  -- the compensation, when the decision asks for one
  refine Yields.bind_wp (F := fun e => Routine e ∨
    (e = insufficientPoints ∧ Refused id target σ₃.db) ∨
      (e = .database .outOfRange ∧ OutOfRange id target σ₃.db))
    (R := fun _ σ' => (compensationRequired order.status target = true →
        Nonempty (Compensated id order.userId now σ₃.db σ'.db)) ∧
      (compensationRequired order.status target = false → σ'.db = σ₃.db)) ?_
        (fun _ σ₄ hl₄ h₄ => ?_) ?_
  · by_cases hfc : decision = .flipAndCompensate
    · rw [if_pos hfc]
      have hreq := hcomp.1 hfc
      exact (compensate_spec (ho.weaken (by decide)) (fun e h => .inl h)
        (fun row hrow hov => .inr (.inl ⟨rfl, order, row, horder', hreq, hrow, hov⟩))
        fun row hrow hov => .inr (.inr ⟨rfl, order, row, horder', hreq, hrow, hov⟩)).imp
        (fun _ _ _ h => ⟨fun _ => h, fun h' => absurd hreq (by simp [h'])⟩) fun _ h => h
    · rw [if_neg hfc]
      refine .pure ⟨fun h => absurd (hcomp.2 h) hfc, fun _ => rfl⟩
  · obtain ⟨hundo, hplain⟩ := h₄
    have hkeep : σ₄.db.get .orders id = some order := by
      cases hreq : compensationRequired order.status target with
      | true =>
        obtain ⟨s⟩ := hundo hreq
        rw [s.only.get (t := ShopTbl.orders) (by simp)]; exact horder'
      | false => rw [hplain hreq]; exact horder'
    refine Yields.bind_wp (F := Routine) (R := fun r σ' =>
      σ'.db = σ₄.db.apply (.mod .orders id fun o => { o with status := target }))
      (wp_updateRow_held ((hl₄.holds ho).weaken (by decide)) (fun h => ?_) fun row hr _ =>
        ⟨⟨?_, fun row => rfl⟩, σ₄.later_write _, rfl⟩)
      (fun r σ₅ hl₅ hd₅ => ?_) (hX' (hl₁.trans hl₄))
    · rw [hkeep] at h; exact absurd h (by simp)
    · exact (hl₄.holds ho).weaken (by decide)
    have hl₁₅ := (hl₁.trans hl₄).trans hl₅
    refine Yields.bind_wp (F := Routine) (R := fun _ σ' => σ' = σ₅)
      (Yields.orFail (fun _ _ => rfl) ⟨fun _ => by simp, by simp⟩)
      (fun updated σ₆ _ h₆ => ?_) (hX' hl₁₅)
    subst h₆
    refine Yields.bind_wp (F := Routine) (R := fun _ σ' => Only (S := Shop)
      [.outbox] σ₆.db σ'.db) ?_
      (fun _ σ₇ hl₇ hq => ?_) (hX' hl₁₅)
    · refine Yields.bind (Yields.insert fun n => ⟨holds_acquire _ _ _, trivial⟩)
        fun n σ₈ _ h => .pure ?_
      rw [h.2.2.2]
      exact Only.write (S := Shop) (w := .add .outbox n _) _ (by simp [Write.tbl])
    refine ⟨hC σ₇ ((hl₁₅.trans hl₇).committed.trans hc) ⟨?_⟩, fun d _ => hQ _ _⟩
    have hnow : σ₇.now = σ₃.db := by rw [(hl₁₅.trans hl₇).now, hd₁, hd]
    rw [hnow]
    exact
      { order := order, undone := σ₄.db, flipped := σ₆.db, order_eq := horder', allowed := hallowed
        refund := hundo, plain := hplain, flip := hd₅, queued := hq }
  · intro e σ' hl' he
    have hnow : σ'.now = σ₃.db := by rw [(hl₁.trans hl').now, ← hd, ← hd₁]
    rcases he with h | ⟨rfl, h⟩ | ⟨rfl, h⟩
    · exact hX' hl₁ e σ' hl' h
    · exact hX _ σ' ((hl₁.trans hl').committed.trans hc) (fun _ _ => hnow ▸ h) fun h => by cases h
    · exact hX _ σ' ((hl₁.trans hl').committed.trans hc) (fun _ h => by cases h) fun _ => hnow ▸ h

/-- **The contract of a status change.** An error leaves nothing committed; a 409
comes only with too few points. -/
theorem updateOrderStatus_wp {status : String} {born : Db} (hB : ∀ σ, B none σ)
    (hR : ∀ e σ', (∀ m, e = .conflict m → ∃ target, OrderStatus.fromStr status = some target ∧
      Refused id target σ'.now) →
      (e = .database .outOfRange → ∃ target, OrderStatus.fromStr status = some target ∧
        OutOfRange id target σ'.now) →
      B (some e) σ')
    (hC : ∀ σ', σ'.committed = false → (∃ target, OrderStatus.fromStr status = some target ∧
      Nonempty (StatusChanged id target now σ'.now σ'.db)) → C σ') :
    wp shopRules (writing C B) (fun _ _ => True) (fun _ σ' => σ'.committed = false)
      (updateOrderStatus id status now) (.begin born d false) := by
  refine Yields.bind_wp (F := fun _ => True) (R := fun target σ' => OrderStatus.fromStr status =
    some target ∧ σ' = Pt.begin born d false)
    (Yields.orFail (fun _ h => ⟨h, rfl⟩) trivial) (fun target σ₁ _ ⟨ht, h₁⟩ => ?_) fun _ _ hl _ =>
      hl.committed
  subst h₁
  rw [wp_bind, orRollback, wp_handle]
  refine updateOrderStatusTx_wp hB rfl rfl (fun σ' hc h => hC σ' hc ⟨target, ht, h⟩)
    (fun order σ₂ => ?_)
    fun e σ' hc h h' => ⟨hR e σ' (fun m hm => ⟨target, ht, h m hm⟩) fun he => ⟨target, ht, h' he⟩,
      fun d' _ => hc⟩
  exact assembleResponse_spec.wp (fun _ _ _ _ => trivial) fun _ _ _ h => h.elim

end DreamFly
