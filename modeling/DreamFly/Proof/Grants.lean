import DreamFly.Txn.Confined
import DreamFly.Proof.Desk

/-!
# What an order grants and tells

The contract of the shop says what a checkout and a status change do to money, stock and
seats. This one is about the rows that name the order: the subscriptions it grants, the
enrolments and subscriptions that its reversal takes back, and the event that each change
of the order queues.

* `Issued`: what a committed checkout leaves; `Announced`: what a status change leaves.
* `Grown`: what the runs respect: the grants of an order come with the order.
-/

namespace DreamFly

open Txn Prog

variable {C : Pt Shop → Prop} {B : Option AppError → Pt Shop → Prop} {σ : Pt Shop} {u o id : Uuid}
  {now : Instant}
  {d d' d'' : Db} {K : Rely Shop} {q : DeskReq} {key : Option IdempotencyKey} {target : OrderStatus}

/-! ## Which tables the pieces write -/

section confined

theorem lockBalanceTx_confined : (lockBalanceTx u).Confined (S := Shop) [] :=
  Confined.selectFor.bind fun _ => Confined.orFail.bind fun _ => .ret _

theorem lockRestock_confined : (lockRestockForOrderTx o).Confined (S := Shop) [] :=
  Confined.read.bind fun _ => Confined.selectAllFor.bind fun _ => .ret _

theorem acquireRefundLocks_confined {order : Order} :
    (acquireRefundLocks o order).Confined (S := Shop) [] :=
  lockBalanceTx_confined.bind fun _ => lockRestock_confined.bind fun _ => .ret _

theorem applyDeltaTx_confined {lock : BalanceLock} {ld : LedgerDelta} :
    (applyDeltaTx lock ld now).Confined (S := Shop) [.users, .pointLedger] := by
  refine Confined.ensure.bind fun _ => Confined.bind ?_ fun _ => Confined.checked.bind fun _ =>
    Confined.bind ?_ fun _ => .ret _
  · refine Confined.selectFor.bind fun r => ?_
    cases r with
    | none => trivial
    | some r =>
      dsimp only
      split
      · trivial
      · split
        · trivial
        · exact (Confined.put (by simp [Write.tbl])).bind fun _ => .ret _
  · refine Confined.bind ?_ fun _ => Confined.references.bind fun _ => Confined.bind ?_ fun _ =>
      (Confined.insert (by simp)).bind fun _ => .ret _
    · unfold claimRefund
      split
      · refine Confined.claim.bind fun b => ?_
        cases b with
        | false => trivial
        | true => trivial
      · trivial
    · unfold ledgerOrderRef
      split
      · trivial
      · exact Confined.references

theorem reserveStockTx_confined {locks : ProductLocks} {lines : List ReserveLine} :
    (reserveStockTx locks lines).Confined (S := Shop) [.products] :=
  Confined.checked.bind fun _ => Confined.checked.bind fun _ => Confined.each fun _ _ =>
    (Confined.updateRow (by simp)).bind fun _ => Confined.orFail.bind fun _ => .ret _

theorem restoreForOrderTx_confined {restock : RestockLocks} :
    (restoreForOrderTx restock).Confined (S := Shop) [.products] := by
  refine Confined.checked.bind fun _ => (Confined.each fun line _ =>
    Confined.bind ?_ fun _ => Confined.orFail.bind fun _ => .ret _).bind
    fun _ => .ret _
  refine Confined.selectFor.bind fun r => ?_
  cases r with
  | none => trivial
  | some r =>
    exact Confined.ensure.bind fun _ => (Confined.put (by simp [Write.tbl])).bind fun _ => .ret _

theorem reverseOrderTx_confined {lock : BalanceLock} :
    (reverseOrderTx lock o now).Confined (S := Shop) [.users, .pointLedger] :=
  (Confined.read.bind fun _ => Confined.ensure.bind fun _ => .ret _).bind fun _ =>
    (Confined.each fun _ _ => applyDeltaTx_confined).bind fun _ => .ret _

theorem enrolBatch_confined {locks : CourseLocks} {buyer : BalanceLock} {courseIds : List Uuid} :
    (enrolBatchFromPurchaseTx locks buyer courseIds o now).Confined (S := Shop) [.enrolments] := by
  refine Confined.checked.bind fun _ => Confined.each fun c _ => Confined.bind ?_ fun _ =>
    Confined.orFail.bind fun _ =>
    Confined.ensure.bind fun _ => Confined.read.bind fun _ => Confined.ensure.bind fun _ =>
      Confined.claim.bind fun b => ?_
  · unfold courseSeatsTx
    split
    · trivial
    · refine Confined.read.bind fun r => ?_
      cases r with
      | none => trivial
      | some r => exact Confined.read.bind fun _ => .ret _
  · cases b with
    | true => trivial
    | false =>
      exact Confined.references.bind fun _ => Confined.references.bind fun _ =>
        Confined.references.bind fun _ => Confined.insert (by simp)

theorem cancelPending_confined {ids : List Uuid} :
    (cancelPendingForEnrolmentsTx ids).Confined (S := Shop) [.leaveRequests] :=
  (Confined.updateAll (by simp)).bind fun _ => .ret _

theorem clearCartTx_confined : (clearCartTx u).Confined (S := Shop) [.cartItems] :=
  (Confined.deleteAll (by simp)).bind fun _ => .ret _

end confined

/-- A specification of the shop, without its locks. -/
theorem Does.loosely {α : Type} {p : Tx α} {F : AppError → Prop} {R : α → Pt Shop → Prop}
    (h : Does C B σ p F R) :
    Loosely (shopRules.under K) C σ p R := by
  refine Yields.under (fun _ _ _ => trivial) (Yields.loosely h ?_)
  exact fun _ h => h

theorem findCartItems_loosely : Loosely (shopRules.under K) C σ (findCartItemsForCheckoutTx u)
    fun _ σ' => σ.Wrote [] σ' :=
  Confined.loosely <| (Confined.read.bind fun _ => (Confined.lockEach _).bind
    fun _ => .ret _).bind fun _ =>
    (Confined.read.bind fun _ => (Confined.lockEach _).bind fun _ => .ret _).bind fun _ => .ret _

theorem loadCoupon_confined {code : Option String} :
    (loadCoupon code now).Confined (S := Shop) [] := by
  unfold loadCoupon
  split
  · exact .ret _
  · exact Confined.read.bind fun _ => Confined.orFail.bind fun _ => .ret _

/-! ## Events -/

/-- The order an event is about. -/
def DomainEvent.orderId : DomainEvent → Uuid
  | .orderCreated o _ _ _ _ _ _ | .orderStatusChanged o _ _ => o

/-- The outbox has one event more. -/
def Told (ev : DomainEvent) (d d' : Db) : Prop :=
  ∃ n, d.get .outbox n = none ∧ d' .outbox = d.apply (.add .outbox n ev) .outbox

theorem insertDomainEventTx_told {ev : DomainEvent} :
    Loosely (shopRules.under K) C σ (insertDomainEventTx ev) fun _ σ' => Told ev σ.db σ'.db ∧
    Only (S := Shop) [.outbox] σ.db σ'.db := by
  refine Yields.bind (Yields.insert fun _ => trivial) fun n σ₁ _ ⟨_, hn, _, h₁⟩ => .pure ?_
  rw [h₁]
  exact ⟨⟨n, hn, rfl⟩, Only.write (S := Shop) (w := .add .outbox n _) _ (by simp [Write.tbl])⟩

/-! ## Granting -/

/-- Subscriptions came with order `o` of user `u`, for the products `ps`; the others stay. -/
structure GrantedWith (u o : Uuid) (ps : List Uuid) (d d' : Db) : Prop where
  only : Only (S := Shop) [.subscriptions] d d'
  row : ∀ k, d'.get .subscriptions k = d.get .subscriptions k ∨ (d.get .subscriptions k = none ∧
    ∃ s, d'.get .subscriptions k = some s ∧ s.userId = u ∧ s.orderId = some o ∧ s.productId ∈ ps)

theorem GrantedWith.trans {ps : List Uuid} (h : GrantedWith u o ps d d')
    (h' : GrantedWith u o ps d' d'') : GrantedWith u o ps d d'' where
  only := h.only.trans h'.only
  row k := by
    rcases h'.row k with hsame | ⟨hnone, hs⟩
    · rw [hsame]
      exact h.row k
    · rcases h.row k with hsame | ⟨hnone', -⟩
      · exact .inr ⟨hsame ▸ hnone, hs⟩
      · exact .inr ⟨hnone', hs⟩

theorem grantLine_with {buyer : BalanceLock} {reserved : Reserved} {p : ProductFulfilment}
    {ps : List Uuid} (hp : p.productId ∈ ps) :
    Loosely (shopRules.under K) C σ (grantLine buyer reserved o now p) fun _ σ' =>
      GrantedWith buyer.userId o ps σ.db σ'.db := by
  refine Yields.bind (R := fun _ σ' => σ' = σ) (Yields.orFail (fun _ _ => rfl) trivial)
    fun product σ₁ _ h₁ => ?_
  subst h₁
  refine Yields.bind (R := fun _ σ' => GrantedWith buyer.userId o ps σ₁.db σ'.db) ?_
    fun _ _ _ h => .pure h
  unfold grantFromPurchaseTx
  split
  · exact .pure ⟨.refl _ _, fun _ => .inl rfl⟩
  next grant _ =>
  refine Yields.bind (Yields.references trivial trivial) fun _ σ₂ _ h₂ => ?_
  refine Yields.bind (Yields.references trivial trivial) fun _ σ₃ _ h₃ => ?_
  refine Yields.bind (Yields.references trivial trivial) fun _ σ₄ _ h₄ => ?_
  refine Yields.bind (R := fun _ σ' => σ' = σ₄) (Yields.ensure (fun _ => rfl) trivial)
    fun _ σ₅ _ h₅ => ?_
  have hd : σ₅.db = σ₁.db := by rw [h₅, h₄, Pt.grant_db, h₃, Pt.grant_db, h₂]; rfl
  refine Yields.bind (Yields.insert fun _ => trivial) fun n σ₆ _ ⟨_, hn, _, h₆⟩ => .pure ?_
  rw [hd] at hn
  rw [h₆, Pt.write_db, Pt.grant_db, hd]
  refine ⟨Only.write (S := Shop) (w := .add .subscriptions n _) _ (by simp [Write.tbl]),
    fun k => ?_⟩
  rw [Store.get_add, hn]
  split
  · next hk =>
    subst hk
    exact .inr ⟨hn, _, rfl, rfl, rfl, hp⟩
  · exact .inl rfl

/-- Each line has become a line of the order. -/
theorem Lined.all {lines : List OrderLine} (h : Chain (Lined o now) lines d d') :
    ∀ line ∈ lines, ∃ i item, d'.get .orderItems i = some item ∧ item.orderId = o ∧
      item.target = line.target := by
  have hkeep : ∀ {lines : List OrderLine} {d d' : Db}, Chain (Lined o now) lines d d' → ∀ i item,
      d.get .orderItems i = some item → d'.get .orderItems i = some item := by
    intro lines d d' h i item hi
    refine h.inv (I := fun d : Db => d.get .orderItems i = some item)
      (fun _ _ a b ⟨k, hk, _, hb⟩ ha => ?_) hi
    rw [hb, Store.get_add]
    split
    · next he => subst he; rw [hk] at ha; cases ha
    · exact ha
  induction lines generalizing d with
  | nil => exact fun _ h => (nomatch h)
  | cons x lines ih =>
    obtain ⟨d₁, ⟨k, hk, -, hd₁⟩, hrest⟩ := h
    intro line hline
    rcases List.mem_cons.1 hline with rfl | hline
    · refine ⟨k, line.item o now, hkeep hrest k _ ?_, rfl, rfl⟩
      rw [hd₁, Store.get_add, if_pos rfl, hk]
      rfl
    · exact ih hrest line hline

/-- A product to fulfil is in the cart. -/
theorem plan_target {cart : List CheckoutLine} {p : ProductFulfilment}
    (h : p ∈ (fulfilmentPlan cart).products) (reserved : Reserved) :
    ∃ line ∈ orderLines cart reserved, line.target = .product p.productId := by
  obtain ⟨line, hline, hp⟩ := List.mem_filterMap.1 h
  refine ⟨orderLine reserved line, List.mem_map.2 ⟨line, hline, rfl⟩, ?_⟩
  unfold CheckoutLine.productLine at hp
  split at hp
  next ht => cases hp; exact ht
  · cases hp

/-! ## Checkout -/

/-- What a committed checkout of user `u` has left under the name of order `o`. -/
structure Issued (u o : Uuid) (d d' : Db) : Prop where
  fresh : d.get .orders o = none
  order : ∃ row, d'.get .orders o = some row ∧ Told (orderCreated o row) d d'
  subscriptions : ∀ k, d'.get .subscriptions k = d.get .subscriptions k ∨
    (d.get .subscriptions k = none ∧
    ∃ s, d'.get .subscriptions k = some s ∧ s.userId = u ∧ s.orderId = some o ∧
      ∃ i item, d'.get .orderItems i = some item ∧ item.orderId = o ∧
        item.target = .product s.productId)

/-- The same before the event is queued. -/
structure Stocked (u o : Uuid) (order : Order) (d d' : Db) : Prop where
  fresh : d.get .orders o = none
  order : d'.get .orders o = some order
  outbox : d' .outbox = d .outbox
  subscriptions : ∀ k, d'.get .subscriptions k = d.get .subscriptions k ∨
    (d.get .subscriptions k = none ∧
    ∃ s, d'.get .subscriptions k = some s ∧ s.userId = u ∧ s.orderId = some o ∧
      ∃ i item, d'.get .orderItems i = some item ∧ item.orderId = o ∧
        item.target = .product s.productId)

theorem fulfil_stocked {locks : CheckoutLocks} {intent : CheckoutIntent} {cart : List CheckoutLine}
    {outcome : PricingOutcome}
    (hu : locks.balance.userId = u) :
    Loosely (shopRules.under K) C σ (fulfil locks intent cart outcome now) fun x σ' =>
      Stocked u x.1 x.2 σ.db σ'.db := by
  subst hu
  refine Yields.bind reserveStockTx_confined.loosely fun reserved σ₁ _ h₁ => ?_
  refine Yields.bind (Does.loosely (B := fun _ _ => True) createOrder_spec)
    fun o σ₂ _ ⟨_, hfresh, hd₂, ho⟩ => ?_
  refine Yields.bind (R := fun _ σ' => Chain (Lined o now) (orderLines cart reserved) σ₂.db σ'.db)
    (Does.loosely (B := fun _ _ => True)
      (Yields.bind (Yields.each_unit fun line _ σ' hl => createOrderItem_spec (hl.holds ho))
      fun _ _ _ h => .pure h)) fun _ σ₃ _ hitems => ?_
  refine Yields.bind (Confined.each fun _ _ => applyDeltaTx_confined).loosely fun _ σ₄ _ h₄ => ?_
  refine Yields.bind enrolBatch_confined.loosely fun _ σ₅ _ h₅ => ?_
  refine Yields.bind (Yields.each_unit (P := fun _ => GrantedWith locks.balance.userId o
    ((fulfilmentPlan cart).products.map ProductFulfilment.productId)) fun p hp σ' _ =>
      grantLine_with (List.mem_map.2 ⟨p, hp, rfl⟩)) fun _ σ₆ _ hchain => ?_
  refine Yields.bind clearCartTx_confined.loosely fun _ σ₇ _ h₇ => .pure ?_
  -- a grant adds rows for lines of the order and changes none
  have hgrants := hchain.inv (I := GrantedWith locks.balance.userId o _ σ₅.db)
    (fun _ _ _ _ h hI => hI.trans h)
    ⟨.refl _ _, fun _ => .inl rfl⟩
  have hitems_only : Only (S := Shop) [.orderItems] σ₂.db σ₃.db := hitems.only fun _ _ _ _ h =>
    Lined.only h
  have hplaced : Only (S := Shop) [.products, .orders] σ.db σ₂.db := by
    refine (h₁.only.mono (by simp)).trans ?_
    rw [hd₂]
    exact Only.write (S := Shop) (w := .add .orders o _) _ (by simp [Write.tbl])
  have hlate : Only (S := Shop) [.users, .pointLedger, .enrolments] σ₃.db σ₅.db :=
    (h₄.only.mono (by simp)).trans (h₅.only.mono (by simp))
  have hsubs : ∀ k, σ₅.db.get .subscriptions k = σ.db.get .subscriptions k := fun k => by
    rw [hlate.get (t := ShopTbl.subscriptions) (by simp),
      hitems_only.get (t := ShopTbl.subscriptions) (by simp),
      hplaced.get (t := ShopTbl.subscriptions) (by simp)]
  refine ⟨?_, ?_, ?_, fun k => ?_⟩
  · rw [← h₁.only.get (t := ShopTbl.orders) (by simp)]
    exact hfresh
  · rw [h₇.only.get (t := ShopTbl.orders) (by simp), hgrants.only.get (t := ShopTbl.orders)
      (by simp),
      hlate.get (t := ShopTbl.orders) (by simp), hitems_only.get (t := ShopTbl.orders) (by simp),
      hd₂, Store.get_add, if_pos rfl, hfresh]
    rfl
  · rw [h₇.only _ (by simp), hgrants.only _ (by simp), hlate _ (by simp), hitems_only _ (by simp),
      hplaced _ (by simp)]
  · rw [h₇.only.get (t := ShopTbl.subscriptions) (by simp)]
    rcases hgrants.row k with hsame | ⟨hnone, s, hs, huser, horder, hin⟩
    · rw [hsame, hsubs]
      exact .inl rfl
    · obtain ⟨p, hp, hid⟩ := List.mem_map.1 hin
      obtain ⟨line, hline, ht⟩ := plan_target hp reserved
      obtain ⟨i, item, hi, hio, hit⟩ := Lined.all hitems line hline
      refine .inr ⟨hsubs k ▸ hnone, s, hs, huser, horder, i, item, ?_, hio, ?_⟩
      · rw [h₇.only.get (t := ShopTbl.orderItems) (by simp),
          hgrants.only.get (t := ShopTbl.orderItems) (by simp),
          hlate.get (t := ShopTbl.orderItems) (by simp)]
        exact hi
      · rw [hit, ht, hid]

/-- What stays so where other tables are written. -/
theorem Stocked.only {order : Order} {T : List ShopTbl} (h : Stocked u o order d d')
    (ho : Only (S := Shop) T d' d'')
    (hts : ∀ t ∈ [ShopTbl.orders, .outbox, .subscriptions, .orderItems], t ∉ T) :
      Stocked u o order d d'' where
  fresh := h.fresh
  order := by rw [ho.get (t := ShopTbl.orders) (hts _ (by simp))]; exact h.order
  outbox := by rw [ho _ (hts _ (by simp))]; exact h.outbox
  subscriptions k := by
    rw [ho.get (t := ShopTbl.subscriptions) (hts _ (by simp))]
    rcases h.subscriptions k with hsame | ⟨hnone, s, hs, hu, hos, i, item, hi, hrest⟩
    · exact .inl hsame
    · refine .inr ⟨hnone, s, hs, hu, hos, i, item, ?_, hrest⟩
      rw [ho.get (t := ShopTbl.orderItems) (hts _ (by simp))]
      exact hi

theorem Stocked.issued {order : Order} (h : Stocked u o order d d')
    (ht : Told (orderCreated o order) d' d'')
    (ho : Only (S := Shop) [.outbox] d' d'') : Issued u o d d'' where
  fresh := h.fresh
  order := by
    obtain ⟨n, hn, hout⟩ := ht
    refine ⟨order, ?_, n, ?_, ?_⟩
    · rw [ho.get (t := ShopTbl.orders) (by simp)]; exact h.order
    · unfold Store.get at hn ⊢
      rw [← h.outbox]
      exact hn
    · rw [hout, Store.apply_add, Store.apply_add, h.outbox]
  subscriptions k := by
    rw [ho.get (t := ShopTbl.subscriptions) (by simp)]
    rcases h.subscriptions k with hsame | ⟨hnone, s, hs, hu, hos, i, item, hi, hrest⟩
    · exact .inl hsame
    · refine .inr ⟨hnone, s, hs, hu, hos, i, item, ?_, hrest⟩
      rw [ho.get (t := ShopTbl.orderItems) (by simp)]
      exact hi

/-- Reading an answer commits nothing. -/
theorem replayByKey_loosely {k : IdempotencyKey} :
    Loosely (shopRules.under K) C σ (replayByKey u k) fun _ _ => True :=
  Does.loosely (B := fun _ _ => True) (replayByKey_spec.imp (fun _ _ _ _ => trivial) fun _ h => h)

theorem assembleResponse_loosely {order : Order} :
    Loosely (shopRules.under K) C σ (assembleResponse o order) fun _ _ => True :=
  Does.loosely (B := fun _ _ => True)
    (assembleResponse_spec.imp (fun _ _ _ _ => trivial) fun _ h => h)

/-- Nothing is asked of the end. -/
abbrev Ends {α : Type} (K : Rely Shop) (C : Pt Shop → Prop) (p : Tx α) (σ : Pt Shop) : Prop :=
  wp (shopRules.under K) (loosely C) (fun _ _ => True) (fun _ _ => True) p σ

theorem Ends.of {α : Type} {p : Tx α} {R : α → Pt Shop → Prop}
    (h : Loosely (shopRules.under K) C σ p R) : Ends K C p σ :=
  h.wp (fun _ _ _ _ => trivial) fun _ _ _ _ => trivial

theorem Ends.bind {α β : Type} {p : Tx α} {k : α → Tx β} {R : α → Pt Shop → Prop}
    (h : Loosely (shopRules.under K) C σ p R)
    (hk : ∀ a σ', σ.Later σ' → R a σ' → Ends K C (k a) σ') : Ends K C (p >>= k) σ :=
  h.bind_wp hk fun _ _ _ _ => trivial

theorem Ends.dropped {α : Type} {p : Tx α} (h : Ends K C p σ) : Ends K C (orRollback p) σ := by
  refine (wp_handle _ _ p σ).2 (wp_mono (fun _ _ _ => trivial) (fun _ _ _ => ?_) p σ h)
  exact ⟨trivial, fun _ _ => trivial⟩

theorem replayOr_ends {buyer : BalanceLock} {e : AppError} : Ends K C (replayOr buyer key e) σ := by
  refine ⟨trivial, fun d hd => ?_⟩
  cases key with
  | none => trivial
  | some k =>
    exact Ends.bind replayByKey_loosely fun r σ' _ _ => Ends.of (R := fun _ _ => True)
      (Yields.orFail (fun _ _ => trivial) trivial)

/-- **The transaction of a checkout** issues what it commits. -/
theorem checkoutTx_ends {intent : CheckoutIntent} (hd : σ.db = σ.now)
    (hC : ∀ σ' o, Issued u o σ'.now σ'.db → C σ') :
    Ends K C (checkoutTx u key intent now) σ := by
  refine Ends.bind (R := fun locks σ' => locks.balance.userId = u ∧
    σ'.db = σ.db) ?_ fun locks σ₁ hl₁ ⟨hu, hd₁⟩ => ?_
  · refine Does.loosely (B := fun _ _ => True)
      (acquireCheckoutLocks_spec.imp (fun locks σ' _ ⟨hd, _, ⟨row, _, hb⟩, _⟩ => ?_) fun _ h => h)
    exact ⟨by rw [hb], hd⟩
  refine Ends.bind findCartItems_loosely fun cartItems σ₂ hl₂ h₂ => ?_
  split
  · exact (wp_bind ..).2 (wp_mono (fun _ _ _ => trivial)
      (fun _ _ _ => trivial) _ _ (replayOr_ends (K := K) (C := C)))
  refine Ends.bind (Confined.checked (T := [])).loosely fun cart σ₃ hl₃ h₃ => ?_
  refine Ends.bind loadCoupon_confined.loosely fun coupon σ₄ hl₄ h₄ => ?_
  refine Ends.bind (Confined.checked (T := [])).loosely fun outcome σ₅ hl₅ h₅ => ?_
  have hl := ((hl₁.trans hl₂).trans hl₃).trans (hl₄.trans hl₅)
  have hd₅ : σ₅.db = σ.now := by
    have hsame : Only (S := Shop) [] σ₁.db σ₅.db :=
      (h₂.only.trans h₃.only).trans (h₄.only.trans h₅.only)
    rw [← hd, ← hd₁]
    exact funext fun t => hsame t (by simp)
  refine Ends.bind (fulfil_stocked hu) fun x σ₆ hl₆ h₆ => ?_
  obtain ⟨o, order⟩ := x
  simp only at h₆ ⊢
  rw [hd₅] at h₆
  -- the key, and then the event
  refine (wp_bind ..).2 ?_
  have hrecorded : ∀ σ₇, σ₆.Later σ₇ → Stocked u o order σ.now σ₇.db →
      Ends K C (insertDomainEventTx (orderCreated o order) >>= fun _ => .commit
        (pure (Sale.sold o order))) σ₇ := by
    intro σ₇ hl₇ h₇
    refine Ends.bind insertDomainEventTx_told fun _ σ₈ hl₈ ⟨ht, ho⟩ =>
      ⟨hC σ₈ o ?_, fun _ _ => trivial⟩
    rw [((hl.trans hl₆).trans (hl₇.trans hl₈)).now]
    exact h₇.issued ht ho
  unfold record
  split
  · exact hrecorded σ₆ (.refl _) h₆
  · next k =>
    refine (wp_bind ..).2 ?_
    refine Yields.wp (F := fun _ => True) (R := fun _ σ' => Only (S := Shop)
      [.orderIdempotency] σ₆.db σ'.db) ?_ (fun taken σ₇ hl₇ h₇ => ?_)
      fun _ _ _ _ => trivial
    · refine (Confined.loosely ?_).imp (fun _ _ _ h => h.only) fun _ h => h
      refine Confined.claim.bind fun b => ?_
      cases b with
      | true => exact .ret _
      | false =>
        exact Confined.references.bind fun _ => Confined.references.bind fun _ =>
          (Confined.put (by simp [Write.tbl])).bind fun _ => .ret _
    · cases taken with
      | false => exact hrecorded σ₇ hl₇ (h₆.only h₇ (by simp))
      | true =>
        refine ⟨trivial, fun d hd => ?_⟩
        refine (wp_bind ..).2 (replayByKey_loosely.wp (fun r σ' _ _ => ?_) fun _ _ _ _ => trivial)
        refine (wp_bind ..).2 (wp_orFail (fun _ _ => ?_) fun _ => trivial)
        trivial

theorem checkout_ends {req : CheckoutRequest} {born : Db}
    (hC : ∀ σ' o, Issued u o σ'.now σ'.db → C σ') :
    Ends K C (checkout u key req now) (.begin born d false) := by
  refine Ends.bind (R := fun _ σ' => σ' = Pt.begin born d false) ?_ fun r σ₁ _ h₁ => ?_
  · cases key with
    | none => exact .pure rfl
    | some k =>
      exact Does.loosely (B := fun _ _ => True)
        (replayByKey_spec.imp (fun _ _ _ h => h.1) fun _ h => h)
  subst h₁
  cases r with
  | some x => trivial
  | none =>
    refine Ends.bind (R := fun _ σ' => σ' = Pt.begin born d false)
      (Does.loosely (B := fun _ _ => True) (F := fun _ => True)
      (Yields.checked (fun _ _ => rfl) fun _ _ => trivial)) fun intent σ₂ _ h₂ => ?_
    subst h₂
    refine (wp_bind ..).2 (wp_mono (fun sale σ₃ _ => ?_)
      (fun _ _ h => h) _ _ (checkoutTx_ends (K := K) rfl hC).dropped)
    cases sale with
    | replayed r => trivial
    | sold o order => exact Ends.of assembleResponse_loosely

/-! ## Status changes -/

/-- What the runs respect between two committed stores: an order stays; what it grants has
come with it; and a cancelled subscription stays cancelled. -/
structure Grown (a b : Db) : Prop where
  orders : ∀ o, (a.get .orders o).isSome → (b.get .orders o).isSome
  enrolments : ∀ o k e, (a.get .orders o).isSome → b.get .enrolments k = some e →
    e.orderId = some o →
    ∃ e', a.get .enrolments k = some e' ∧ e'.orderId = some o
  subscriptions : ∀ o k s, (a.get .orders o).isSome → b.get .subscriptions k = some s →
    s.orderId = some o →
    ∃ s', a.get .subscriptions k = some s' ∧ s'.orderId = some o ∧
      (s'.status = .cancelled → s.status = .cancelled)

theorem Grown.refl (d : Db) : Grown d d := ⟨fun _ => id, fun _ _ e _ h ho => ⟨e, h, ho⟩,
    fun _ _ s _ h ho => ⟨s, h, ho, id⟩⟩

theorem Grown.trans (h : Grown d d') (h' : Grown d' d'') : Grown d d'' where
  orders o ho := h'.orders o (h.orders o ho)
  enrolments o k e ho he heo := by
    obtain ⟨e', he', heo'⟩ := h'.enrolments o k e (h.orders o ho) he heo
    exact h.enrolments o k e' ho he' heo'
  subscriptions o k s ho hs hso := by
    obtain ⟨s', hs', hso', hc⟩ := h'.subscriptions o k s (h.orders o ho) hs hso
    obtain ⟨s'', hs'', hso'', hc'⟩ := h.subscriptions o k s' ho hs' hso'
    exact ⟨s'', hs'', hso'', hc ∘ hc'⟩

/-- The runs in which stores grow. -/
def growing : Rely Shop where
  rel _ := Grown
  refl _ := Grown.refl
  trans := Grown.trans
  anti _ h := h

/-- Everything that order `o` has granted is cancelled. -/
structure Withdrawn (o : Uuid) (d : Db) : Prop where
  enrolments : ∀ k e, d.get .enrolments k = some e → e.orderId = some o → e.status = .cancelled
  subscriptions : ∀ k s, d.get .subscriptions k = some s → s.orderId = some o →
    s.status = .cancelled

/-- What a committed status change of order `id` has left. -/
structure Announced (id : Uuid) (target : OrderStatus) (d d' : Db) : Prop where
  order : ∃ order, d.get .orders id = some order ∧
    Told (.orderStatusChanged id order.userId target.asStr) d d' ∧
    (compensationRequired order.status target = true → Withdrawn id d')

/-- The UPDATE of a refund finds every enrolment of the order. -/
theorem enrolments_withdrawn {σ₀ : Pt Shop} (hw : Pt.Wrote (S := Shop)
    [.users, .pointLedger, .products] σ₀ σ) (hws : σ₀.ws = []) (hn : σ₀.db = σ.now)
    (ho : Holds σ.held (.row (S := Shop) .orders id) .share)
      (hsome : (σ.db.get .orders id).isSome) :
    Loosely (E := AppError) (shopRules.under growing) C σ (updateAll (S := Shop) .enrolments
        (fun _ e => e.orderId = some id ∧ e.status ≠ .cancelled) Enrolment.cancel) fun _ σ' =>
      ∀ k e, σ'.db.get .enrolments k = some e → e.orderId = some id → e.status = .cancelled := by
  refine (Yields.updateAll_snapshot fun d => hw.overlay hws d _ (by simp)).imp
    (fun _ σ' _ ⟨hed, v, hv, hgrown, hall⟩ => ?_) fun _ h => h
  intro k e he heo
  by_contra hne
  have hkept : σ.db.get .enrolments k = some e := by
    rcases hed.row k with hsame | ⟨r, _, _, hr⟩
    · rw [← hsame]; exact he
    · rw [he] at hr
      cases hr
      exact absurd rfl hne
  have hnow : σ.now.get .enrolments k = some e := by
    rw [← hn, ← hw.only.get (t := ShopTbl.enrolments) (by simp)]
    exact hkept
  have horder : (v.get .orders id).isSome := by
    have hsame := rel_same hv ho
    rw [(hw.overlay hws v).get (t := ShopTbl.orders) (by simp)] at hsame
    rw [hsame]
    exact hsome
  obtain ⟨e₀, he₀, heo₀⟩ := hgrown.enrolments id k e horder hnow heo
  -- an enrolment only becomes cancelled, so the snapshot showed it in the same state
  have hseen : (Store.overlay σ.ws v).get .enrolments k = some e₀ := by
    rw [(hw.overlay hws v).get (t := ShopTbl.enrolments) (by simp)]
    exact he₀
  obtain ⟨e₁, he₁, hup⟩ := rel_enrolment hv hseen
  rw [hkept] at he₁
  cases he₁
  have hactive : e.status = .active := by
    cases hs : e.status with
    | active => rfl
    | cancelled => exact absurd hs hne
  have hq : ∀ {r : Enrolment}, r.orderId = some id → r.status = .active →
      decide (r.orderId = some id ∧ r.status ≠ .cancelled) = true :=
      fun h1 h2 => decide_eq_true ⟨h1, by rw [h2]; simp⟩
  have hdone := hall k e₀ e he₀ (hq heo₀ (hup.active hactive)) hkept (hq heo hactive)
  rw [he] at hdone
  injection hdone with hcancel
  exact hne (congrArg Enrolment.status hcancel)

/-- The UPDATE of a refund finds every subscription of the order. -/
theorem subscriptions_withdrawn {σ₀ : Pt Shop} {T : List ShopTbl} (hw : Pt.Wrote (S := Shop) T σ₀ σ)
    (hws : σ₀.ws = []) (hn : σ₀.db = σ.now)
    (hts : ShopTbl.subscriptions ∉ T ∧ ShopTbl.orders ∉ T)
    (ho : Holds σ.held (.row (S := Shop) .orders id) .share)
      (hsome : (σ.db.get .orders id).isSome) :
    Loosely (shopRules.under growing) C σ (cancelSubscriptionsByOrderTx id) fun _ σ' =>
      Only (S := Shop) [.subscriptions] σ.db σ'.db ∧
      ∀ k s, σ'.db.get .subscriptions k = some s → s.orderId = some id → s.status = .cancelled := by
  refine Yields.bind (Yields.updateAll_snapshot fun d => hw.overlay hws d _ hts.1)
    fun _ σ₁ _ ⟨hed, v, hv, hgrown, hall⟩ => .pure ?_
  refine ⟨hed.only, fun k s hs hso => ?_⟩
  by_contra hne
  have hkept : σ.db.get .subscriptions k = some s := by
    rcases hed.row k with hsame | ⟨r, _, _, hr⟩
    · rw [← hsame]; exact hs
    · rw [hs] at hr
      cases hr
      exact absurd rfl hne
  have hnow : σ.now.get .subscriptions k = some s := by
    rw [← hn, ← hw.only.get hts.1]
    exact hkept
  have horder : (v.get .orders id).isSome := by
    have hsame := rel_same hv ho
    rw [(hw.overlay hws v).get hts.2] at hsame
    rw [hsame]
    exact hsome
  obtain ⟨s₀, hs₀, hso₀, hup⟩ := hgrown.subscriptions id k s horder hnow hso
  have hdone := hall k s₀ s hs₀ (decide_eq_true ⟨hso₀, fun h => hne (hup h)⟩) hkept
    (decide_eq_true ⟨hso, hne⟩)
  rw [hs] at hdone
  injection hdone with hcancel
  exact hne (congrArg Subscription.status hcancel)

theorem cancelEnrolmentsByOrder_withdrawn {σ₀ : Pt Shop}
    (hw : Pt.Wrote (S := Shop) [.users, .pointLedger, .products] σ₀ σ)
    (hws : σ₀.ws = []) (hn : σ₀.db = σ.now) (ho : Holds σ.held (.row (S := Shop) .orders id) .share)
    (hsome : (σ.db.get .orders id).isSome) :
    Loosely (shopRules.under growing) C σ (cancelEnrolmentsByOrderTx id) fun _ σ' =>
      Pt.Wrote (S := Shop) [.enrolments, .leaveRequests] σ σ' ∧
        ∀ k e, σ'.db.get .enrolments k = some e → e.orderId = some id → e.status = .cancelled := by
  refine Yields.bind ((enrolments_withdrawn hw hws hn ho hsome).confined
    (Confined.updateAll (T := [ShopTbl.enrolments]) (by simp)))
    fun flipped σ₁ _ ⟨hnone, h₁⟩ => ?_
  have hrest : ∀ {σ₂ : Pt Shop}, Pt.Wrote (S := Shop) [.leaveRequests] σ₁ σ₂ →
      Pt.Wrote (S := Shop) [.enrolments, .leaveRequests] σ σ₂ ∧
        ∀ k e, σ₂.db.get .enrolments k = some e → e.orderId = some id → e.status = .cancelled := by
    intro σ₂ h₂
    refine ⟨(h₁.mono (by simp)).trans (h₂.mono (by simp)), fun k e he => ?_⟩
    rw [h₂.only.get (t := ShopTbl.enrolments) (by simp)] at he
    exact hnone k e he
  split
  · exact Yields.bind cancelPending_confined.loosely fun _ σ₂ _ h₂ => .pure (hrest h₂)
  · exact .pure (hrest (.refl _))

/-- **A compensation withdraws everything** that the order has granted. -/
theorem compensate_withdrawn {order : Order} (hws : σ.ws = []) (hn : σ.db = σ.now)
    (ho : Holds σ.held (.row (S := Shop) .orders id) .share)
    (hsome : (σ.db.get .orders id).isSome) :
    Loosely (shopRules.under growing) C σ (compensateOrderArtifactsTx id order now) fun _ σ' =>
      Only (S := Shop) [.users, .pointLedger, .products, .enrolments, .leaveRequests,
        .subscriptions] σ.db σ'.db ∧
        Withdrawn id σ'.db := by
  refine Yields.bind acquireRefundLocks_confined.loosely fun locks σ₁ hl₁ h₁ => ?_
  refine Yields.bind reverseOrderTx_confined.loosely fun _ σ₂ hl₂ h₂ => ?_
  refine Yields.bind restoreForOrderTx_confined.loosely fun _ σ₃ hl₃ h₃ => ?_
  have hl := (hl₁.trans hl₂).trans hl₃
  have hw : Pt.Wrote (S := Shop) [.users, .pointLedger, .products] σ σ₃ :=
    (h₁.mono (by simp)).trans ((h₂.mono (by simp)).trans (h₃.mono (by simp)))
  have hsome₃ : (σ₃.db.get .orders id).isSome := by
    rw [hw.only.get (t := ShopTbl.orders) (by simp)]; exact hsome
  refine Yields.bind (cancelEnrolmentsByOrder_withdrawn hw hws (hn.trans hl.now.symm)
    (hl.holds ho) hsome₃)
    fun _ σ₄ hl₄ ⟨h₄, henrolments⟩ => ?_
  have hw₄ : Pt.Wrote (S := Shop) [.users, .pointLedger, .products, .enrolments,
    .leaveRequests] σ σ₄ :=
    (hw.mono (by simp)).trans (h₄.mono (by simp))
  have hsome₄ : (σ₄.db.get .orders id).isSome := by
    rw [hw₄.only.get (t := ShopTbl.orders) (by simp)]; exact hsome
  refine Yields.bind (subscriptions_withdrawn hw₄ hws (hn.trans (hl.trans hl₄).now.symm) (by simp)
    ((hl.trans hl₄).holds ho) hsome₄)
    fun _ σ₅ _ ⟨h₅, hsubs⟩ => .pure ⟨(hw₄.only.mono (by simp)).trans (h₅.mono (by simp)),
      fun k e he => ?_, hsubs⟩
  rw [h₅.get (t := ShopTbl.enrolments) (by simp)] at he
  exact henrolments k e he

/-- **The transaction of a status change** announces what it commits. -/
theorem updateOrderStatusTx_ends (hws : σ.ws = []) (hd : σ.db = σ.now)
    (hC : ∀ σ', Announced id target σ'.now σ'.db → C σ') :
    Ends growing C (updateOrderStatusTx id target now) σ := by
  refine Ends.bind ((Yields.selectFor (m := .update) (by decide) trivial).confined (T := [])
    Confined.selectFor) fun r σ₁ hl₁ ⟨⟨hd₁, hr⟩, hw₁⟩ => ?_
  refine Ends.bind (R := fun order σ' => r = some order ∧ σ' = σ₁)
    (Yields.orFail (fun _ h => ⟨h, rfl⟩) trivial)
    fun order σ₂ _ ⟨hro, h₂⟩ => ?_
  subst h₂
  obtain ⟨ho, horder, -⟩ := hr order hro
  refine Ends.bind (R := fun decision σ' => decideTransition order.status target =
    .ok decision ∧ σ' = σ₂)
    (Does.loosely (B := fun _ _ => True) (F := fun _ => True)
      (Yields.checked (fun _ h => ⟨h, rfl⟩) fun _ _ => trivial))
    fun decision σ₃ _ ⟨hdec, h₃⟩ => ?_
  subst h₃
  -- the locked read of the order has written nothing
  have hws₃ : σ₃.ws = [] := by
    obtain ⟨vs, hvs, -, hin⟩ := hw₁
    rw [hvs, hws, List.nil_append]
    cases vs with
    | nil => rfl
    | cons w vs => exact absurd (hin w List.mem_cons_self) (by simp)
  have horder₃ : σ₃.db.get .orders id = some order := hd₁ ▸ horder
  -- an order that has the status already is not announced
  split
  · exact ⟨trivial, fun _ _ => trivial⟩
  next hnoop =>
  obtain ⟨-, hcomp⟩ := decideTransition_ok hdec hnoop
  refine Ends.bind (R := fun _ σ' =>
      Only (S := Shop) [.users, .pointLedger, .products, .enrolments, .leaveRequests,
        .subscriptions] σ₃.db σ'.db ∧
      (compensationRequired order.status target = true → Withdrawn id σ'.db)) ?_
        fun _ σ₄ hl₄ ⟨ho₄, hgone⟩ => ?_
  · -- the grants are withdrawn exactly where the transition compensates
    by_cases hfc : decision = .flipAndCompensate
    · rw [if_pos hfc]
      refine (compensate_withdrawn hws₃ (by rw [hd₁, hd, hl₁.now]) (ho.weaken (by decide)) ?_).imp
        (fun _ _ _ h => ⟨h.1, fun _ => h.2⟩)
        fun _ h => h
      rw [horder₃]
      rfl
    · rw [if_neg hfc]
      exact .pure ⟨.refl _ _, fun h => absurd (hcomp.2 h) hfc⟩
  have horder₄ : σ₄.db.get .orders id = some order := by
    rw [ho₄.get (t := ShopTbl.orders) (by simp)]; exact horder₃
  refine Ends.bind ((Yields.updateRow (E := AppError) trivial fun _ _ _ => trivial).confined
    (T := [ShopTbl.orders]) (Confined.updateRow (by simp))) fun updated σ₅ hl₅ ⟨hup, hw₅⟩ => ?_
  refine Ends.bind (R := fun row σ' => updated = some row ∧ σ' = σ₅)
    (Yields.orFail (fun _ h => ⟨h, rfl⟩) trivial)
    fun row σ₆ _ ⟨hrow, h₆⟩ => ?_
  subst h₆
  have huser : row.userId = order.userId := by
    rcases hup with ⟨hnone, -⟩ | ⟨row₀, hrow₀, -, hsome, -⟩
    · rw [hnone] at hrow; cases hrow
    · rw [horder₄] at hrow₀
      cases hrow₀
      rw [hsome] at hrow
      cases hrow
      rfl
  refine Ends.bind insertDomainEventTx_told fun _ σ₇ hl₇ ⟨htold, ho₇⟩ =>
    ⟨hC σ₇ ⟨order, ?_, ?_, fun hreq => ?_⟩, fun _ _ => trivial⟩
  · rw [(hl₁.trans (hl₄.trans (hl₅.trans hl₇))).now, ← hd]
    exact horder
  · rw [huser] at htold
    obtain ⟨n, hn, hout⟩ := htold
    have hsame : σ₆.db .outbox = σ.db .outbox := by rw [hw₅.only _ (by simp), ho₄ _ (by simp), hd₁]
    rw [(hl₁.trans (hl₄.trans (hl₅.trans hl₇))).now, ← hd]
    refine ⟨n, ?_, ?_⟩
    · unfold Store.get at hn ⊢
      rw [← hsame]
      exact hn
    · rw [hout, Store.apply_add, Store.apply_add, hsame]
  · have hend : Only (S := Shop) [.orders, .outbox] σ₄.db σ₇.db :=
      (hw₅.only.mono (by simp)).trans (ho₇.mono (by simp))
    refine ⟨fun k e he => ?_, fun k s hs => ?_⟩
    · rw [hend.get (t := ShopTbl.enrolments) (by simp)] at he
      exact (hgone hreq).enrolments k e he
    · rw [hend.get (t := ShopTbl.subscriptions) (by simp)] at hs
      exact (hgone hreq).subscriptions k s hs

theorem updateOrderStatus_ends {status : String} {born : Db}
    (hC : ∀ σ' target, OrderStatus.fromStr status = some target →
      Announced id target σ'.now σ'.db → C σ') :
    Ends growing C (updateOrderStatus id status now) (.begin born d false) := by
  refine Ends.bind (R := fun target σ' => OrderStatus.fromStr status = some target ∧
    σ' = Pt.begin born d false)
    (Yields.orFail (fun _ h => ⟨h, rfl⟩) trivial) fun target σ₁ _ ⟨ht, h₁⟩ => ?_
  subst h₁
  have htx : Ends growing C (updateOrderStatusTx id target now) (.begin born d false) :=
    updateOrderStatusTx_ends rfl rfl fun σ' h => hC σ' target ht h
  exact (wp_bind ..).2 (wp_mono (fun _ _ _ => Ends.of assembleResponse_loosely)
    (fun _ _ h => h) _ _ htx.dropped)

/-! ## The contract -/

/-- What a request leaves under the name of an order where it commits. -/
def DeskReq.Tells : DeskReq → Pt Shop → Prop
  | .shop (.checkout u _ _ _), σ => ∃ o, Issued u o σ.now σ.db
  | .shop (.updateOrderStatus id status _), σ =>
    ∃ target, OrderStatus.fromStr status = some target ∧ Announced id target σ.now σ.db
  | _, _ => True

/-- **Every request tells what it does to an order.** -/
theorem DeskReq.tells (q : DeskReq) (born d : Db) :
    Ends growing q.Tells q.prog (.begin born d false) := by
  by_cases hq : (∃ u key req now, q = .shop (.checkout u key req now)) ∨
    ∃ id status now, q = .shop (.updateOrderStatus id status now)
  · rcases hq with ⟨u, key, req, now, rfl⟩ | ⟨id, status, now, rfl⟩
    · refine wp_reply (wp_reply (checkout_ends fun σ' o h => ?_))
      exact ⟨o, h⟩
    · refine wp_reply (wp_reply (updateOrderStatus_ends fun σ' target ht h => ?_))
      exact ⟨target, ht, h⟩
  · have htells : ∀ σ, q.Tells σ := fun σ => by
      cases q with
      | shop q =>
        cases q with
        | checkout => exact absurd (.inl ⟨_, _, _, _, rfl⟩) hq
        | updateOrderStatus => exact absurd (.inr ⟨_, _, _, rfl⟩) hq
        | _ => trivial
      | _ => trivial
    have hmeets : wp (shopRules.under growing) (q.oblig growing)
        (fun _ σ => q.Spends → σ.committed = true) q.Failed q.prog
        (.begin born d false) := q.meets
    exact wp_loosely (fun σ _ => htells σ) (wp_mono (fun _ _ _ => trivial)
      (fun _ _ _ => trivial) _ _ hmeets)

/-- The contract of the desk, with what its requests tell. -/
def tellingContract : Contract desk (shopRules.under growing) :=
  (deskContract growing).and (fun q => loosely q.Tells) fun q born d _ => q.tells born d

variable {s s' : DeskSys} {c : Call Shop AppError DeskReply DeskReq} {t : ℕ}

/-- A commit in a state that keeps this contract. -/
theorem telling_commits (hs : s.OK tellingContract) (h : CommitStep s t c s') :
    ∃ σ : Pt Shop, σ.now = s.db ∧ σ.db = s'.db ∧ c.req.Commits growing σ ∧ c.req.Tells σ := by
  obtain ⟨start, -, ⟨-, hcommits⟩, htells⟩ := hs.commit h
  obtain ⟨-, k, -, rfl⟩ := h
  exact ⟨c.pt start s.db, rfl, rfl, hcommits, htells⟩

end DreamFly
