import DreamFly.Proof.CartLines

/-!
# Checkout, proved

What a committed checkout did, from the store it committed on to the one it left:
`SaleSteps` is the sequence of its writes, `CheckedOut` adds what was sold and the
idempotency key. `checkout_wp` is the contract of the whole call; `Receipt` is what
a successful keyed call answers.
-/

namespace DreamFly

open Txn Prog

variable {C : Pt Shop → Prop} {B : Option AppError → Pt Shop → Prop} {σ : Pt Shop}
  {F : AppError → Prop} {u o : Uuid} {now : Instant} {d d' v : Db}

/-! ## The writes -/

/-- One order line is recorded. -/
def Lined (o : Uuid) (now : Instant) (line : OrderLine) (d d' : Db) : Prop :=
  ∃ id, d.get .orderItems id = none ∧ (line.item o now).checks = true ∧
    d' = d.apply (.add .orderItems id (line.item o now))

theorem Lined.only {line : OrderLine} (h : Lined o now line d d') :
    Only (S := Shop) [.orderItems] d d' := by
  obtain ⟨id, -, -, rfl⟩ := h
  exact Only.write d (by simp [Write.tbl])

/-- The stages of a sale, from `d`, on which it is priced, to `d'`, with the cart
emptied. -/
structure SaleSteps (u o : Uuid) (cart : List CheckoutLine) (outcome : PricingOutcome)
    (method : String)
    (now : Instant) (d d' : Db) where
  ordered : List ReserveLine
  reserved : Reserved
  courses : List Uuid
  (stocked placed lined paid enrolled granted : Db)
  ordered_perm : ordered.Perm ((fulfilmentPlan cart).products.map ProductFulfilment.reserve)
  reserved_length : reserved.length = ordered.length
  stock : Chain Taken (ordered.zip reserved) d stocked
  checks : (paidOrder u outcome method now).checks = true
  fresh : d.get .orders o = none
  order : placed = stocked.apply (.add .orders o (paidOrder u outcome method now))
  items : Chain (Lined o now) (orderLines cart reserved) placed lined
  points : Chain (Applied u now) (outcome.ledgerDeltas o) lined paid
  courses_perm : courses.Perm (fulfilmentPlan cart).courseIds
  enrol : Chain (Enrolled u o now) courses paid enrolled
  grants : Only (S := Shop) [.subscriptions] enrolled granted
  subscribed : SubsGranted enrolled granted
  cleared : Only (S := Shop) [.cartItems] granted d'
  emptied : ∀ k, d'.get .cartItems k = if k.1 = u then none else granted.get .cartItems k

theorem createOrder_spec {order : Order} :
    Does C B σ (createOrder order) (fun _ => True) fun o σ' => order.checks = true ∧
      σ.db.get .orders o = none ∧ σ'.db = σ.db.apply (.add .orders o order) ∧
      Holds σ'.held (.row (S := Shop) .orders o) .noKeyUpdate := by
  refine Yields.bind (R := fun _ σ' => order.checks = true ∧ σ' = σ)
    (Yields.ensure (fun h => ⟨h, rfl⟩) trivial) fun _ σ₁ _ ⟨hc, h₁⟩ => ?_
  subst h₁
  refine Yields.bind (Yields.references trivial trivial) fun _ σ₂ _ h₂ => ?_
  refine Yields.imp (Yields.insert fun n => ⟨holds_acquire _ _ _, trivial⟩)
    (fun n σ₃ _ h => ?_) fun _ h => h
  obtain ⟨-, h1, -, h3⟩ := h
  rw [h₂] at h1
  refine ⟨hc, h1, ?_, ?_⟩
  · rw [h3, h₂]; rfl
  · rw [h3]; exact holds_acquire _ _ _

theorem targetRef_spec {t : LineTarget} :
    Does C B σ (targetRef t) (fun _ => True) fun _ σ' => σ'.db = σ.db := by
  cases t <;> exact (Yields.references trivial trivial).imp (fun _ _ _ h => by rw [h]; rfl)
    fun _ h => h

theorem createOrderItem_spec {line : OrderLine}
    (ho : Holds σ.held (.row (S := Shop) .orders o) .noKeyUpdate) :
    Does C B σ (createOrderItem o now line) (fun _ => True) fun _ σ' =>
      Lined o now line σ.db σ'.db := by
  refine Yields.bind (R := fun _ σ' => (line.item o now).checks = true ∧ σ' = σ)
    (Yields.ensure (fun h => ⟨h, rfl⟩) trivial) fun _ σ₁ _ ⟨hc, h₁⟩ => ?_
  subst h₁
  refine Yields.bind (Yields.references trivial trivial) fun _ σ₂ hl₂ h₂ => ?_
  refine Yields.bind targetRef_spec fun _ σ₃ hl₃ hd₃ => ?_
  have hd : σ₃.db = σ₁.db := by rw [hd₃, h₂]; rfl
  refine Yields.imp (Yields.insert fun n => ⟨holds_acquire _ _ _, ?_⟩)
    (fun n σ₄ _ h => ⟨n, ?_, hc, ?_⟩) fun _ h => h
  · exact ((hl₂.trans hl₃).holds ho).mono (subset_acquire _ _ _)
  · rw [← hd]; exact h.2.1
  · rw [h.2.2.2, ← hd]; rfl

theorem grantLine_spec {buyer : BalanceLock} {reserved : Reserved} {p : ProductFulfilment} :
    Does C B σ (grantLine buyer reserved o now p) (fun _ => True) fun _ σ' =>
      SubsGranted σ.db σ'.db := by
  refine Yields.bind (R := fun _ σ' => σ' = σ) (Yields.orFail (fun _ _ => rfl) trivial)
    fun product σ₁ _ h₁ => ?_
  subst h₁
  refine Yields.bind (R := fun _ σ' => SubsGranted σ₁.db σ'.db) ?_ fun _ _ _ h => .pure h
  unfold grantFromPurchaseTx
  split
  · exact .pure (SubsGranted.refl _)
  next grant hplan =>
  refine Yields.bind (Yields.references trivial trivial) fun _ σ₂ _ h₂ => ?_
  refine Yields.bind (references_spec (fun v h => rel_products h p.productId) trivial)
    fun _ σ₃ _ ⟨h₃, hproduct⟩ => ?_
  refine Yields.bind (Yields.references trivial trivial) fun _ σ₄ _ h₄ => ?_
  refine Yields.bind (R := fun _ σ' => σ' = σ₄ ∧ grant.remainingSessions.all (0 ≤ ·) = true)
    (Yields.ensure (fun h => ⟨rfl, (of_decide_eq_true h).2⟩) trivial) fun _ σ₅ _ ⟨h₅, hall⟩ => ?_
  refine Yields.bind (Yields.insert fun n => ⟨holds_acquire _ _ _, trivial⟩)
    fun n σ₆ _ h => .pure ?_
  have hd : σ₅.db = σ₁.db := by rw [h₅, h₄, Pt.grant_db, h₃, h₂]; rfl
  -- a plan grants all its sessions at once
  have hfull : grant.remainingSessions = grant.totalSessions := by
    unfold entitlementPlan at hplan
    split at hplan
    · split at hplan <;> cases hplan <;> rfl
    · cases hplan
  obtain ⟨-, hnew, -, h₆⟩ := h
  rw [hd] at hnew
  rw [h₆, Pt.write_db, Pt.grant_db, hd]
  refine ⟨Only.write (S := Shop) (w := .add .subscriptions n _) _ (by simp [Write.tbl]),
    fun k => ?_⟩
  rw [Store.get_add, hnew]
  split
  · next hk =>
    rw [hk]
    refine .inr ⟨hnew, _, rfl, rfl, hfull, fun m hm => ?_, ?_⟩
    · have hm' : grant.remainingSessions = some m := hm
      rw [hm'] at hall
      simpa using hall
    · rw [h₂] at hproduct
      exact hproduct
  · exact .inl rfl

/-- **The writes of a checkout.** -/
theorem fulfil_spec {locks : CheckoutLocks} {intent : CheckoutIntent} {cart : List CheckoutLine}
    {outcome : PricingOutcome} (hu : locks.balance.userId = u) (hc : Covered u σ)
    (hg : locks.products.Good σ)
    (hcs : ∀ c ∈ locks.courses, Holds σ.held (.row (S := Shop) .courses c) .update) :
    Does C B σ (fulfil locks intent cart outcome now) (fun _ => True) fun x σ' =>
      x.2 = paidOrder u outcome intent.paymentMethod now ∧
      Nonempty (SaleSteps u x.1 cart outcome intent.paymentMethod now σ.db σ'.db) := by
  subst hu
  refine Yields.bind (reserveStockTx_spec hg) fun reserved σ₁ hl₁ ⟨ordered, hperm, hlen, hstock⟩ =>
    ?_
  refine Yields.bind createOrder_spec fun o σ₂ hl₂ ⟨hchecks, hfresh, hd₂, ho⟩ => ?_
  refine Yields.bind (R := fun _ σ' => Chain (Lined o now) (orderLines cart reserved) σ₂.db σ'.db)
    (Yields.bind (Yields.each_unit fun line _ σ' hl => createOrderItem_spec (hl.holds ho))
      fun _ _ _ h => .pure h)
    fun _ σ₃ hl₃ hitems => ?_
  have hl₁₃ := (hl₁.trans hl₂).trans hl₃
  refine Yields.bind (applyAll_spec ((hl₁₃.holds hc.user).weaken (by decide))
    fun ld hld o' ho' => ?_)
    fun _ σ₄ hl₄ hpoints => ?_
  · have heq : ld.orderId = some o := by
      simp only [PricingOutcome.ledgerDeltas, List.mem_append] at hld
      rcases hld with hld | hld <;> split at hld <;> simp at hld <;> subst hld <;> rfl
    rw [heq] at ho'
    cases ho'
    exact hl₃.holds ho
  refine Yields.bind (enrolBatch_spec fun c hm => (hl₁₃.trans hl₄).holds (hcs c hm))
    fun _ σ₅ hl₅ ⟨courses, hcp, henrol⟩ => ?_
  refine Yields.bind (Yields.each_unit (P := fun _ => SubsGranted) fun p _ σ' _ => grantLine_spec)
    fun _ σ₆ hl₆ hchain => ?_
  have hgrants : SubsGranted σ₅.db σ₆.db :=
    hchain.inv (I := fun b => SubsGranted σ₅.db b) (fun _ _ _ _ h hI => hI.trans h)
      (SubsGranted.refl _)
  have hl₁₆ := ((hl₁₃.trans hl₄).trans hl₅).trans hl₆
  refine Yields.bind (clearCartTx_spec (hl₁₆.holds hc.user)) fun _ σ₇ hl₇ ⟨hclear, hempty⟩ =>
    .pure ⟨rfl, ⟨?_⟩⟩
  exact
    { ordered := ordered, reserved := reserved, courses := courses
      stocked := σ₁.db, placed := σ₂.db, lined := σ₃.db, paid := σ₄.db, enrolled :=
      σ₅.db, granted := σ₆.db
      ordered_perm := hperm, reserved_length := hlen, stock := hstock, checks := hchecks
      fresh := by
        rw [← (hstock.only fun _ _ _ _ h => Taken.only h).get (t := ShopTbl.orders) (by simp)];
          exact hfresh
      order := hd₂, items := hitems, points := hpoints, courses_perm := hcp, enrol := henrol
      grants := hgrants.only, subscribed := hgrants
      cleared := hclear, emptied := hempty }

/-- A committed checkout of user `u` with the given key: what it sold, on which
prices, and what it wrote. -/
structure CheckedOut (u : Uuid) (key : Option IdempotencyKey) (now : Instant) (d d' : Db) where
  o : Uuid
  cart : List CheckoutLine
  coupon : Option Coupon
  usePoints : Bool
  outcome : PricingOutcome
  method : String
  buyer : User
  (sold keyed : Db)
  cart_eq : cart.Perm (cartLines u d)
  active : ∀ line ∈ cart, line.isActive = true
  buyer_eq : d.get .users u = some buyer
  priced : price cart coupon buyer.pointsBalance usePoints = .ok outcome
  steps : SaleSteps u o cart outcome method now d sold
  recorded : match key with
    | none => keyed = sold
    | some k =>
      d.get .orderIdempotency (u, k) = none ∧ keyed = sold.apply (.add .orderIdempotency (u, k) o)
  queued : Only (S := Shop) [.outbox] keyed d'

/-! ## What the stages leave alone -/

namespace SaleSteps

variable {cart : List CheckoutLine} {outcome : PricingOutcome} {method : String}
  (s : SaleSteps u o cart outcome method now d d')
include s

theorem stock_only : Only (S := Shop) [.products] d s.stocked := s.stock.only fun _ _ _ _ h =>
    Taken.only h

theorem order_only : Only (S := Shop) [.orders] s.stocked s.placed := by
  rw [s.order]; exact Only.write _ (by simp [Write.tbl])

theorem items_only : Only (S := Shop) [.orderItems] s.placed s.lined :=
    s.items.only fun _ _ _ _ h => Lined.only h

theorem points_only : Only (S := Shop) [.users, .pointLedger] s.lined s.paid :=
    s.points.only fun _ _ _ _ h => Applied.only h

theorem enrol_only : Only (S := Shop) [.enrolments] s.paid s.enrolled :=
    s.enrol.only fun _ _ _ _ h => Enrolled.only h

/-- The tables a sale writes. -/
theorem only : Only (S := Shop)
    [.products, .orders, .orderItems, .users, .pointLedger, .enrolments, .subscriptions,
      .cartItems] d d' :=
  (s.stock_only.mono (by simp)).trans <| (s.order_only.mono (by simp)).trans <|
    (s.items_only.mono (by simp)).trans <| (s.points_only.mono (by simp)).trans <|
    (s.enrol_only.mono (by simp)).trans <| (s.grants.mono (by simp)).trans
      (s.cleared.mono (by simp))

end SaleSteps

/-! ## Receipts -/

/-- Equal but for the status. -/
def SameReceipt (a b : Order) : Prop := { a with status := .pending } = { b with status :=
  .pending }

/-- `r` is the answer to a checkout with this key: the order recorded under it. -/
structure Receipt (u : Uuid) (k : IdempotencyKey) (r : OrderResponse) (d : Db) : Prop where
  key : d.get .orderIdempotency (u, k) = some r.id
  order : ∃ row, d.get .orders r.id = some row ∧ SameReceipt row r.order
  items : ∀ e ∈ r.items, d.get .orderItems e.1 = some e.2 ∧ e.2.orderId = r.id

theorem rel_item {L : Locks (Res Shop)} (h : shopRules.rel L d d') {k : Uuid} {row : OrderItem}
    (hk : d.get .orderItems k = some row) : d'.get .orderItems k = some row :=
  rel_fact h (P := .appendOnly .orderItems) (by simp [shopFacts]) k row hk

theorem assembleResponse_spec {order : Order} :
    Does C B σ (assembleResponse o order) (fun _ => False) fun r σ' => σ' = σ ∧ r.id = o ∧
    r.order = order ∧
      ∀ e ∈ r.items, σ.db.get .orderItems e.1 = some e.2 ∧ e.2.orderId = o := by
  refine Yields.bind (R := fun items σ' => σ' = σ ∧
    ∀ e ∈ items, σ.db.get .orderItems e.1 = some e.2 ∧ e.2.orderId = o)
    (Yields.read fun v _ hv => ⟨rfl, ?_⟩) fun items σ₁ _ ⟨h₁, hi⟩ => ?_
  · rintro ⟨k, i⟩ he
    obtain ⟨hg, hp⟩ := mem_findItemsByOrder.1 he
    exact ⟨rel_item hv hg, hp⟩
  refine Yields.bind (R := fun _ σ' => σ' = σ₁) (Yields.read fun _ _ _ => rfl) fun _ σ₂ _ h₂ => ?_
  refine Yields.bind (R := fun _ σ' => σ' = σ₂) (Yields.read fun _ _ _ => rfl) fun _ σ₃ _ h₃ => ?_
  exact .pure ⟨by rw [h₃, h₂, h₁], rfl, rfl, hi⟩

/-- The key was used before this call began. -/
def KeyUsed (u : Uuid) (k : IdempotencyKey) (d : Db) : Prop :=
  ∃ o row, d.get .orderIdempotency (u, k) = some o ∧ d.get .orders o = some row

/-- **A replay answers with the recorded order**, and does so if the key was used
before. -/
theorem replayByKey_spec {k : IdempotencyKey} :
    Does C B σ (replayByKey u k) (fun _ => ¬ KeyUsed u k σ.start) fun r σ' => σ' = σ ∧
      (∀ x, r = some x → Receipt u k x σ.db) ∧ (KeyUsed u k σ.start → r.isSome) := by
  refine Yields.bind (R := fun r σ' => σ' = σ ∧
    (∀ o, r = some o → σ.db.get .orderIdempotency (u, k) = some o) ∧
      ∀ o, σ.start.get .orderIdempotency (u, k) = some o → r = some o)
    (Yields.read fun v hs hv => ⟨rfl, fun o h => rel_idem hv h, fun o h => rel_idem hs h⟩)
      fun r σ₁ _ ⟨h₁, hr, hu⟩ => ?_
  subst h₁
  cases r with
  | none => exact .pure ⟨rfl, fun _ h => (nomatch h), fun ⟨o, _, h, _⟩ => (nomatch hu o h)⟩
  | some o =>
    refine Yields.bind (R := fun r σ' => σ' = σ₁ ∧
      (∀ row, r = some row → ∃ row', σ₁.db.get .orders o = some row' ∧
        SameReceipt row' row) ∧ (KeyUsed u k σ₁.start → r.isSome))
      (Yields.read fun v hs hv => ⟨rfl, fun row h => rel_order hv h, fun hk => ?_⟩)
      fun r σ₂ _ ⟨h₂, hrow, hsome⟩ => ?_
    · obtain ⟨o', row, h1, h2⟩ := hk
      -- the key never names another order
      cases hu o' h1
      obtain ⟨row', h, -⟩ := rel_order hs h2
      rw [h]; rfl
    · subst h₂
      cases r with
      | none =>
        exact Yields.bind (R := fun _ _ => False) (.fail fun h => by simpa using hsome h)
          fun _ _ _ h => h.elim
      | some row =>
        refine Yields.bind (R := fun x σ' => x = row ∧ σ' = σ₂)
          (.ret ⟨rfl, rfl⟩) fun y σ₃ _ ⟨hy, h₃⟩ => ?_
        subst hy
        subst h₃
        refine Yields.bind (assembleResponse_spec.imp (fun _ _ _ h => h) fun _ h => h.elim)
          fun x σ₄ _ ⟨h₄, hid, ho, hi⟩ =>
          .pure ⟨h₄, fun z hz => ?_, fun _ => rfl⟩
        cases hz
        obtain ⟨row', h1, h2⟩ := hrow y rfl
        exact ⟨by rw [hid]; exact hr o rfl, ⟨row', by rw [hid]; exact h1, by rw [ho]; exact h2⟩,
          by rw [hid]; exact hi⟩

/-! ## The whole call -/

variable {key : Option IdempotencyKey} {X : AppError → Pt Shop → Prop}

/-- The beginning of a transaction has nothing pending. -/
@[simp] theorem begin_db (a b : Db) (c : Bool) : (Pt.begin a b c).db = b := rfl

@[simp] theorem begin_now (a b : Db) (c : Bool) : (Pt.begin a b c).now = b := rfl

@[simp] theorem begin_start (a b : Db) (c : Bool) : (Pt.begin a b c).start = a := rfl

@[simp] theorem begin_held (a b : Db) (c : Bool) : (Pt.begin a b c).held = [] := rfl

@[simp] theorem begin_committed (a b : Db) (c : Bool) : (Pt.begin a b c).committed = c := rfl

/-- A replayed answer: a receipt, if there is a key. -/
def Answers (u : Uuid) (key : Option IdempotencyKey) (r : OrderResponse) (d : Db) : Prop :=
  ∀ k, key = some k → Receipt u k r d

/-- Nothing is in stock for the error, but that nothing was committed. -/
theorem replayOr_wp {buyer : BalanceLock} {otherwise : AppError}
    {Q : OrderResponse → Pt Shop → Prop}
    (hu : buyer.userId = u) (hB : ∀ e σ, B e σ) (hc : σ.committed = false)
    (hQ : ∀ r σ', σ'.committed = false → Answers u key r σ'.now → Q r σ')
    (hX : ∀ e σ', σ'.committed = false → X e σ') :
    wp shopRules (writing C B) Q X (replayOr buyer key otherwise) σ := by
  subst hu
  refine ⟨hB _ _, fun d hd => ?_⟩
  cases key with
  | none => exact hX _ _ hc
  | some k =>
    refine Yields.bind_wp replayByKey_spec (fun r σ₁ hl ⟨h₁, hr, _⟩ => ?_) fun e σ₁ hl _ =>
      hX e σ₁ (hl.committed.trans hc)
    refine wp_orFail (fun x hx => hQ x σ₁ (hl.committed.trans hc) fun k' hk => ?_) fun _ =>
      hX _ σ₁ (hl.committed.trans hc)
    cases hk
    rw [h₁]
    exact hr x hx

/-- What recording the key comes to: the key is new and now taken, or the twin's
answer. -/
theorem record_wp {buyer : BalanceLock} {Q : Recorded → Pt Shop → Prop} (hu : buyer.userId = u)
    (hB : ∀ e σ, B e σ) (hc : σ.committed = false)
    (hfresh : ∀ σ', σ.Later σ' → (match key with
      | none => σ'.db = σ.db
      | some k =>
        σ.db.get .orderIdempotency (u, k) = none ∧
          σ'.db = σ.db.apply (.add .orderIdempotency (u, k) o)) →
      Q .fresh σ')
    (htwin : ∀ r σ', σ'.committed = false → Answers u key r σ'.now → Q (.twinWon r) σ')
    (hX : ∀ e σ', σ'.committed = false → X e σ') :
    wp shopRules (writing C B) Q X (record buyer key o) σ := by
  subst hu
  cases key with
  | none => exact hfresh σ (.refl σ) rfl
  | some k =>
    refine Yields.bind_wp (F := fun _ => True) (R := fun taken σ' => taken = false →
      σ.db.get .orderIdempotency (buyer.userId, k) = none ∧
        σ'.db = σ.db.apply (.add .orderIdempotency (buyer.userId, k) o)) ?_
          (fun taken σ₁ hl h => ?_)
      fun e σ₁ hl _ => hX e σ₁ (hl.committed.trans hc)
    · refine Yields.bind (Yields.claim trivial) fun b σ₁ hl₁ ⟨h₁, v, _, hv, hb⟩ => ?_
      cases b with
      | true => exact .pure fun h => (nomatch h)
      | false =>
      have hk : Holds σ₁.held (.row (S := Shop) .orderIdempotency (buyer.userId, k)) .update := by
        rw [h₁]; exact holds_acquire _ _ _
      refine Yields.bind (Yields.references trivial trivial) fun _ σ₂ hl₂ h₂ => ?_
      refine Yields.bind (Yields.references trivial trivial) fun _ σ₃ hl₃ h₃ => ?_
      refine Yields.bind (Yields.put ⟨((hl₂.trans hl₃).holds hk).weaken (by decide), trivial⟩)
        fun _ σ₄ _ h₄ =>
        .pure fun _ => ⟨?_, ?_⟩
      · rw [← rel_same hv (hk.weaken (by decide))]
        simpa using hb.symm
      · rw [h₄, h₃, h₂, h₁]; rfl
    · cases taken with
      | false => exact hfresh σ₁ hl (h rfl)
      | true =>
        -- the twin has won: roll back and answer with its order
        refine ⟨hB _ _, fun d hd => ?_⟩
        have hc₁ := hl.committed.trans hc
        refine Yields.bind_wp replayByKey_spec (fun r σ₂ hl₂ ⟨h₂, hr, _⟩ => ?_)
          fun e σ₂ hl₂ _ => hX e σ₂ (hl₂.committed.trans hc₁)
        rw [wp_bind]
        refine wp_orFail (fun x hx => htwin x σ₂ (hl₂.committed.trans hc₁) fun k' hk => ?_)
          fun _ => hX _ σ₂ (hl₂.committed.trans hc₁)
        cases hk
        rw [h₂]
        exact hr x hx

/-- **The transaction of a checkout.** -/
theorem checkoutTx_wp {intent : CheckoutIntent} {Q : Sale → Pt Shop → Prop} (hB : ∀ e σ, B e σ)
    (hc : σ.committed = false) (hd : σ.db = σ.now)
    (hC : ∀ σ', σ'.committed = false → Nonempty (CheckedOut u key now σ'.now σ'.db) → C σ')
    (hsold : ∀ o order σ', σ'.db = σ'.now → (∀ k, key = some k →
      σ'.db.get .orderIdempotency (u, k) = some o ∧ ∃ row, σ'.db.get .orders o = some row ∧
        SameReceipt row order) →
      Q (.sold o order) σ')
    (hreplayed : ∀ r σ', σ'.committed = false → Answers u key r σ'.now → Q (.replayed r) σ')
    (hX : ∀ e σ', σ'.committed = false → X e σ') :
    wp shopRules (writing C B) Q X (checkoutTx u key intent now) σ := by
  have hX' : ∀ {σ₁ : Pt Shop}, σ.Later σ₁ → ∀ e σ', σ₁.Later σ' → True → X e σ' :=
    fun hl e σ' hl' _ => hX e σ' ((hl.trans hl').committed.trans hc)
  refine Yields.bind_wp acquireCheckoutLocks_spec (fun locks σ₁ hl₁ h => ?_) (hX' (.refl σ))
  obtain ⟨hd₁, hcov, ⟨buyer, hbuyer, hbal⟩, hg, hcs⟩ := h
  have hu : locks.balance.userId = u := by rw [hbal]
  refine Yields.bind_wp (F := fun _ => True) (hu.symm ▸ findCartItems_spec hcov)
    (fun cartItems σ₂ hl₂ ⟨hd₂, hcart⟩ => ?_)
    (hX' hl₁)
  have hl₁₂ := hl₁.trans hl₂
  split
  · refine (wp_bind ..).2 (replayOr_wp hu hB (hl₁₂.committed.trans hc)
      (fun r σ' h1 h2 => hreplayed r σ' h1 h2) hX)
  refine Yields.bind_wp (F := fun _ => True) (R := fun cart σ' => σ' = σ₂ ∧ cart = cartItems ∧
    ∀ line ∈ cart, line.isActive = true) (Yields.checked (fun cart h => ?_) fun _ _ => trivial)
    (fun cart σ₃ _ ⟨h₃, hcc, hact⟩ => ?_) (hX' hl₁₂)
  · unfold ensureAllPurchasable at h
    split at h
    next hall => cases h; exact ⟨rfl, rfl, by simpa using hall⟩
    · cases h
  subst h₃
  -- priced is the cart that was read under the locks
  subst hcc
  refine Yields.bind_wp (F := fun _ => True) (R := fun _ σ' => σ' = σ₃) ?_
    (fun coupon σ₄ _ h₄ => ?_) (hX' hl₁₂)
  · unfold loadCoupon
    split
    · exact .pure rfl
    · refine Yields.bind (R := fun _ σ' => σ' = σ₃)
        (Yields.read fun _ _ _ => rfl) fun _ σ₄ _ h₄ => ?_
      refine Yields.bind (R := fun _ σ' => σ' = σ₄) (Yields.orFail (fun _ _ => rfl) trivial)
        fun _ σ₅ _ h₅ => ?_
      exact .pure (by rw [h₅, h₄])
  subst h₄
  refine Yields.bind_wp (F := fun _ => True) (R := fun outcome σ' => σ' = σ₄ ∧
    price cart coupon buyer.pointsBalance intent.usePoints = .ok outcome)
    (Yields.checked (fun outcome h => ⟨rfl, by rw [hbal] at h; exact h⟩) fun _ _ => trivial)
    (fun outcome σ₅ _ ⟨h₅, hprice⟩ => ?_) (hX' hl₁₂)
  subst h₅
  have hd₂' : σ₅.db = σ.now := by rw [hd₂, hd₁, hd]
  refine Yields.bind_wp (fulfil_spec hu (hcov.later hl₂ hd₂)
    (fun e he => ⟨by rw [hd₂]; exact (hg e he).1, hl₂.holds (hg e he).2⟩)
    fun c hm => hl₂.holds (hcs c hm)) (fun x σ₆ hl₆ ⟨horder, ⟨steps⟩⟩ => ?_) (hX' hl₁₂)
  obtain ⟨o, order⟩ := x
  simp only at horder steps ⊢
  have hl₁₆ := hl₁₂.trans hl₆
  rw [wp_bind]
  refine record_wp (o := o) hu hB (hl₁₆.committed.trans hc) (fun σ₇ hl₇ hrec => ?_)
    (fun r σ' h1 h2 => hreplayed r σ' h1 h2)
    hX
  refine Yields.bind_wp (F := fun _ => True) (R := fun _ σ' => Only (S := Shop)
    [.outbox] σ₇.db σ'.db) ?_
    (fun _ σ₈ hl₈ hq => ?_) (hX' (hl₁₆.trans hl₇))
  · refine Yields.bind (Yields.insert fun n => ⟨holds_acquire _ _ _, trivial⟩)
      fun n σ₈ _ h => .pure ?_
    rw [h.2.2.2]
    exact Only.write (S := Shop) (w := .add .outbox n _) _ (by simp [Write.tbl])
  have hl₁₈ := (hl₁₆.trans hl₇).trans hl₈
  -- the key was free, and is the order's now
  have hidem : ∀ k, key = some k → σ₆.db.get .orderIdempotency (u, k) = none ∧
      σ₇.db = σ₆.db.apply (.add .orderIdempotency (u, k) o) := by
    rintro k rfl
    exact hrec
  have hkeep : σ₆.db.get .orders o = some order := by
    rw [steps.cleared.get (t := ShopTbl.orders) (by simp), steps.grants.get (t := ShopTbl.orders)
      (by simp),
      steps.enrol_only.get (t := ShopTbl.orders) (by simp),
      steps.points_only.get (t := ShopTbl.orders) (by simp),
      steps.items_only.get (t := ShopTbl.orders) (by simp), steps.order, Store.get_add, if_pos rfl,
      steps.stock_only.get (t := ShopTbl.orders) (by simp), steps.fresh, horder]
    rfl
  refine ⟨hC σ₈ (hl₁₈.committed.trans hc) ⟨?_⟩, fun d hr => hsold o order _ rfl fun k hk => ?_⟩
  · have hnow : σ₈.now = σ₅.db := by rw [hl₁₈.now, hd₂']
    rw [hnow]
    exact
      { o := o, cart := cart, coupon := coupon, usePoints := intent.usePoints, outcome := outcome
        method := intent.paymentMethod, buyer := buyer, sold := σ₆.db, keyed := σ₇.db
        cart_eq := by rw [hd₂]; exact hu ▸ hcart
        active := hact
        buyer_eq := by rw [hd₂, hd₁]; exact hbuyer
        priced := hprice, steps := steps
        recorded := by
          cases key with
          | none => exact hrec
          | some k =>
            refine ⟨?_, hrec.2⟩
            rw [← steps.only.get (t := ShopTbl.orderIdempotency) (by simp)]
            exact hrec.1
        queued := hq }
  · obtain ⟨h1, h2⟩ := hidem k hk
    have hkey : σ₈.db.get .orderIdempotency (u, k) = some o := by
      rw [hq.get (t := ShopTbl.orderIdempotency) (by simp), h2, Store.get_add, if_pos rfl, h1]; rfl
    have horder' : σ₈.db.get .orders o = some order := by
      rw [hq.get (t := ShopTbl.orders) (by simp), h2,
        Store.get_apply_other _ (by simp [Write.tbl])]; exact hkeep
    exact ⟨rel_idem hr hkey, rel_order hr horder'⟩

/-- **The contract of a checkout.** A keyed answer is a receipt; an error leaves
nothing committed, and a call whose key was used before has none. -/
theorem checkout_wp {req : CheckoutRequest} {born : Db} (hB : ∀ e σ, B e σ)
    (hC : ∀ σ', σ'.committed = false → Nonempty (CheckedOut u key now σ'.now σ'.db) → C σ') :
    wp shopRules (writing C B) (fun r σ' => Answers u key r σ'.now)
      (fun _ σ' => σ'.committed = false ∧ ∀ k, key = some k → ¬ KeyUsed u k born)
      (checkout u key req now) (.begin born d false) := by
  refine Yields.bind_wp (F := fun _ => ∀ k, key = some k → ¬ KeyUsed u k born)
    (R := fun r σ' => σ' = Pt.begin born d false ∧ (∀ x, r = some x → Answers u key x σ'.db) ∧
      (r = none → ∀ k, key = some k → ¬ KeyUsed u k born)) ?_ (fun r σ₁ hl₁ ⟨h₁, hr, hn⟩ => ?_)
    fun e σ₁ hl₁ h => ⟨hl₁.committed, h⟩
  · cases key with
    | none => exact .pure ⟨rfl, fun _ h => (nomatch h), fun _ _ h => (nomatch h)⟩
    | some k =>
      refine replayByKey_spec.imp (fun r σ' _ ⟨h1, h2, h3⟩ =>
        ⟨h1, fun x hx k' hk => ?_, fun h k' hk hu => ?_⟩)
        fun e h k' hk => ?_
      · cases hk; rw [h1]; exact h2 x hx
      · cases hk; simpa [h] using h3 hu
      · cases hk; exact h
  -- with an order under the key the call ends, without one it begins a transaction
  subst h₁
  cases r with
  | some x => exact hr x rfl
  | none =>
    have hnew := hn rfl
    refine Yields.bind_wp (F := fun _ => True) (R := fun _ σ' => σ' = Pt.begin born d false)
      (Yields.checked (fun _ _ => rfl) fun _ _ => trivial)
        (fun intent σ₂ _ h₂ => ?_) fun e σ₂ hl _ => ⟨hl.committed, hnew⟩
    subst h₂
    rw [wp_bind, orRollback, wp_handle]
    refine checkoutTx_wp hB rfl rfl hC (fun o order σ₃ hd h => ?_)
      (fun r σ₃ _ h => h) fun e σ₃ hc =>
      ⟨hB _ _, fun d' hd => ⟨hc, hnew⟩⟩
    refine assembleResponse_spec.wp (fun r σ₄ hl ⟨h₄, hid, ho, hi⟩ k hk => ?_) fun _ _ _ h => h.elim
    obtain ⟨h1, row, h2, h3⟩ := h k hk
    rw [h₄, ← hd]
    exact ⟨by rw [hid]; exact h1, ⟨row, by rw [hid]; exact h2, by rw [ho]; exact h3⟩,
      by rw [hid]; exact hi⟩

end DreamFly
