import DreamFly.Shop.Pricing
import DreamFly.Shop.Enrolments

/-!
# Orders

Checkout and the status changes of an order, with the compensation a refund
makes: the transactions that move money, stock and seats together.
-/

namespace DreamFly

open Txn Prog

/-! ## Statements on orders -/

structure OrderResponse where
  id : Uuid
  order : Order
  items : List (Uuid × OrderItem)
  enrolments : List (Uuid × Enrolment)
  subscriptions : List (Uuid × Subscription)
deriving DecidableEq, Repr

/-- The CHECK constraints of `orders`. -/
def Order.checks (o : Order) : Bool :=
  0 ≤ o.totalCents ∧ 0 ≤ o.discountCents ∧ 0 ≤ o.pointsUsed ∧ 0 ≤ o.pointsEarned

def createOrder (order : Order) : Tx Uuid := do
  ensure order.checks (.database (.check "orders"))
  references (S := Shop) .users order.userId (.database (.foreignKey "users"))
  insert (S := Shop) .orders id fun _ => order

/-- The row a line becomes. -/
def OrderLine.item (orderId : Uuid) (createdAt : Instant) (line : OrderLine) : OrderItem :=
  ⟨orderId, line.target, line.quantity, line.priceCents, line.name, line.stockDecremented,
    createdAt⟩

/-- The CHECK constraints of `order_items`. -/
def OrderItem.checks (i : OrderItem) : Bool := 0 < i.quantity ∧ 0 ≤ i.unitPriceCents

def createOrderItem (orderId : Uuid) (createdAt : Instant) (line : OrderLine) : Tx Uuid := do
  ensure (line.item orderId createdAt).checks (.database (.check "order_items"))
  references (S := Shop) .orders orderId (.database (.foreignKey "orders"))
  targetRef line.target
  insert (S := Shop) .orderItems id fun _ => line.item orderId createdAt

def createOrderItems (orderId : Uuid) (lines : List OrderLine) (createdAt : Instant) : Tx Unit := do
  let _ ← each (createOrderItem orderId createdAt) lines

def updateStatusTx (id : Uuid) (status : OrderStatus) : Tx (Option Order) :=
  updateRow (S := Shop) .orders id (fun _ => true) fun o => { o with status := status }

def insertDomainEventTx (e : DomainEvent) : Tx Unit := do
  let _ ← insert (S := Shop) .outbox id fun _ => e

/-- SELECT … FROM order_items WHERE order_id ORDER BY created_at. -/
def findItemsByOrder (id : Uuid) (d : Db) : List (Uuid × OrderItem) :=
  (d.sel .orderItems fun _ i => i.orderId = id).insertionSort fun a b =>
    a.2.createdAt ≤ b.2.createdAt

def findEnrolmentsByOrder (id : Uuid) (d : Db) : List (Uuid × Enrolment) :=
  (d.sel .enrolments fun _ e => e.orderId = some id).insertionSort fun a b =>
    a.2.enrolledAt ≤ b.2.enrolledAt

def findSubscriptionsByOrder (id : Uuid) (d : Db) : List (Uuid × Subscription) :=
  (d.sel .subscriptions fun _ s => s.orderId = some id).insertionSort fun a b =>
    a.2.startedAt ≤ b.2.startedAt

theorem mem_findItemsByOrder {id i : Uuid} {item : OrderItem} {d : Db} :
    (i, item) ∈ findItemsByOrder id d ↔ d.get .orderItems i = some item ∧ item.orderId = id := by
  rw [findItemsByOrder, (List.perm_insertionSort _ _).mem_iff, Store.mem_sel, decide_eq_true_eq]

/-- The response, read from the pool once the transaction is over. -/
def assembleResponse (id : Uuid) (order : Order) : Tx OrderResponse := do
  let items ← read (S := Shop) (findItemsByOrder id)
  let enrolments ← read (S := Shop) (findEnrolmentsByOrder id)
  let subscriptions ← read (S := Shop) (findSubscriptionsByOrder id)
  return ⟨id, order, items, enrolments, subscriptions⟩

/-! ## Locks -/

structure CheckoutLocks where
  balance : BalanceLock
  products : ProductLocks
  courses : CourseLocks

def acquireCheckoutLocks (userId : Uuid) : Tx CheckoutLocks := do
  let balance ← lockBalanceTx userId
  let targets ← read (S := Shop) (checkoutTargets userId)
  let products ← lockProductsTx targets.productIds
  let courses ← lockCoursesTx targets.courseIds
  return ⟨balance, products, courses⟩

structure RefundLocks where
  balance : BalanceLock
  restock : RestockLocks

def acquireRefundLocks (id : Uuid) (order : Order) : Tx RefundLocks := do
  let balance ← lockBalanceTx order.userId
  let restock ← lockRestockForOrderTx id
  return ⟨balance, restock⟩

/-! ## Idempotency -/

/-- A valid `Idempotency-Key`. -/
abbrev IdempotencyKey := String

def replayByKey (userId : Uuid) (key : IdempotencyKey) : Tx (Option OrderResponse) := do
  let existing ← read (S := Shop) (·.get .orderIdempotency (userId, key))
  match existing with
  | none => return none
  | some orderId => do
    let order ← read (S := Shop) (·.get .orders orderId)
    let order ← orFail order (.internal s!"idempotency row referenced missing order {orderId}")
    let response ← assembleResponse orderId order
    return some response

def replay (userId : Uuid) (key : Option IdempotencyKey) : Tx (Option OrderResponse) :=
  match key with
  | none => return none
  | some key => replayByKey userId key

/-- Release the transaction, then answer with the recorded order or the error. -/
def replayOr (buyer : BalanceLock) (key : Option IdempotencyKey) (otherwise : AppError) :
    Tx OrderResponse :=
  .rollback none <|
    match key with
    | none => throw otherwise
    | some key => do
      let response ← replayByKey buyer.userId key
      orFail response otherwise

inductive Recorded
  | fresh
  | twinWon (response : OrderResponse)

/-- INSERT of the key; `true` if it was taken. -/
def insertIdempotencyTx (userId : Uuid) (key : IdempotencyKey) (orderId : Uuid) : Tx Bool := do
  if ← claim (S := Shop) (.row .orderIdempotency (userId, key))
      (fun d => (d.get .orderIdempotency (userId, key)).isSome) then
    return true
  references (S := Shop) .users userId (.database (.foreignKey "users"))
  references (S := Shop) .orders orderId (.database (.foreignKey "orders"))
  put (S := Shop) (.add .orderIdempotency (userId, key) orderId)
  return false

def record (buyer : BalanceLock) (key : Option IdempotencyKey) (orderId : Uuid) : Tx Recorded :=
  match key with
  | none => return .fresh
  | some key => do
    if ← insertIdempotencyTx buyer.userId key orderId then
      .rollback none do
        let response ← replayByKey buyer.userId key
        let response ← orFail response
            (.internal "idempotency unique violation but no committed row")
        return .twinWon response
    else return .fresh

/-! ## Checkout -/

def paymentMethods : List String := ["credit_card", "line_pay", "atm", "jkopay", "cash"]

structure CheckoutRequest where
  couponCode : Option String
  usePoints : Option Bool
  paymentMethod : Option String
deriving DecidableEq, Repr

structure CheckoutIntent where
  paymentMethod : String
  couponCode : Option String
  usePoints : Bool
deriving DecidableEq, Repr

/-- The characters `str::trim` takes off. -/
def isWhiteSpace (c : Char) : Bool :=
  [0x9, 0xA, 0xB, 0xC, 0xD, 0x20, 0x85, 0xA0, 0x1680, 0x2000, 0x2001, 0x2002, 0x2003,
    0x2004, 0x2005,
    0x2006, 0x2007, 0x2008, 0x2009, 0x200A, 0x2028, 0x2029, 0x202F, 0x205F, 0x3000].contains c.toNat

def trim (s : String) : String :=
  String.ofList (((s.toList.dropWhile isWhiteSpace).reverse.dropWhile isWhiteSpace).reverse)

def parsePaymentMethod : Option String → Except AppError String
  | none => .ok "credit_card"
  | some m =>
    if paymentMethods.contains m then .ok m else
      .error (.validation s!"invalid payment method: {m}")

def parseRequest (req : CheckoutRequest) : Except AppError CheckoutIntent := do
  let paymentMethod ← parsePaymentMethod req.paymentMethod
  return ⟨paymentMethod, (req.couponCode.map trim).filter (· ≠ ""), req.usePoints.getD false⟩

/-- Codes are compared trimmed and in upper case. -/
def normalizeCode (code : String) : String := String.ofList ((trim code).toList.map Char.toUpper)

/-- SELECT … FROM coupons WHERE code AND is_active AND not expired. -/
def findValidCoupon (code : String) (now : Instant) (d : Db) : Option Coupon :=
  ((d.sel .coupons fun _ c =>
    c.code = normalizeCode code ∧ c.isActive ∧ c.expiresAt.all (now < ·)).map Prod.snd).head?

def loadCoupon (code : Option String) (now : Instant) : Tx (Option Coupon) :=
  match code with
  | none => return none
  | some code => do
    let coupon ← read (S := Shop) (findValidCoupon code now)
    let coupon ← orFail coupon (.validation "invalid coupon")
    return some coupon

/-- The subscription a reserved product line grants. -/
def grantLine (buyer : BalanceLock) (reserved : Reserved) (orderId : Uuid) (now : Instant)
    (p : ProductFulfilment) : Tx Unit := do
  let product ← orFail (reserved.find p.productId)
      (.internal "product line was reserved by reserve_stock_tx")
  let _ ← grantFromPurchaseTx buyer p.productId product p.quantity p.priceCents orderId now

/-- The order row of a priced cart, already paid. -/
def paidOrder (userId : Uuid) (outcome : PricingOutcome) (paymentMethod : String)
    (now : Instant) : Order where
  userId := userId
  status := .paid
  totalCents := outcome.totalCents
  discountCents := outcome.discountCents
  couponCode := outcome.appliedCouponCode
  pointsUsed := outcome.pointsUsed
  pointsEarned := outcome.pointsEarned
  paymentMethod := some paymentMethod
  paidAt := some now
  createdAt := now

/-- The writes of a checkout, for a cart that is read and locked: stock, order,
points, enrolments, subscriptions, and the emptied cart. -/
def fulfil (locks : CheckoutLocks) (intent : CheckoutIntent) (cart : List CheckoutLine)
    (outcome : PricingOutcome) (now : Instant) : Tx (Uuid × Order) := do
  let plan := fulfilmentPlan cart
  let reserved ← reserveStockTx locks.products (plan.products.map ProductFulfilment.reserve)
  let lines := orderLines cart reserved
  let order := paidOrder locks.balance.userId outcome intent.paymentMethod now
  let orderId ← createOrder order
  createOrderItems orderId lines now
  let _ ← each (applyDeltaTx locks.balance · now) (outcome.ledgerDeltas orderId)
  let _ ← enrolBatchFromPurchaseTx locks.courses locks.balance plan.courseIds orderId now
  let _ ← each (grantLine locks.balance reserved orderId now) plan.products
  clearCartTx locks.balance.userId
  return (orderId, order)

/-- What a checkout's transaction comes to: an order of its own, or an answer from
an earlier one. -/
inductive Sale
  | sold (orderId : Uuid) (order : Order)
  | replayed (response : OrderResponse)

def orderCreated (orderId : Uuid) (order : Order) : DomainEvent :=
  .orderCreated orderId order.userId order.totalCents order.discountCents order.couponCode
    order.pointsUsed order.pointsEarned

/-- The transaction of a checkout, up to its commit. -/
def checkoutTx (userId : Uuid) (key : Option IdempotencyKey) (intent : CheckoutIntent)
    (now : Instant) :
    Tx Sale := do
  let locks ← acquireCheckoutLocks userId
  let cartItems ← findCartItemsForCheckoutTx locks.balance.userId
  if cartItems.isEmpty then
    let response ← replayOr locks.balance key (.badRequest "cart is empty")
    return .replayed response
  let cart ← checked (ensureAllPurchasable cartItems)
  let coupon ← loadCoupon intent.couponCode now
  let outcome ← checked (price cart coupon locks.balance.balance intent.usePoints)
  let (orderId, order) ← fulfil locks intent cart outcome now
  match ← record locks.balance key orderId with
  | .twinWon response => return .replayed response
  | .fresh =>
    insertDomainEventTx (orderCreated orderId order)
    .commit (return .sold orderId order)

/-- A failed transaction is rolled back when it is dropped. -/
def orRollback {α : Type} (p : Tx α) : Tx α := p.handle .ret fun e => .rollback (some e) (.fail e)

def checkout (userId : Uuid) (key : Option IdempotencyKey) (req : CheckoutRequest) (now : Instant) :
    Tx OrderResponse := do
  match ← replay userId key with
  | some response => return response
  | none =>
    let intent ← checked (parseRequest req)
    match ← orRollback (checkoutTx userId key intent now) with
    | .replayed response => return response
    | .sold orderId order => assembleResponse orderId order

/-! ## Status changes -/

def compensateOrderArtifactsTx (id : Uuid) (order : Order) (now : Instant) : Tx Unit := do
  let locks ← acquireRefundLocks id order
  reverseOrderTx locks.balance id now
  restoreForOrderTx locks.restock
  let _ ← cancelEnrolmentsByOrderTx id
  let _ ← cancelSubscriptionsByOrderTx id

/-- The transaction of a status change, up to its commit: the order as it is then. -/
def updateOrderStatusTx (id : Uuid) (target : OrderStatus) (now : Instant) : Tx Order := do
  let current ← selectFor (S := Shop) .orders id (fun _ => true) .update
  let current ← orFail current (.notFound "order not found")
  match ← checked (decideTransition current.status target) with
  | .noOp => .rollback none (return current)
  | decision => do
    (if decision = .flipAndCompensate then compensateOrderArtifactsTx id current now else pure ())
    let updated ← updateStatusTx id target
    let updated ← orFail updated (.notFound "order not found")
    insertDomainEventTx (.orderStatusChanged id updated.userId target.asStr)
    .commit (return updated)

def updateOrderStatus (id : Uuid) (status : String) (now : Instant) : Tx OrderResponse := do
  let target ← orFail (OrderStatus.fromStr status) (.validation s!"invalid order status: {status}")
  let order ← orRollback (updateOrderStatusTx id target now)
  assembleResponse id order

end DreamFly
