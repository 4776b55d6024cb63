import DreamFly.Shop.Points
import DreamFly.Shop.Cart

/-!
# Pricing and fulfilment

The pure steps of a checkout: the purchasability gate, the price of the cart with
coupon and points, the split of its lines, and the order lines. Beside them the
decision a status change makes.
-/

namespace DreamFly

open Txn Prog

/-! ## The cart as a whole -/

/-- The message naming every delisted line. -/
def delistedMsg (names : List String) : String :=
  "以下項目已下架,請先自購物車移除再結帳:" ++ String.intercalate "、" (names.map fun n => "「" ++ n ++ "」")

/-- Every line is still on sale, or the whole checkout is refused. -/
def ensureAllPurchasable (lines : List CheckoutLine) : Except AppError (List CheckoutLine) :=
  if lines.all fun line => line.isActive then .ok lines
  else .error (.validation (delistedMsg
    ((lines.filter fun line => !line.isActive).map CheckoutLine.name)))

/-! ## Pricing -/

structure PricingOutcome where
  subtotalCents : ℤ
  discountCents : ℤ
  appliedCouponCode : Option String
  pointsUsed : ℤ
  totalCents : ℤ
  pointsEarned : ℤ
deriving DecidableEq, Repr

/-- Redeem before earn; zero magnitudes are skipped. -/
def PricingOutcome.ledgerDeltas (o : PricingOutcome) (orderId : Uuid) : List LedgerDelta :=
  (if o.pointsUsed > 0 then [.checkoutRedeem o.pointsUsed orderId] else []) ++
    (if o.pointsEarned > 0 then [.checkoutEarn o.pointsEarned orderId] else [])

def clampCouponDiscount (couponCents subtotalCents : ℤ) : ℤ := min couponCents subtotalCents

/-- The running subtotal over the lines, checked at every step. -/
def subtotal : ℤ → List CheckoutLine → Except AppError ℤ
  | sum, [] => .ok sum
  | sum, line :: lines =>
    match (checkedLineSubtotal line.priceCents line.quantity).bind (checkedAdd sum) with
    | none => .error (.validation "order total overflow")
    | some sum => subtotal sum lines

def price (cart : List CheckoutLine) (coupon : Option Coupon) (pointsBalance : ℤ)
    (usePoints : Bool) :
    Except AppError PricingOutcome := do
  let subtotalCents ← subtotal 0 cart
  let discountCents := coupon.elim 0 fun c => clampCouponDiscount c.discountCents subtotalCents
  let afterCouponCents := subtotalCents - discountCents
  let pointsUsed := if usePoints then min pointsBalance (afterCouponCents.tdiv 100) else 0
  let totalCents := afterCouponCents - pointsUsed * 100
  let pointsEarned := (totalCents.tdiv 100 * 5 + 50).tdiv 100
  return ⟨subtotalCents, discountCents, coupon.map Coupon.code, pointsUsed, totalCents,
    pointsEarned⟩

/-- The same computation with every `i64` operation checked; `none` where one of them
wraps. -/
def priceChecked (cart : List CheckoutLine) (coupon : Option Coupon) (pointsBalance : ℤ)
    (usePoints : Bool) :
    Option (Except AppError PricingOutcome) :=
  match subtotal 0 cart with
  | .error e => some (.error e)
  | .ok subtotalCents => do
    let discountCents := coupon.elim 0 fun c => clampCouponDiscount c.discountCents subtotalCents
    let afterCouponCents ← checkedSub subtotalCents discountCents
    let pointsUsed ← if usePoints then (checkedDiv afterCouponCents 100).map (min pointsBalance)
        else some 0
    let pointsCents ← checkedMul pointsUsed 100
    let totalCents ← checkedSub afterCouponCents pointsCents
    let totalNt ← checkedDiv totalCents 100
    let fiveTimes ← checkedMul totalNt 5
    let rounded ← checkedAdd fiveTimes 50
    let pointsEarned ← checkedDiv rounded 100
    return .ok ⟨subtotalCents, discountCents, coupon.map Coupon.code, pointsUsed, totalCents,
      pointsEarned⟩

/-! ## Fulfilment -/

structure ProductFulfilment where
  productId : Uuid
  quantity : ℤ
  priceCents : ℤ
  name : String
deriving DecidableEq, Repr

/-- A product line, to be reserved and granted. -/
def CheckoutLine.productLine (line : CheckoutLine) : Option ProductFulfilment :=
  match line.target with
  | .product id => some ⟨id, line.quantity, line.priceCents, line.name⟩
  | .course _ => none

structure FulfilmentPlan where
  products : List ProductFulfilment
  courseIds : List Uuid
deriving DecidableEq, Repr

def fulfilmentPlan (cart : List CheckoutLine) : FulfilmentPlan where
  products := cart.filterMap CheckoutLine.productLine
  courseIds := cart.filterMap fun line => line.target.courseId

def ProductFulfilment.reserve (p : ProductFulfilment) : ReserveLine :=
  (p.productId, p.quantity, p.name)

structure OrderLine where
  target : LineTarget
  quantity : ℤ
  priceCents : ℤ
  name : String
  stockDecremented : Bool
deriving DecidableEq, Repr

/-- A line takes stock if its product, as reserved, has any. -/
def orderLine (reserved : Reserved) (line : CheckoutLine) : OrderLine where
  target := line.target
  quantity := line.quantity
  priceCents := line.priceCents
  name := line.name
  stockDecremented :=
    match line.target with
    | .product id => (reserved.find id).any fun p => p.stock.isSome
    | .course _ => false

def orderLines (cart : List CheckoutLine) (reserved : Reserved) : List OrderLine :=
  cart.map (orderLine reserved)

/-! ## Status changes -/

namespace OrderStatus

def all : List OrderStatus := [.pending, .paid, .processing, .completed, .cancelled, .refunded]

def asStr : OrderStatus → String
  | .pending => "pending"
  | .paid => "paid"
  | .processing => "processing"
  | .completed => "completed"
  | .cancelled => "cancelled"
  | .refunded => "refunded"

def fromStr (s : String) : Option OrderStatus := all.find? (·.asStr = s)

def canTransitionTo : OrderStatus → OrderStatus → Bool
  | .pending, .cancelled => true
  | .paid, .processing => true
  | .paid, .refunded => true
  | .paid, .cancelled => true
  | .processing, .completed => true
  | .processing, .refunded => true
  | .completed, .refunded => true
  | _, _ => false

def isRevenue : OrderStatus → Bool
  | .paid | .processing | .completed => true
  | .pending | .cancelled | .refunded => false

/-- Cancelled and refunded: the two final labels of one compensation. -/
def isReversal : OrderStatus → Bool
  | .cancelled | .refunded => true
  | _ => false

end OrderStatus

inductive TransitionDecision
  | noOp
  | flip
  | flipAndCompensate
deriving DecidableEq, Repr

def compensationRequired (current target : OrderStatus) : Bool :=
  current.isRevenue && target.isReversal

def decideTransition (current target : OrderStatus) : Except AppError TransitionDecision :=
  if current = target then .ok .noOp
  else if !current.canTransitionTo target then
    .error (.badRequest s!"cannot transition order from '{current.asStr}' to '{target.asStr}'")
  else if compensationRequired current target then .ok .flipAndCompensate
  else .ok .flip

end DreamFly
