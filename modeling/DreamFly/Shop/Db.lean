import DreamFly.Base
import DreamFly.Txn.Sql

/-!
# The shop's tables

The columns the modelled services read and write. Cart rows are keyed by their
owner beside their id, attendance rows by session and enrolment: every statement
on these tables names both.
-/

namespace DreamFly

open Txn

/-! ## Rows -/

inductive PointReason
  | checkoutEarn
  | checkoutRedeem
  | adminAdjust
  | redeem
  | refundRestore
  | refundClawback
deriving DecidableEq, Repr

inductive OrderStatus
  | pending
  | paid
  | processing
  | completed
  | cancelled
  | refunded
deriving DecidableEq, Repr

inductive ProductType
  | ticket
  | coursePackage
  | membership
  | merchandise
deriving DecidableEq, Repr

/-- What a cart or order line is for. -/
inductive LineTarget
  | product (id : Uuid)
  | course (id : Uuid)
deriving DecidableEq, Repr

inductive EnrolmentStatus
  | active
  | cancelled
deriving DecidableEq, Repr

inductive LeaveStatus
  | pending
  | approved
  | rejected
  | cancelled
deriving DecidableEq, Repr

inductive SubscriptionStatus
  | active
  | expired
  | cancelled
deriving DecidableEq, Repr

inductive AttendanceStatus
  | present
  | absent
  | leave
deriving DecidableEq, Repr

structure User where
  pointsBalance : ℤ
deriving DecidableEq, Repr

structure LedgerRow where
  userId : Uuid
  delta : ℤ
  reason : PointReason
  orderId : Option Uuid
  createdAt : Instant
deriving DecidableEq, Repr

structure Order where
  userId : Uuid
  status : OrderStatus
  totalCents : ℤ
  discountCents : ℤ
  couponCode : Option String
  pointsUsed : ℤ
  pointsEarned : ℤ
  paymentMethod : Option String
  paidAt : Option Instant
  createdAt : Instant
deriving DecidableEq, Repr

structure OrderItem where
  orderId : Uuid
  target : LineTarget
  quantity : ℤ
  unitPriceCents : ℤ
  name : String
  stockDecremented : Bool
  createdAt : Instant
deriving DecidableEq, Repr

structure Product where
  name : String
  productType : ProductType
  priceCents : ℤ
  stock : Option ℤ
  validDays : Option ℤ
  sessionCount : Option ℤ
  isActive : Bool
deriving DecidableEq, Repr

structure Course where
  name : String
  priceCents : ℤ
  maxStudents : ℤ
  minAge : Option ℤ
  maxAge : Option ℤ
  isActive : Bool
  coachId : Option Uuid
deriving DecidableEq, Repr

structure CartItem where
  target : LineTarget
  quantity : ℤ
  createdAt : Instant
deriving DecidableEq, Repr

structure Coupon where
  code : String
  discountCents : ℤ
  isActive : Bool
  expiresAt : Option Instant
deriving DecidableEq, Repr

structure Enrolment where
  userId : Uuid
  courseId : Uuid
  orderId : Option Uuid
  status : EnrolmentStatus
  enrolledAt : Instant
deriving DecidableEq, Repr

structure Subscription where
  userId : Uuid
  productId : Uuid
  orderId : Option Uuid
  status : SubscriptionStatus
  expiresAt : Option Instant
  totalSessions : Option ℤ
  remainingSessions : Option ℤ
  priceCents : ℤ
  startedAt : Instant
deriving DecidableEq, Repr

structure Reward where
  pointsCost : ℤ
  stock : Option ℤ
  isActive : Bool
deriving DecidableEq, Repr

structure Redemption where
  rewardId : Uuid
  userId : Uuid
  pointsSpent : ℤ
deriving DecidableEq, Repr

structure Session where
  courseId : Uuid
  sessionDate : ℤ
  startTime : ℤ
deriving DecidableEq, Repr

structure LeaveRequest where
  enrolmentId : Uuid
  sessionId : Uuid
  reason : Option String
  status : LeaveStatus
  makeupSessionId : Option Uuid
  decidedBy : Option Uuid
deriving DecidableEq, Repr

structure Attendance where
  status : AttendanceStatus
  markedBy : Uuid
deriving DecidableEq, Repr

/-- A coach profile: the user it belongs to. -/
structure Coach where
  userId : Uuid
deriving DecidableEq, Repr

/-- The events the orders module queues. -/
inductive DomainEvent
  | orderCreated (orderId userId : Uuid) (totalCents discountCents : ℤ) (couponCode : Option String)
      (pointsUsed pointsEarned : ℤ)
  | orderStatusChanged (orderId userId : Uuid) (status : String)
deriving DecidableEq, Repr

/-! ## The schema -/

inductive ShopTbl
  | users | pointLedger | orders | orderItems | orderIdempotency
  | products | courses | cartItems | coupons
  | enrolments | subscriptions | rewards | redemptions
  | sessions | leaveRequests | attendance | coaches | outbox
deriving DecidableEq, Repr

/-- Unique index entries beside the primary keys. -/
inductive ShopUniq
  /-- `uniq_enrolments_active (user_id, course_id) WHERE status = 'active'` -/
  | enrolment (user course : Uuid)
  /-- `uniq_point_ledger_refund_once (order_id, reason)` on the refund reasons -/
  | refund (order : Uuid) (reason : PointReason)
  /-- `uniq_cart_items_product` and `uniq_cart_items_course` -/
  | cartLine (user : Uuid) (target : LineTarget)
  /-- `uniq_leave_requests_active (enrolment_id, session_id)` on pending and approved -/
  | leave (enrolment session : Uuid)
deriving DecidableEq, Repr

@[reducible] def ShopTbl.Key : ShopTbl → Type
  | .orderIdempotency => Uuid × String
  | .cartItems => Uuid × Uuid
  | .attendance => Uuid × Uuid
  | _ => Uuid

@[reducible] def ShopTbl.Row : ShopTbl → Type
  | .users => User
  | .pointLedger => LedgerRow
  | .orders => Order
  | .orderItems => OrderItem
  | .orderIdempotency => Uuid
  | .products => Product
  | .courses => Course
  | .cartItems => CartItem
  | .coupons => Coupon
  | .enrolments => Enrolment
  | .subscriptions => Subscription
  | .rewards => Reward
  | .redemptions => Redemption
  | .sessions => Session
  | .leaveRequests => LeaveRequest
  | .attendance => Attendance
  | .coaches => Coach
  | .outbox => DomainEvent

instance : ∀ t : ShopTbl, DecidableEq t.Key
  | .orderIdempotency => inferInstanceAs (DecidableEq (Uuid × String))
  | .cartItems => inferInstanceAs (DecidableEq (Uuid × Uuid))
  | .attendance => inferInstanceAs (DecidableEq (Uuid × Uuid))
  | .users | .pointLedger | .orders | .orderItems | .products | .courses | .coupons | .enrolments
  | .subscriptions | .rewards | .redemptions | .sessions | .leaveRequests | .coaches | .outbox =>
    inferInstanceAs (DecidableEq ℕ)

@[reducible] def Shop : Schema where
  Tbl := ShopTbl
  Key := ShopTbl.Key
  Row := ShopTbl.Row
  Uniq := ShopUniq

/-- The shop's database. -/
abbrev Db := Store Shop

/-- A piece of a shop transaction. -/
abbrev Tx := Prog Shop AppError

end DreamFly
