import DreamFly.Shop.Points
import DreamFly.Shop.Products
import DreamFly.Shop.Seats

/-!
# Enrolments and subscriptions

What a purchase grants and a refund takes back. Cancelling an enrolment cancels
its pending leave requests in the same transaction.
-/

namespace DreamFly

open Txn Prog

/-! ## Enrolling -/

/-- The user has an active enrolment in the course. -/
def existsActive (userId courseId : Uuid) (d : Db) : Bool :=
  !(d.sel .enrolments fun _ e => e.userId = userId ∧ e.courseId = courseId ∧
    e.status = .active).isEmpty

/-- INSERT of an active enrolment, under `uniq_enrolments_active`. -/
def insertEnrolmentTx (userId courseId orderId : Uuid) (now : Instant) : Tx Uuid := do
  if ← claim (S := Shop) (.uniq (.enrolment userId courseId)) (existsActive userId courseId) then
    throw (AppError.conflictOnUnique (.unique "uniq_enrolments_active") "already enrolled")
  references (S := Shop) .users userId (.database (.foreignKey "users"))
  references (S := Shop) .courses courseId (.database (.foreignKey "courses"))
  references (S := Shop) .orders orderId (.database (.foreignKey "orders"))
  insert (S := Shop) .enrolments id fun _ =>
    { userId := userId, courseId := courseId, orderId := some orderId, status :=
      .active, enrolledAt := now }

def enrolOneTx (locks : CourseLocks) (userId courseId orderId : Uuid) (now : Instant) :
    Tx Uuid := do
  let seats ← courseSeatsTx locks courseId
  let seats ← orFail seats (.notFound "course not found")
  ensure (!seats.isFull) (.conflict "course is full")
  let enrolled ← read (S := Shop) (existsActive userId courseId)
  ensure (!enrolled) (.conflict "already enrolled")
  insertEnrolmentTx userId courseId orderId now

def enrolBatchFromPurchaseTx (locks : CourseLocks) (buyer : BalanceLock) (courseIds : List Uuid)
    (orderId : Uuid) (now : Instant) : Tx (List Uuid) := do
  let ordered ← checked (locks.inLockOrder courseIds)
  each (enrolOneTx locks buyer.userId · orderId now) ordered

/-! ## Cancelling -/

def Enrolment.cancel (e : Enrolment) : Enrolment := { e with status := .cancelled }

def LeaveRequest.cancel (r : LeaveRequest) : LeaveRequest := { r with status := .cancelled }

/-- UPDATE leave_requests SET status = 'cancelled' WHERE enrolment_id = ANY AND status = 'pending'.
-/
def cancelPendingForEnrolmentsTx (enrolmentIds : List Uuid) : Tx ℕ := do
  let rows ← updateAll (S := Shop) .leaveRequests
    (fun _ r => enrolmentIds.contains r.enrolmentId ∧ r.status = .pending) LeaveRequest.cancel
  return rows.length

def cancelEnrolmentsByOrderTx (orderId : Uuid) : Tx ℕ := do
  let flipped ← updateAll (S := Shop) .enrolments
    (fun _ e => e.orderId = some orderId ∧ e.status ≠ .cancelled) Enrolment.cancel
  if !flipped.isEmpty then
    let _ ← cancelPendingForEnrolmentsTx (flipped.map Prod.fst)
  return flipped.length

def cancelEnrolment (auth : AuthUser) (id : Uuid) : Tx Enrolment := atomically do
  let enrolment ← selectFor (S := Shop) .enrolments id (fun _ => true) .noKeyUpdate
  let enrolment ← orFail enrolment (.notFound "enrolment not found")
  checked (auth.ownsOrAdmin enrolment.userId "you can only cancel your own enrolments")
  let updated ← updateRow (S := Shop) .enrolments id
    (fun e => e.status ≠ .cancelled) Enrolment.cancel
  let updated ← orFail updated (.conflict "enrolment already cancelled")
  let _ ← cancelPendingForEnrolmentsTx [id]
  return updated

/-! ## Subscriptions -/

structure EntitlementGrant where
  totalSessions : Option ℤ
  remainingSessions : Option ℤ
  expiresAt : Option Instant
deriving DecidableEq, Repr

/-- A day in the unit of instants. -/
def day : ℤ := 86400000000

/-- What `quantity` units of a product entitle to. -/
def entitlementPlan (product : Product) (quantity : ℤ) (now : Instant) : Option EntitlementGrant :=
  if product.productType = .membership ∨ product.productType = .ticket then
    match product.sessionCount, product.validDays with
    | some count, validDays =>
      let total := wrapI32 (count * quantity)
      some ⟨some total, some total, validDays.map fun days => now + days * day⟩
    | none, some days => some ⟨none, none, some (now + days * day)⟩
    | none, none => some ⟨none, none, none⟩
  else none

def grantFromPurchaseTx (buyer : BalanceLock) (productId : Uuid) (product : Product)
    (quantity priceCents : ℤ)
    (orderId : Uuid) (now : Instant) : Tx (Option Uuid) := do
  match entitlementPlan product quantity now with
  | none => return none
  | some grant =>
    references (S := Shop) .users buyer.userId (.database (.foreignKey "users"))
    references (S := Shop) .products productId (.database (.foreignKey "products"))
    references (S := Shop) .orders orderId (.database (.foreignKey "orders"))
    ensure (grant.totalSessions.all (0 < ·) ∧ grant.remainingSessions.all (0 ≤ ·))
      (.database (.check "subscriptions"))
    let id ← insert (S := Shop) .subscriptions id fun _ =>
      { userId := buyer.userId, productId := productId, orderId := some orderId, status := .active
        expiresAt := grant.expiresAt, totalSessions := grant.totalSessions
        remainingSessions := grant.remainingSessions, priceCents := priceCents, startedAt := now }
    return some id

def Subscription.cancel (s : Subscription) : Subscription := { s with status := .cancelled }

/-- UPDATE subscriptions SET status = 'cancelled' WHERE order_id AND status <> 'cancelled'. -/
def cancelSubscriptionsByOrderTx (orderId : Uuid) : Tx ℕ := do
  let rows ← updateAll (S := Shop) .subscriptions
    (fun _ s => s.orderId = some orderId ∧ s.status ≠ .cancelled) Subscription.cancel
  return rows.length

end DreamFly
