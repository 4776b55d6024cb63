import DreamFly.Shop.Orders
import DreamFly.Shop.Rewards
import DreamFly.Shop.Leave
import DreamFly.Txn.Sys

/-!
# The running shop

Every request with its code, as one service whose calls interleave.
-/

namespace DreamFly

open Txn

inductive Req
  | checkout (userId : Uuid) (key : Option IdempotencyKey) (req : CheckoutRequest) (now : Instant)
  | updateOrderStatus (id : Uuid) (status : String) (now : Instant)
  | redeem (userId rewardId : Uuid) (now : Instant)
  | adjustPoints (req : AdjustPointsRequest) (now : Instant)
  | addItem (userId : Uuid) (itemType : String) (itemId : Uuid) (quantity : ℤ)
  | updateQuantity (userId itemId : Uuid) (quantity : ℤ)
  | removeItem (userId itemId : Uuid)
  | clearCart (userId : Uuid)
  | updateProduct (id : Uuid) (req : UpdateProductRequest)
  | updateCourse (id : Uuid) (req : UpdateCourseRequest)
  | setCourseActive (id : Uuid) (b : Bool)
  | cancelEnrolment (auth : AuthUser) (id : Uuid)
  | createLeaveRequest (at' : StudioNow) (auth : AuthUser) (sessionId : Uuid)
  (reason : Option String)
  | cancelLeaveRequest (auth : AuthUser) (id : Uuid)
  | decideLeaveRequest (auth : AuthUser) (id : Uuid) (newStatus : String)
  | bookMakeup (at' : StudioNow) (auth : AuthUser) (id sessionId : Uuid)
  | bulkUpsertAttendance (at' : StudioNow) (auth : AuthUser) (sessionId : Uuid)
  (records : List AttendanceRecordEntry)

inductive Reply
  | order (r : OrderResponse)
  | redemption (r : RedeemResponse)
  | balance (balance : ℤ)
  | cart (r : CartResponse)
  | product (p : Product)
  | course (c : Course)
  | enrolment (e : Enrolment)
  | leaveId (id : Uuid)
  | leave (r : LeaveRequest)
  | roster (entries : List RosterEntry)
  | done

/-- The code of a request. -/
def Req.prog : Req → Tx Reply
  | .checkout userId key req now => do return .order (← DreamFly.checkout userId key req now)
  | .updateOrderStatus id status now =>
    do return .order (← DreamFly.updateOrderStatus id status now)
  | .redeem userId rewardId now => do return .redemption (← DreamFly.redeem userId rewardId now)
  | .adjustPoints req now => do return .balance (← DreamFly.adjustPoints req now)
  | .addItem userId itemType itemId quantity =>
    do return .cart (← DreamFly.addItem userId itemType itemId quantity)
  | .updateQuantity userId itemId quantity =>
    do return .cart (← DreamFly.updateQuantity userId itemId quantity)
  | .removeItem userId itemId => do return .cart (← DreamFly.removeItem userId itemId)
  | .clearCart userId => do DreamFly.clear userId; return .done
  | .updateProduct id req => do return .product (← DreamFly.updateProduct id req)
  | .updateCourse id req => do return .course (← DreamFly.updateCourse id req)
  | .setCourseActive id b => do DreamFly.setCourseActive id b; return .done
  | .cancelEnrolment auth id => do return .enrolment (← DreamFly.cancelEnrolment auth id)
  | .createLeaveRequest at' auth sessionId reason =>
    do return .leaveId (← DreamFly.createLeaveRequest at' auth sessionId reason)
  | .cancelLeaveRequest auth id => do DreamFly.cancelLeaveRequest auth id; return .done
  | .decideLeaveRequest auth id newStatus =>
    do return .leave (← DreamFly.decideLeaveRequest auth id newStatus)
  | .bookMakeup at' auth id sessionId =>
    do return .leave (← DreamFly.bookMakeup at' auth id sessionId)
  | .bulkUpsertAttendance at' auth sessionId records =>
    do return .roster (← DreamFly.bulkUpsertAttendance at' auth sessionId records)

/-- The service: a call whose connection is lost ends with a database error. -/
def shop : Service Shop AppError Reply Req where
  prog := Req.prog
  crash := .database .connection

end DreamFly
