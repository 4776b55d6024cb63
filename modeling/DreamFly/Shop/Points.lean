import DreamFly.Shop.Db

/-!
# Points

Every change to a user's balance, with its ledger row: `applyDeltaTx` is the only
path, and it takes the `BalanceLock` that `lockBalanceTx` hands out for a locked
`users` row.
-/

namespace DreamFly

open Txn Prog

/-! ## Deltas -/

/-- A ledger write: the signed delta with its reason and, where the reason asks
for one, the order. -/
structure LedgerDelta where
  delta : ℤ
  reason : PointReason
  orderId : Option Uuid
deriving DecidableEq, Repr

namespace LedgerDelta

def checkoutEarn (magnitude : ℤ) (orderId : Uuid) : LedgerDelta :=
  ⟨magnitude, .checkoutEarn, some orderId⟩

def checkoutRedeem (magnitude : ℤ) (orderId : Uuid) : LedgerDelta :=
  ⟨-magnitude, .checkoutRedeem, some orderId⟩

def redeem (magnitude : ℤ) : LedgerDelta := ⟨-magnitude, .redeem, none⟩

def refundRestore (magnitude : ℤ) (orderId : Uuid) : LedgerDelta :=
  ⟨magnitude, .refundRestore, some orderId⟩

def refundClawback (magnitude : ℤ) (orderId : Uuid) : LedgerDelta :=
  ⟨-magnitude, .refundClawback, some orderId⟩

def adminAdjust (signedDelta : ℤ) : LedgerDelta := ⟨signedDelta, .adminAdjust, none⟩

end LedgerDelta

/-- One order's checkout point flow, as its ledger rows have it. -/
structure OrderPointsFlow where
  earned : ℤ
  redeemed : ℤ
deriving DecidableEq, Repr

/-- Restore first, claw back second; zero magnitudes are skipped. -/
def OrderPointsFlow.reversalDeltas (f : OrderPointsFlow) (orderId : Uuid) : List LedgerDelta :=
  (if f.redeemed > 0 then [.refundRestore f.redeemed orderId] else []) ++
    (if f.earned > 0 then [.refundClawback f.earned orderId] else [])

/-! ## Statements -/

/-- UPDATE users SET points_balance = points_balance + δ RETURNING points_balance. -/
def adjustBalanceTx (userId : Uuid) (delta : ℤ) : Tx (Except DbError (Option ℤ)) := do
  match ← selectFor (S := Shop) .users userId (fun _ => true) .noKeyUpdate with
  | none => return .ok none
  | some u =>
    let balance := u.pointsBalance + delta
    if !fitsI64 balance then
      return .error .outOfRange
    else if balance < 0 then
      return .error (.check "users_points_balance_check")
    else do
      put (S := Shop) (.mod .users userId fun u => { u with pointsBalance :=
        u.pointsBalance + delta })
      return .ok (some balance)

/-- The reasons the unique index `uniq_point_ledger_refund_once` covers. -/
def PointReason.isRefund : PointReason → Bool
  | .refundRestore | .refundClawback => true
  | _ => false

/-- A ledger row with this order and reason is there already. -/
def refundTaken (order : Uuid) (reason : PointReason) (d : Db) : Bool :=
  !(d.sel .pointLedger fun _ r => r.orderId = some order ∧ r.reason = reason).isEmpty

/-- The unique index on refund rows, for the reasons and orders it covers. -/
def claimRefund (reason : PointReason) (orderId : Option Uuid) : Tx Unit :=
  match reason.isRefund, orderId with
  | true, some o => do
    if ← claim (S := Shop) (.uniq (.refund o reason)) (refundTaken o reason) then
      throw (.database (.unique "uniq_point_ledger_refund_once"))
  | _, _ => return ()

/-- The foreign key from a ledger row to its order. -/
def ledgerOrderRef (orderId : Option Uuid) : Tx Unit :=
  match orderId with
  | none => return ()
  | some o => references (S := Shop) .orders o (.database (.foreignKey "orders"))

def insertLedgerTx (userId : Uuid) (delta : ℤ) (reason : PointReason) (orderId : Option Uuid)
    (now : Instant) : Tx Unit := do
  claimRefund reason orderId
  references (S := Shop) .users userId (.database (.foreignKey "users"))
  ledgerOrderRef orderId
  let _ ← insert (S := Shop) .pointLedger id fun _ =>
    { userId := userId, delta := delta, reason := reason, orderId := orderId, createdAt := now }

/-- What an order earned and redeemed at checkout, summed over its ledger rows. -/
def orderFlowSums (d : Db) (orderId : Uuid) : OrderPointsFlow where
  earned := d.total .pointLedger fun _ r =>
    if r.orderId = some orderId ∧ r.reason = .checkoutEarn then r.delta else 0
  redeemed := - d.total .pointLedger fun _ r =>
    if r.orderId = some orderId ∧ r.reason = .checkoutRedeem then r.delta else 0

/-- The sums as `bigint`: a sum that does not fit is refused. -/
def findOrderFlowSumsTx (orderId : Uuid) : Tx OrderPointsFlow := do
  let f ← read (S := Shop) (orderFlowSums · orderId)
  ensure (fitsI64 f.earned && fitsI64 f.redeemed) (.database .outOfRange)
  return f

/-! ## Service -/

/-- The user's row is locked, with the balance read under the lock. -/
structure BalanceLock where
  userId : Uuid
  balance : ℤ
deriving DecidableEq, Repr

def lockBalanceTx (userId : Uuid) : Tx BalanceLock := do
  let u ← selectFor (S := Shop) .users userId (fun _ => true) .update
  let u ← orFail u (.notFound "user not found")
  return ⟨userId, u.pointsBalance⟩

def insufficientPoints : AppError := .conflict "點數不足"

/-- The balance after the UPDATE, or what its failure means to the caller. Only the
balance CHECK means too few points. -/
def balanceAfter (userId : Uuid) : Except DbError (Option ℤ) → Except AppError ℤ
  | .ok (some balance) => .ok balance
  | .ok none => .error (.internal s!"users row {userId} missing under its BalanceLock")
  | .error (.check constraint) =>
    if constraint = "users_points_balance_check" then .error insufficientPoints
    else .error (.database (.check constraint))
  | .error e => .error (.database e)

def applyDeltaTx (lock : BalanceLock) (ld : LedgerDelta) (now : Instant) : Tx ℤ := do
  ensure (ld.delta ≠ 0) (.validation "delta must be non-zero")
  let adjusted ← adjustBalanceTx lock.userId ld.delta
  let balance ← checked (balanceAfter lock.userId adjusted)
  insertLedgerTx lock.userId ld.delta ld.reason ld.orderId now
  return balance

def trySpendTx (userId : Uuid) (cost : ℤ) (now : Instant) : Tx ℤ := do
  ensure (0 < cost) (.validation "cost must be positive")
  let lock ← lockBalanceTx userId
  ensure (cost ≤ lock.balance) insufficientPoints
  applyDeltaTx lock (.redeem cost) now

def reverseOrderTx (lock : BalanceLock) (orderId : Uuid) (now : Instant) : Tx Unit := do
  let flow ← findOrderFlowSumsTx orderId
  let _ ← each (applyDeltaTx lock · now) (flow.reversalDeltas orderId)

/-- `POST /points/adjustments`: the amounts the request carries. -/
structure AdjustPointsRequest where
  userId : Uuid
  delta : ℤ
  expectedBalance : ℤ
deriving DecidableEq, Repr

def adjustPoints (req : AdjustPointsRequest) (now : Instant) : Tx ℤ := atomically do
  let lock ← lockBalanceTx req.userId
  ensure (lock.balance = req.expectedBalance)
    (.conflict s!"balance mismatch: expected {req.expectedBalance}, actual {lock.balance}")
  applyDeltaTx lock (.adminAdjust req.delta) now

end DreamFly
