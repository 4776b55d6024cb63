import DreamFly.Shop.Db
import DreamFly.Lists.Paging
import Mathlib.Data.Prod.Lex

/-!
# The points ledger of a user

The listing behind `GET /points/me`: newest row first, each with the balance after it,
which is derived when it is read.
-/

namespace DreamFly

open Txn Lists

def findBalance (userId : Uuid) (d : Db) : Option ℤ := (d.get .users userId).map User.pointsBalance

/-- A row of the listing. -/
structure PointLedgerEntry where
  id : Uuid
  userId : Uuid
  delta : ℤ
  balanceAfter : ℤ
  reason : PointReason
  orderId : Option Uuid
  createdAt : Instant
deriving DecidableEq, Repr

/-- ORDER BY created_at DESC, id DESC. -/
def newer (a b : Uuid × LedgerRow) : Prop :=
  b.2.createdAt < a.2.createdAt ∨ a.2.createdAt = b.2.createdAt ∧ b.1 ≤ a.1

instance : DecidableRel newer := fun _ _ => inferInstanceAs (Decidable (_ ∨ _))

/-- The ledger rows of a user, newest first. -/
def ledgerRows (userId : Uuid) (d : Db) : List (Uuid × LedgerRow) :=
  (d.sel .pointLedger fun _ r => r.userId = userId).insertionSort newer

/-- SUM(delta) over some rows, 0 if there are none. -/
def sumDeltas (rows : List (Uuid × LedgerRow)) : ℤ := (rows.map fun e => e.2.delta).sum

/-- The whole listing. The window of a row is every row before it. -/
def ledgerListing (userId : Uuid) (balance : ℤ) (d : Db) : List PointLedgerEntry :=
  let rows := ledgerRows userId d
  rows.mapIdx fun i e =>
    ⟨e.1, e.2.userId, e.2.delta, balance - sumDeltas (rows.take i), e.2.reason, e.2.orderId,
      e.2.createdAt⟩

/-- The cast of `balance_after`. -/
def PointLedgerEntry.cast (e : PointLedgerEntry) : Except DbError PointLedgerEntry := do
  return { e with balanceAfter := ← toBigint e.balanceAfter }

def findLedgerByUser (userId : Uuid) (limit offset : UInt32) (d : Db) :
    Except DbError (List PointLedgerEntry) :=
  match d.get .users userId with
  -- a user that is not there has no ledger rows
  | none => .ok []
  | some user => do
    -- rows that OFFSET skips are computed too, those after the last one wanted are not
    let wanted := if limit = 0 then 0 else offset.toNat + limit.toNat
    let entries ← ((ledgerListing userId user.pointsBalance d).take wanted).mapM
        PointLedgerEntry.cast
    return entries.drop offset.toNat

def countLedgerByUser (userId : Uuid) (d : Db) : ℤ := d.count .pointLedger fun _ r =>
    r.userId = userId

/-- The `checkout_earn` rows of the studio month of `now`. -/
def sumEarnedInStudioMonth (userId : Uuid) (month : MonthOf) (now : Instant) (d : Db) :
    Except DbError ℤ :=
  toBigint (sumDeltas (d.sel .pointLedger fun _ r =>
    r.userId = userId ∧ r.reason = .checkoutEarn ∧ month r.createdAt = month now))

structure PointsMeResponse where
  balance : ℤ
  earnedThisMonth : ℤ
  ledger : List PointLedgerEntry
  pageMeta : PageMeta
deriving DecidableEq, Repr

/-- `GET /points/me`: its four reads share the snapshot `d`. -/
def getMyPoints (userId : Uuid) (pagination : PaginationParams) (month : MonthOf) (now : Instant)
    (d : Db) :
    Except AppError PointsMeResponse := do
  let balance ← (findBalance userId d).elim (.error (.notFound "user not found")) .ok
  let entries ← (findLedgerByUser userId pagination.limit pagination.offset d).mapError .database
  let earned ← (sumEarnedInStudioMonth userId month now d).mapError .database
  return ⟨balance, earned, entries, pagination.toMeta (countLedgerByUser userId d)⟩

end DreamFly
