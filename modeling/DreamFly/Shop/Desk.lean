import DreamFly.Shop.Requests

/-!
# The desk

Requests beside the shop's own: staff redeem a session of a subscription, and admins
keep the catalogue of rewards.
-/

namespace DreamFly

open Txn Prog

/-- An UPDATE or INSERT as a transaction of its own; without a row there is nothing to
commit. -/
def autocommit {α : Type} (p : Tx (Option α)) : Tx (Option α) :=
  p.handle
    (fun r => match r with
      | some a => commit (ret (some a))
      | none => rollback none (ret none))
    (fun e => rollback (some e) (fail e))

/-! ## Sessions of a subscription -/

/-- The SQL function `subscription_derived_status`, at the `NOW()` of its statement. -/
def subscriptionDerivedStatus (status : SubscriptionStatus) (expiresAt : Option Instant)
    (remainingSessions : Option ℤ)
    (now : Instant) : SubscriptionStatus :=
  if status = .cancelled then .cancelled
  else if expiresAt.any (· ≤ now) ∨ remainingSessions = some 0 then .expired
  else .active

def Subscription.derivedStatus (s : Subscription) (now : Instant) : SubscriptionStatus :=
  subscriptionDerivedStatus s.status s.expiresAt s.remainingSessions now

/-- The WHERE clause of the redemption; `remaining_sessions > 0` is not true of a NULL. -/
def Subscription.redeemable (now : Instant) (s : Subscription) : Bool :=
  s.derivedStatus now = .active ∧ s.remainingSessions.any (0 < ·)

/-- SET remaining_sessions = remaining_sessions - 1. -/
def Subscription.spend (s : Subscription) : Subscription :=
  { s with remainingSessions := s.remainingSessions.map (· - 1) }

/-- UPDATE subscriptions SET … WHERE id AND derived status active AND remaining_sessions > 0
RETURNING *. -/
def redeemOneSession (id : Uuid) (now : Instant) : Tx (Option Subscription) :=
  autocommit (updateRow (S := Shop) .subscriptions id
    (Subscription.redeemable now) Subscription.spend)

/-- SELECT name FROM products WHERE id, `fetch_one`. -/
def productName (productId : Uuid) : Tx String := do
  let product ← read (S := Shop) (·.get .products productId)
  let product ← orFail product (.database .rowNotFound)
  return product.name

structure SubscriptionResponse where
  id : Uuid
  productId : Uuid
  productName : String
  status : SubscriptionStatus
  startedAt : Instant
  expiresAt : Option Instant
  totalSessions : Option ℤ
  remainingSessions : Option ℤ
  priceCents : ℤ
deriving DecidableEq, Repr

/-- The response is the row that the UPDATE has returned, with its status then. -/
def SubscriptionResponse.fromSubscription (id : Uuid) (s : Subscription) (productName : String)
    (now : Instant) :
    SubscriptionResponse where
  id := id
  productId := s.productId
  productName := productName
  status := s.derivedStatus now
  startedAt := s.startedAt
  expiresAt := s.expiresAt
  totalSessions := s.totalSessions
  remainingSessions := s.remainingSessions
  priceCents := s.priceCents

/-- Why a subscription could not be redeemed; the row is read again. -/
def notRedeemable (id : Uuid) : Tx SubscriptionResponse := do
  let current ← read (S := Shop) (·.get .subscriptions id)
  let current ← orFail current (.notFound "subscription not found")
  if current.remainingSessions.isNone then throw (.conflict "subscription has no session quota")
  throw (.conflict "subscription is not redeemable")

/-- `subscriptions::service::redeem`. -/
def redeemSession (id : Uuid) (now : Instant) : Tx SubscriptionResponse := do
  match ← redeemOneSession id now with
  | some s =>
    let name ← productName s.productId
    return .fromSubscription id s name now
  | none => notRedeemable id

/-! ## The catalogue of rewards -/

/-- The CHECK constraints of `rewards`. -/
def Reward.checks (r : Reward) : Bool := 0 < r.pointsCost ∧ r.stock.all (0 ≤ ·)

/-- `POST /rewards`, without the texts nobody reads here. -/
structure CreateRewardRequest where
  pointsCost : ℤ
  stock : Option ℤ
deriving DecidableEq, Repr

/-- `rewards::service::create`. -/
def createReward (req : CreateRewardRequest) : Tx Reward := atomically do
  let row : Reward := ⟨req.pointsCost, req.stock, true⟩
  ensure row.checks (.database (.check "rewards"))
  let _ ← insert (S := Shop) .rewards id fun _ => row
  return row

/-- `PATCH /rewards/{id}`: `none` leaves a column alone, `some none` clears the stock. -/
structure UpdateRewardRequest where
  pointsCost : Option ℤ
  stock : Option (Option ℤ)
  isActive : Option Bool
deriving DecidableEq, Repr

/-- The SET list. -/
def UpdateRewardRequest.apply (req : UpdateRewardRequest) (r : Reward) : Reward where
  pointsCost := req.pointsCost.getD r.pointsCost
  stock := req.stock.getD r.stock
  isActive := req.isActive.getD r.isActive

/-- UPDATE rewards SET … WHERE id RETURNING *. -/
def updateRewardTx (id : Uuid) (req : UpdateRewardRequest) : Tx (Option Reward) := do
  match ← selectFor (S := Shop) .rewards id (fun _ => true) .noKeyUpdate with
  | none => return none
  | some r =>
    ensure (req.apply r).checks (.database (.check "rewards"))
    put (S := Shop) (.mod .rewards id req.apply)
    return some (req.apply r)

/-- `rewards::service::update`. -/
def updateReward (id : Uuid) (req : UpdateRewardRequest) : Tx Reward := do
  let reward ← autocommit (updateRewardTx id req)
  orFail reward (.notFound "獎勵不存在")

/-! ## The requests -/

inductive DeskReq
  | shop (q : Req)
  | redeemSession (id : Uuid) (now : Instant)
  | createReward (req : CreateRewardRequest)
  | updateReward (id : Uuid) (req : UpdateRewardRequest)

inductive DeskReply
  | shop (r : Reply)
  | subscription (r : SubscriptionResponse)
  | reward (r : Reward)

/-- The code of a request. -/
def DeskReq.prog : DeskReq → Tx DeskReply
  | .shop q => do return .shop (← q.prog)
  | .redeemSession id now => do return .subscription (← DreamFly.redeemSession id now)
  | .createReward req => do return .reward (← DreamFly.createReward req)
  | .updateReward id req => do return .reward (← DreamFly.updateReward id req)

/-- The shop and its desk. -/
def desk : Service Shop AppError DeskReply DeskReq where
  prog := DeskReq.prog
  crash := .database .connection

end DreamFly
