import DreamFly.Shop.Points

/-!
# Rewards

Redeeming points for a reward: the reward row first, then the user's balance.
-/

namespace DreamFly

open Txn Prog

structure RedeemResponse where
  redemptionId : Uuid
  pointsSpent : ℤ
  balanceAfter : ℤ
deriving DecidableEq, Repr

/-- UPDATE rewards SET stock = stock - 1 WHERE id, under `rewards_stock_nonneg`. -/
def decrementRewardStockTx (id : Uuid) : Tx Unit := do
  match ← selectFor (S := Shop) .rewards id (fun _ => true) .noKeyUpdate with
  | none => return ()
  | some r =>
    ensure (r.stock.all fun stock => 0 ≤ stock - 1) (.database (.check "rewards_stock_nonneg"))
    put (S := Shop) (.mod .rewards id fun r => { r with stock := r.stock.map (· - 1) })

def insertRedemptionTx (rewardId userId : Uuid) (pointsSpent : ℤ) : Tx Uuid := do
  references (S := Shop) .rewards rewardId (.database (.foreignKey "rewards"))
  references (S := Shop) .users userId (.database (.foreignKey "users"))
  insert (S := Shop) .redemptions id fun _ =>
    { rewardId := rewardId, userId := userId, pointsSpent := pointsSpent }

def redeem (userId rewardId : Uuid) (now : Instant) : Tx RedeemResponse := atomically do
  let reward ← selectFor (S := Shop) .rewards rewardId (fun _ => true) .update
  let reward ← orFail reward (.notFound "獎勵不存在")
  ensure reward.isActive (.notFound "獎勵不存在")
  ensure (reward.stock.all (0 < ·)) (.conflict "已兌換完畢")
  let balance ← trySpendTx userId reward.pointsCost now
  (if reward.stock.isSome then decrementRewardStockTx rewardId else pure ())
  let redemptionId ← insertRedemptionTx rewardId userId reward.pointsCost
  return ⟨redemptionId, reward.pointsCost, balance⟩

end DreamFly
