import DreamFly.Proof.Desk
import DreamFly.Run.Points
import DreamFly.Txn.Books
import DreamFly.Txn.Since

/-!
# Rewards over whole runs

* `RewardsOK`: what each user's redemptions cost is what the user's ledger rows of reason
  `redeem` take away, one by one, and no reward has less than no stock.
* `rewards_exact`: this holds in every reachable state, a redemption costs what the reward
  did when its row was locked, and between two edits of a stock it falls by one for each
  redemption that commits.
-/

namespace DreamFly

open Txn

variable {u v r k : Uuid} {now : Instant} {d d' : Db} {σ : Pt Shop} {q : Req} {ld : LedgerDelta}
  {lds : List LedgerDelta}
  {ok : DeskSys → Event DeskReq → DeskSys → Prop} {s s' : DeskSys}
    {c : Call Shop AppError DeskReply DeskReq} {t : ℕ}

/-! ## Redemptions and their ledger rows -/

/-- What the redemptions of user `u` cost. -/
def pointsSpent (u : Uuid) (d : Db) : List ℤ :=
  (d.sel .redemptions fun _ x => x.userId = u).map fun e => e.2.pointsSpent

/-- What the ledger rows of user `u` and reason `redeem` take away. -/
def redeemMagnitudes (u : Uuid) (d : Db) : List ℤ :=
  (d.sel .pointLedger fun _ x => x.userId = u ∧ x.reason = .redeem).map fun e => -e.2.delta

structure RewardsOK (d : Db) : Prop where
  booked : ∀ u, (pointsSpent u d).Perm (redeemMagnitudes u d)
  nonneg : ∀ k row n, d.get .rewards k = some row → row.stock = some n → 0 ≤ n

/-- The magnitudes that one ledger move adds for `v`. -/
def LedgerDelta.magnitudes (u v : Uuid) (ld : LedgerDelta) : List ℤ := if u = v ∧
    ld.reason = .redeem then [-ld.delta] else []

theorem SamePoints.magnitudes (h : SamePoints d d') (v : Uuid) :
    redeemMagnitudes v d' = redeemMagnitudes v d := by
  unfold redeemMagnitudes Store.sel
  rw [h.ledger]

theorem Applied.magnitudes (h : Applied u now ld d d') (v : Uuid) :
    (redeemMagnitudes v d').Perm (ld.magnitudes u v ++ redeemMagnitudes v d) := by
  obtain ⟨row, id, -, -, -, hnew, rfl⟩ := h
  have hnew' : (d.apply (.mod .users u (User.move ld.delta))).get .pointLedger id = none := by
    rw [Store.get_apply_other _ (by simp [Write.tbl])]
    exact hnew
  have hsel : (d.apply (.mod .users u (User.move ld.delta))).sel .pointLedger
      (fun _ x => x.userId = v ∧ x.reason = .redeem) =
      d.sel .pointLedger (fun _ x => x.userId = v ∧ x.reason = .redeem) :=
      Store.sel_apply_other _ (by simp [Write.tbl]) _
  unfold redeemMagnitudes LedgerDelta.magnitudes
  rw [← hsel]
  by_cases hp : u = v ∧ ld.reason = .redeem
  · rw [if_pos hp]
    exact (Store.sel_add_new hnew' (decide_eq_true hp)).map _
  · rw [if_neg hp, List.nil_append]
    exact (Store.sel_add_skip hnew' (decide_eq_false hp)).map _

/-- Moves of other reasons add no magnitude. -/
theorem PointsMoved.magnitudes (h : PointsMoved u now lds d d')
    (hr : ∀ ld ∈ lds, ld.reason ≠ .redeem) (v : Uuid) :
    (redeemMagnitudes v d').Perm (redeemMagnitudes v d) := by
  obtain ⟨d₁, d₂, h1, h2, h3⟩ := h
  rw [h3.magnitudes, ← h1.magnitudes]
  clear h1 h3
  induction lds generalizing d₁ with
  | nil => exact h2 ▸ .refl _
  | cons ld lds ih =>
    obtain ⟨b, hab, hrest⟩ := h2
    have hnone : ld.magnitudes u v = [] := if_neg fun hp => hr ld List.mem_cons_self hp.2
    have hfirst : (redeemMagnitudes v b).Perm (redeemMagnitudes v d₁) := by
      simpa [hnone] using hab.magnitudes v
    exact (ih (fun ld' hld => hr ld' (List.mem_cons_of_mem _ hld)) b hrest).trans hfirst

/-- A redemption is booked on both sides. -/
theorem RewardTaken.spent (x : RewardTaken u r now d d') (v : Uuid) :
    (pointsSpent v d').Perm ((if u = v then [x.reward.pointsCost] else []) ++ pointsSpent v d) := by
  have hsel : d'.sel .redemptions (fun _ y => y.userId = v) =
      (d.apply (.add .redemptions x.k ⟨r, u, x.reward.pointsCost⟩)).sel .redemptions fun _ y =>
        y.userId = v := by
    unfold Store.sel
    rw [x.redeemed]
  unfold pointsSpent
  rw [hsel]
  by_cases hu : u = v
  · rw [if_pos hu]
    exact (Store.sel_add_new x.fresh (decide_eq_true hu)).map _
  · rw [if_neg hu, List.nil_append]
    exact (Store.sel_add_skip x.fresh (decide_eq_false hu)).map _

theorem RewardTaken.magnitudes (x : RewardTaken u r now d d') (v : Uuid) :
    (redeemMagnitudes v d').Perm ((if u = v then [x.reward.pointsCost] else []) ++
      redeemMagnitudes v d) := by
  have hsame : SamePoints x.paid d' := .of_only _ x.rest (by simp) (by simp)
  have hld : (LedgerDelta.redeem x.reward.pointsCost).magnitudes u v = if u = v then
      [x.reward.pointsCost] else [] := by
    unfold LedgerDelta.magnitudes LedgerDelta.redeem
    simp
  rw [hsame.magnitudes, ← hld]
  exact x.points.magnitudes v

/-- No other request of the shop moves points for the reason `redeem`. -/
theorem Req.Commits.moves (h : q.Commits (.free Shop) σ) (hq : ∀ u r now, q ≠ .redeem u r now) :
    ∃ u now lds, PointsMoved u now lds σ.now σ.db ∧ ∀ ld ∈ lds, ld.reason ≠ .redeem := by
  cases q with
  | checkout u key req now =>
    obtain ⟨x⟩ := h
    refine ⟨u, now, _, x.points, fun ld hld => ?_⟩
    simp only [PricingOutcome.ledgerDeltas, List.mem_append] at hld
    rcases hld with hld | hld <;> split at hld <;> simp at hld <;> subst hld <;>
      simp [LedgerDelta.checkoutRedeem, LedgerDelta.checkoutEarn]
  | updateOrderStatus id status now =>
    obtain ⟨target, -, ⟨x⟩⟩ := h
    refine ⟨_, now, _, x.points, fun ld hld => ?_⟩
    split at hld
    · simp only [OrderPointsFlow.reversalDeltas, List.mem_append] at hld
      rcases hld with hld | hld <;> split at hld <;> simp at hld <;> subst hld <;>
        simp [LedgerDelta.refundRestore, LedgerDelta.refundClawback]
    · cases hld
  | redeem u rewardId now => exact absurd rfl (hq u rewardId now)
  | adjustPoints req now =>
    exact ⟨req.userId, now, [.adminAdjust req.delta],
      ⟨σ.now, σ.db, ⟨rfl, rfl⟩, ⟨σ.db, h, rfl⟩, rfl, rfl⟩, by
      simp [LedgerDelta.adminAdjust]⟩
  | _ =>
    exact ⟨0, 0, [], .none (.of_only _ h.only (by simp [Req.writes])
      (by simp [Req.writes])), by simp⟩

/-! ## What a commit makes of rewards and redemptions -/

/-- One for a redemption of reward `r`. -/
def DeskReq.takes (r : Uuid) : DeskReq → ℤ
  | .shop (.redeem _ k _) => if k = r then 1 else 0
  | _ => 0

/-- An edit that sets the stock of reward `r`. -/
def DeskReq.SetsStock (r : Uuid) : DeskReq → Prop
  | .updateReward id req => id = r ∧ req.stock.isSome
  | _ => False

/-- What reward `r` was redeemed for so far. -/
def redemptionsOf (r : Uuid) (d : Db) : ℤ := d.count .redemptions fun _ x => x.rewardId = r

/-- A commit of the desk, for the tables of rewards. -/
inductive RewardEffect (q : DeskReq) (d d' : Db) : Prop
  | taken (u r : Uuid) (now : Instant) : q = .shop (.redeem u r now) →
  Nonempty (RewardTaken u r now d d') → RewardEffect q d d'
  | added (req : CreateRewardRequest) : q = .createReward req → RewardAdded req d d' →
  RewardEffect q d d'
  | edited (id : Uuid) (req : UpdateRewardRequest) : q = .updateReward id req →
  RewardEdited id req d d' → RewardEffect q d d'
  | other : (∀ r, q.takes r = 0) → d' .rewards = d .rewards → d' .redemptions = d .redemptions →
      (∀ v, (redeemMagnitudes v d').Perm (redeemMagnitudes v d)) → RewardEffect q d d'

theorem DeskReq.Commits.effect {q : DeskReq} (h : q.Commits (.free Shop) σ) :
    RewardEffect q σ.now σ.db := by
  cases q with
  | shop q =>
    by_cases hq : ∃ u r now, q = .redeem u r now
    · obtain ⟨u, r, now, rfl⟩ := hq
      exact .taken u r now rfl h.2.1
    · obtain ⟨u, now, lds, hm, hr⟩ := h.1.moves fun u r now he => hq ⟨u, r, now, he⟩
      refine .other (fun r => ?_) ?_ ?_ (hm.magnitudes hr)
      · cases q with
        | redeem u k now => exact absurd ⟨u, k, now, rfl⟩ hq
        | _ => rfl
      · refine h.1.only ShopTbl.rewards ?_
        cases q with
        | redeem u k now => exact absurd ⟨u, k, now, rfl⟩ hq
        | _ => simp [Req.writes]
      · refine h.1.only ShopTbl.redemptions ?_
        cases q with
        | redeem u k now => exact absurd ⟨u, k, now, rfl⟩ hq
        | _ => simp [Req.writes]
  | redeemSession id now =>
    have hs : SessionSpent id now σ.now σ.db := h
    have hsame : SamePoints σ.now σ.db := .of_only _ hs.only (by simp) (by simp)
    exact .other (fun _ => rfl) (hs.only ShopTbl.rewards (by simp))
      (hs.only ShopTbl.redemptions (by simp)) fun v => by
      rw [hsame.magnitudes]
  | createReward req => exact .added req rfl h
  | updateReward id req => exact .edited id req rfl h

/-- Neither the ledger nor the redemptions. -/
theorem only_rewards {d d' : Db} (h : Only (S := Shop) [.rewards] d d') (v : Uuid) :
    pointsSpent v d' = pointsSpent v d ∧ redeemMagnitudes v d' = redeemMagnitudes v d := by
  have hsame : SamePoints d d' := .of_only _ h (by simp) (by simp)
  refine ⟨?_, hsame.magnitudes v⟩
  unfold pointsSpent Store.sel
  rw [h ShopTbl.redemptions (by simp)]

theorem RewardAdded.only {req : CreateRewardRequest} (h : RewardAdded req d d') :
    Only (S := Shop) [.rewards] d d' := by
  obtain ⟨k, -, -, rfl⟩ := h
  exact Only.write _ (by simp [Write.tbl])

theorem RewardEdited.only {id : Uuid} {req : UpdateRewardRequest} (h : RewardEdited id req d d') :
    Only (S := Shop) [.rewards] d d' := by
  obtain ⟨row, -, -, rfl⟩ := h
  exact Only.write _ (by simp [Write.tbl])

/-- **Every commit keeps them.** -/
theorem RewardEffect.rewardsOK {q : DeskReq} (h : RewardEffect q d d') (hd : RewardsOK d) :
    RewardsOK d' := by
  -- a redemption books what it spends, and nothing else touches the two sides
  cases h with
  | taken u r now hq hx =>
    obtain ⟨x⟩ := hx
    refine ⟨fun v => ((x.spent v).trans ((hd.booked v).append_left _)).trans (x.magnitudes v).symm,
      fun k row n hr hn => ?_⟩
    rw [x.rewards] at hr
    split at hr
    · cases hr
      obtain ⟨m, hm, rfl⟩ := Option.map_eq_some_iff.1 hn
      have hleft := x.left m hm
      omega
    · exact hd.nonneg k row n hr hn
  | added req hq hx =>
    refine ⟨fun v => ?_, fun k row n hr hn => ?_⟩
    · rw [(only_rewards hx.only v).1, (only_rewards hx.only v).2]
      exact hd.booked v
    · obtain ⟨k₀, hchecks, hnew, rfl⟩ := hx
      rw [Store.get_add, hnew] at hr
      split at hr
      · obtain rfl : req.row = row := Option.some.inj hr
        have hstock := (of_decide_eq_true hchecks).2
        rw [hn] at hstock
        exact of_decide_eq_true hstock
      · exact hd.nonneg k row n hr hn
  | edited id req hq hx =>
    refine ⟨fun v => ?_, fun k row n hr hn => ?_⟩
    · rw [(only_rewards hx.only v).1, (only_rewards hx.only v).2]
      exact hd.booked v
    · obtain ⟨row₀, hrow, hchecks, rfl⟩ := hx
      rw [Store.get_mod] at hr
      split at hr
      · rw [hrow] at hr
        cases hr
        have hstock := (of_decide_eq_true hchecks).2
        rw [hn] at hstock
        exact of_decide_eq_true hstock
      · exact hd.nonneg k row n hr hn
  | other _ hrewards hredeemed hmag =>
    refine ⟨fun v => ?_, fun k row n hr hn => hd.nonneg k row n ?_ hn⟩
    · have hspent : pointsSpent v d' = pointsSpent v d := by
        unfold pointsSpent Store.sel
        rw [hredeemed]
      rw [hspent]
      exact (hd.booked v).trans (hmag v).symm
    · unfold Store.get at hr ⊢
      rw [← hrewards]
      exact hr

/-- A commit adds a redemption of `r` for each request that takes it. -/
theorem RewardEffect.count {q : DeskReq} (h : RewardEffect q d d') (r : Uuid) :
    redemptionsOf r d' = redemptionsOf r d + q.takes r := by
  have hsame : ∀ {q : DeskReq}, q.takes r = 0 → d' .redemptions = d .redemptions →
      redemptionsOf r d' = redemptionsOf r d + q.takes r := by
    intro q hq hd
    rw [hq, add_zero]
    unfold redemptionsOf Store.count
    rw [hd]
  cases h with
  | taken u k now hq hx =>
    obtain ⟨x⟩ := hx
    subst hq
    have hcount : redemptionsOf r d' = redemptionsOf r
        (d.apply (.add .redemptions x.k ⟨k, u, x.reward.pointsCost⟩)) := by
      unfold redemptionsOf Store.count
      rw [x.redeemed]
    rw [hcount]
    unfold redemptionsOf
    rw [Store.count_eq_total, Store.total_add_new x.fresh, ← Store.count_eq_total]
    simp [DeskReq.takes]
  | added req hq hx =>
    subst hq
    exact hsame rfl (hx.only ShopTbl.redemptions (by simp))
  | edited id req hq hx =>
    subst hq
    exact hsame rfl (hx.only ShopTbl.redemptions (by simp))
  | other hq _ hredeemed _ => exact hsame (hq r) hredeemed

/-- A commit that does not set the stock of `r` takes from it what it redeems. -/
theorem RewardEffect.stock {q : DeskReq} {row : Reward} (h : RewardEffect q d d')
    (hq : ¬ q.SetsStock r)
    (hr : d.get .rewards r = some row) :
    ∃ row', d'.get .rewards r = some row' ∧ row'.stock = row.stock.map (· - q.takes r) := by
  have hid : row.stock = row.stock.map (· - 0) := by simp
  cases h with
  | taken u k now he hx =>
    obtain ⟨x⟩ := hx
    subst he
    by_cases hk : r = k
    · subst hk
      have hrow : x.reward = row := Option.some.inj (x.reward_eq.symm.trans hr)
      refine ⟨row.take, by rw [x.rewards, if_pos rfl, hrow], ?_⟩
      simp [DeskReq.takes, Reward.take]
    · refine ⟨row, by rw [x.rewards, if_neg hk]; exact hr, ?_⟩
      simp [DeskReq.takes, Ne.symm hk]
  | added req he hx =>
    subst he
    obtain ⟨k, -, hnew, rfl⟩ := hx
    refine ⟨row, ?_, hid⟩
    rw [Store.get_add, if_neg fun he => ?_]
    · exact hr
    · rw [← he, hr] at hnew
      cases hnew
  | edited id req he hx =>
    subst he
    obtain ⟨row₀, hrow, -, rfl⟩ := hx
    rw [Store.get_mod]
    by_cases hk : r = id
    · subst hk
      obtain rfl : row₀ = row := Option.some.inj (hrow.symm.trans hr)
      -- an edit that does not set the stock keeps it
      have hnone : req.stock = none := by
        by_contra hne
        exact hq ⟨rfl, Option.isSome_iff_ne_none.2 hne⟩
      refine ⟨req.apply row₀, by rw [if_pos rfl, hr]; rfl, ?_⟩
      rw [UpdateRewardRequest.apply, hnone]
      exact hid
    · exact ⟨row, by rw [if_neg hk]; exact hr, hid⟩
  | other hz hrewards _ _ =>
    refine ⟨row, ?_, by rw [hz]; exact hid⟩
    unfold Store.get at hr ⊢
    rw [hrewards]
    exact hr

/-! ## Runs -/

theorem desk_ok (h : desk.Reach ok (Sys.init d) s) : s.OK (deskContract (.free Shop)) :=
  reach_ok (fun _ _ _ _ _ _ _ _ _ _ => trivial) (ok_init d) h

theorem commit_effect (h : desk.Reach ok (Sys.init d) s) (hcs : CommitStep s t c s') :
    c.committed = false ∧ RewardEffect c.req s.db s'.db := by
  obtain ⟨σ, hnow, hdb, -, hcom, hcommits⟩ := desk_commits (desk_ok h) hcs
  rw [← hnow, ← hdb]
  exact ⟨hcom, hcommits.effect⟩

theorem reach_rewards (h0 : RewardsOK d) (h : desk.Reach ok (Sys.init d) s) : RewardsOK s.db :=
  reach_inv (C := deskContract (.free Shop)) (fun _ hr => desk_ok hr) h0
    (fun _ _ _ ho hσ => ho.2.effect.rewardsOK hσ) h

/-- **A redemption costs what the reward did when its row was locked.** -/
theorem redeem_price (h : desk.Reach ok (Sys.init d) s) (hcs : CommitStep s t c s')
    (hq : c.req = .shop (.redeem u r now)) :
    ∃ x : RewardTaken u r now s.db s'.db, ∃ s₁ e s₂, desk.Reach ok (Sys.init d) s₁ ∧
      desk.step e s₁ = some s₂ ∧
      ¬ HoldsAt t (.row (S := Shop) .rewards r) .share s₁ ∧
      desk.Reach (fun a e b => ok a e b ∧ HoldsAt t (.row (S := Shop) .rewards r) .share b) s₂ s ∧
      s₁.db.get .rewards r = some x.reward := by
  obtain ⟨σ, hnow, hdb, hheld, -, hcommits⟩ := desk_commits (desk_ok h) hcs
  rw [hq] at hcommits
  obtain ⟨-, ⟨x⟩, hh⟩ := hcommits
  have hlocked : HoldsAt t (.row (S := Shop) .rewards r) .share s :=
    ⟨c, hcs.1, hheld ▸ hh.weaken (by decide)⟩
  obtain ⟨s₁, e, s₂, h1, h2, h3, h4, hsame⟩ := held_since (C := deskContract (.free Shop))
    (fun _ => desk_ok) h hlocked
  rw [hnow, hdb] at x
  exact ⟨x, s₁, e, s₂, h1, h2, h3, h4, hsame.symm.trans x.reward_eq⟩

/-- No commit sets the stock of reward `r`. -/
def KeepsStock (r : Uuid) (s : DeskSys) (_ : Event DeskReq) (s' : DeskSys) : Prop :=
  ∀ t c, CommitStep s t c s' → ¬ c.req.SetsStock r

/-- **Between two edits of its stock, a reward loses one for each redemption.** -/
theorem reach_stock {row : Reward} (h : desk.Reach ok (Sys.init d) s)
    (h' : desk.Reach (fun a e b => ok a e b ∧ KeepsStock r a e b) s s')
    (hr : s.db.get .rewards r = some row) :
    ∃ row', s'.db.get .rewards r = some row' ∧
      row'.stock = row.stock.map
        (· - (s'.booked (DeskReq.takes r) - s.booked (DeskReq.takes r))) := by
  induction h' with
  | refl => exact ⟨row, hr, by simp⟩
  | @tail a b ha hst ih =>
    obtain ⟨row₁, hr₁, hs₁⟩ := ih
    obtain ⟨e, he, -, hkeeps⟩ := hst
    have hreach : desk.Reach ok (Sys.init d) a :=
      h.trans (Service.Reach.mono (fun _ _ _ h => h.1) ha)
    rcases step_booked (g := DeskReq.takes r) he with ⟨hdb, hbooks⟩ | ⟨t, c, hcs⟩
    · exact ⟨row₁, hdb ▸ hr₁, by rw [hbooks]; exact hs₁⟩
    · obtain ⟨hcom, heff⟩ := commit_effect hreach hcs
      obtain ⟨row₂, hr₂, hs₂⟩ := heff.stock (hkeeps t c hcs) hr₁
      refine ⟨row₂, hr₂, ?_⟩
      rw [hs₂, hs₁, booked_commit hcs hcom, Option.map_map]
      congr 1
      funext n
      simp only [Function.comp_apply]
      omega

/-- **Redeeming rewards is exact.** In every reachable state of the shop and its desk,
whatever the calls and their order:

* each user's redemptions cost what the user's `redeem` rows take away, row by row, and no
  stock is negative;
* the redemptions of a reward are those that have committed;
* a redemption is of a reward on offer, and costs what the reward did at the step that
  locked its row, from which on the lock was held;
* while nobody sets its stock, a limited stock falls by one for each redemption that
  commits, and an unlimited one stays so;
* a redemption that is answered has committed; one that is refused, unless its connection
  was lost, has not, and none of its operations has changed the store. -/
theorem rewards_exact (h0 : RewardsOK d) (h : desk.Reach ok (Sys.init d) s) :
    ((∀ u, (pointsSpent u s.db).Perm (redeemMagnitudes u s.db)) ∧
      ∀ k row n, s.db.get .rewards k = some row → row.stock = some n → 0 ≤ n) ∧
    (∀ r, redemptionsOf r s.db = redemptionsOf r d + s.booked (DeskReq.takes r)) ∧
    (∀ t c s' u r now, CommitStep s t c s' → c.req = .shop (.redeem u r now) →
      ∃ x : RewardTaken u r now s.db s'.db, ∃ s₁ e s₂, desk.Reach ok (Sys.init d) s₁ ∧
        desk.step e s₁ = some s₂ ∧
        ¬ HoldsAt t (.row (S := Shop) .rewards r) .share s₁ ∧
        desk.Reach (fun a e b => ok a e b ∧ HoldsAt t (.row (S := Shop) .rewards r) .share b) s₂ s ∧
        s₁.db.get .rewards r = some x.reward) ∧
    (∀ s' r row, desk.Reach (fun a e b => ok a e b ∧ KeepsStock r a e b) s s' →
      s.db.get .rewards r = some row →
      ∃ row', s'.db.get .rewards r = some row' ∧
        row'.stock = row.stock.map (· - (s'.booked (DeskReq.takes r) - s.booked
          (DeskReq.takes r)))) ∧
    ∀ t c u r now, s.call t = some c → c.req = .shop (.redeem u r now) →
      (∀ a, c.prog = .ret a → c.committed = true) ∧
      ∀ e, c.prog = .fail e → e ≠ .database .connection → c.committed = false ∧
        desk.Reach (fun a e b => ok a e b ∧ (e.call = t → b.db = a.db)) (Sys.init d) s := by
  have hs : s.OK (deskContract (.free Shop)) := desk_ok h
  have hall : RewardsOK s.db := reach_rewards h0 h
  refine ⟨⟨hall.booked, hall.nonneg⟩, fun r => ?_,
    fun t c s' u r now hcs hq => redeem_price h hcs hq,
    fun s' r row h' hr => reach_stock h h' hr, fun t c u r now hc hq =>
      ⟨fun a hk => ?_, fun e hk hne => ?_⟩⟩
  · exact reach_books (f := redemptionsOf r) (fun s₁ t c s₂ e hr _ _ hcs =>
      ⟨(commit_effect hr hcs).1, (commit_effect hr hcs).2.count r⟩) h
  · obtain ⟨start, -, hpost⟩ := hs.ret hc hk
    exact hpost (by rw [hq]; trivial)
  · obtain ⟨start, -, herr⟩ := hs.fail hc hk
    rw [hq] at herr
    have hcom : c.committed = false := herr hne
    refine ⟨hcom, reach_quiet h fun c' hc' => ?_⟩
    rw [hc] at hc'
    cases hc'
    exact hcom

/-- User 1 has 50 points; reward 5 costs 20, and two are left. -/
def rewardShop : Db :=
  Store.overlay [.add .users 1 ⟨50⟩, .add .rewards 5 ⟨20, some 2, true⟩] fun _ => ∅

/-- Reward 5 is redeemed; its price is raised; it is redeemed again. -/
def rewardRedeemed : List (Event DeskReq) :=
  (.start 0 (.shop (.redeem 1 5 0)) :: Event.steps 0 100 25) ++
  (.start 1 (.updateReward 5 ⟨some 25, none, none⟩) :: Event.steps 1 200 5) ++
    (.start 2 (.shop (.redeem 1 5 1)) :: Event.steps 2 300 25)

theorem rewards_exact_redeemed : let s := desk.after rewardRedeemed (.init rewardShop)
    (pointsSpent 1 s.db).Perm (redeemMagnitudes 1 s.db) ∧
      redemptionsOf 5 s.db = redemptionsOf 5 rewardShop + s.booked (DeskReq.takes 5) := by
  have h0 : RewardsOK rewardShop := by
    refine ⟨fun u => .refl _, fun k row n hr hn => ?_⟩
    have hstock : row.stock = some 2 := Store.get_all (d := rewardShop) (t := ShopTbl.rewards)
      (P := fun _ row => row.stock = some 2)
      (by decide) hr
    rw [hn] at hstock
    cases hstock
    decide
  obtain ⟨hbooked, hcount, -⟩ := rewards_exact h0 (Service.reachable_after rewardRedeemed)
  exact ⟨hbooked.1 1, hcount 5⟩

/-- The two cost 20 and 25, and none is left. -/
example : pointsSpent 1 (desk.after rewardRedeemed (.init rewardShop)).db = [25, 20] ∧
    ((desk.after rewardRedeemed (.init rewardShop)).db.get .rewards 5).bind Reward.stock = some 0 :=
    by decide +kernel

end DreamFly
