import DreamFly.Proof.Refund
import DreamFly.Shop.Rewards
import DreamFly.Shop.Leave

/-!
# The other requests, proved

What a committed redemption, points adjustment, cart call, admin edit, enrolment
cancellation or leave call did to the store.
-/

namespace DreamFly

open Txn Prog

variable {C : Pt Shop → Prop} {B : Option AppError → Pt Shop → Prop} {σ : Pt Shop}
  {F : AppError → Prop} {u id : Uuid} {now : Instant} {d d' : Db}

/-- A transaction: the call has committed when it goes on with a result, and it has not by
this transaction when it fails. -/
theorem transaction_wp {α : Type} {p : Tx α} {R : α → Pt Shop → Prop} {Q : α → Pt Shop → Prop}
    {X : AppError → Pt Shop → Prop} (h : Does C B σ p (fun _ => True) R) (hB : ∀ e σ, B e σ)
    (hC : ∀ a σ', σ.Later σ' → R a σ' → C σ') (hQ : ∀ a σ', σ'.committed = true → Q a σ')
    (hX : ∀ e σ', σ'.committed = σ.committed → X e σ') :
    wp shopRules (writing C B) Q X p.atomically σ :=
  (wp_atomically p σ).2 (h.wp (fun a σ' hl hr => ⟨hC a σ' hl hr, fun _ _ => hQ _ _ rfl⟩)
    fun _ _ hl _ => ⟨hB _ _, fun _ _ => hX _ _ hl.committed⟩)

/-- A transaction whose body is specified: `C` where it commits. -/
theorem atomically_wp {α : Type} {p : Tx α} {R : α → Pt Shop → Prop} {Q : α → Pt Shop → Prop}
    {X : AppError → Pt Shop → Prop} (h : Does C B σ p (fun _ => True) R) (hB : ∀ e σ, B e σ)
    (hC : ∀ a σ', σ.Later σ' → R a σ' → C σ') (hQ : ∀ a σ', Q a σ') (hX : ∀ e σ', X e σ') :
    wp shopRules (writing C B) Q X p.atomically σ :=
  transaction_wp h hB hC (fun a σ' _ => hQ a σ') fun e σ' _ => hX e σ'

/-! ## Rewards -/

/-- A reward after a redemption: one less, if it is limited. -/
def Reward.take (r : Reward) : Reward := { r with stock := r.stock.map (· - 1) }

/-- A committed redemption of reward `r` by user `u`: what was on offer, and what it wrote. -/
structure RewardTaken (u r : Uuid) (now : Instant) (d d' : Db) where
  reward : Reward
  paid : Db
  k : Uuid
  reward_eq : d.get .rewards r = some reward
  active : reward.isActive = true
  left : ∀ n, reward.stock = some n → 0 < n
  cost_pos : 0 < reward.pointsCost
  points : Applied u now (.redeem reward.pointsCost) d paid
  rest : Only (S := Shop) [.rewards, .redemptions] paid d'
  rewards : ∀ k', d'.get .rewards k' = if k' = r then some reward.take else d.get .rewards k'
  fresh : d.get .redemptions k = none
  redeemed : d' .redemptions =
    (d.apply (.add .redemptions k ⟨r, u, reward.pointsCost⟩)) .redemptions

/-- The stock goes down by one under the lock on the reward. -/
theorem decrementRewardStockTx_spec {r : Uuid} {reward : Reward}
    (hh : Holds σ.held (.row (S := Shop) .rewards r) .update)
    (hr : σ.db.get .rewards r = some reward) :
    Does C B σ (if reward.stock.isSome then decrementRewardStockTx r else pure ())
      (fun _ => True) fun _ σ' =>
      Only (S := Shop) [.rewards] σ.db σ'.db ∧
        ∀ k, σ'.db.get .rewards k = if k = r then some reward.take else σ.db.get .rewards k := by
  cases hs : reward.stock with
  | none =>
    have htake : reward.take = reward := by
      cases reward
      cases hs
      rfl
    refine .pure ⟨Only.refl _ _, fun k => ?_⟩
    split
    · next hk => rw [hk, hr, htake]
    · rfl
  | some n =>
    show Does C B σ (decrementRewardStockTx r) _ _
    refine Yields.bind (Yields.selectFor_held (by decide) (hh.weaken (by decide)))
      fun row σ₁ _ ⟨h₁, hrow⟩ => ?_
    subst h₁
    rw [filter_true, hr] at hrow
    subst hrow
    refine Yields.bind (R := fun _ σ' => σ' = σ₁) (Yields.ensure (fun _ => rfl) trivial)
      fun _ σ₂ _ h₂ => ?_
    subst h₂
    refine Yields.imp (Yields.put ⟨hh.weaken (by decide), trivial⟩)
      (fun _ σ₃ _ h₃ => ?_) fun _ h => h
    rw [h₃, Pt.write_db]
    refine ⟨Only.write (S := Shop) (w := .mod .rewards r _) _ (by simp [Write.tbl]), fun k => ?_⟩
    rw [Store.get_mod, hr]
    rfl

theorem insertRedemptionTx_spec {r : Uuid} {cost : ℤ} :
    Does C B σ (insertRedemptionTx r u cost) (fun _ => True) fun k σ' =>
      σ.db.get .redemptions k = none ∧
      σ'.db = σ.db.apply (.add .redemptions k ⟨r, u, cost⟩) := by
  refine Yields.bind (Yields.references trivial trivial) fun _ σ₁ _ h₁ => ?_
  refine Yields.bind (Yields.references trivial trivial) fun _ σ₂ _ h₂ => ?_
  have hd : σ₂.db = σ.db := by rw [h₂, h₁]; rfl
  refine Yields.imp (Yields.insert fun n => ⟨holds_acquire _ _ _, trivial⟩)
    (fun n σ₃ _ h => ?_) fun _ h => h
  obtain ⟨-, hnew, -, h₃⟩ := h
  rw [h₃, ← hd]
  exact ⟨hnew, rfl⟩

/-- **A redemption**, from the lock on the reward on. -/
theorem redeem_taken {rewardId : Uuid} {Q : RedeemResponse → Pt Shop → Prop}
    {X : AppError → Pt Shop → Prop}
    (hd : σ.db = σ.now) (hB : ∀ e σ, B e σ)
    (hC : ∀ σ', σ.Later σ' → Nonempty (RewardTaken u rewardId now σ'.now σ'.db) →
      Holds σ'.held (.row (S := Shop) .rewards rewardId) .update → C σ')
    (hQ : ∀ a σ', σ'.committed = true → Q a σ') (hX : ∀ e σ', σ'.committed = σ.committed → X e σ') :
    wp shopRules (writing C B) Q X (redeem u rewardId now) σ := by
  refine transaction_wp (R := fun _ σ' => Nonempty (RewardTaken u rewardId now σ.db σ'.db) ∧
      Holds σ'.held (.row (S := Shop) .rewards rewardId) .update) ?_ hB
    (fun a σ' hl h => hC σ' hl (by rw [hl.now, ← hd]; exact h.1) h.2) hQ hX
  refine Yields.bind (Yields.selectFor (by decide) trivial) fun r σ₁ _ ⟨hd₁, hr⟩ => ?_
  refine Yields.bind (R := fun reward σ' => r = some reward ∧ σ' = σ₁)
    (Yields.orFail (fun _ h => ⟨h, rfl⟩) trivial)
    fun reward σ₂ _ ⟨he, h₂⟩ => ?_
  subst h₂
  obtain ⟨hh, hreward, -⟩ := hr reward he
  rw [← hd₁] at hreward
  refine Yields.bind (R := fun _ σ' => reward.isActive = true ∧ σ' = σ₂)
    (Yields.ensure (fun h => ⟨h, rfl⟩) trivial)
    fun _ σ₃ _ ⟨hactive, h₃⟩ => ?_
  subst h₃
  refine Yields.bind (R := fun _ σ' => reward.stock.all (0 < ·) = true ∧ σ' = σ₃)
    (Yields.ensure (fun h => ⟨h, rfl⟩) trivial)
    fun _ σ₄ _ ⟨hleft, h₄⟩ => ?_
  subst h₄
  refine Yields.bind trySpendTx_spec fun balance σ₅ hl₅ ⟨hpos, happ⟩ => ?_
  -- the points have been spent elsewhere: the reward is as it was locked
  have hreward₅ : σ₅.db.get .rewards rewardId = some reward := by
    rw [happ.only.get (t := ShopTbl.rewards) (by simp), hreward]
  refine Yields.bind (decrementRewardStockTx_spec (hl₅.holds hh) hreward₅)
    fun _ σ₆ hl₆ ⟨honly, hrewards⟩ => ?_
  refine Yields.bind insertRedemptionTx_spec fun k σ₇ hl₇ ⟨hnew, h₇⟩ =>
    .pure ⟨⟨?_⟩, hl₇.holds (hl₆.holds (hl₅.holds hh))⟩
  have hadd : Only (S := Shop) [.redemptions] σ₆.db σ₇.db := by
    rw [h₇]
    exact Only.write _ (by simp [Write.tbl])
  have hsame : σ₆.db .redemptions = σ.db .redemptions := by
    rw [honly ShopTbl.redemptions (by simp), happ.only ShopTbl.redemptions (by simp), hd₁]
  have hfresh : σ.db.get .redemptions k = none := by
    unfold Store.get at hnew ⊢
    rwa [hsame] at hnew
  rw [hd₁] at happ hreward
  exact
    { reward := reward, paid := σ₅.db, k := k
      reward_eq := hreward, active := hactive, cost_pos := hpos, points := happ, fresh := hfresh
      left := fun n hn => by
        rw [hn] at hleft
        simpa using hleft
      rest := (honly.mono (by simp)).trans (hadd.mono (by simp))
      rewards := fun k' => by
        rw [hadd.get (t := ShopTbl.rewards) (by simp), hrewards,
          happ.only.get (t := ShopTbl.rewards) (by simp)]
      redeemed := by rw [h₇, Store.apply_add, Store.apply_add, hsame] }

/-- A committed redemption, of whatever reward. -/
def Redeemed (u : Uuid) (now : Instant) (d d' : Db) : Prop :=
  ∃ cost paid, 0 < cost ∧ Applied u now (.redeem cost) d paid ∧
    Only (S := Shop) [.rewards, .redemptions] paid d'

theorem redeem_wp {rewardId : Uuid} {Q : RedeemResponse → Pt Shop → Prop}
    {X : AppError → Pt Shop → Prop}
    (hd : σ.db = σ.now) (hB : ∀ e σ, B e σ) (hC : ∀ σ', σ.Later σ' →
      Redeemed u now σ'.now σ'.db → C σ')
    (hQ : ∀ a σ', Q a σ') (hX : ∀ e σ', X e σ') :
    wp shopRules (writing C B) Q X (redeem u rewardId now) σ :=
  redeem_taken hd hB (fun σ' hl ⟨x⟩ _ => hC σ' hl ⟨_, x.paid, x.cost_pos, x.points, x.rest⟩)
    (fun a σ' _ => hQ a σ')
    fun e σ' _ => hX e σ'

theorem adjustPoints_wp {req : AdjustPointsRequest} {Q : ℤ → Pt Shop → Prop}
    {X : AppError → Pt Shop → Prop}
    (hd : σ.db = σ.now) (hB : ∀ e σ, B e σ)
    (hC : ∀ σ', σ.Later σ' → Applied req.userId now (.adminAdjust req.delta) σ'.now σ'.db → C σ')
    (hQ : ∀ a σ', Q a σ') (hX : ∀ e σ', X e σ') :
    wp shopRules (writing C B) Q X (adjustPoints req now) σ :=
  atomically_wp adjustPoints_body_spec hB (fun a σ' hl h => hC σ' hl
    (by rw [hl.now, ← hd]; exact h)) hQ hX

/-! ## The cart -/

/-- A committed cart call of user `u`: only that user's lines change, and a line is
as it was but for its quantity, or new with its target there. -/
structure CartEdited (u : Uuid) (d d' : Db) : Prop where
  only : Only (S := Shop) [.cartItems] d d'
  others : ∀ k, k.1 ≠ u → d'.get .cartItems k = d.get .cartItems k
  line : ∀ k row, d'.get .cartItems k = some row →
    (∃ row', d.get .cartItems k = some row' ∧ row'.target = row.target) ∨
    (row.target.offer d').isSome

theorem CartEdited.refl (u : Uuid) (d : Db) : CartEdited u d d :=
  ⟨Only.refl _ _, fun _ _ => rfl, fun _ row h => .inl ⟨row, h, rfl⟩⟩

/-- A line whose quantity changes. -/
theorem cartEdited_mod {k : Uuid × Uuid} {f : CartItem → CartItem} (hu : k.1 = u)
    (hf : ∀ row, (f row).target = row.target) (d : Db) :
    CartEdited u d (d.apply (.mod .cartItems k f)) where
  only := Only.write d (by simp [Write.tbl])
  others k' hk := by rw [Store.get_mod, if_neg]; rintro rfl; exact hk hu
  line k' row h := by
    rw [Store.get_mod] at h
    split at h
    next he =>
      subst he
      obtain ⟨row', hr, rfl⟩ := Option.map_eq_some_iff.1 h
      exact .inl ⟨row', hr, (hf row').symm⟩
    · exact .inl ⟨row, h, rfl⟩

/-- A line that goes. -/
theorem cartEdited_del {k : Uuid × Uuid} (hu : k.1 = u) (d : Db) :
    CartEdited u d (d.apply (.del .cartItems k)) where
  only := Only.write d (by simp [Write.tbl])
  others k' hk := by rw [Store.get_del, if_neg]; rintro rfl; exact hk hu
  line k' row h := by
    rw [Store.get_del] at h
    split at h
    · cases h
    · exact .inl ⟨row, h, rfl⟩

theorem getCart_spec : Does C B σ (getCart u) (fun _ => True) fun _ _ => True := by
  refine Yields.bind (R := fun _ _ => True) (Yields.read fun _ _ _ => trivial) fun _ _ _ _ => ?_
  exact Yields.bind (R := fun _ _ => True) (Yields.checked (fun _ _ => trivial) fun _ _ => trivial)
    fun _ _ _ _ => .pure trivial

/-- The foreign key to a target: it is there at the end. -/
theorem targetRef_offer {t : LineTarget} :
    Does C B σ (targetRef t) (fun _ => True) fun _ σ' => σ'.db = σ.db ∧ (t.offer σ'.db).isSome := by
  cases t with
  | product id =>
    refine (references_spec (fun v h => rel_products h id) trivial).imp (fun _ σ' _ h => ⟨h.1, ?_⟩)
      fun _ h => h
    rw [h.1]; simpa [LineTarget.offer] using h.2
  | course id =>
    refine (references_spec (fun v h => rel_courses h id) trivial).imp (fun _ σ' _ h => ⟨h.1, ?_⟩)
      fun _ h => h
    rw [h.1]; simpa [LineTarget.offer] using h.2

/-- A new line, of a target that is there. -/
theorem cartEdited_add {k : Uuid × Uuid} {row : CartItem} (hu : k.1 = u)
    (hnew : d.get .cartItems k = none)
    (hoffer : (row.target.offer d).isSome) : CartEdited u d (d.apply (.add .cartItems k row)) where
  only := Only.write d (by simp [Write.tbl])
  others k' hk := by rw [Store.get_add, if_neg]; rintro rfl; exact hk hu
  line k' row' h := by
    rw [Store.get_add, hnew] at h
    split at h
    · cases h
      have honly : Only (S := Shop) [.cartItems] d (d.apply (.add .cartItems k row)) :=
        Only.write d (by simp [Write.tbl])
      right
      rw [offer_of_only honly (by simp) (by simp)]
      exact hoffer
    · exact .inl ⟨row', h, rfl⟩

theorem insertCartItem_spec {t : LineTarget} {quantity : ℤ} :
    Does C B σ (insertCartItem u t quantity) (fun _ => True) fun row σ' => row.target = t ∧
    row.quantity = quantity ∧
      (t.offer σ.db).isSome ∧ ∃ n, σ.db.get .cartItems (u, n) = none ∧
        σ'.db = σ.db.apply (.add .cartItems (u, n) row) := by
  refine Yields.bind (R := fun _ σ' => σ' = σ) (wp_choose fun _ => ⟨.refl σ, rfl⟩)
    fun now σ₁ _ h₁ => ?_
  refine Yields.bind (R := fun _ σ' => σ' = σ₁) (Yields.ensure (fun _ => rfl) trivial)
    fun _ σ₂ _ h₂ => ?_
  refine Yields.bind (Yields.references trivial trivial) fun _ σ₃ _ h₃ => ?_
  refine Yields.bind targetRef_offer fun _ σ₄ hl₄ ⟨hd₄, hoffer⟩ => ?_
  have hd : σ₄.db = σ.db := by rw [hd₄, h₃, h₂, h₁]; rfl
  have hu : Holds σ₄.held (.row (S := Shop) .users u) .keyShare :=
    hl₄.holds (by rw [h₃]; exact holds_acquire _ _ _)
  refine Yields.bind (Yields.insert fun n => ⟨holds_acquire _ _ _, hu.mono (subset_acquire _ _ _)⟩)
    fun n σ₅ _ h => .pure ?_
  obtain ⟨-, hnew, -, h₅⟩ := h
  rw [hd] at hnew hoffer
  refine ⟨rfl, rfl, hoffer, n, hnew, ?_⟩
  rw [h₅, ← hd]
  rfl

theorem insertCartItem_edited {t : LineTarget} {quantity : ℤ} :
    Does C B σ (insertCartItem u t quantity) (fun _ => True) fun _ σ' =>
      CartEdited u σ.db σ'.db := by
  refine insertCartItem_spec.imp (fun row σ' _ h => ?_) fun _ h => h
  obtain ⟨ht, -, hoffer, n, hnew, hd⟩ := h
  rw [hd]
  exact cartEdited_add rfl hnew (by rw [ht]; exact hoffer)

theorem cartLineOf_user {t : LineTarget} {k : Uuid × Uuid} (h : cartLineOf u t d = some k) :
    k.1 = u := by
  unfold cartLineOf at h
  obtain ⟨⟨k', row⟩, he, rfl⟩ := List.mem_map.1 (List.mem_of_head? h)
  have := (Store.mem_sel.1 he).2
  simp only [decide_eq_true_eq] at this
  exact this.1

theorem addProductItemTx_spec {productId : Uuid} {quantity : ℤ} :
    Does C B σ (addProductItemTx u productId quantity) (fun _ => True) fun _ σ' =>
      CartEdited u σ.db σ'.db := by
  refine Yields.bind (Yields.lockRes trivial) fun _ σ₁ _ h₁ => ?_
  have hd₁ : σ₁.db = σ.db := by rw [h₁]; rfl
  refine Yields.bind (R := fun r σ' => σ' = σ₁ ∧ ∀ k, r = some k → k.1 = u)
    (Yields.read fun v _ _ => ⟨rfl, fun k h => cartLineOf_user h⟩) fun r σ₂ _ ⟨h₂, hk⟩ => ?_
  subst h₂
  refine Yields.bind (R := fun row σ' => CartEdited u σ.db σ'.db ∧
    (row = none → σ'.db = σ.db)) ?_ fun row σ₃ _ ⟨hc, hn⟩ => ?_
  · cases r with
    | none => exact .pure ⟨hd₁ ▸ CartEdited.refl u _, fun _ => hd₁⟩
    | some k =>
      refine wp_updateRow (fun _ _ _ _ _ _ _ => trivial)
        (fun _ _ _ _ => ⟨.refl _, hd₁ ▸ CartEdited.refl u _, fun _ => hd₁⟩)
        (fun _ => ⟨σ₂.later_grant _ _, hd₁ ▸ CartEdited.refl u _, fun _ => hd₁⟩) fun row _ _ =>
        ⟨⟨holds_acquire _ _ _, fun _ => rfl⟩, (σ₂.later_grant _ _).trans (Pt.later_write _ _), ?_,
          fun h => (nomatch h)⟩
      rw [← hd₁]
      exact cartEdited_mod (f := CartItem.merge quantity) (hk k rfl) (fun _ => rfl) _
  · cases row with
    | some row => exact .pure hc
    | none =>
      rw [← hn rfl]
      exact insertCartItem_edited

theorem addCourseItemTx_spec {courseId : Uuid} :
    Does C B σ (addCourseItemTx u courseId) (fun _ => True) fun _ σ' =>
      CartEdited u σ.db σ'.db := by
  refine Yields.bind (Yields.claim trivial) fun b σ₁ _ ⟨h₁, _⟩ => ?_
  have hd₁ : σ₁.db = σ.db := by rw [h₁]; rfl
  cases b with
  | true => exact .pure (hd₁ ▸ CartEdited.refl u _)
  | false =>
    refine Yields.bind insertCartItem_edited fun row σ₂ _ h => .pure ?_
    rw [← hd₁]; exact h

/-- The transaction of a cart call, then the cart as it is. -/
theorem cart_wp {α β : Type} {p : Tx α} {k : α → Tx β} {Q : β → Pt Shop → Prop}
    {X : AppError → Pt Shop → Prop}
    (hd : σ.db = σ.now) (h : Does C B σ p (fun _ => True) fun _ σ' => CartEdited u σ.db σ'.db)
    (hB : ∀ e σ, B e σ)
    (hC : ∀ σ', σ.Later σ' → CartEdited u σ'.now σ'.db → C σ')
    (hk : ∀ a σ', wp shopRules (writing C B) Q X (k a) σ') (hX : ∀ e σ', X e σ') :
    wp shopRules (writing C B) Q X (p.atomically >>= k) σ := by
  rw [wp_bind]
  exact atomically_wp h hB (fun a σ' hl h => hC σ' hl (by rw [hl.now, ← hd]; exact h)) hk hX

section cart
variable {Q : CartResponse → Pt Shop → Prop} {X : AppError → Pt Shop → Prop}
  (hd : σ.db = σ.now) (hB : ∀ e σ, B e σ) (hC : ∀ σ', σ.Later σ' → CartEdited u σ'.now σ'.db → C σ')
  (hQ : ∀ a σ', Q a σ') (hX : ∀ e σ', X e σ')
include hd hB hC hQ hX

omit hd hB hC in
theorem getCart_wp : wp shopRules (writing C B) Q X (getCart u) σ :=
  getCart_spec.wp (fun a σ' _ _ => hQ a σ') fun e σ' _ _ => hX e σ'

theorem addItem_wp {itemType : String} {itemId : Uuid} {quantity : ℤ} :
    wp shopRules (writing C B) Q X (addItem u itemType itemId quantity) σ := by
  have hsame : ∀ {p : Tx Unit}, Does C B σ p (fun _ => True) (fun _ σ' => σ' = σ) →
      ∀ {β : Type} {k : Unit → Tx β}
      {Q' : β → Pt Shop → Prop}, wp shopRules (writing C B) Q' X (k ()) σ →
        wp shopRules (writing C B) Q' X (p >>= k) σ :=
    fun hp _ _ _ hk => hp.bind_wp (fun _ _ _ h => h ▸ hk) fun e σ' _ _ => hX e σ'
  unfold addItem
  split
  · refine hsame (Yields.checked (fun _ _ => rfl) fun _ _ => trivial) ?_
    refine Yields.bind_wp (F := fun _ => True) (R := fun _ σ' => σ' = σ)
      (Yields.read fun _ _ _ => rfl)
      (fun product σ₁ _ h₁ => ?_) fun e σ' _ _ => hX e σ'
    subst h₁
    refine Yields.bind_wp (F := fun _ => True) (R := fun _ σ' => σ' = σ₁)
      (Yields.orFail (fun _ _ => rfl) trivial)
      (fun product σ₂ _ h₂ => ?_) fun e σ' _ _ => hX e σ'
    subst h₂
    refine cart_wp hd ?_ hB hC (fun _ σ' => getCart_wp hQ hX) hX
    refine Yields.bind addProductItemTx_spec fun merged σ₃ _ h => ?_
    exact (Yields.checked (R := fun _ σ' => σ' = σ₃) (fun _ _ => rfl) fun _ _ => trivial).imp
      (fun _ _ _ h' => h' ▸ h) fun _ h => h
  split
  · refine hsame (Yields.checked (fun _ _ => rfl) fun _ _ => trivial) ?_
    refine Yields.bind_wp (F := fun _ => True) (R := fun _ σ' => σ' = σ)
      (Yields.read fun _ _ _ => rfl)
      (fun course σ₁ _ h₁ => ?_) fun e σ' _ _ => hX e σ'
    subst h₁
    refine Yields.bind_wp (F := fun _ => True) (R := fun _ σ' => σ' = σ₁)
      (Yields.orFail (fun _ _ => rfl) trivial)
      (fun course σ₂ _ h₂ => ?_) fun e σ' _ _ => hX e σ'
    subst h₂
    refine hsame (Yields.checked (fun _ _ => rfl) fun _ _ => trivial) ?_
    refine cart_wp hd addCourseItemTx_spec hB hC (fun inserted σ' => ?_) hX
    rw [wp_bind]
    exact wp_orFail (fun _ _ => getCart_wp hQ hX) fun _ => hX _ _
  · exact hX _ _

theorem updateQuantity_wp {itemId : Uuid} {quantity : ℤ} :
    wp shopRules (writing C B) Q X (updateQuantity u itemId quantity) σ := by
  refine Yields.bind_wp (F := fun _ => True) (R := fun _ σ' => σ' = σ)
    (Yields.checked (fun _ _ => rfl) fun _ _ => trivial)
    (fun _ σ₁ _ h₁ => ?_) fun e σ' _ _ => hX e σ'
  subst h₁
  refine Yields.bind_wp (F := fun _ => True) (R := fun _ σ' => σ' = σ₁)
    (Yields.read fun _ _ _ => rfl)
    (fun item σ₂ _ h₂ => ?_) fun e σ' _ _ => hX e σ'
  subst h₂
  refine Yields.bind_wp (F := fun _ => True) (R := fun _ σ' => σ' = σ₂)
    (Yields.orFail (fun _ _ => rfl) trivial)
    (fun item σ₃ _ h₃ => ?_) fun e σ' _ _ => hX e σ'
  subst h₃
  refine Yields.bind_wp (F := fun _ => True) (R := fun _ σ' => σ' = σ₃) ?_ (fun _ σ₄ _ h₄ => ?_)
    fun e σ' _ _ => hX e σ'
  · unfold judgeQuantity
    split
    · exact Yields.checked (fun _ _ => rfl) fun _ _ => trivial
    · refine Yields.bind (R := fun _ σ' => σ' = σ₃)
        (Yields.read fun _ _ _ => rfl) fun _ σ₄ _ h₄ => ?_
      refine Yields.bind (R := fun _ σ' => σ' = σ₄) (Yields.orFail (fun _ _ => rfl) trivial)
        fun _ σ₅ _ h₅ => ?_
      rw [← h₄, ← h₅]
      exact Yields.checked (fun _ _ => rfl) fun _ _ => trivial
  subst h₄
  refine cart_wp hd ?_ hB hC (fun updated σ' => ?_) hX
  · refine Yields.bind (Yields.selectFor (m := .noKeyUpdate) (by decide) trivial)
      fun r σ₅ _ ⟨hd₅, hr⟩ => ?_
    cases r with
    | none => exact .pure (hd₅ ▸ CartEdited.refl u _)
    | some row =>
      refine Yields.bind (R := fun _ σ' => σ' = σ₅) (Yields.ensure (fun _ => rfl) trivial)
        fun _ σ₆ _ h₆ => ?_
      subst h₆
      refine Yields.bind (Yields.put ⟨(hr row rfl).1, fun _ => rfl⟩) fun _ σ₇ _ h₇ => .pure ?_
      rw [h₇, ← hd₅]
      exact cartEdited_mod (k := (u, itemId)) (f := fun row => { row with quantity :=
        quantity }) rfl (fun row => rfl) σ₆.db
  · rw [wp_bind]
    exact wp_orFail (fun _ _ => getCart_wp hQ hX) fun _ => hX _ _

theorem removeItem_wp {itemId : Uuid} : wp shopRules (writing C B) Q X (removeItem u itemId) σ := by
  refine cart_wp hd ?_ hB hC (fun removed σ' => ?_) hX
  · refine Yields.bind (Yields.selectFor (m := .update) (by decide) trivial)
      fun r σ₁ _ ⟨hd₁, hr⟩ => ?_
    cases r with
    | none => exact .pure (hd₁ ▸ CartEdited.refl u _)
    | some row =>
      refine Yields.bind (Yields.put ⟨(hr row rfl).1.weaken (by decide), trivial⟩)
        fun _ σ₂ _ h₂ => .pure ?_
      rw [h₂, ← hd₁]
      exact cartEdited_del (k := (u, itemId)) rfl σ₁.db
  · rw [wp_bind]
    exact wp_ensure (fun _ => getCart_wp hQ hX) fun _ => hX _ _

end cart

theorem clear_wp {Q : Unit → Pt Shop → Prop} {X : AppError → Pt Shop → Prop} (hd : σ.db = σ.now)
    (hB : ∀ e σ, B e σ)
    (hC : ∀ σ', σ.Later σ' → CartEdited u σ'.now σ'.db → C σ') (hQ : ∀ a σ', Q a σ')
    (hX : ∀ e σ', X e σ') :
    wp shopRules (writing C B) Q X (clear u) σ := by
  refine atomically_wp (R := fun _ σ' => CartEdited u σ.db σ'.db) ?_ hB
    (fun a σ' hl h => hC σ' hl (by rw [hl.now, ← hd]; exact h)) hQ hX
  refine Yields.bind (Yields.deleteAll (fun _ _ => trivial)
    fun σ' k _ hh => ⟨hh.weaken (by decide), trivial⟩)
    fun rs σ₁ _ ⟨honly, ⟨v, _, _, _, hrs⟩, hget⟩ => .pure ⟨honly, fun k hk => ?_,
      fun k row h => .inl ⟨row, ?_, rfl⟩⟩
  · rw [hget, if_neg]
    intro hm
    obtain ⟨⟨k', r⟩, he, rfl⟩ := List.mem_map.1 hm
    exact hk (by simpa using ((hrs k' r).1 he).2.1)
  · rw [hget] at h
    split at h
    · cases h
    · exact h

/-! ## Admin edits -/

/-- A committed edit of a product. -/
def ProductEdited (id : Uuid) (req : UpdateProductRequest) (d d' : Db) : Prop :=
  ∃ row type, d.get .products id = some row ∧ (req.apply type row).checks = true ∧
    d' = d.apply (.mod .products id (req.apply type))

theorem updateProduct_wp {req : UpdateProductRequest} {Q : Product → Pt Shop → Prop}
    {X : AppError → Pt Shop → Prop}
    (hd : σ.db = σ.now) (hB : ∀ e σ, B e σ) (hC : ∀ σ', σ.Later σ' →
      ProductEdited id req σ'.now σ'.db → C σ')
    (hQ : ∀ a σ', Q a σ') (hX : ∀ e σ', X e σ') :
    wp shopRules (writing C B) Q X (updateProduct id req) σ := by
  refine Yields.bind_wp (F := fun _ => True) (R := fun _ σ' => σ' = σ)
    (Yields.checked (fun _ _ => rfl) fun _ _ => trivial)
    (fun type σ₁ _ h₁ => ?_) fun e σ' _ _ => hX e σ'
  subst h₁
  refine atomically_wp (R := fun _ σ' => ProductEdited id req σ₁.db σ'.db) ?_ hB
    (fun a σ' hl h => hC σ' hl (by rw [hl.now, ← hd]; exact h)) hQ hX
  refine Yields.bind (Yields.selectFor (m := .noKeyUpdate) (by decide) trivial)
    fun r σ₂ _ ⟨hd₂, hr⟩ => ?_
  cases r with
  | none => exact .throw trivial
  | some row =>
    obtain ⟨hh, hg, -⟩ := hr row rfl
    refine Yields.bind (R := fun _ σ' => (req.apply type row).checks = true ∧ σ' = σ₂)
      (Yields.ensure (fun h => ⟨h, rfl⟩) trivial) fun _ σ₃ _ ⟨hc, h₃⟩ => ?_
    subst h₃
    refine Yields.bind (Yields.put ⟨hh, trivial⟩) fun _ σ₄ _ h₄ => .pure ⟨row, type, hg, hc, ?_⟩
    rw [h₄, ← hd₂]; rfl

/-- A committed edit of a course. -/
def CourseEdited (id : Uuid) (f : Course → Course) (d d' : Db) : Prop :=
  ∃ row, d.get .courses id = some row ∧ d' = d.apply (.mod .courses id f)

theorem updateCourse_wp {req : UpdateCourseRequest} {Q : Course → Pt Shop → Prop}
    {X : AppError → Pt Shop → Prop}
    (hd : σ.db = σ.now) (hB : ∀ e σ, B e σ) (hC : ∀ σ', σ.Later σ' →
      CourseEdited id req.apply σ'.now σ'.db → C σ')
    (hQ : ∀ a σ', Q a σ') (hX : ∀ e σ', X e σ') :
    wp shopRules (writing C B) Q X (updateCourse id req) σ := by
  refine atomically_wp (R := fun _ σ' => CourseEdited id req.apply σ.db σ'.db) ?_ hB
    (fun a σ' hl h => hC σ' hl (by rw [hl.now, ← hd]; exact h)) hQ hX
  refine Yields.bind (Yields.selectFor (m := .update) (by decide) trivial)
    fun r σ₁ _ ⟨hd₁, hr⟩ => ?_
  refine Yields.bind (R := fun row σ' => r = some row ∧ σ' = σ₁)
    (Yields.orFail (fun _ h => ⟨h, rfl⟩) trivial)
    fun row σ₂ _ ⟨he, h₂⟩ => ?_
  subst h₂
  obtain ⟨hh, hg, -⟩ := hr row he
  have hh' : Holds σ₂.held (.row (S := Shop) .courses id) .noKeyUpdate := hh.weaken (by decide)
  refine Yields.bind (R := fun _ σ' => σ' = σ₂) (Yields.checked (fun _ _ => rfl) fun _ _ => trivial)
    fun _ σ₃ _ h₃ => ?_
  subst h₃
  refine Yields.bind (Yields.selectFor_held (by decide) hh') fun r' σ₄ _ ⟨h₄, _⟩ => ?_
  subst h₄
  split
  · exact .throw trivial
  · refine Yields.bind (R := fun _ σ' => σ' = σ₄) (Yields.ensure (fun _ => rfl) trivial)
      fun _ σ₅ _ h₅ => ?_
    subst h₅
    refine Yields.bind (Yields.put ⟨hh', trivial⟩) fun _ σ₆ _ h₆ => .pure ⟨row, hg, ?_⟩
    rw [h₆, ← hd₁]; rfl

theorem setCourseActive_wp {b : Bool} {Q : Unit → Pt Shop → Prop} {X : AppError → Pt Shop → Prop}
    (hd : σ.db = σ.now) (hB : ∀ e σ, B e σ)
    (hC : ∀ σ', σ.Later σ' → (σ'.db = σ'.now ∨
      CourseEdited id (fun c => { c with isActive := b }) σ'.now σ'.db) → C σ')
    (hQ : ∀ a σ', Q a σ') (hX : ∀ e σ', X e σ') :
    wp shopRules (writing C B) Q X (setCourseActive id b) σ := by
  refine atomically_wp (R := fun _ σ' => σ'.db = σ.db ∨
    CourseEdited id (fun c => { c with isActive := b }) σ.db σ'.db) ?_ hB
    (fun a σ' hl h => hC σ' hl (by rw [hl.now, ← hd]; exact h)) hQ hX
  refine Yields.bind (R := fun _ σ' => σ'.db = σ.db ∨
    CourseEdited id (fun c => { c with isActive := b }) σ.db σ'.db)
    (wp_updateRow (fun _ _ _ _ _ _ _ => trivial) (fun _ _ _ _ => ⟨.refl _, .inl rfl⟩)
      (fun _ => ⟨σ.later_grant _ _, .inl rfl⟩) fun row hr _ =>
      ⟨⟨holds_acquire _ _ _, trivial⟩, (σ.later_grant _ _).trans (Pt.later_write _ _),
        .inr ⟨row, hr, rfl⟩⟩)
    fun _ _ _ h => .pure h

end DreamFly
