import DreamFly.Proof.Contract
import DreamFly.Shop.Desk

/-!
# The desk, proved

What the requests of the desk did where they committed (`DeskReq.Commits`), and the
contract of the shop with its desk.
-/

namespace DreamFly

open Txn Prog

variable {C : Pt Shop → Prop} {B : Option AppError → Pt Shop → Prop} {σ : Pt Shop} {K : Rely Shop}
  {u id r : Uuid}
  {now : Instant} {born d d' : Db} {q : DeskReq}

/-- A statement of its own: a commit with a row, a rollback without one. -/
theorem wp_autocommit {α : Type} {D : Discipline Shop} {O : Oblig Shop AppError} {p : Tx (Option α)}
    {Q : Option α → Pt Shop → Prop} {X : AppError → Pt Shop → Prop}
    (h : wp D O (fun o σ' => match o with
        | some a => O.commit σ' ∧ ∀ d, D.rel [] σ'.db d → Q (some a) (.begin σ'.db d true)
        | none =>
          O.rollback none σ' ∧ ∀ d, D.rel [] σ'.now d → Q none (.begin σ'.now d σ'.committed))
      (fun e σ' => O.rollback (some e) σ' ∧ ∀ d, D.rel [] σ'.now d →
        X e (.begin σ'.now d σ'.committed)) p σ) :
    wp D O Q X (autocommit p) σ := by
  refine (wp_handle _ _ p σ).2 (wp_mono (fun o σ' h => ?_) (fun e σ' h => h) p σ h)
  cases o with
  | some a => exact h
  | none => exact h

/-! ## Sessions -/

/-- Every subscription is for a product there is. -/
def SubsFK (d : Db) : Prop := ∀ k s, d.get .subscriptions k = some s →
    (d.get .products s.productId).isSome

/-- A session of subscription `id` was spent, by the clock `now`. -/
def SessionSpent (id : Uuid) (now : Instant) (d d' : Db) : Prop :=
  ∃ s, d.get .subscriptions id = some s ∧ s.redeemable now = true ∧
    d' = d.apply (.mod .subscriptions id Subscription.spend)

theorem SessionSpent.get (h : SessionSpent id now d d') : ∃ s, d.get .subscriptions id = some s ∧
    s.redeemable now = true ∧
    ∀ k, d'.get .subscriptions k = if k = id then some s.spend else d.get .subscriptions k := by
  obtain ⟨s, hs, hr, rfl⟩ := h
  refine ⟨s, hs, hr, fun k => ?_⟩
  rw [Store.get_mod, hs]
  rfl

theorem SessionSpent.only (h : SessionSpent id now d d') :
    Only (S := Shop) [.subscriptions] d d' := by
  obtain ⟨s, -, -, rfl⟩ := h
  exact Only.write _ (by simp [Write.tbl])

/-- The UPDATE commits one session less, or nothing. -/
theorem redeemOneSession_wp {Q : Option Subscription → Pt Shop → Prop}
    {X : AppError → Pt Shop → Prop} (hd : σ.db = σ.now)
    (hB : ∀ e σ, B e σ) (hC : ∀ σ', σ.Later σ' → SessionSpent id now σ'.now σ'.db → C σ')
    (hQ : ∀ s d d', d.get .subscriptions id = some s → Q (some s) (.begin d d' true))
    (hn : ∀ d d', Q none (.begin d d' σ.committed)) :
    wp shopRules (writing C B) Q X (redeemOneSession id now) σ := by
  refine wp_autocommit (wp_updateRow (S := Shop) (t := ShopTbl.subscriptions)
    (fun _ _ _ _ _ _ _ => trivial) (fun _ _ _ _ => ?_)
    (fun _ => ?_) fun s hs hp => ?_)
  · exact ⟨hB _ _, fun d _ => hn _ d⟩
  · exact ⟨hB _ _, fun d _ => hn _ d⟩
  have hspent : SessionSpent id now σ.now
      (σ.db.apply (.mod .subscriptions id
      (onlyIf (Subscription.redeemable now) Subscription.spend))) := by
    refine ⟨s, hd ▸ hs, hp, ?_⟩
    rw [hd] at hs ⊢
    exact Store.apply_mod_congr (S := Shop) hs (onlyIf_pos hp)
  refine ⟨⟨holds_acquire _ _ _, ?_⟩, hC _ ((σ.later_grant _ _).trans (Pt.later_write _ _)) hspent,
    fun d _ => hQ _ _ d ?_⟩
  · exact onlyIf_ind (P := fun r r' : Subscription => r'.orderId = r.orderId)
      (fun _ _ => rfl) fun _ => rfl
  · rw [Pt.write_db, Pt.grant_db, Store.get_mod, if_pos rfl, hs, Option.map_some, onlyIf_pos hp]

/-- **A session is redeemed**, or the call fails before its commit: afterwards only the
name of the product is looked up, and the product is there. -/
theorem redeemSession_wp {Q : SubscriptionResponse → Pt Shop → Prop} {X : AppError → Pt Shop → Prop}
    (hd : σ.db = σ.now)
    (hB : ∀ e σ, B e σ) (hC : ∀ σ', σ.Later σ' → SessionSpent id now σ'.now σ'.db → C σ')
    (hQ : ∀ a σ', σ'.committed = true → Q a σ')
    (hX : ∀ e σ', (SubsFK σ'.start → σ'.committed = σ.committed) → X e σ') :
    wp shopRules (writing C B) Q X (redeemSession id now) σ := by
  unfold redeemSession
  rw [wp_bind]
  refine redeemOneSession_wp hd hB hC (fun s d d' hs => ?_) fun d d' => ?_
  · show wp shopRules (writing C B) Q X (productName s.productId >>= fun name => pure _)
        (.begin d d' true)
    rw [wp_bind]
    unfold productName
    rw [wp_bind]
    refine wp_read fun v hstart _ => ?_
    rw [wp_bind]
    refine wp_orFail (fun product _ => hQ _ _ rfl) fun hnone => hX _ _ fun hfk => ?_
    have hproduct := hfk id s hs
    rw [rel_products hstart, hnone] at hproduct
    cases hproduct
  · show wp shopRules (writing C B) Q X (notRedeemable id) (.begin d d' σ.committed)
    unfold notRedeemable
    rw [wp_bind]
    refine wp_read fun v _ _ => ?_
    rw [wp_bind]
    refine wp_orFail (fun s _ => ?_) fun _ => hX _ _ fun _ => rfl
    split
    · exact hX _ _ fun _ => rfl
    · exact hX _ _ fun _ => rfl

/-! ## Rewards -/

def CreateRewardRequest.row (req : CreateRewardRequest) : Reward :=
  ⟨req.pointsCost, req.stock, true⟩

/-- A reward was added. -/
def RewardAdded (req : CreateRewardRequest) (d d' : Db) : Prop :=
  ∃ k, req.row.checks = true ∧ d.get .rewards k = none ∧ d' = d.apply (.add .rewards k req.row)

/-- Reward `id` was edited. -/
def RewardEdited (id : Uuid) (req : UpdateRewardRequest) (d d' : Db) : Prop :=
  ∃ row, d.get .rewards id = some row ∧ (req.apply row).checks = true ∧
    d' = d.apply (.mod .rewards id req.apply)

theorem createReward_wp {req : CreateRewardRequest} {Q : Reward → Pt Shop → Prop}
    {X : AppError → Pt Shop → Prop}
    (hd : σ.db = σ.now) (hB : ∀ e σ, B e σ) (hC : ∀ σ', σ.Later σ' →
      RewardAdded req σ'.now σ'.db → C σ')
    (hQ : ∀ a σ', Q a σ') (hX : ∀ e σ', X e σ') : wp shopRules (writing C B) Q X
      (createReward req) σ := by
  refine atomically_wp (R := fun _ σ' => RewardAdded req σ.db σ'.db) ?_ hB
    (fun a σ' hl h => hC σ' hl ?_) hQ hX
  · refine Yields.bind (R := fun _ σ' => req.row.checks = true ∧ σ' = σ)
      (Yields.ensure (fun h => ⟨h, rfl⟩) trivial)
      fun _ σ₁ _ ⟨hchecks, h₁⟩ => ?_
    subst h₁
    refine Yields.bind (Yields.insert fun n => ⟨holds_acquire _ _ _, trivial⟩)
      fun n σ₂ _ ⟨_, hnew, _, h₂⟩ => .pure ?_
    exact ⟨n, hchecks, hnew, by rw [h₂]; rfl⟩
  · rw [hl.now, ← hd]
    exact h

theorem updateReward_wp {req : UpdateRewardRequest} {Q : Reward → Pt Shop → Prop}
    {X : AppError → Pt Shop → Prop}
    (hd : σ.db = σ.now) (hB : ∀ e σ, B e σ) (hC : ∀ σ', σ.Later σ' →
      RewardEdited id req σ'.now σ'.db → C σ')
    (hQ : ∀ a σ', Q a σ') (hX : ∀ e σ', X e σ') : wp shopRules (writing C B) Q X
      (updateReward id req) σ := by
  have htx : Does C B σ (updateRewardTx id req) (fun _ => True) fun o σ' => o.isSome →
      RewardEdited id req σ.db σ'.db := by
    refine Yields.bind (Yields.selectFor (m := .noKeyUpdate) (by decide) trivial)
      fun o σ₁ _ ⟨hd₁, ho⟩ => ?_
    cases o with
    | none => exact .pure fun h => by cases h
    | some row =>
      obtain ⟨hh, hrow, -⟩ := ho row rfl
      refine Yields.bind (R := fun _ σ' => (req.apply row).checks = true ∧ σ' = σ₁)
        (Yields.ensure (fun h => ⟨h, rfl⟩) trivial)
        fun _ σ₂ _ ⟨hchecks, h₂⟩ => ?_
      subst h₂
      refine Yields.bind (Yields.put ⟨hh, trivial⟩) fun _ σ₃ _ h₃ => .pure fun _ => ?_
      exact ⟨row, hrow, hchecks, by rw [h₃, Pt.write_db, hd₁]⟩
  unfold updateReward
  rw [wp_bind]
  refine wp_autocommit (htx.wp (fun o σ' hl h => ?_) fun e σ' _ _ => ⟨hB _ _, fun d _ => hX _ _⟩)
  cases o with
  | none => exact ⟨hB _ _, fun d _ => wp_orFail (fun _ _ => hQ _ _) fun _ => hX _ _⟩
  | some row =>
    refine ⟨hC σ' hl ?_, fun d _ => wp_orFail (fun _ _ => hQ _ _) fun _ => hX _ _⟩
    rw [hl.now, ← hd]
    exact h rfl

/-! ## The contract -/

/-- Of a redemption, also what was on offer under the lock it still holds. -/
def Req.Takes : Req → Pt Shop → Prop
  | .redeem u r now, σ =>
    Nonempty (RewardTaken u r now σ.now σ.db) ∧ Holds σ.held (.row (S := Shop) .rewards r) .update
  | _, _ => True

/-- What a request did to the store where it commits. -/
def DeskReq.Commits (K : Rely Shop) : DeskReq → Pt Shop → Prop
  | .shop q, σ => q.Commits K σ ∧ q.Takes σ
  | .redeemSession id now, σ => SessionSpent id now σ.now σ.db
  | .createReward req, σ => RewardAdded req σ.now σ.db
  | .updateReward id req, σ => RewardEdited id req σ.now σ.db

/-- A request that spends a session or points. -/
def DeskReq.Spends : DeskReq → Prop
  | .redeemSession _ _ | .shop (.redeem _ _ _) => True
  | _ => False

def DeskReq.oblig (K : Rely Shop) (q : DeskReq) : Oblig Shop AppError :=
  writing (fun σ => σ.committed = false ∧ q.Commits K σ) fun _ _ => True

/-- How such a request fails, unless its connection is lost. -/
def DeskReq.Failed : DeskReq → AppError → Pt Shop → Prop
  | .redeemSession _ _, e, σ => e ≠ .database .connection → SubsFK σ.start → σ.committed = false
  | .shop (.redeem _ _ _), e, σ => e ≠ .database .connection → σ.committed = false
  | _, _, _ => True

/-- **Every request keeps its contract**, on its own. -/
theorem DeskReq.meets (q : DeskReq) :
    wp (shopRules.under K) (q.oblig K) (fun _ σ => q.Spends → σ.committed = true) q.Failed q.prog
      (.begin born d false) := by
  have hB : ∀ (e : Option AppError) (σ : Pt Shop), True := fun _ _ => trivial
  have hin : ∀ {α : Type} {O : Oblig Shop AppError} {Q : α → Pt Shop → Prop}
      {X : AppError → Pt Shop → Prop} {p : Tx α}
      {σ : Pt Shop}, wp shopRules O Q X p σ → wp (shopRules.under K) O Q X p σ :=
        fun h => wp_under (fun _ _ _ => trivial) _ _ h
  cases q with
  | shop q => ?_
  | redeemSession id now =>
    refine wp_reply (hin ?_)
    refine redeemSession_wp rfl hB (fun σ' hl h => ⟨hl.committed, h⟩)
      (fun _ _ h _ => h) fun e σ' h _ hfk => h hfk
  | createReward req =>
    exact wp_reply (hin (createReward_wp rfl hB (fun σ' hl h => ⟨hl.committed, h⟩)
      (fun _ _ h => h.elim) fun _ _ => trivial))
  | updateReward id req =>
    exact wp_reply (hin (updateReward_wp rfl hB (fun σ' hl h => ⟨hl.committed, h⟩)
      (fun _ _ h => h.elim) fun _ _ => trivial))
  refine wp_reply ?_
  -- a redemption has a specification of its own, the others have the shop's
  by_cases hq : ∃ u r now, q = .redeem u r now
  · obtain ⟨u, r, now, rfl⟩ := hq
    refine wp_reply (hin (redeem_taken rfl hB (fun σ' hl hx hh => ⟨hl.committed, ?_, hx, hh⟩)
      (fun _ _ h _ => h) fun e σ' h _ => h))
    obtain ⟨x⟩ := hx
    exact ⟨_, x.paid, x.cost_pos, x.points, x.rest⟩
  · have htakes : ∀ σ, q.Takes σ := fun σ => by
      cases q with
      | redeem => exact absurd ⟨_, _, _, rfl⟩ hq
      | _ => trivial
    have hspends : ¬ (DeskReq.shop q).Spends := fun h => by
      cases q with
      | redeem => exact hq ⟨_, _, _, rfl⟩
      | _ => exact h
    have hfailed : ∀ e σ, (DeskReq.shop q).Failed e σ := fun e σ => by
      cases q with
      | redeem => exact absurd ⟨_, _, _, rfl⟩ hq
      | _ => trivial
    have hshop : wp (shopRules.under K) (q.oblig K) q.Answered (q.Failed born) q.prog
        (.begin born d false) := q.meets
    have hmeets : wp (shopRules.under K) (q.oblig K) (fun _ σ => (DeskReq.shop q).Spends →
        σ.committed = true) (DeskReq.shop q).Failed
        q.prog (.begin born d false) :=
      wp_mono (fun _ _ _ h => absurd h hspends) (fun _ _ _ => hfailed _ _) _ _ hshop
    refine wp_oblig ?_ ?_ ?_ ?_ _ _ hmeets
    · exact fun _ _ h => h
    · exact fun _ _ _ h => h
    · exact fun σ h => ⟨h.1, h.2, htakes σ⟩
    · exact fun _ _ _ => trivial

/-- **The contract of the shop and its desk.** -/
def deskContract (K : Rely Shop) : Contract desk (shopRules.under K) where
  oblig q := q.oblig K
  post q _ _ σ := q.Spends → σ.committed = true
  err q _ := q.Failed
  covers q σ w h := covers_of h.1 h.2
  crash q d σ := by
    cases q with
    | redeemSession id now => exact fun h => absurd rfl h
    | shop q =>
      cases q with
      | redeem => exact fun h => absurd rfl h
      | _ => trivial
    | _ => trivial
  meets q d d' _ := q.meets

abbrev DeskSys := Sys Shop AppError DeskReply DeskReq

variable {s s' : DeskSys} {c : Call Shop AppError DeskReply DeskReq} {t : ℕ}

/-- A commit in a state that keeps the contract: what the request did to the store. -/
theorem desk_commits (hs : s.OK (deskContract K)) (h : CommitStep s t c s') :
    ∃ σ : Pt Shop, σ.now = s.db ∧ σ.db = s'.db ∧ σ.held = c.held ∧ c.committed = false ∧
      c.req.Commits K σ := by
  obtain ⟨start, -, hc, hcom⟩ := hs.commit h
  obtain ⟨-, k, -, rfl⟩ := h
  exact ⟨c.pt start s.db, rfl, rfl, rfl, hc, hcom⟩

end DreamFly
