import DreamFly.Proof.Desk
import DreamFly.Txn.Books

/-!
# Sessions of a subscription over whole runs

* `subs_step`: what a commit makes of a subscription: it is granted, cancelled, or one
  of its sessions is spent.
* `sessions_spent`: in every reachable state the sessions of a subscription that are
  used are the redemptions that have committed.
-/

namespace DreamFly

open Txn

variable {u id o : Uuid} {now : Instant} {d d' : Db} {K : Rely Shop} {σ : Pt Shop} {q : Req}
  {ok : DeskSys → Event DeskReq → DeskSys → Prop} {s s' s₂ : DeskSys}
    {c : Call Shop AppError DeskReply DeskReq} {t : ℕ}

/-! ## What a commit makes of a subscription -/

/-- A shop request leaves a subscription alone, grants it, or cancels it. -/
def SubsKept (d d' : Db) : Prop :=
  ∀ k, d'.get .subscriptions k = d.get .subscriptions k ∨
    (d.get .subscriptions k = none ∧ ∃ s, d'.get .subscriptions k = some s ∧ s.Granted d') ∨
    ∃ s, d.get .subscriptions k = some s ∧ d'.get .subscriptions k = some s.cancel

theorem SubsKept.of_only (ts : List ShopTbl) (h : Only (S := Shop) ts d d')
    (ht : .subscriptions ∉ ts) : SubsKept d d' :=
  fun _ => .inl (h.get (t := ShopTbl.subscriptions) ht _)

/-- A checkout grants subscriptions, for products it leaves in place. -/
theorem CheckedOut.subs {key : Option IdempotencyKey} (x : CheckedOut u key now d d') :
    SubsKept d d' := by
  intro k
  have hbefore : Only (S := Shop) [.products, .orders, .orderItems, .users, .pointLedger,
    .enrolments] d x.steps.enrolled :=
    (x.steps.stock_only.mono (by simp)).trans <| (x.steps.order_only.mono (by simp)).trans <|
      (x.steps.items_only.mono (by simp)).trans <|
      (x.steps.points_only.mono (by simp)).trans (x.steps.enrol_only.mono (by simp))
  have hafter : Only (S := Shop) [.cartItems, .orderIdempotency, .outbox] x.steps.granted d' :=
    (x.steps.cleared.mono (by simp)).trans (x.tail_only.mono (by simp))
  rw [hafter.get (t := ShopTbl.subscriptions) (by simp), ← hbefore.get (t := ShopTbl.subscriptions)
    (by simp)]
  rcases x.steps.subscribed.row k with hsame | ⟨hnone, s, hs, hg⟩
  · exact .inl hsame
  · refine .inr (.inl ⟨hnone, s, hs, hg.active, hg.full, hg.nonneg, ?_⟩)
    have htail : Only (S := Shop) [.subscriptions, .cartItems, .orderIdempotency,
      .outbox] x.steps.enrolled d' :=
      (x.steps.grants.mono (by simp)).trans (hafter.mono (by simp))
    rw [htail.get (t := ShopTbl.products) (by simp)]
    exact hg.product

/-- A refund cancels subscriptions. -/
theorem StatusChanged.subs {target : OrderStatus} (x : StatusChanged id target now d d') :
    SubsKept d d' := by
  intro k
  rw [x.tail_only.get (t := ShopTbl.subscriptions) (by simp)]
  cases hc : compensationRequired x.order.status target with
  | false =>
    rw [x.plain hc]
    exact .inl rfl
  | true =>
    obtain ⟨y⟩ := x.refund hc
    have hbefore : Only (S := Shop) [.users, .pointLedger, .products, .enrolments,
      .leaveRequests] d y.vacated :=
      (y.points_only.mono (by simp)).trans <| (y.stock_only.mono (by simp)).trans
        (y.seats.only.mono (by simp))
    rw [← hbefore.get (t := ShopTbl.subscriptions) (by simp)]
    rcases y.unsubscribed.row k with hsame | ⟨s, hs, -, hs'⟩
    · exact .inl hsame
    · exact .inr (.inr ⟨s, hs, hs'⟩)

theorem Req.Commits.subs (h : q.Commits K σ) : SubsKept σ.now σ.db := by
  cases q with
  | checkout =>
    obtain ⟨x⟩ := h
    exact x.subs
  | updateOrderStatus =>
    obtain ⟨_, -, ⟨x⟩⟩ := h
    exact x.subs
  | _ => exact .of_only _ h.only (by simp [Req.writes])

/-- What a request of the desk makes of a subscription. -/
theorem DeskReq.Commits.subs {q : DeskReq} (h : q.Commits K σ) :
    SubsKept σ.now σ.db ∨ ∃ id now, q = .redeemSession id now ∧ SessionSpent id now σ.now σ.db := by
  cases q with
  | shop q => exact .inl h.1.subs
  | redeemSession id now => exact .inr ⟨id, now, rfl, h⟩
  | createReward req =>
    obtain ⟨k, -, -, hd⟩ := h
    rw [hd]
    exact .inl (.of_only [.rewards] (Only.write _ (by simp [Write.tbl])) (by simp))
  | updateReward id req =>
    obtain ⟨row, -, -, hd⟩ := h
    rw [hd]
    exact .inl (.of_only [.rewards] (Only.write _ (by simp [Write.tbl])) (by simp))

/-! ## Every state of a run -/

theorem SubsKept.subsFK (h : SubsKept d d')
    (hp : ∀ k, (d'.get .products k).isSome = (d.get .products k).isSome) (hd : SubsFK d) :
    SubsFK d' := by
  intro k s hs
  rcases h k with hsame | ⟨-, s', hs', hg⟩ | ⟨s', hs', hc⟩
  · rw [hp]
    exact hd k s (hsame ▸ hs)
  · rw [hs] at hs'
    cases hs'
    exact hg.product
  · rw [hs] at hc
    cases hc
    rw [hp]
    exact hd k s' hs'

theorem SessionSpent.subsFK (h : SessionSpent id now d d') (hd : SubsFK d) : SubsFK d' := by
  obtain ⟨s, hs, -, hget⟩ := h.get
  intro k s' hs'
  rw [h.only.get (t := ShopTbl.products) (by simp)]
  rw [hget] at hs'
  split at hs'
  · cases hs'
    exact hd id s hs
  · exact hd k s' hs'

/-- The contract, in runs in which subscriptions have their products. -/
abbrev sessionContract : Contract desk (shopRules.under (Rely.past SubsFK)) :=
  deskContract (Rely.past SubsFK)

theorem commit_subsFK (hs : s.OK sessionContract) (hd : SubsFK s.db) (h : CommitStep s t c s') :
    SubsFK s'.db := by
  obtain ⟨σ, hnow, hdb, -, -, hcommits⟩ := desk_commits hs h
  have hp : ∀ k, (s'.db.get .products k).isSome = (s.db.get .products k).isSome := fun k =>
    (rel_products (hs.rel_commit h) k).symm
  rw [← hnow, ← hdb] at hp
  rw [← hnow] at hd
  rw [← hdb]
  rcases hcommits.subs with hkept | ⟨id, now, -, hspent⟩
  · exact hkept.subsFK hp hd
  · exact hspent.subsFK hd

/-- **Every reachable state** keeps the contract, and its subscriptions have their products. -/
theorem reach_sessions (hd : SubsFK d) (h : desk.Reach ok (Sys.init d) s) : s.OK sessionContract ∧
    SubsFK s.db := by
  induction h with
  | refl => exact ⟨ok_init d, hd⟩
  | tail _ hst ih =>
    obtain ⟨e, he, -⟩ := hst
    obtain ⟨hs, hfk⟩ := ih
    refine ⟨step_ok hs he fun _ _ _ _ _ => hfk, ?_⟩
    rcases step_db he with hsame | ⟨t, c, hcs⟩
    · rw [hsame]
      exact hfk
    · exact commit_subsFK hs hfk hcs

/-! ## Sessions used -/

/-- The sessions of subscription `id` that are used. -/
def sessionsUsed (id : Uuid) (d : Db) : ℤ :=
  ((d.get .subscriptions id).map fun s =>
    s.totalSessions.getD 0 - s.remainingSessions.getD 0).getD 0

/-- One for a redemption of subscription `id`. -/
def DeskReq.redeems (id : Uuid) : DeskReq → ℤ
  | .redeemSession k _ => if k = id then 1 else 0
  | _ => 0

theorem SubsKept.used (h : SubsKept d d') (id : Uuid) : sessionsUsed id d' = sessionsUsed id d := by
  unfold sessionsUsed
  rcases h id with hsame | ⟨hnone, s, hs, hg⟩ | ⟨s, hs, hc⟩
  · rw [hsame]
  · rw [hnone, hs, Option.map_some, hg.full, sub_self]
    rfl
  · rw [hs, hc]
    rfl

theorem redeemable_iff {s : Subscription} : s.redeemable now = true ↔
    s.derivedStatus now = .active ∧ ∃ n, s.remainingSessions = some n ∧ 0 < n := by
  unfold Subscription.redeemable
  rw [decide_eq_true_eq, Option.any_eq_true]
  simp only [decide_eq_true_eq]

theorem SessionSpent.used (h : SessionSpent id now d d') (k : Uuid) :
    sessionsUsed k d' = sessionsUsed k d + if id = k then 1 else 0 := by
  obtain ⟨s, hs, hr, hget⟩ := h.get
  obtain ⟨-, n, hn, -⟩ := redeemable_iff.1 hr
  unfold sessionsUsed
  rw [hget]
  by_cases hk : k = id
  · subst hk
    rw [if_pos rfl, if_pos rfl, hs]
    simp only [Subscription.spend, hn, Option.map_some, Option.getD_some]
    omega
  · rw [if_neg hk, if_neg fun he => hk he.symm, add_zero]

/-- No subscription has less than no sessions left. -/
def SessionsNonneg (d : Db) : Prop := ∀ k s n, d.get .subscriptions k = some s →
    s.remainingSessions = some n → 0 ≤ n

theorem SubsKept.nonneg (h : SubsKept d d') (hd : SessionsNonneg d) : SessionsNonneg d' := by
  intro k s n hs hn
  rcases h k with hsame | ⟨-, s', hs', hg⟩ | ⟨s', hs', hc⟩
  · exact hd k s n (hsame ▸ hs) hn
  · rw [hs] at hs'
    cases hs'
    exact hg.nonneg n hn
  · rw [hs] at hc
    cases hc
    exact hd k s' n hs' hn

theorem SessionSpent.nonneg (h : SessionSpent id now d d') (hd : SessionsNonneg d) :
    SessionsNonneg d' := by
  obtain ⟨s, hs, hr, hget⟩ := h.get
  obtain ⟨-, n, hn, hpos⟩ := redeemable_iff.1 hr
  intro k s' m hs' hm
  rw [hget] at hs'
  split at hs'
  · cases hs'
    simp only [Subscription.spend, hn, Option.map_some, Option.some.injEq] at hm
    omega
  · exact hd k s' m hs' hm

theorem redeems_ne {q : DeskReq} (h : q.redeems id ≠ 0) : ∃ now, q = .redeemSession id now := by
  cases q with
  | redeemSession k now =>
    by_cases hk : k = id
    · exact ⟨now, by rw [hk]⟩
    · exact absurd (if_neg hk) h
  | _ => exact absurd rfl h

/-- A commit uses one session of the subscription its request redeems. -/
theorem commit_used (hs : s.OK sessionContract) (h : CommitStep s t c s') :
    c.committed = false ∧ sessionsUsed id s'.db = sessionsUsed id s.db + c.req.redeems id := by
  obtain ⟨σ, hnow, hdb, -, hcom, hcommits⟩ := desk_commits hs h
  refine ⟨hcom, ?_⟩
  rw [← hnow, ← hdb]
  cases hq : c.req with
  | redeemSession k now =>
    rw [hq] at hcommits
    exact SessionSpent.used hcommits id
  | _ =>
    rcases hcommits.subs with hkept | ⟨k, now, hk, -⟩
    · exact (hkept.used id).trans (add_zero _).symm
    · rw [hq] at hk
      cases hk

theorem commit_spent (hs : s.OK sessionContract) (h : CommitStep s t c s')
    (hq : c.req = .redeemSession id now) :
    SessionSpent id now s.db s'.db := by
  obtain ⟨σ, hnow, hdb, -, -, hcommits⟩ := desk_commits hs h
  rw [← hnow, ← hdb]
  rw [hq] at hcommits
  exact hcommits

theorem reach_nonneg (hfk : SubsFK d) (hpos : SessionsNonneg d) (h : desk.Reach ok (Sys.init d) s) :
    SessionsNonneg s.db :=
  reach_inv (C := sessionContract) (fun _ hr => (reach_sessions hfk hr).1) hpos
    (fun q σ _ ho hσ => by
    rcases ho.2.subs with hkept | ⟨id, now, -, hspent⟩
    · exact hkept.nonneg hσ
    · exact hspent.nonneg hσ) h

/-! ## A subscription over time -/

/-- What becomes of a subscription: it stays cancelled, it expires when it did, and no
sessions stay no sessions. -/
structure Subscription.Later (s s' : Subscription) : Prop where
  cancelled : s.status = .cancelled → s'.status = .cancelled
  expires : s'.expiresAt = s.expiresAt
  uncounted : s.remainingSessions = none → s'.remainingSessions = none
  exhausted : s.remainingSessions = some 0 → s'.remainingSessions = some 0

namespace Subscription.Later

variable {a b e : Subscription}

theorem refl (a : Subscription) : a.Later a := ⟨id, rfl, id, id⟩

theorem trans (h : a.Later b) (h' : b.Later e) : a.Later e where
  cancelled hc := h'.cancelled (h.cancelled hc)
  expires := h'.expires.trans h.expires
  uncounted hn := h'.uncounted (h.uncounted hn)
  exhausted h0 := h'.exhausted (h.exhausted h0)

/-- A subscription that was over by one clock is over by any later one. -/
theorem ended (h : a.Later b) {now₁ : Instant} (hle : now₁ ≤ now)
    (ha : a.derivedStatus now₁ ≠ .active) :
    b.derivedStatus now ≠ .active := by
  unfold Subscription.derivedStatus subscriptionDerivedStatus at ha ⊢
  split at ha
  next hc =>
    rw [if_pos (h.cancelled hc)]
    simp
  split at ha
  next hx =>
    split
    · simp
    · rw [if_pos ?_]
      · simp
      rcases hx with hx | hx
      · refine .inl ?_
        rw [h.expires]
        obtain ⟨x, hx', hxle⟩ := (Option.any_eq_true _ _).1 hx
        rw [hx']
        simp only [Option.any_some, decide_eq_true_eq] at hxle ⊢
        exact le_trans hxle hle
      · exact .inr (h.exhausted hx)
  · exact absurd rfl ha

end Subscription.Later

theorem spend_later {s : Subscription} (h : s.redeemable now = true) : s.Later s.spend := by
  obtain ⟨-, n, hn, hpos⟩ := redeemable_iff.1 h
  refine ⟨id, rfl, fun h0 => ?_, fun h0 => ?_⟩
  · rw [hn] at h0
    cases h0
  · rw [hn] at h0
    cases h0
    omega

/-- A commit keeps a subscription, as it is or later. -/
theorem commit_later (hs : s.OK sessionContract) (h : CommitStep s t c s') {row : Subscription}
    (hrow : s.db.get .subscriptions id = some row) : ∃ row', s'.db.get .subscriptions id =
      some row' ∧ row.Later row' := by
  obtain ⟨σ, hnow, hdb, -, -, hcommits⟩ := desk_commits hs h
  rw [← hnow] at hrow
  rw [← hdb]
  rcases hcommits.subs with hkept | ⟨k, now, -, hspent⟩
  · rcases hkept id with hsame | ⟨hnone, -⟩ | ⟨s₁, hs₁, hc⟩
    · exact ⟨row, hsame.trans hrow, .refl row⟩
    · rw [hrow] at hnone
      cases hnone
    · rw [hrow] at hs₁
      cases hs₁
      exact ⟨_, hc, fun _ => rfl, rfl, fun hn => hn, fun h0 => h0⟩
  · obtain ⟨s₁, hs₁, hr, hget⟩ := hspent.get
    rw [hget]
    split
    next he =>
      subst he
      rw [hrow] at hs₁
      cases hs₁
      exact ⟨_, rfl, spend_later hr⟩
    · exact ⟨row, hrow, .refl row⟩

theorem reach_later (hOK : ∀ s₁, desk.Reach ok s s₁ → s₁.OK sessionContract) {row : Subscription}
    (hrow : s.db.get .subscriptions id = some row) (h : desk.Reach ok s s') :
    ∃ row', s'.db.get .subscriptions id = some row' ∧ row.Later row' := by
  induction h with
  | refl => exact ⟨row, hrow, .refl row⟩
  | tail hr hst ih =>
    obtain ⟨e, he, -⟩ := hst
    obtain ⟨row₁, hrow₁, hlater⟩ := ih
    rcases step_db he with hsame | ⟨t, c, hcs⟩
    · exact ⟨row₁, hsame ▸ hrow₁, hlater⟩
    · obtain ⟨row₂, hrow₂, hlater₂⟩ := commit_later (hOK _ hr) hcs hrow₁
      exact ⟨row₂, hrow₂, hlater.trans hlater₂⟩

/-! ## The whole run -/

/-- **The sessions of a subscription are spent exactly.** In every reachable state of the
shop and its desk, whatever the calls, their clocks and their order:

* the sessions that are used are the redemptions that have committed, and where none is
  under way or has lost its connection, the ones that were answered;
* no subscription has less than no sessions left;
* a redemption spends one session of a subscription that is active by its clock and has
  some left, and changes nothing else;
* once a subscription is over by some clock (cancelled, expired, exhausted), no redemption
  with this clock or a later one commits;
* a subscription without a count stays without one;
* a redemption that is answered has committed; one that is refused, unless its connection
  was lost, has not, and none of its operations has changed the store. -/
theorem sessions_spent (hfk : SubsFK d) (hpos : SessionsNonneg d)
    (h : desk.Reach ok (Sys.init d) s) :
    (∀ id, sessionsUsed id s.db = sessionsUsed id d + s.booked (DeskReq.redeems id) ∧
      ((∀ t c, s.call t = some c → c.req.redeems id ≠ 0 → c.finished ∧
        c.prog.failed ≠ some (.database .connection)) →
        sessionsUsed id s.db = sessionsUsed id d + s.answered (DeskReq.redeems id))) ∧
    SessionsNonneg s.db ∧
    (∀ t c s' id now, CommitStep s t c s' → c.req = .redeemSession id now →
      SessionSpent id now s.db s'.db) ∧
    (∀ s₁ t c s₂ id row now₁ now, desk.Reach ok s s₁ → s.db.get .subscriptions id = some row →
      row.derivedStatus now₁ ≠ .active →
      now₁ ≤ now → c.req = .redeemSession id now → ¬ CommitStep s₁ t c s₂) ∧
    (∀ s₁ id row, desk.Reach ok s s₁ → s.db.get .subscriptions id = some row →
      row.remainingSessions = none →
      ∃ row', s₁.db.get .subscriptions id = some row' ∧ row'.remainingSessions = none) ∧
    ∀ t c id now, s.call t = some c → c.req = .redeemSession id now →
      (∀ a, c.prog = .ret a → c.committed = true) ∧
      ∀ e, c.prog = .fail e → e ≠ .database .connection → c.committed = false ∧
        desk.Reach (fun a e b => ok a e b ∧ (e.call = t → b.db = a.db)) (Sys.init d) s := by
  obtain ⟨hs, hfk'⟩ := reach_sessions hfk h
  have hcalls : ∀ t c id now, s.call t = some c → c.req = .redeemSession id now →
      (∀ a, c.prog = .ret a → c.committed = true) ∧
      ∀ e, c.prog = .fail e → e ≠ .database .connection → c.committed = false ∧
        desk.Reach (fun a e b => ok a e b ∧ (e.call = t → b.db = a.db)) (Sys.init d) s := by
    intro t c id now hc hq
    refine ⟨fun a hk => ?_, fun e hk hne => ?_⟩
    · obtain ⟨start, -, hpost⟩ := hs.ret hc hk
      exact hpost (by rw [hq]; trivial)
    · obtain ⟨start, ⟨-, hstart⟩, herr⟩ := (hs.tracked t c hc).fail hk
      rw [hq] at herr
      have hcom : c.committed = false := herr hne (hstart hfk')
      refine ⟨hcom, reach_quiet h fun c' hc' => ?_⟩
      rw [hc] at hc'
      cases hc'
      exact hcom
  have hbooks : ∀ id, sessionsUsed id s.db = sessionsUsed id d +
      s.booked (DeskReq.redeems id) := fun id =>
    reach_books (f := sessionsUsed id) (fun s₁ t c s₂ e hr _ _ hcs => commit_used
      (reach_sessions hfk hr).1 hcs) h
  refine ⟨fun id => ⟨hbooks id, fun hended => ?_⟩, reach_nonneg hfk hpos h,
    fun t c s' id now hcs hq => ?_,
    fun s₁ t c s₂ id row now₁ now hr hrow hover hle hq hcs => ?_, fun s₁ id row hr hrow hnone =>
      ?_, hcalls⟩
  · -- once all are over, who has committed is who has answered
    rw [hbooks, booked_eq_answered fun t c hc hg => ?_]
    obtain ⟨hfin, hlost⟩ := hended t c hc hg
    obtain ⟨now, hq⟩ := redeems_ne hg
    obtain ⟨hret, hfail⟩ := hcalls t c id now hc hq
    unfold Call.returned
    unfold Call.finished at hfin
    cases hk : c.prog with
    | ret a => exact hret a hk
    | fail e =>
      rw [hk] at hlost
      exact (hfail e hk fun he => hlost (by rw [he]; rfl)).1
    | _ => rw [hk] at hfin; cases hfin
  · exact commit_spent hs hcs hq
  · have hOK : ∀ s', desk.Reach ok s s' → s'.OK sessionContract :=
      fun s' hs' => (reach_sessions hfk (h.trans hs')).1
    -- what was over stays over, and the commit would have found it so
    obtain ⟨row', hrow', hlater⟩ := reach_later hOK hrow hr
    obtain ⟨s', hs', hr', -⟩ := commit_spent (hOK s₁ hr) hcs hq
    rw [hrow'] at hs'
    cases hs'
    exact hlater.ended hle hover (redeemable_iff.1 hr').1
  · obtain ⟨row', hrow', hlater⟩ :=
      reach_later (fun s' hs' => (reach_sessions hfk (h.trans hs')).1) hrow hr
    exact ⟨row', hrow', hlater.uncounted hnone⟩

/-- User 1 has a pass with two sessions, until 90. -/
def passShop : Db :=
  Store.overlay [.add .users 1 ⟨0⟩, .add .products 3 ⟨"pass", .ticket, 500, none, none,
    some 2, true⟩,
    .add .subscriptions 7 ⟨1, 3, none, .active, some 90, some 2, some 2, 500, 0⟩] fun _ => ∅

/-- A session is redeemed at 50, and again at 95. -/
def passRedeemed : List (Event DeskReq) :=
  (.start 0 (.redeemSession 7 50) :: Event.steps 0 0 6) ++
  (.start 1 (.redeemSession 7 95) :: Event.steps 1 0 3)

theorem sessions_spent_pass : sessionsUsed 7 (desk.after passRedeemed (.init passShop)).db =
      sessionsUsed 7 passShop + (desk.after passRedeemed (.init passShop)).booked
        (DeskReq.redeems 7) ∧
    SessionsNonneg (desk.after passRedeemed (.init passShop)).db := by
  have hsubs : ∀ k s, passShop.get .subscriptions k = some s → s.productId = 3 ∧
      s.remainingSessions = some 2 := fun _ _ =>
    Store.get_all (d := passShop) (t := ShopTbl.subscriptions) (P := fun _ s => s.productId = 3 ∧
      s.remainingSessions = some 2)
      (by decide)
  have hfk : SubsFK passShop := fun k s hs => by
    rw [(hsubs k s hs).1]
    decide
  have hpos : SessionsNonneg passShop := fun k s n hs hn => by
    rw [(hsubs k s hs).2] at hn
    cases hn
    decide
  obtain ⟨hused, hleft, -⟩ := sessions_spent hfk hpos (Service.reachable_after passRedeemed)
  exact ⟨(hused 7).1, hleft⟩

/-- One session is used; the second redemption came too late. -/
example : sessionsUsed 7 (desk.after passRedeemed (.init passShop)).db = 1 ∧
    ((desk.after passRedeemed (.init passShop)).call 1).bind (·.prog.failed) =
      some (.conflict "subscription is not redeemable") := by
  decide +kernel

end DreamFly
