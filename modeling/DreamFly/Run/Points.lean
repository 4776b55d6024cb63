import DreamFly.Proof.Contract

/-!
# Points over whole runs

* `points_conserved`: in every reachable state a balance is the sum of the user's
  ledger rows and not negative, and every row has the sign of its reason.

Every commit moves points by a chain of `Applied` steps and leaves them alone
otherwise (`Req.Commits.points`).
-/

namespace DreamFly

open Txn

variable {u o id : Uuid} {now : Instant} {d d' d₁ d₂ : Db} {q : Req} {σ : Pt Shop}
  {ld : LedgerDelta} {lds : List LedgerDelta}
  {ok : ShopSys → Event Req → ShopSys → Prop} {s s' : ShopSys}
    {c : Call Shop AppError Reply Req} {t : ℕ}
  {b₀ : Uuid → ℤ}

/-! ## What a commit does to points -/

/-- The sign that a reason asks for. -/
def PointReason.Signed : PointReason → ℤ → Prop
  | .checkoutEarn, δ | .refundRestore, δ => 0 < δ
  | .checkoutRedeem, δ | .redeem, δ | .refundClawback, δ => δ < 0
  | .adminAdjust, δ => δ ≠ 0

theorem PointReason.Signed.ne_zero {r : PointReason} {δ : ℤ} (h : r.Signed δ) : δ ≠ 0 := by
  cases r <;> simp only [PointReason.Signed] at h <;> omega

/-- No balance and no ledger row differs. -/
structure SamePoints (d d' : Db) : Prop where
  users : d' .users = d .users
  ledger : d' .pointLedger = d .pointLedger

theorem SamePoints.of_only (ts : List ShopTbl) (h : Only (S := Shop) ts d d') (hu : .users ∉ ts)
    (hl : .pointLedger ∉ ts) :
    SamePoints d d' := ⟨h _ hu, h _ hl⟩

namespace SamePoints

variable (h : SamePoints d d')
include h

theorem get_users (u : Uuid) : d'.get .users u = d.get .users u := by unfold Store.get; rw [h.users]

theorem get_ledger (k : Uuid) : d'.get .pointLedger k = d.get .pointLedger k := by
    unfold Store.get; rw [h.ledger]

theorem total (f : Uuid → LedgerRow → ℤ) : d'.total .pointLedger f = d.total .pointLedger f := by
  unfold Store.total; rw [h.ledger]

end SamePoints

/-- Points moved by `lds`, in order, on the account of `u`; nothing else moved them. -/
def PointsMoved (u : Uuid) (now : Instant) (lds : List LedgerDelta) (d d' : Db) : Prop :=
  ∃ d₁ d₂, SamePoints d d₁ ∧ Chain (Applied u now) lds d₁ d₂ ∧ SamePoints d₂ d'

theorem PointsMoved.none (h : SamePoints d d') : PointsMoved u now [] d d' :=
  ⟨d', d', h, rfl, rfl, rfl⟩

/-- A sale's points, between what comes before and after. -/
theorem CheckedOut.points {key : Option IdempotencyKey} (x : CheckedOut u key now d d') :
    PointsMoved u now (x.outcome.ledgerDeltas x.o) d d' := by
  refine ⟨x.steps.lined, x.steps.paid, ?_, x.steps.points, ?_⟩
  · exact .of_only [.products, .orders, .orderItems] ((x.steps.stock_only.mono (by simp)).trans <|
      (x.steps.order_only.mono (by simp)).trans (x.steps.items_only.mono (by simp)))
        (by simp) (by simp)
  · exact .of_only [.enrolments, .subscriptions, .cartItems, .orderIdempotency, .outbox]
      ((x.steps.enrol_only.mono (by simp)).trans <| (x.steps.grants.mono (by simp)).trans <|
        (x.steps.cleared.mono (by simp)).trans (x.tail_only.mono (by simp))) (by simp) (by simp)

/-- A refund's points. -/
theorem Compensated.points_moved (x : Compensated id u now d d') :
    PointsMoved u now ((orderFlowSums d id).reversalDeltas id) d d' := by
  refine ⟨d, x.reversed, ⟨rfl, rfl⟩, x.points, ?_⟩
  exact .of_only [.products, .enrolments, .leaveRequests, .subscriptions]
    ((x.stock_only.mono (by simp)).trans <|
    (x.seats.only.mono (by simp)).trans (x.subscriptions.mono (by simp))) (by simp) (by simp)

theorem PointsMoved.trans_same (h : PointsMoved u now lds d d₁) (h' : SamePoints d₁ d') :
    PointsMoved u now lds d d' := by
  obtain ⟨a, b, h1, h2, h3⟩ := h
  exact ⟨a, b, h1, h2, h'.users.trans h3.users, h'.ledger.trans h3.ledger⟩

/-- A status change moves the points of its refund, if it makes one. -/
theorem StatusChanged.points {target : OrderStatus} (x : StatusChanged id target now d d') :
    PointsMoved x.order.userId now
      (if compensationRequired x.order.status target then
        (orderFlowSums d id).reversalDeltas id else []) d d' := by
  have htail : SamePoints x.undone d' := .of_only _ x.tail_only (by simp) (by simp)
  cases hc : compensationRequired x.order.status target with
  | true =>
    obtain ⟨y⟩ := x.refund hc
    exact y.points_moved.trans_same htail
  | false =>
    rw [x.plain hc] at htail
    exact .none htail

theorem Redeemed.points (h : Redeemed u now d d') : ∃ cost, 0 < cost ∧
    PointsMoved u now [.redeem cost] d d' := by
  obtain ⟨cost, paid, hpos, happ, honly⟩ := h
  exact ⟨cost, hpos, d, paid, ⟨rfl, rfl⟩, ⟨paid, happ, rfl⟩, .of_only _ honly (by simp) (by simp)⟩

theorem reversalDeltas_signed {f : OrderPointsFlow} (h : ld ∈ f.reversalDeltas o) :
    ld.reason.Signed ld.delta := by
  simp only [OrderPointsFlow.reversalDeltas, List.mem_append] at h
  rcases h with h | h <;> split at h <;> simp at h <;> subst h <;>
    simp [LedgerDelta.refundRestore, LedgerDelta.refundClawback, PointReason.Signed] <;> omega

theorem ledgerDeltas_signed {x : PricingOutcome} (h : ld ∈ x.ledgerDeltas o) :
    ld.reason.Signed ld.delta := by
  simp only [PricingOutcome.ledgerDeltas, List.mem_append] at h
  rcases h with h | h <;> split at h <;> simp at h <;> subst h <;>
    simp [LedgerDelta.checkoutRedeem, LedgerDelta.checkoutEarn, PointReason.Signed] <;> omega

/-- **Every commit moves points by signed ledger moves** and nothing else. -/
theorem Req.Commits.points (h : q.Commits (.free Shop) σ) :
    ∃ u now lds, PointsMoved u now lds σ.now σ.db ∧ ∀ ld ∈ lds, ld.reason.Signed ld.delta := by
  cases q with
  | checkout u key req now =>
    obtain ⟨x⟩ := h
    exact ⟨u, now, _, x.points, fun _ => ledgerDeltas_signed⟩
  | updateOrderStatus id status now =>
    obtain ⟨target, -, ⟨x⟩⟩ := h
    refine ⟨_, now, _, x.points, fun ld hld => ?_⟩
    split at hld
    · exact reversalDeltas_signed hld
    · cases hld
  | redeem u rewardId now =>
    obtain ⟨cost, hpos, hm⟩ := Redeemed.points h
    exact ⟨u, now, _, hm, by simp [LedgerDelta.redeem, PointReason.Signed, hpos]⟩
  | adjustPoints req now =>
    refine ⟨req.userId, now, [.adminAdjust req.delta],
      ⟨σ.now, σ.db, ⟨rfl, rfl⟩, ⟨σ.db, h, rfl⟩, rfl, rfl⟩, ?_⟩
    obtain ⟨_, _, hne, _⟩ := h
    simpa [PointReason.Signed, LedgerDelta.adminAdjust] using hne
  | _ =>
    exact ⟨0, 0, [], .none (.of_only _ h.only (by simp [Req.writes])
      (by simp [Req.writes])), by simp⟩

/-! ## Conservation -/

/-- The sum of a user's ledger rows. -/
def ledgerSum (u : Uuid) (d : Db) : ℤ := d.total .pointLedger fun _ r => if r.userId = u then
    r.delta else 0

theorem SamePoints.ledgerSum (h : SamePoints d d') (u : Uuid) :
    ledgerSum u d' = ledgerSum u d := h.total _

/-- Balances are the opening ones with the ledger on top, and its rows have the signs
of their reasons. -/
structure PointsOK (opening : Uuid → ℤ) (d : Db) : Prop where
  balance : ∀ u row, d.get .users u = some row →
    row.pointsBalance = opening u + ledgerSum u d ∧ 0 ≤ row.pointsBalance
  signed : ∀ k r, d.get .pointLedger k = some r → r.reason.Signed r.delta

theorem PointsOK.of_same (h : PointsOK b₀ d) (hs : SamePoints d d') : PointsOK b₀ d' where
  balance u row hu := by
    rw [hs.get_users] at hu
    rw [hs.ledgerSum]
    exact h.balance u row hu
  signed k r hr := h.signed k r (hs.get_ledger k ▸ hr)

/-- A quantity of the ledger after one move. -/
theorem Applied.total (h : Applied u now ld d d') (f : Uuid → LedgerRow → ℤ)
    (hf : ∀ k k' r, f k r = f k' r) (k : Uuid) :
    d'.total .pointLedger f = d.total .pointLedger f + f k (ld.row u now) := by
  obtain ⟨row, id, -, -, -, hnew, rfl⟩ := h
  rw [Store.total_add_new (by rw [Store.get_apply_other _ (by simp [Write.tbl])]; exact hnew),
    Store.total_apply_other _ (by simp [Write.tbl]), hf]

theorem Applied.ledgerSum (h : Applied u now ld d d') (v : Uuid) :
    ledgerSum v d' = ledgerSum v d + if u = v then ld.delta else 0 :=
  h.total (fun _ r => if r.userId = v then r.delta else 0) (fun _ _ _ => rfl) 0

theorem Applied.ledger (h : Applied u now ld d d') {k : Uuid} {r : LedgerRow}
    (hr : d'.get .pointLedger k = some r) :
    d.get .pointLedger k = some r ∨ r = ld.row u now := by
  obtain ⟨row, id, -, -, -, hnew, rfl⟩ := h
  rw [Store.get_add] at hr
  split at hr
  · rw [Store.get_apply_other _ (by simp [Write.tbl]), hnew] at hr
    exact .inr (by cases hr; rfl)
  · rw [Store.get_apply_other _ (by simp [Write.tbl])] at hr
    exact .inl hr

/-- One ledger move keeps them. -/
theorem PointsOK.applied (h : PointsOK b₀ d) (ha : Applied u now ld d d')
    (hs : ld.reason.Signed ld.delta) :
    PointsOK b₀ d' where
  balance v row hv := by
    rw [ha.ledgerSum v]
    obtain ⟨row₀, hu⟩ : ∃ row₀, d.get .users u = some row₀ := by
      obtain ⟨row₀, _, _, hu, _⟩ := ha
      exact ⟨row₀, hu⟩
    obtain ⟨hu', hpos⟩ := ha.balance hu
    by_cases he : v = u
    · subst he
      rw [hu'] at hv
      cases hv
      have hb := (h.balance v row₀ hu).1
      rw [if_pos rfl]
      exact ⟨by rw [User.move, hb, add_assoc], hpos⟩
    · have hv' : d.get .users v = some row := by
        obtain ⟨_, _, _, _, _, _, rfl⟩ := ha
        rw [Store.get_apply_other _ (by simp [Write.tbl]), Store.get_mod, if_neg he] at hv
        exact hv
      rw [if_neg (Ne.symm he), add_zero]
      exact h.balance v row hv'
  signed k r hr := by
    rcases ha.ledger hr with h' | rfl
    · exact h.signed k r h'
    · exact hs

theorem PointsOK.moved (h : PointsOK b₀ d) (hm : PointsMoved u now lds d d')
    (hs : ∀ ld ∈ lds, ld.reason.Signed ld.delta) :
    PointsOK b₀ d' := by
  obtain ⟨d₁, d₂, h1, h2, h3⟩ := hm
  exact (h2.inv (I := PointsOK b₀) (fun ld hld a b ha hI => hI.applied ha (hs ld hld))
    (h.of_same h1)).of_same h3

theorem PointsOK.commit (h : q.Commits (.free Shop) σ) (hp : PointsOK b₀ σ.now) :
    PointsOK b₀ σ.db := by
  obtain ⟨u, now, lds, hm, hs⟩ := h.points
  exact hp.moved hm hs

theorem pointsOK_reach (h0 : PointsOK b₀ d) (h : shop.Reach ok (Sys.init d) s) : PointsOK b₀ s.db :=
  shop_inv h0 (fun _ _ _ hc hp => hp.commit hc) h

/-- **Points are conserved.** From zero balances and an empty ledger on. -/
theorem points_conserved (hb : ∀ u row, d.get .users u = some row → row.pointsBalance = 0)
    (hl : ∀ k, d.get .pointLedger k = none) (h : shop.Reachable (Sys.init d) s) :
    (∀ u row, s.db.get .users u = some row → row.pointsBalance = ledgerSum u s.db ∧
      0 ≤ row.pointsBalance) ∧
      ∀ k r, s.db.get .pointLedger k = some r → r.delta ≠ 0 ∧ r.reason.Signed r.delta := by
  have h0 : PointsOK 0 d := by
    refine ⟨fun u row hu => ?_, fun k r hr => ?_⟩
    · have hsum : ledgerSum u d = 0 := Store.total_eq_zero fun k r hr => by rw [hl] at hr; cases hr
      rw [hb u row hu, hsum]
      exact ⟨by simp, le_rfl⟩
    · rw [hl] at hr; cases hr
  have hp := pointsOK_reach h0 h
  refine ⟨fun u row hu => ?_, fun k r hr => ⟨(hp.signed k r hr).ne_zero, hp.signed k r hr⟩⟩
  obtain ⟨hsum, hpos⟩ := hp.balance u row hu
  exact ⟨by simpa using hsum, hpos⟩

/-- A small shop: users 1, 2 and 9, a product with five in stock and two of it in the
cart of user 1, a course with two seats and two sessions, and user 2 enrolled in it. -/
def sampleShop : Db :=
  Store.overlay [.add .users 1 ⟨0⟩, .add .users 2 ⟨0⟩, .add .users 9 ⟨0⟩,
    .add .products 3 ⟨"ball", .merchandise, 30000, some 5, none, none, true⟩, .add .cartItems (1, 8)
      ⟨.product 3, 2, 0⟩,
    .add .courses 4 ⟨"yoga", 10000, 2, none, none, true, none⟩, .add .sessions 5 ⟨4, 10, 0⟩,
    .add .sessions 6 ⟨4, 11, 0⟩,
    .add .enrolments 7 ⟨2, 4, none, .active, 0⟩] fun _ => ∅

/-- User 1 checks out, up to the commit; the order is 118. -/
def sampleSale : List (Event Req) := .start 0 (.checkout 1 none ⟨none, none, none⟩ 0) ::
    Event.steps 0 100 44

theorem points_conserved_sale :
    (∀ u row, (shop.after sampleSale (.init sampleShop)).db.get .users u = some row →
      row.pointsBalance = ledgerSum u (shop.after sampleSale (.init sampleShop)).db ∧
      0 ≤ row.pointsBalance) ∧
    ∀ k r, (shop.after sampleSale (.init sampleShop)).db.get .pointLedger k = some r → r.delta ≠ 0 ∧
      r.reason.Signed r.delta :=
  points_conserved (fun _ _ => Store.get_all (d := sampleShop) (t := ShopTbl.users)
    (P := fun _ row => row.pointsBalance = 0)
    (by decide)) (fun _ => rfl) (Service.reachable_after _)

/-- The sale earned thirty points. -/
example : (shop.after sampleSale (.init sampleShop)).db.get .users 1 = some ⟨30⟩ := by
    decide +kernel

end DreamFly
