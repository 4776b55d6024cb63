import DreamFly.Proof.Contract
import DreamFly.Txn.Stages

/-!
# The leave update of a cancellation

Cancelling enrolments, by the member or by a refund, ends in one UPDATE of their
leave requests. What comes before it (`flipEnrolment`, `refundFront`) has changed no
leave request and no enrolment but the ones it names (`Flipped`); where the
transaction commits, no request of these that was committed when the UPDATE began is
still pending (`NonePending`).
-/

namespace DreamFly

open Txn Prog

variable {C : Pt Shop → Prop} {B : Option AppError → Pt Shop → Prop} {σ : Pt Shop}
  {F : AppError → Prop} {id : Uuid} {ids : List Uuid} {now : Instant} {v : Db}
    {target : OrderStatus}

/-! ## Up to the update -/

/-- What `cancelEnrolment` does before its update of the leave requests. -/
def flipEnrolment (auth : AuthUser) (id : Uuid) : Tx Enrolment := do
  let enrolment ← selectFor (S := Shop) .enrolments id (fun _ => true) .noKeyUpdate
  let enrolment ← orFail enrolment (.notFound "enrolment not found")
  checked (auth.ownsOrAdmin enrolment.userId "you can only cancel your own enrolments")
  let updated ← updateRow (S := Shop) .enrolments id
    (fun e => e.status ≠ .cancelled) Enrolment.cancel
  orFail updated (.conflict "enrolment already cancelled")

/-- What a status change has found out by then: the order, the decision and the
enrolments it has cancelled. -/
structure RefundFront where
  order : Order
  decision : TransitionDecision
  flipped : List (Uuid × Enrolment)

/-- What `updateOrderStatusTx` does before its update of the leave requests. -/
def refundFront (id : Uuid) (target : OrderStatus) (now : Instant) : Tx RefundFront := do
  let current ← selectFor (S := Shop) .orders id (fun _ => true) .update
  let current ← orFail current (.notFound "order not found")
  let decision ← checked (decideTransition current.status target)
  if decision = .flipAndCompensate then
    let locks ← acquireRefundLocks id current
    reverseOrderTx locks.balance id now
    restoreForOrderTx locks.restock
    let flipped ← updateAll (S := Shop) .enrolments (fun _ e => e.orderId = some id ∧
      e.status ≠ .cancelled) Enrolment.cancel
    return ⟨current, decision, flipped⟩
  else return ⟨current, decision, []⟩

/-- What it does to the order itself. -/
def setStatus (id : Uuid) (target : OrderStatus) : Tx Order := do
  let updated ← updateStatusTx id target
  let updated ← orFail updated (.notFound "order not found")
  insertDomainEventTx (.orderStatusChanged id updated.userId target.asStr)
  .commit (return updated)

/-- An error drops the transaction. -/
def dropTx (e : AppError) : Tx Reply := .rollback (some e) (.fail e)

/-- The response to a status change. -/
def statusReply (id : Uuid) (order : Order) : Tx Reply :=
  do return .order (← assembleResponse id order)

/-- What is left after the leave requests of a refund. -/
def refundRest (id : Uuid) (target : OrderStatus) : Tx Reply :=
  (do
    let _ ← cancelSubscriptionsByOrderTx id
    setStatus id target).handle (statusReply id) dropTx

theorem cancelEnrolment_front (auth : AuthUser) (id : Uuid) : (Req.cancelEnrolment auth id).prog =
    (flipEnrolment auth id).handle (fun updated => (cancelPendingForEnrolmentsTx [id]).handle
      (fun _ => .commit (.ret (.enrolment updated))) dropTx) dropTx := by
  simp only [Req.prog, cancelEnrolment, flipEnrolment, atomically, bind_eq, handle_handle]
  rfl

theorem updateOrderStatus_front {status : String} (h : OrderStatus.fromStr status = some target) :
    (Req.updateOrderStatus id status now).prog = (refundFront id target now).handle (fun x =>
      match x.decision with
      | .noOp => .rollback none (statusReply id x.order)
      | .flip => (setStatus id target).handle (statusReply id) dropTx
      | .flipAndCompensate =>
        if x.flipped.isEmpty then refundRest id target
        else (cancelPendingForEnrolmentsTx (x.flipped.map Prod.fst)).handle
          (fun _ => refundRest id target) dropTx) dropTx := by
  simp only [Req.prog, updateOrderStatus, h, updateOrderStatusTx, refundFront, orRollback, bind_eq,
    handle_handle]
  simp only [orFail, handle]
  refine handle_congr _ (fun r => ?_) fun _ => rfl
  refine handle_congr _ (fun order => ?_) fun _ => rfl
  refine handle_congr _ (fun decision => ?_) fun _ => rfl
  cases decision with
  | noOp => rfl
  | flip => rfl
  | flipAndCompensate =>
    simp only [if_true, compensateOrderArtifactsTx, cancelEnrolmentsByOrderTx, refundRest,
      setStatus, bind_eq, handle_handle]
    refine handle_congr _ (fun locks => ?_) fun _ => rfl
    refine handle_congr _ (fun _ => ?_) fun _ => rfl
    refine handle_congr _ (fun _ => ?_) fun _ => rfl
    refine handle_congr _ (fun flipped => ?_) fun _ => rfl
    cases flipped with
    | nil => rfl
    | cons e l =>
      simp only [List.isEmpty_cons, Bool.not_false, if_true, handle_handle]
      rfl

/-- Nothing has happened to leave requests, and to enrolments only to the ones in `ids`. -/
structure Flipped (ids : List Uuid) (σ : Pt Shop) : Prop where
  leaves : ∀ k, σ.db.get .leaveRequests k = σ.now.get .leaveRequests k
  enrolments : ∀ k, k ∉ ids → σ.db.get .enrolments k = σ.now.get .enrolments k

theorem flipEnrolment_spec {auth : AuthUser} (hd : σ.db = σ.now) :
    Does C B σ (flipEnrolment auth id) (fun _ => True) fun _ σ' => Flipped [id] σ' := by
  refine Yields.bind (Yields.selectFor (by decide) trivial) fun r σ₁ hl₁ ⟨hd₁, hr⟩ => ?_
  refine Yields.bind (R := fun row σ' => r = some row ∧ σ' = σ₁)
    (Yields.orFail (fun _ h => ⟨h, rfl⟩) trivial)
    fun row σ₂ _ ⟨he, h₂⟩ => ?_
  subst h₂
  obtain ⟨hh, -, -⟩ := hr row he
  refine Yields.bind (R := fun _ σ' => σ' = σ₂) (Yields.checked (fun _ _ => rfl) fun _ _ => trivial)
    fun _ σ₃ _ h₃ => ?_
  subst h₃
  have hnow : σ₃.db = σ₃.now := by rw [hd₁, hl₁.now, hd]
  refine Yields.bind (R := fun _ σ' => Flipped [id] σ')
    (wp_updateRow_held hh (fun _ => ⟨.refl _, ?_⟩) fun row _ _ =>
    ⟨⟨hh, allowed_cancel _ id⟩, σ₃.later_write _, ?_⟩) fun updated σ₄ _ h =>
      Yields.orFail (fun _ _ => h) trivial
  · exact ⟨fun k => by rw [hnow], fun k _ => by rw [hnow]⟩
  · refine ⟨fun k => ?_, fun k hk => ?_⟩
    · rw [Pt.write_db, Pt.write_now, Store.get_apply_other _ (by simp [Write.tbl]), hnow]
    · rw [Pt.write_db, Pt.write_now, Store.get_mod, if_neg (by simpa using hk), hnow]

theorem refundFront_spec (hd : σ.db = σ.now) :
    Does C B σ (refundFront id target now) (fun _ => True) fun x σ' =>
      Flipped (x.flipped.map Prod.fst) σ' ∧
      (x.decision ≠ .flipAndCompensate → x.flipped = []) := by
  refine Yields.bind (Yields.selectFor (m := .update) (by decide) trivial)
    fun r σ₁ hl₁ ⟨hd₁, hr⟩ => ?_
  refine Yields.bind (R := fun order σ' => r = some order ∧ σ' = σ₁)
    (Yields.orFail (fun _ h => ⟨h, rfl⟩) trivial)
    fun order σ₂ _ ⟨he, h₂⟩ => ?_
  subst h₂
  obtain ⟨ho, -, -⟩ := hr order he
  refine Yields.bind (R := fun _ σ' => σ' = σ₂) (Yields.checked (fun _ _ => rfl) fun _ _ => trivial)
    fun decision σ₃ _ h₃ => ?_
  subst h₃
  have hnow : σ₃.db = σ₃.now := by rw [hd₁, hl₁.now, hd]
  split
  · refine Yields.bind (R := fun locks σ' => σ'.db = σ₃.db ∧
      (∃ row, σ₃.db.get .users locks.balance.userId = some row) ∧
        Holds σ'.held (.row (S := Shop) .users locks.balance.userId) .update ∧
        locks.restock.locks.Good σ') ?_
      fun locks σ₄ hl₄ ⟨hd₄, ⟨buyer, hbuyer⟩, hu, hg⟩ => ?_
    · refine Yields.bind (lockBalanceTx_spec fun _ _ => trivial)
        fun lock σ₄ hl₄ ⟨row, hd₄, hrow, hlock, hu⟩ => ?_
      refine Yields.bind (lockRestockForOrderTx_spec ((hl₄.holds ho).weaken (by decide)))
        fun restock σ₅ hl₅ ⟨hd₅, _, hg⟩ =>
        .pure ⟨hd₅.trans hd₄, ⟨row, ?_⟩, hl₅.holds ?_, hg⟩
      · rw [hlock]; exact hrow
      · rw [hlock]; exact hu
    rw [← hd₄] at hbuyer
    refine Yields.bind (reverseOrderTx_spec ((hl₄.holds ho).weaken (by decide))
      (hu.weaken (by decide)) hbuyer (fun _ _ => trivial)
      (fun _ => trivial) fun _ => trivial) fun _ σ₅ hl₅ hpoints => ?_
    refine Yields.bind (restoreForOrderTx_spec (fun _ _ => trivial)
      (fun _ => trivial) fun e he => hl₅.holds (hg e he).2)
      fun _ σ₆ hl₆ ⟨lines, _, hstock⟩ => ?_
    -- before the enrolments only balances, the ledger and the stock have changed
    have honly : Only (S := Shop) [.users, .pointLedger, .products] σ₆.now σ₆.db := by
      have h1 : Only (S := Shop) [.users, .pointLedger] σ₄.db σ₅.db := hpoints.only fun _ _ _ _ h =>
        Applied.only h
      have h2 : Only (S := Shop) [.products] σ₅.db σ₆.db := hstock.only fun _ _ _ _ h =>
        Given.only h
      have hsame : σ₆.now = σ₄.db := by rw [hl₆.now, hl₅.now, hl₄.now, hd₄, hnow]
      rw [hsame]
      exact (h1.mono (by simp)).trans (h2.mono (by simp))
    refine Yields.bind (Yields.updateAll (fun _ _ => trivial) fun σ' k _ hh => ⟨hh,
      allowed_cancel _ k⟩)
      fun flipped σ₇ hl₇ ⟨hed, ⟨_, hkeep⟩, _⟩ => .pure ⟨⟨fun k => ?_, fun k hk => ?_⟩,
        fun hn => absurd ‹_› hn⟩
    · rw [hed.only.get (t := ShopTbl.leaveRequests) (by simp), hl₇.now,
        honly.get (t := ShopTbl.leaveRequests) (by simp)]
    · rw [hkeep k hk, hl₇.now, honly.get (t := ShopTbl.enrolments) (by simp)]
  · exact .pure ⟨⟨fun k => by rw [hnow], fun k _ => by rw [hnow]⟩, fun _ => rfl⟩

/-! ## The update and what comes after it -/

/-- None of the requests of `ids` that `v` has is pending in `d'`, and compared with `d`
no other enrolments have changed. -/
structure NonePending (ids : List Uuid) (v d d' : Db) : Prop where
  leaves : ∀ k r, v.get .leaveRequests k = some r → ids.contains r.enrolmentId = true →
    ∃ r', d'.get .leaveRequests k = some r' ∧ r'.status ≠ .pending
  enrolments : ∀ k, k ∉ ids → d'.get .enrolments k = d.get .enrolments k

theorem NonePending.only {d d' d'' : Db} {ts : List ShopTbl} (h : NonePending ids v d d')
    (ho : Only (S := Shop) ts d' d'')
    (hl : .leaveRequests ∉ ts) (he : .enrolments ∉ ts) : NonePending ids v d d'' where
  leaves k r hk hi := by rw [ho.get (t := ShopTbl.leaveRequests) hl]; exact h.leaves k r hk hi
  enrolments k hk := by rw [ho.get (t := ShopTbl.enrolments) he]; exact h.enrolments k hk

/-- What is shown where a transaction whose leave update began on `v` commits. -/
abbrev leavingNone (ids : List Uuid) (v : Db) : Oblig Shop AppError :=
  writing (fun σ => σ.committed = false → NonePending ids v σ.now σ.db) fun _ _ => True

variable {ids' : List Uuid} {X : AppError → Pt Shop → Prop}

theorem statusReply_wp {O : Pt Shop → Prop} {order : Order} :
    wp shopRules (writing O fun _ _ => True) (fun _ _ => True) (fun _ _ => True)
    (statusReply id order) σ := by
  refine wp_reply ?_
  exact assembleResponse_spec.wp (fun _ _ _ _ => trivial) fun _ _ _ h => h.elim

theorem setStatus_wp {O : Pt Shop → Prop} {Q : Order → Pt Shop → Prop}
    {X : AppError → Pt Shop → Prop}
    (hO : ∀ σ', σ.Later σ' → Only (S := Shop) [.orders, .outbox] σ.db σ'.db → O σ')
    (hQ : ∀ order σ', Q order σ')
    (hX : ∀ e σ', X e σ') : wp shopRules (writing O fun _ _ => True) Q X
      (setStatus id target) σ := by
  have hup : Does O (fun _ _ => True) σ (updateRow (S := Shop) .orders id (fun _ => true)
    fun o => { o with status := target })
      (fun _ => True) fun _ σ' => Only (S := Shop) [.orders] σ.db σ'.db := by
    refine wp_updateRow (fun _ _ _ _ _ _ _ => trivial) (fun _ _ _ _ => ⟨.refl _, Only.refl _ _⟩)
      (fun _ => ⟨σ.later_grant _ _, Only.refl _ _⟩) fun row _ _ =>
        ⟨⟨holds_acquire _ _ _, fun _ => rfl⟩,
        (σ.later_grant _ _).trans (Pt.later_write _ _), Only.write (S := Shop)
          (w := .mod .orders id _) _ (by simp [Write.tbl])⟩
  unfold setStatus updateStatusTx
  refine hup.bind_wp (fun updated σ₁ hl₁ h₁ => ?_) fun e σ' _ _ => hX e σ'
  refine Yields.bind_wp (F := fun _ => True) (R := fun _ σ' => σ' = σ₁)
    (Yields.orFail (fun _ _ => rfl) trivial)
    (fun order σ₂ _ h₂ => ?_) fun e σ' _ _ => hX e σ'
  subst h₂
  refine Yields.bind_wp (F := fun _ => True) (R := fun _ σ' => Only (S := Shop)
    [.outbox] σ₂.db σ'.db) ?_
    (fun _ σ₃ hl₃ h₃ => ⟨hO σ₃ (hl₁.trans hl₃) ((h₁.mono (by simp)).trans (h₃.mono (by simp))),
      fun _ _ => hQ _ _⟩)
    fun e σ' _ _ => hX e σ'
  refine Yields.bind (Yields.insert fun n => ⟨holds_acquire _ _ _, trivial⟩)
    fun n σ₄ _ h => .pure ?_
  rw [h.2.2.2]
  exact Only.write (S := Shop) (w := .add .outbox n _) _ (by simp [Write.tbl])

theorem refundRest_wp (h : NonePending ids v σ.now σ.db) :
    wp shopRules (leavingNone ids v) (fun _ _ => True) (fun _ _ => True)
    (refundRest id target) σ := by
  unfold refundRest
  rw [wp_handle]
  refine cancelSubscriptionsByOrder_spec.bind_wp (F := fun _ => True)
    (fun _ σ₁ hl₁ h₁ => ?_) fun e σ' _ _ => ?_
  · refine setStatus_wp (fun σ₂ hl₂ h₂ _ => ?_) (fun _ _ => statusReply_wp) fun e σ' =>
      ⟨trivial, fun _ _ => trivial⟩
    rw [hl₂.now, hl₁.now]
    exact (h.only h₁.only (by simp) (by simp)).only h₂ (by simp) (by simp)
  · exact ⟨trivial, fun _ _ => trivial⟩

/-- A status change that cancels no enrolment. -/
theorem flip_wp (hf : Flipped [] σ) : wp shopRules (leavingNone [] v) (fun _ _ => True)
    (fun _ _ => True)
    ((setStatus id target).handle (statusReply id) dropTx) σ := by
  rw [wp_handle]
  refine setStatus_wp (fun σ₁ hl₁ h₁ _ => ⟨fun k r _ hi => ?_, fun k hk => ?_⟩)
    (fun _ _ => statusReply_wp)
    fun e σ' => ⟨trivial, fun _ _ => trivial⟩
  · simp at hi
  · rw [h₁.get (t := ShopTbl.enrolments) (by simp), hl₁.now]
    exact hf.enrolments k hk

/-- **The leave update leaves none of the requests it could see pending.** -/
theorem leaveUpdate_wp {rest : Tx Reply} (hf : Flipped ids σ)
    (hrest : ∀ σ', NonePending ids σ.start σ'.now σ'.db →
      wp shopRules (leavingNone ids σ.start) (fun _ _ => True) (fun _ _ => True) rest σ') :
    wp shopRules (leavingNone ids σ.start) (fun _ _ => True) (fun _ _ => True)
      ((cancelPendingForEnrolmentsTx ids).handle (fun _ => rest) dropTx) σ := by
  rw [wp_handle]
  refine Yields.wp (cancelPending_spec (F := fun _ => True))
    (fun _ σ₁ hl₁ ⟨hed, hall⟩ => hrest σ₁ ⟨hall, fun k hk => ?_⟩)
    fun e σ' _ _ => ⟨trivial, fun _ _ => trivial⟩
  rw [hed.only.get (t := ShopTbl.enrolments) (by simp), hl₁.now]
  exact hf.enrolments k hk

end DreamFly
