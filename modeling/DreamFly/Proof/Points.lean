import DreamFly.Proof.Rules
import DreamFly.Shop.Points

/-!
# Points, proved

What one ledger move does to the store (`Applied`), and that the points functions
do nothing else. `Applied` says of the balance only what the CHECK says; that it
stays the sum of the ledger rows is proved from it elsewhere.
-/

namespace DreamFly

open Txn Prog

variable {C : Pt Shop → Prop} {B : Option AppError → Pt Shop → Prop} {σ : Pt Shop}
  {F : AppError → Prop} {u o : Uuid} {ld : LedgerDelta} {now : Instant} {d d' : Db}

/-- The balance of a user moved by δ. -/
def User.move (δ : ℤ) (u : User) : User := { u with pointsBalance := u.pointsBalance + δ }

/-- The ledger row of a delta. -/
def LedgerDelta.row (ld : LedgerDelta) (u : Uuid) (now : Instant) : LedgerRow :=
  ⟨u, ld.delta, ld.reason, ld.orderId, now⟩

/-- One ledger move: the balance goes to a value the CHECK allows, and a new row
records the delta. -/
def Applied (u : Uuid) (now : Instant) (ld : LedgerDelta) (d d' : Db) : Prop :=
  ∃ row id, ld.delta ≠ 0 ∧ d.get .users u = some row ∧ 0 ≤ row.pointsBalance + ld.delta ∧
    d.get .pointLedger id = none ∧
    d' = (d.apply (.mod .users u (User.move ld.delta))).apply (.add .pointLedger id (ld.row u now))

theorem Applied.only (h : Applied u now ld d d') :
    Only (S := Shop) [.users, .pointLedger] d d' := by
  obtain ⟨row, id, -, -, -, -, rfl⟩ := h
  exact (Only.write d (by simp [Write.tbl])).trans (Only.write _ (by simp [Write.tbl]))

/-! ## Statements -/

theorem insertLedgerTx_spec {δ : ℤ} {reason : PointReason} {orderId : Option Uuid}
    (ho : ∀ o, orderId = some o → Holds σ.held (.row (S := Shop) .orders o) .noKeyUpdate)
    (hF : ∀ e, Routine e → F e) :
    Does C B σ (insertLedgerTx u δ reason orderId now) F fun _ σ' =>
      ∃ id, σ.db.get .pointLedger id = none ∧
        σ'.db = σ.db.apply (.add .pointLedger id ⟨u, δ, reason, orderId, now⟩) := by
  refine Yields.bind (R := fun _ σ' => σ'.db = σ.db) ?_ fun _ σ₁ hl₁ hd₁ => ?_
  · unfold claimRefund
    split
    · refine Yields.bind (Yields.claim trivial) fun b σ' _ h => ?_
      cases b with
      | true => exact .throw (hF _ ⟨fun _ => by simp, by simp⟩)
      | false => exact .ret (by rw [h.1]; rfl)
    · exact .pure rfl
  refine Yields.bind (Yields.references trivial (hF _ ⟨fun _ => by simp, by simp⟩))
    fun _ σ₂ hl₂ h₂ => ?_
  refine Yields.bind (R := fun _ σ' => σ'.db = σ₂.db) ?_ fun _ σ₃ hl₃ hd₃ => ?_
  · cases orderId with
    | none => exact .pure rfl
    | some o =>
      exact (Yields.references trivial (hF _ ⟨fun _ => by simp, by simp⟩)).imp
        (fun _ _ _ h => by rw [h]; rfl) fun _ h => h
  have hd : σ₃.db = σ.db := by rw [hd₃, h₂]; exact hd₁
  refine Yields.bind (Yields.insert fun n => ⟨holds_acquire _ _ _, fun o h => ?_⟩)
    fun n σ₄ _ h => ?_
  · exact (((hl₁.trans hl₂).trans hl₃).holds (ho o h)).mono (subset_acquire _ _ _)
  · refine .pure ⟨n, hd ▸ h.2.1, ?_⟩
    rw [h.2.2.2, ← hd]
    rfl

theorem adjustBalanceTx_spec {δ : ℤ} (hh : Holds σ.held (.row (S := Shop) .users u) .noKeyUpdate) :
    Does C B σ (adjustBalanceTx u δ) F fun r σ' => match r with
      | .ok none => σ.db.get .users u = none
      | .ok (some _) => ∃ row, σ.db.get .users u = some row ∧ 0 ≤ row.pointsBalance + δ ∧
          σ' = σ.write (.mod .users u (User.move δ))
      | .error e => ∃ row, σ.db.get .users u = some row ∧
          (e = .outOfRange ∧ fitsI64 (row.pointsBalance + δ) = false ∨
            e = .check "users_points_balance_check" ∧ row.pointsBalance + δ < 0) := by
  refine Yields.bind (Yields.selectFor_held (by decide) hh) fun r σ' _ ⟨hσ, hr⟩ => ?_
  subst hσ
  rw [filter_true] at hr
  cases r with
  | none => exact .pure hr.symm
  | some row =>
    have hg := hr.symm
    simp only
    split
    · next hfit => exact .pure ⟨row, hg, .inl ⟨rfl, by simpa using hfit⟩⟩
    · split
      · next hneg => exact .pure ⟨row, hg, .inr ⟨rfl, hneg⟩⟩
      · next hneg =>
        refine Yields.bind (Yields.put ⟨hh, trivial⟩) fun _ σ'' _ h => .pure ⟨row, hg, by omega, h⟩

/-! ## Service -/

/-- **One ledger move.** It fails for too few points exactly when the balance would
become negative. -/
theorem applyDeltaTx_spec {lock : BalanceLock}
    (hh : Holds σ.held (.row (S := Shop) .users lock.userId) .noKeyUpdate)
    (ho : ∀ o, ld.orderId = some o → Holds σ.held (.row (S := Shop) .orders o) .noKeyUpdate)
    (hF : ∀ e, Routine e → F e)
    (hI : ∀ row, σ.db.get .users lock.userId = some row → row.pointsBalance + ld.delta < 0 →
      F insufficientPoints)
    (hO : ∀ row, σ.db.get .users lock.userId = some row →
      fitsI64 (row.pointsBalance + ld.delta) = false →
      F (.database .outOfRange)) :
    Does C B σ (applyDeltaTx lock ld now) F fun _ σ' => Applied lock.userId now ld σ.db σ'.db := by
  refine Yields.bind (R := fun _ σ' => ld.delta ≠ 0 ∧ σ' = σ)
    (Yields.ensure (fun h => ⟨by simpa using h, rfl⟩) (hF _ ⟨fun _ => by simp, by simp⟩))
      fun _ σ₁ _ ⟨hne, hσ⟩ => ?_
  subst hσ
  refine Yields.bind (adjustBalanceTx_spec hh) fun r σ₂ hl₂ h₂ => ?_
  -- no row, a row the CHECK or the type refuses, or the new balance
  match r, h₂ with
  | .ok none, h =>
    refine Yields.bind (R := fun _ _ => False)
      (Yields.checked (fun _ h => by cases h) fun e h => ?_)
      fun _ _ _ h => h.elim
    cases h
    exact hF _ ⟨fun _ => by simp, by simp⟩
  | .error e, ⟨row, hr, hwhy⟩ =>
    refine Yields.bind (R := fun _ _ => False) (Yields.checked (fun a h => ?_) fun e' he' => ?_)
      fun _ _ _ h => h.elim
    · rcases hwhy with ⟨rfl, -⟩ | ⟨rfl, -⟩ <;> cases h
    · rcases hwhy with ⟨rfl, hfit⟩ | ⟨rfl, hneg⟩
      · cases he'
        exact hO row hr hfit
      · cases he'
        exact hI row hr hneg
  | .ok (some b), ⟨row, hr, hpos, hσ⟩ =>
    refine Yields.bind (R := fun _ σ' => σ' = σ₂)
      (Yields.checked (fun _ _ => rfl) fun _ h => by cases h)
      fun b' σ₃ hl₃ h₃ => ?_
    subst h₃
    refine Yields.bind (insertLedgerTx_spec (fun o h => hl₂.holds (ho o h)) hF)
      fun _ σ₄ _ ⟨id, hid, hd⟩ => ?_
    refine .pure ⟨row, id, hne, hr, hpos, ?_, ?_⟩
    · rw [hσ] at hid
      rwa [Pt.write_db, Store.get_apply_other _ (by simp [Write.tbl])] at hid
    · rw [hd, hσ]; rfl

theorem lockBalanceTx_spec (hF : ∀ e, Routine e → F e) :
    Does C B σ (lockBalanceTx u) F fun lock σ' => ∃ row, σ'.db = σ.db ∧
      σ.db.get .users u = some row ∧
      lock = ⟨u, row.pointsBalance⟩ ∧ Holds σ'.held (.row (S := Shop) .users u) .update := by
  refine Yields.bind (Yields.selectFor (by decide) trivial) fun r σ₁ _ ⟨hd, hr⟩ => ?_
  refine Yields.bind (R := fun row σ' => r = some row ∧ σ' = σ₁)
    (Yields.orFail (fun _ h => ⟨h, rfl⟩) (hF _ ⟨fun _ => by simp, by simp⟩))
      fun row σ₂ _ ⟨he, hσ⟩ => ?_
  subst hσ
  obtain ⟨hh, hg, -⟩ := hr row he
  exact .pure ⟨row, hd, hg, rfl, hh⟩

/-- **A user's points move as the deltas say**, in order. -/
theorem applyAll_spec {lock : BalanceLock} {lds : List LedgerDelta}
    (hh : Holds σ.held (.row (S := Shop) .users lock.userId) .noKeyUpdate)
    (ho : ∀ ld ∈ lds, ∀ o, ld.orderId = some o →
      Holds σ.held (.row (S := Shop) .orders o) .noKeyUpdate) :
    Does C B σ (each (applyDeltaTx lock · now) lds) (fun _ => True) fun _ σ' =>
      Chain (Applied lock.userId now) lds σ.db σ'.db :=
  Yields.each_unit fun ld hld _ hl =>
    applyDeltaTx_spec (hl.holds hh) (fun o h => hl.holds (ho ld hld o h)) (fun _ _ => trivial)
      (fun _ _ _ => trivial)
      fun _ _ _ => trivial

theorem adjustPoints_body_spec {req : AdjustPointsRequest} :
    Does C B σ (do
      let lock ← lockBalanceTx req.userId
      ensure (lock.balance = req.expectedBalance)
        (.conflict s!"balance mismatch: expected {req.expectedBalance}, actual {lock.balance}")
      applyDeltaTx lock (.adminAdjust req.delta) now) (fun _ => True)
      fun _ σ' => Applied req.userId now (.adminAdjust req.delta) σ.db σ'.db := by
  refine Yields.bind (lockBalanceTx_spec fun _ _ => trivial)
    fun lock σ₁ _ ⟨row, hd, hr, hlock, hh⟩ => ?_
  subst hlock
  refine Yields.bind (R := fun _ σ' => σ' = σ₁) (Yields.ensure (fun _ => rfl) trivial)
    fun _ σ₂ _ h => ?_
  subst h
  rw [← hd]
  exact applyDeltaTx_spec (hh.weaken (by decide)) (fun _ h => by cases h) (fun _ _ => trivial)
    (fun _ _ _ => trivial)
    fun _ _ _ => trivial

/-- A spend of a positive amount. -/
theorem trySpendTx_spec {cost : ℤ} :
    Does C B σ (trySpendTx u cost now) (fun _ => True) fun _ σ' =>
      0 < cost ∧ Applied u now (.redeem cost) σ.db σ'.db := by
  refine Yields.bind (R := fun _ σ' => 0 < cost ∧ σ' = σ)
    (Yields.ensure (fun h => ⟨by simpa using h, rfl⟩) trivial) fun _ σ₁ _ ⟨hpos, h⟩ => ?_
  subst h
  refine Yields.bind (lockBalanceTx_spec fun _ _ => trivial)
    fun lock σ₂ _ ⟨row, hd, hr, hlock, hh⟩ => ?_
  subst hlock
  refine Yields.bind (R := fun _ σ' => σ' = σ₂) (Yields.ensure (fun _ => rfl) trivial)
    fun _ σ₃ _ h => ?_
  subst h
  rw [← hd]
  exact (applyDeltaTx_spec (hh.weaken (by decide)) (fun _ h => by cases h) (fun _ _ => trivial)
    (fun _ _ _ => trivial)
    fun _ _ _ => trivial).imp (fun _ _ _ h => ⟨hpos, h⟩) fun _ h => h

/-! ## Reversal -/

/-- Both sums are BIGINTs. -/
def OrderPointsFlow.fits (f : OrderPointsFlow) : Bool := fitsI64 f.earned && fitsI64 f.redeemed

/-- Under the order's lock the sums are those of the ledger at the end. -/
theorem findOrderFlowSumsTx_spec (hh : Holds σ.held (.row (S := Shop) .orders o) .noKeyUpdate)
    (hO : (orderFlowSums σ.db o).fits = false → F (.database .outOfRange)) :
    Does C B σ (findOrderFlowSumsTx o) F fun flow σ' => σ' = σ ∧ flow = orderFlowSums σ.db o := by
  refine Yields.bind (R := fun flow σ' => σ' = σ ∧ flow = orderFlowSums σ.db o)
    (Yields.read fun v _ hv => ⟨rfl, ?_⟩) fun flow σ₁ _ ⟨hσ, hf⟩ => ?_
  · have key : ∀ reason : PointReason, v.total .pointLedger (fun _ r =>
          if r.orderId = some o ∧ r.reason = reason then r.delta else 0) =
        σ.db.total .pointLedger (fun _ r => if r.orderId = some o ∧
          r.reason = reason then r.delta else 0) := by
      intro reason
      refine Store.total_congr (p := fun _ r => r.orderId = some o)
        (fun k r h => ?_) fun k r h => ?_
      · simp only [decide_eq_false_iff_not] at h
        rw [if_neg fun h' => h h'.1]
      · exact rel_ledger hv hh k r (by simpa using h)
    simp only [orderFlowSums, key]
  · subst hσ
    subst hf
    refine Yields.bind (R := fun _ σ' => σ' = σ₁)
      (wp_ensure (fun _ => ⟨.refl σ₁, rfl⟩) fun h => ⟨.refl σ₁, hO h⟩)
      fun _ σ₂ _ h => ?_
    subst h
    exact .pure ⟨rfl, rfl⟩

end DreamFly
