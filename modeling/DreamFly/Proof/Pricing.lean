import DreamFly.Proof.Refund
import Mathlib.Algebra.Order.Ring.Int
import Mathlib.Order.Bounds.Defs

/-!
# The arithmetic of a checkout

`price_exact`: over the whole range of its inputs the price of a cart is the exact one,
or the sum of its lines does not fit an `i64`.
-/

namespace DreamFly

open Txn

variable {cart lines : List CheckoutLine} {coupon : Option Coupon} {balance sum : ℤ}
  {usePoints : Bool} {outcome : PricingOutcome}

/-! ## The subtotal -/

/-- The exact sum of the lines. -/
def lineSum (lines : List CheckoutLine) : ℤ :=
  (lines.map fun line => line.priceCents * line.quantity).sum

/-- Lines as checkout prices them. -/
def Priceable (lines : List CheckoutLine) : Prop :=
  ∀ line ∈ lines, 0 ≤ line.priceCents ∧ 1 ≤ line.quantity ∧ line.quantity ≤ maxLineQuantity

@[simp] theorem lineSum_nil : lineSum [] = 0 := rfl

@[simp] theorem lineSum_cons (line : CheckoutLine) (lines : List CheckoutLine) :
    lineSum (line :: lines) = line.priceCents * line.quantity + lineSum lines := rfl

theorem lineSum_nonneg (h : Priceable lines) : 0 ≤ lineSum lines := by
  refine List.sum_nonneg fun x hx => ?_
  obtain ⟨line, hl, rfl⟩ := List.mem_map.1 hx
  obtain ⟨hprice, hone, -⟩ := h line hl
  exact mul_nonneg hprice (by omega)

theorem fitsI64_iff {n : ℤ} : fitsI64 n = true ↔ -i64Max - 1 ≤ n ∧ n ≤ i64Max := by
  simp [fitsI64]

theorem fits_of_le {n m : ℤ} (h0 : 0 ≤ n) (hle : n ≤ m) (hm : fitsI64 m = true) :
    fitsI64 n = true := by
  rw [fitsI64_iff] at hm ⊢
  have hmax : 0 ≤ i64Max := by decide
  omega

/-- The running sum is refused just where the whole sum does not fit: it only grows. -/
theorem subtotal_eq (h : Priceable lines) (h0 : 0 ≤ sum) (hs : fitsI64 sum = true) :
    subtotal sum lines =
      if fitsI64 (sum + lineSum lines) then .ok (sum + lineSum lines) else
        .error (.validation "order total overflow") := by
  induction lines generalizing sum with
  | nil =>
    rw [lineSum_nil, add_zero, if_pos hs]
    rfl
  | cons line lines ih =>
    obtain ⟨hprice, hone, -⟩ := h line List.mem_cons_self
    have hrest : Priceable lines := fun l hl => h l (List.mem_cons_of_mem _ hl)
    have hline : 0 ≤ line.priceCents * line.quantity := mul_nonneg hprice (by omega)
    have hnonneg := lineSum_nonneg hrest
    rw [lineSum_cons, subtotal, checkedLineSubtotal, checkedMul]
    by_cases hm : fitsI64 (line.priceCents * line.quantity) = true
    · rw [if_pos hm, Option.bind_some, checkedAdd]
      by_cases ha : fitsI64 (sum + line.priceCents * line.quantity) = true
      · rw [if_pos ha]
        simp only
        rw [ih hrest (by omega) ha, add_assoc]
      · rw [if_neg ha, if_neg fun hall => ha (fits_of_le (by omega) (by omega) hall)]
    · rw [if_neg hm, if_neg fun hall => hm (fits_of_le (by omega) (by omega) hall)]
      rfl

/-! ## The receipt -/

/-- A receipt that adds up: the exact sum of the lines, split into discount, points and
total, with as many points used as allowed and 5% of the NT dollars paid earned. -/
structure PricingOutcome.Exact (cart : List CheckoutLine) (coupon : Option Coupon) (balance : ℤ)
    (usePoints : Bool)
    (o : PricingOutcome) : Prop where
  subtotal : o.subtotalCents = lineSum cart
  split : o.subtotalCents = o.discountCents + 100 * o.pointsUsed + o.totalCents
  discount : o.discountCents = coupon.elim 0 fun c => min c.discountCents o.subtotalCents
  discount_nonneg : 0 ≤ o.discountCents
  discount_le : o.discountCents ≤ o.subtotalCents
  used_nonneg : 0 ≤ o.pointsUsed
  used_le : o.pointsUsed ≤ balance
  total_nonneg : 0 ≤ o.totalCents
  most : usePoints = true → IsGreatest {n | n ≤ balance ∧
    100 * n ≤ o.subtotalCents - o.discountCents} o.pointsUsed
  unused : usePoints = false → o.pointsUsed = 0
  earned : o.pointsEarned = (5 * (o.totalCents / 100) + 50) / 100

/-- The receipt over an exact subtotal. -/
def receipt (coupon : Option Coupon) (balance : ℤ) (usePoints : Bool) (sum : ℤ) : PricingOutcome :=
  let discount := coupon.elim 0 fun c => clampCouponDiscount c.discountCents sum
  let used := if usePoints then min balance ((sum - discount).tdiv 100) else 0
  let total := sum - discount - used * 100
  ⟨sum, discount, coupon.map Coupon.code, used, total, (total.tdiv 100 * 5 + 50).tdiv 100⟩

theorem price_eq (h : Priceable cart) : price cart coupon balance usePoints =
    if fitsI64 (lineSum cart) then .ok (receipt coupon balance usePoints (lineSum cart))
    else .error (.validation "order total overflow") := by
  unfold price
  rw [subtotal_eq h le_rfl (by decide), zero_add]
  split
  · rfl
  · rfl

theorem discount_bounds (hcoupon : ∀ c, coupon = some c → 0 < c.discountCents) (hsum : 0 ≤ sum) :
    0 ≤ (coupon.elim 0 fun c => clampCouponDiscount c.discountCents sum) ∧
      (coupon.elim 0 fun c => clampCouponDiscount c.discountCents sum) ≤ sum := by
  cases coupon with
  | none => exact ⟨le_rfl, hsum⟩
  | some c =>
    have hpos := hcoupon c rfl
    exact ⟨le_min hpos.le hsum, min_le_right _ _⟩

theorem receipt_exact (hcoupon : ∀ c, coupon = some c → 0 < c.discountCents) (hbal : 0 ≤ balance)
    (hsum : 0 ≤ lineSum cart) :
    (receipt coupon balance usePoints (lineSum cart)).Exact cart coupon balance usePoints := by
  obtain ⟨hd0, hd1⟩ := discount_bounds hcoupon hsum
  set discount := coupon.elim 0 fun c => clampCouponDiscount c.discountCents (lineSum cart)
    with hdiscount
  have hafter : 0 ≤ lineSum cart - discount := by omega
  -- nothing is negative here, so `/` of `i64` is the floor
  have hdiv : (lineSum cart - discount).tdiv 100 = (lineSum cart - discount) / 100 :=
    Int.tdiv_eq_ediv_of_nonneg hafter
  set used := if usePoints then min balance ((lineSum cart - discount).tdiv 100) else 0 with hused
  have hused0 : 0 ≤ used := by
    rw [hused, hdiv]
    split
    · exact le_min hbal (by omega)
    · exact le_rfl
  have hused1 : used ≤ balance ∧ 100 * used ≤ lineSum cart - discount := by
    rw [hused, hdiv]
    split
    · have := min_le_left balance ((lineSum cart - discount) / 100)
      have := min_le_right balance ((lineSum cart - discount) / 100)
      constructor <;> omega
    · constructor <;> omega
  have htotal : 0 ≤ lineSum cart - discount - used * 100 := by omega
  have hnt : (lineSum cart - discount - used * 100).tdiv 100 =
      (lineSum cart - discount - used * 100) / 100 :=
    Int.tdiv_eq_ediv_of_nonneg htotal
  have hshape : receipt coupon balance usePoints (lineSum cart) = ⟨lineSum cart, discount,
      coupon.map Coupon.code, used,
    lineSum cart - discount - used * 100, ((lineSum cart - discount - used * 100).tdiv 100 * 5 +
      50).tdiv 100⟩ := rfl
  rw [hshape]
  exact
    { subtotal := rfl
      split := by
        simp only
        omega
      discount := rfl
      discount_nonneg := hd0
      discount_le := hd1
      used_nonneg := hused0
      used_le := hused1.1
      total_nonneg := htotal
      most := fun hu => by
        refine ⟨hused1, fun n ⟨hn, hamount⟩ => ?_⟩
        simp only at hamount ⊢
        rw [hused, if_pos hu, hdiv]
        exact le_min hn (by omega)
      unused := fun hu => by
        simp only
        rw [hused, hu]
        rfl
      earned := by
        simp only
        rw [hnt, Int.tdiv_eq_ediv_of_nonneg (by omega), mul_comm] }

/-! ## Every operation -/

theorem checkedMul_eq {a b : ℤ} (h : fitsI64 (a * b) = true) :
    checkedMul a b = some (a * b) := if_pos h

theorem checkedAdd_eq {a b : ℤ} (h : fitsI64 (a + b) = true) :
    checkedAdd a b = some (a + b) := if_pos h

theorem checkedSub_eq {a b : ℤ} (h : fitsI64 (a - b) = true) :
    checkedSub a b = some (a - b) := if_pos h

theorem checkedDiv_eq {a b : ℤ} (hb : b ≠ 0) (h : fitsI64 (a.tdiv b) = true) :
    checkedDiv a b = some (a.tdiv b) := if_pos ⟨hb, h⟩

/-- A quotient of what fits. -/
theorem fits_div {n : ℤ} (h0 : 0 ≤ n) (h : fitsI64 n = true) : fitsI64 (n.tdiv 100) = true := by
  rw [Int.tdiv_eq_ediv_of_nonneg h0]
  exact fits_of_le (by omega) (by omega) h

/-- The operations from the amount after the coupon on, with `used` points. -/
theorem steps_fit {after used : ℤ} (hfits : fitsI64 after = true) (h0 : 0 ≤ used)
    (hle : 100 * used ≤ after) :
    fitsI64 (used * 100) = true ∧ fitsI64 (after - used * 100) = true ∧
    fitsI64 ((after - used * 100).tdiv 100) = true ∧
      fitsI64 ((after - used * 100).tdiv 100 * 5) = true ∧
      fitsI64 ((after - used * 100).tdiv 100 * 5 + 50) = true ∧
      fitsI64 (((after - used * 100).tdiv 100 * 5 + 50).tdiv 100) = true := by
  have htotal0 : 0 ≤ after - used * 100 := by omega
  have htotal : fitsI64 (after - used * 100) = true := fits_of_le htotal0 (by omega) hfits
  have hrounded : fitsI64 ((after - used * 100).tdiv 100 * 5 + 50) = true := by
    rw [Int.tdiv_eq_ediv_of_nonneg htotal0]
    rw [fitsI64_iff, i64Max] at htotal ⊢
    omega
  have hround0 : 0 ≤ (after - used * 100).tdiv 100 * 5 + 50 := by
    rw [Int.tdiv_eq_ediv_of_nonneg htotal0]
    omega
  refine ⟨fits_of_le (by omega) (by omega) hfits, htotal, fits_div htotal0 htotal, ?_, hrounded,
    fits_div hround0 hrounded⟩
  rw [Int.tdiv_eq_ediv_of_nonneg htotal0]
  exact fits_of_le (by omega) (by omega) htotal

/-- **No operation on the way to a receipt wraps.** -/
theorem priceChecked_eq (h : Priceable cart) (hcoupon : ∀ c, coupon = some c → 0 < c.discountCents)
    (hbal : 0 ≤ balance) :
    priceChecked cart coupon balance usePoints = some (price cart coupon balance usePoints) := by
  have hsum := lineSum_nonneg h
  rw [price_eq h]
  unfold priceChecked
  rw [subtotal_eq h le_rfl (by decide), zero_add]
  by_cases hfits : fitsI64 (lineSum cart) = true
  swap
  · rw [if_neg hfits, if_neg hfits]
  rw [if_pos hfits, if_pos hfits]
  -- the receipt says how the amounts compare
  have hx : (receipt coupon balance usePoints (lineSum cart)).Exact cart coupon balance usePoints :=
    receipt_exact hcoupon hbal hsum
  have hsplit := hx.split
  have hd0 := hx.discount_nonneg
  have hused0 := hx.used_nonneg
  have htotal0 := hx.total_nonneg
  clear hx
  unfold receipt at hsplit hd0 hused0 htotal0 ⊢
  simp only at hsplit hd0 hused0 htotal0 ⊢
  generalize (coupon.elim 0 fun c => clampCouponDiscount c.discountCents (lineSum cart)) =
    discount at hsplit hd0 hused0 htotal0 ⊢
  have hafter : fitsI64 (lineSum cart - discount) = true := fits_of_le (by omega) (by omega) hfits
  rw [checkedSub_eq hafter]
  generalize lineSum cart - discount = after at hsplit hused0 htotal0 hafter ⊢
  cases usePoints with
  | false =>
    simp only [Bool.false_eq_true, if_false] at hsplit hused0 htotal0 ⊢
    obtain ⟨hpoints, htotal, hnt, hfive, hrounded, hearned⟩ := steps_fit hafter hused0 (by omega)
    simp only [Option.bind_eq_bind, Option.bind_some, checkedMul_eq hpoints, checkedSub_eq htotal,
      checkedDiv_eq (by decide) hnt,
      checkedMul_eq hfive, checkedAdd_eq hrounded, checkedDiv_eq (by decide) hearned,
      Option.pure_def]
  | true =>
    simp only [if_true] at hsplit hused0 htotal0 ⊢
    have hquot := checkedDiv_eq (by decide) (fits_div (by omega) hafter)
    simp only [Option.bind_eq_bind, Option.bind_some, hquot, Option.map_some]
    generalize min balance (after.tdiv 100) = used at hsplit hused0 htotal0 ⊢
    obtain ⟨hpoints, htotal, hnt, hfive, hrounded, hearned⟩ := steps_fit hafter hused0 (by omega)
    simp only [Option.bind_some, checkedMul_eq hpoints, checkedSub_eq htotal,
      checkedDiv_eq (by decide) hnt, checkedMul_eq hfive,
      checkedAdd_eq hrounded, checkedDiv_eq (by decide) hearned, Option.pure_def]

/-! ## The ledger -/

theorem not_overdrawn_nil (b : ℤ) : ¬ Overdrawn b [] := by
  rintro ⟨pre, ld, suf, he, -⟩
  simp at he

/-- A first move that the balance covers. -/
theorem not_overdrawn_cons {b : ℤ} {ld : LedgerDelta} {lds : List LedgerDelta}
    (h : 0 ≤ b + ld.delta)
    (hrest : ¬ Overdrawn (b + ld.delta) lds) : ¬ Overdrawn b (ld :: lds) := by
  rintro ⟨pre, x, suf, he, hneg⟩
  cases pre with
  | nil =>
    obtain ⟨rfl, -⟩ := List.cons.inj he
    simp only [moved, List.map_nil, List.sum_nil] at hneg
    omega
  | cons y pre =>
    obtain ⟨rfl, htail⟩ := List.cons.inj he
    refine hrest ⟨pre, x, suf, htail, ?_⟩
    simp only [moved, List.map_cons, List.sum_cons] at hneg ⊢
    omega

/-- The ledger moves of a receipt add up to what it says. -/
theorem ledgerDeltas_moved {o : PricingOutcome} {id : Uuid} (hused : 0 ≤ o.pointsUsed)
    (hearned : 0 ≤ o.pointsEarned) :
    moved (o.ledgerDeltas id) = o.pointsEarned - o.pointsUsed := by
  unfold PricingOutcome.ledgerDeltas moved
  split <;> split <;>
    simp only [List.nil_append, List.append_nil, List.cons_append, List.map_cons, List.map_nil,
      List.sum_cons, List.sum_nil,
      LedgerDelta.checkoutRedeem, LedgerDelta.checkoutEarn] <;> omega

/-- Made in order, they never overdraw: what is spent comes first, and is there. -/
theorem ledgerDeltas_covered {o : PricingOutcome} {id : Uuid} (hbal : 0 ≤ balance)
    (hle : o.pointsUsed ≤ balance) :
    ¬ Overdrawn balance (o.ledgerDeltas id) := by
  have hearn : ∀ b : ℤ, 0 ≤ b →
      ¬ Overdrawn b (if o.pointsEarned > 0 then [LedgerDelta.checkoutEarn o.pointsEarned id] else
        []) := fun b hb => by
    split
    · refine not_overdrawn_cons ?_ (not_overdrawn_nil _)
      simp only [LedgerDelta.checkoutEarn]
      omega
    · exact not_overdrawn_nil _
  unfold PricingOutcome.ledgerDeltas
  split
  · refine not_overdrawn_cons ?_ (hearn _ ?_)
    all_goals
      simp only [LedgerDelta.checkoutRedeem]
      omega
  · exact hearn balance hbal

/-! ## The whole range -/

/-- **Checkout arithmetic is exact and safe.** For any lines with prices of at least 0 and
quantities in 1..=999, any coupon with a positive discount and any balance of at least 0:

* the price is refused, for overflow, just where the exact sum of the lines does not fit an
  `i64`;
* otherwise the receipt adds up (`PricingOutcome.Exact`), and its ledger moves, in their
  order, never overdraw the balance and change it by what was earned less what was used;
* no `i64` operation on the way wraps;
* without `usePoints` the balance makes no difference. -/
theorem price_exact (h : Priceable cart) (hcoupon : ∀ c, coupon = some c → 0 < c.discountCents)
    (hbal : 0 ≤ balance) :
    (∀ e, price cart coupon balance usePoints = .error e ↔
      fitsI64 (lineSum cart) = false ∧ e = .validation "order total overflow") ∧
    (∀ o, price cart coupon balance usePoints = .ok o → o.Exact cart coupon balance usePoints ∧
      ∀ id, ¬ Overdrawn balance (o.ledgerDeltas id) ∧
        moved (o.ledgerDeltas id) = o.pointsEarned - o.pointsUsed) ∧
    priceChecked cart coupon balance usePoints = some (price cart coupon balance usePoints) ∧
    ∀ b, price cart coupon b false = price cart coupon balance false := by
  refine ⟨fun e => ?_, fun o ho => ?_, priceChecked_eq h hcoupon hbal, fun b => rfl⟩
  · rw [price_eq h]
    cases hfits : fitsI64 (lineSum cart) with
    | true => simp
    | false => simp [eq_comm]
  · rw [price_eq h] at ho
    split at ho
    · cases ho
      have hx : (receipt coupon balance usePoints (lineSum cart)).Exact cart coupon balance
          usePoints :=
        receipt_exact hcoupon hbal (lineSum_nonneg h)
      refine ⟨hx, fun id => ⟨ledgerDeltas_covered hbal hx.used_le,
        ledgerDeltas_moved hx.used_nonneg ?_⟩⟩
      have htotal := hx.total_nonneg
      rw [hx.earned]
      omega
    · cases ho

/-- Two balls at 300, 50 off, 1000 points at hand: 550 is paid with points. -/
theorem price_exact_balls :
    let cart := [⟨.product 3, 2, 30000, "ball", true⟩]
    let o : PricingOutcome := ⟨60000, 5000, some "SPRING", 550, 0, 0⟩
    price cart (some ⟨"SPRING", 5000, true, none⟩) 1000 true = .ok o ∧
      o.Exact cart (some ⟨"SPRING", 5000, true, none⟩) 1000 true := by
  have hpriced : price [⟨.product 3, 2, 30000, "ball", true⟩]
      (some ⟨"SPRING", 5000, true, none⟩) 1000 true =
      .ok ⟨60000, 5000, some "SPRING", 550, 0, 0⟩ := rfl
  refine ⟨hpriced, ((price_exact ?_ ?_ (by decide)).2.1 _ hpriced).1⟩
  · intro line hl
    rw [List.mem_singleton.1 hl]
    decide
  · intro c hc
    cases hc
    decide

end DreamFly
