import DreamFly.Proof.Revenue
import Mathlib.Algebra.BigOperators.Ring.List

/-!
# Income and revenue over whole runs

Every checkout leaves lines that add up to its price, and nothing changes either later
(`reach_priced`). So the income of every month agrees with its revenue
(`income_reconciles`).
-/

namespace DreamFly.Reports

open Txn

variable {u o : Uuid} {now : Instant} {d d' : Db} {s : ShopSys}

/-! ## A checkout -/

/-- A subtotal that is not refused is the sum of its lines, each of which fits. -/
theorem subtotal_ok {sum x : ℤ} {lines : List CheckoutLine} (h : subtotal sum lines = .ok x) :
    x = sum + lineSum lines ∧ ∀ line ∈ lines, fitsI64 (line.priceCents * line.quantity) = true := by
  induction lines generalizing sum with
  | nil =>
    cases h
    exact ⟨(add_zero _).symm, fun _ hl => (nomatch hl)⟩
  | cons line lines ih =>
    rw [subtotal, checkedLineSubtotal, checkedMul] at h
    by_cases hm : fitsI64 (line.priceCents * line.quantity) = true
    · rw [if_pos hm, Option.bind_some, checkedAdd] at h
      by_cases ha : fitsI64 (sum + line.priceCents * line.quantity) = true
      · rw [if_pos ha] at h
        obtain ⟨hx, hfits⟩ := ih h
        refine ⟨by rw [hx, lineSum_cons, add_assoc], fun l hl => ?_⟩
        rcases List.mem_cons.1 hl with rfl | hl
        · exact hm
        · exact hfits l hl
      · rw [if_neg ha] at h
        cases h
    · rw [if_neg hm] at h
      cases h

/-- What a receipt says adds up to the lines, whatever the coupon and the points. -/
theorem price_sum {cart : List CheckoutLine} {coupon : Option Coupon} {balance : ℤ}
    {usePoints : Bool} {outcome : PricingOutcome}
    (h : price cart coupon balance usePoints = .ok outcome) :
    outcome.totalCents + outcome.discountCents + 100 * outcome.pointsUsed = lineSum cart ∧
      ∀ line ∈ cart, fitsI64 (line.priceCents * line.quantity) = true := by
  obtain ⟨x, hx, hout⟩ := bind_eq_ok h
  obtain ⟨rfl, hfits⟩ := subtotal_ok hx
  cases hout
  have hsum : ∀ x disc used : ℤ, x - disc - used * 100 + disc + 100 * used = x :=
    fun _ _ _ => by omega
  exact ⟨(hsum _ _ _).trans (zero_add _), hfits⟩

theorem Lined.grossOf_eq {line : OrderLine} (h : Lined o now line d d') (k : Uuid) :
    grossOf k d' = grossOf k d + if o = k then line.priceCents * line.quantity else 0 := by
  obtain ⟨n, hn, -, rfl⟩ := h
  exact Store.total_add_new hn _ _

/-- The lines of a checkout are all that its order has. -/
theorem CheckedOut.grossOf_eq {key : Option IdempotencyKey} (x : CheckedOut u key now d d')
    (k : Uuid) :
    grossOf k d' = grossOf k d + if x.o = k then lineSum x.cart else 0 := by
  have hitems := x.steps.items.sum (f := grossOf k) fun line _ a b (h : Lined x.o now line a b) =>
    Lined.grossOf_eq h k
  have honly : Only (S := Shop) [.products, .orders] d x.steps.placed :=
    (x.steps.stock_only.mono (by simp)).trans (x.steps.order_only.mono (by simp))
  have hbefore : grossOf k x.steps.placed = grossOf k d := honly.total (by simp) _
  have hafter : grossOf k d' = grossOf k x.steps.lined := by
    unfold grossOf Store.total
    rw [x.items_only]
  rw [hafter, hitems, hbefore, orderLines, List.map_map]
  congr 1
  by_cases ho : x.o = k
  · simp only [Function.comp_def, if_pos ho]
    rfl
  · simp [Function.comp_def, ho]

theorem CheckedOut.priced {key : Option IdempotencyKey} (x : CheckedOut u key now d d')
    (hr : shopRules.rel [] d d') (h : Priced d) :
    Priced d' := by
  obtain ⟨hsum, hfits⟩ := price_sum x.priced
  have hproduct : ∀ p, (d.get .products p).isSome = true → (d'.get .products p).isSome = true :=
    fun p hp => (rel_products hr p) ▸ hp
  refine ⟨fun k i hk => ?_, fun k i p hk ht => ?_, fun k i hk => ?_, fun k row hk => ?_⟩
  · rw [x.orders]
    split
    · rfl
    · next hne =>
      rcases x.item hk with ⟨line, -, rfl, -⟩ | hold
      · exact absurd rfl hne
      · exact h.order k i hold
  · rcases x.item hk with ⟨line, hl, rfl, -⟩ | hold
    · -- the product was reserved
      have ht : line.target = .product p := ht
      have hmem : (p, line.quantity, line.name) ∈ x.steps.ordered := by
        refine x.steps.ordered_perm.mem_iff.2 (List.mem_map.2
          ⟨⟨p, line.quantity, line.priceCents, line.name⟩, ?_, rfl⟩)
        exact List.mem_filterMap.2 ⟨line, hl, by rw [CheckoutLine.productLine, ht]⟩
      obtain ⟨-, hlim⟩ := reserved_find x.steps.reserved_length x.steps.stock hmem
      exact hproduct p (by simpa [limited] using hlim)
    · exact hproduct p (h.product k i p hold ht)
  · rcases x.item hk with ⟨line, hl, rfl, -⟩ | hold
    · exact hfits line hl
    · exact h.fits k i hold
  · rw [CheckedOut.grossOf_eq x]
    rw [x.orders] at hk
    split at hk
    next he =>
      -- a new order has no other lines
      cases hk
      rw [if_pos he.symm, ← hsum]
      have hnone : grossOf k d = 0 := Store.total_eq_zero fun n i hn => if_neg fun hi => by
        have hthere := h.order n i hn
        rw [hi, he, x.steps.fresh] at hthere
        cases hthere
      rw [hnone, zero_add]
      rfl
    next hne => rw [if_neg (Ne.symm hne), add_zero, h.sum k row hk]

/-! ## Every other commit -/

/-- Lines stay, and orders keep their amounts. -/
theorem Priced.of_items (h : Priced d) (hr : shopRules.rel [] d d')
    (hi : d' .orderItems = d .orderItems)
    (ho : ∀ k row', d'.get .orders k = some row' → ∃ row, d.get .orders k = some row ∧
      priced row = priced row') : Priced d' := by
  have hget : ∀ k, d'.get .orderItems k = d.get .orderItems k := fun k => by
    unfold Store.get
    rw [hi]
  refine ⟨fun k i hk => ?_, fun k i p hk ht => ?_, fun k i hk => h.fits k i (hget k ▸ hk),
    fun k row' hk => ?_⟩
  · obtain ⟨row, hrow⟩ := Option.isSome_iff_exists.1 (h.order k i (hget k ▸ hk))
    obtain ⟨row', hrow', -⟩ := rel_order hr hrow
    exact Option.isSome_iff_exists.2 ⟨row', hrow'⟩
  · rw [← rel_products hr]
    exact h.product k i p (hget k ▸ hk) ht
  · obtain ⟨row, hrow, hp⟩ := ho k row' hk
    rw [← hp, ← h.sum k row hrow]
    unfold grossOf Store.total
    rw [hi]

theorem Priced.commit {q : Req} {σ : Pt Shop} (hr : shopRules.rel [] σ.now σ.db)
    (hc : q.Commits (.free Shop) σ) (h : Priced σ.now) :
    Priced σ.db := by
  cases q with
  | checkout =>
    obtain ⟨x⟩ := hc
    exact CheckedOut.priced x hr h
  | updateOrderStatus id status now =>
    obtain ⟨target, -, ⟨x⟩⟩ := hc
    refine h.of_items hr (x.only _ (by simp)) fun k row' hk => ?_
    rw [x.orders] at hk
    split at hk
    next he =>
      cases hk
      exact ⟨x.order, he ▸ x.order_eq, rfl⟩
    · exact ⟨row', hk, rfl⟩
  | _ =>
    exact h.of_items hr (hc.only _ (by simp [Req.writes])) fun k row' hk =>
      ⟨row', by rw [← hc.only.get (t := ShopTbl.orders) (by simp [Req.writes])]; exact hk, rfl⟩

theorem reach_priced (h0 : Priced d) (h : shop.Reachable (Sys.init d) s) : Priced s.db :=
  shop_inv h0 (fun _ _ hr hc hp => hp.commit hr hc) h

/-! ## Both reports -/

/-- A sum over the orders of a month. -/
def overPaid (cal : StudioMonths) (m : ℤ) (f : Order → ℤ) (d : Db) : ℤ :=
  d.total .orders fun _ row => if paidIn cal m row then f row else 0

variable {cal : StudioMonths} {months m : ℤ} {r : Rental.Db}

theorem overPaid_priced : overPaid cal m priced d =
    overPaid cal m Order.totalCents d + overPaid cal m Order.discountCents d +
    100 * overPaid cal m Order.pointsUsed d := by
  have hpoints : 100 * overPaid cal m Order.pointsUsed d =
      overPaid cal m (fun row => 100 * row.pointsUsed) d := by
    unfold overPaid Store.total Table.total
    rw [← List.sum_map_mul_left]
    congr 1
    refine List.map_congr_left fun e _ => ?_
    rw [mul_ite, mul_zero]
  rw [hpoints]
  unfold overPaid
  rw [← Store.total_add, ← Store.total_add]
  refine Store.total_ext fun _ row _ => ?_
  split <;> rfl

/-- The trend has one row for each month, with what its orders were paid with. -/
theorem revenueTrend_ok {trend : List (ℤ × ℤ)} (h : revenueTrend cal now months d = .ok trend) :
    trend = (trailingMonths (cal.ofInstant now) months).map fun m =>
      (m, overPaid cal m Order.totalCents d) := by
  have hsum : ∀ m, (d.total .orders fun _ o => if revenueMonth cal o = some m then
      o.totalCents else 0) =
      overPaid cal m Order.totalCents d := fun m => Store.total_ext fun _ row _ => by
      simp only [revenueMonth_iff]
  unfold revenueTrend at h
  simp only [hsum] at h
  refine ((Lists.mapM_ok_iff (P := fun m => fitsI64 (overPaid cal m Order.totalCents d) = true)
    fun m b => ?_).1 h).1
  unfold toBigint
  split
  next hf => exact ⟨fun he => by cases he; exact ⟨rfl, hf⟩, fun ⟨he, _⟩ => by rw [he]; rfl⟩
  next hf => exact ⟨fun he => (nomatch he), fun he => absurd he.2 hf⟩

/-- A line is in the bucket of its month and its source and in no other. -/
theorem bucket_once (h : Priced d) {e : ℤ × OrderItem} (he : e ∈ revenueLines cal d) :
    ∃ source : IncomeSource,
    source.isOrderLine = true ∧ ∀ m s, lineOf d e ∈ bucket (reportLines cal r d) m s ↔ m = e.1 ∧
      s = source := by
  obtain ⟨source, hs, hsource⟩ := lineOf_source h he
  have hmem : lineOf d e ∈ reportLines cal r d := List.mem_append_left _ (List.mem_map_of_mem he)
  refine ⟨source, hs, fun m s => ?_⟩
  rw [bucket, List.mem_filter, and_iff_right hmem, decide_eq_true_eq, hsource]
  constructor
  · rintro ⟨hm, ha⟩
    exact ⟨hm.symm, (IncomeSource.asStr_inj (Option.some.inj ha)).symm⟩
  · rintro ⟨rfl, rfl⟩
    exact ⟨rfl, rfl⟩

theorem revenueLines_all {k : Uuid} {i : OrderItem} {row : Order}
    (hi : d.get .orderItems k = some i)
    (ho : d.get .orders i.orderId = some row) (hp : paidIn cal m row = true) :
    (m, i) ∈ revenueLines cal d := by
  refine List.mem_filterMap.2 ⟨(k, i), Store.mem_sel.2 ⟨hi, rfl⟩, ?_⟩
  rw [ho, Option.bind_some, revenueMonth_iff.2 hp, Option.map_some]

/-- **Income reconciles with revenue.** In every month of the window the buckets of order
lines add up to what the orders of that month were paid with, their discounts and the money
value of their points: to the revenue of the trend and the other two. Every line of these
orders is in one bucket, the one of its month and its source, and the report fails only
where a bucket is no BIGINT. -/
theorem income_reconciles (h0 : Priced d) (h : shop.Reachable (Sys.init d) s) (cal : StudioMonths)
    (now : Instant) (months : ℤ)
    (r : Rental.Db) :
    (∀ rows, incomeBySource cal now months r s.db = .ok rows →
      ∀ m ∈ trailingMonths (cal.ofInstant now) months,
      grossIn m rows = overPaid cal m (fun row => row.totalCents + row.discountCents +
        100 * row.pointsUsed) s.db ∧
      ∀ trend, revenueTrend cal now months s.db = .ok trend → ∀ revenue, (m, revenue) ∈ trend →
        grossIn m rows = revenue + overPaid cal m Order.discountCents s.db +
        100 * overPaid cal m Order.pointsUsed s.db) ∧
    ((∃ rows, incomeBySource cal now months r s.db = .ok rows) ↔
      ∀ cell ∈ cells (cal.ofInstant now) months, BucketFits (reportLines cal r s.db) cell) ∧
    (∀ k i row m, s.db.get .orderItems k = some i → s.db.get .orders i.orderId = some row →
      paidIn cal m row = true →
      (m, i) ∈ revenueLines cal s.db) ∧
    ∀ e ∈ revenueLines cal s.db, ∃ source : IncomeSource, source.isOrderLine = true ∧
      ∀ m src, lineOf s.db e ∈ bucket (reportLines cal r s.db) m src ↔ m = e.1 ∧ src = source := by
  have hp := reach_priced h0 h
  refine ⟨fun rows hrows m hm => ?_, ?_, fun k i row m hi ho hpaid => revenueLines_all hi ho hpaid,
    fun e he => bucket_once hp he⟩
  · -- the buckets of a month add up to what its orders were priced at
    have hgross : grossIn m rows = overPaid cal m priced s.db := gross_of_month hp hrows hm
    refine ⟨hgross, fun trend htrend revenue hrev => ?_⟩
    rw [revenueTrend_ok htrend] at hrev
    obtain ⟨m', -, he⟩ := List.mem_map.1 hrev
    cases he
    rw [hgross, overPaid_priced]
  · constructor
    · rintro ⟨rows, hrows⟩
      exact ((incomeBySource_ok hp).1 hrows).2
    · exact fun hfits => ⟨_, (incomeBySource_ok hp).2 ⟨rfl, hfits⟩⟩

/-- Months of thirty days. -/
def sampleMonths : StudioMonths := ⟨fun t => t / 2592000, fun date => date / 30⟩

theorem sampleShop_priced : Priced sampleShop :=
  ⟨fun _ _ hk => (nomatch hk), fun _ _ _ hk => (nomatch hk), fun _ _ hk => (nomatch hk),
    fun _ _ hk => (nomatch hk)⟩

instance {lines : List LineIncome} {cell : ℤ × IncomeSource} : Decidable (BucketFits lines cell) :=
  inferInstanceAs (Decidable (_ ∧ _))

/-- Two balls at 300 dollars are sold in month 0. -/
theorem income_reconciles_sale : ∃ rows,
    incomeBySource sampleMonths 0 trailingWindowMonths (fun _ => ∅)
    (shop.after sampleSale (.init sampleShop)).db = .ok rows ∧
      grossIn 0 rows = overPaid sampleMonths 0 (fun row => row.totalCents + row.discountCents +
        100 * row.pointsUsed)
        (shop.after sampleSale (.init sampleShop)).db := by
  obtain ⟨hsum, hall, -⟩ := income_reconciles sampleShop_priced
    (Service.reachable_after sampleSale) sampleMonths 0 trailingWindowMonths
    fun _ => ∅
  obtain ⟨rows, hrows⟩ := hall.2 (by decide +kernel)
  exact ⟨rows, hrows, (hsum rows hrows 0 (by decide)).1⟩

example : overPaid sampleMonths 0 priced (shop.after sampleSale (.init sampleShop)).db = 60000 := by
    decide +kernel

end DreamFly.Reports
