import DreamFly.Lists.Groups
import DreamFly.Run.Refunds

/-!
# Stock over whole runs

* `stock_conserved`: in a run without stock edits, a product's stock and the flagged
  order lines of it that are not refunded add up to what they were; stock is never
  negative; an unlimited product stays unlimited and no refund gives a line back
  into it.
-/

namespace DreamFly

open Txn

variable {u o p id : Uuid} {now : Instant} {d d' d₁ d₂ : Db} {q : Req} {σ : Pt Shop} {s : ShopSys}

/-! ## What is in stock and what is sold -/

/-- The stock of product `p`; nothing for one that is unlimited or missing. -/
def stockOf (p : Uuid) (d : Db) : ℤ := ((d.get .products p).bind Product.stock).getD 0

/-- A line that took stock of `p`. -/
def OrderItem.tookFrom (p : Uuid) (i : OrderItem) : Bool := i.target = .product p ∧
    i.stockDecremented

/-- The order counts as revenue: it is not compensated. -/
def revenueIn (d : Db) (o : Uuid) : Bool := (d.get .orders o).any fun row => row.status.isRevenue

/-- The quantity of `p` that lines of the orders in `rev` took. -/
def tookOf (rev : Uuid → Bool) (p : Uuid) (d : Db) : ℤ :=
  d.total .orderItems fun _ i => if rev i.orderId ∧ i.tookFrom p then i.quantity else 0

/-- The quantity of `p` that orders not yet compensated took. -/
def soldStock (p : Uuid) (d : Db) : ℤ := tookOf (revenueIn d) p d

/-- Stock is not negative. -/
def StockNonneg (d : Db) : Prop := ∀ p row, d.get .products p = some row →
    row.stock.all (0 ≤ ·) = true

/-- Stock and order lines fit together. -/
structure StockOK (d : Db) : Prop where
  nonneg : StockNonneg d
  order : ∀ k i, d.get .orderItems k = some i → (d.get .orders i.orderId).isSome
  positive : ∀ k i, d.get .orderItems k = some i → 0 < i.quantity
  flagged : ∀ k i p, d.get .orderItems k = some i → i.tookFrom p = true → limited d p = some true

/-! ## Moving stock -/

/-- Taking is giving a negative quantity. -/
theorem Taken.given {x : ReserveLine × (Uuid × Product)} (h : Taken x d d') :
    Given (x.1.1, -x.1.2.1) d d' := by
  obtain ⟨row, hr, -, -, rfl⟩ := h
  refine ⟨row, hr, ?_⟩
  have hf : Product.take x.1.2.1 = Product.give (-x.1.2.1) := by
    funext row
    simp only [Product.take, Product.give, sub_eq_add_neg]
  rw [hf]

theorem Given.get {x : Uuid × ℤ} (h : Given x d d') (p : Uuid) :
    d'.get .products p = (d.get .products p).map fun row => if p = x.1 then
      row.give x.2 else row := by
  obtain ⟨row, hr, rfl⟩ := h
  rw [Store.get_mod]
  split
  next he => rw [he]
  · simp

theorem Given.limited_eq {x : Uuid × ℤ} (h : Given x d d') (p : Uuid) :
    limited d' p = limited d p := by
  unfold limited
  rw [h.get, Option.map_map]
  congr 1
  funext row
  simp only [Function.comp]
  split
  · simp [Product.give]
  · rfl

theorem Given.stockOf_eq {x : Uuid × ℤ} (h : Given x d d') (p : Uuid) :
    stockOf p d' = stockOf p d + if x.1 = p ∧ limited d p = some true then x.2 else 0 := by
  unfold stockOf limited
  rw [h.get]
  cases hr : d.get .products p with
  | none => simp
  | some row =>
    by_cases hp : p = x.1
    · cases hs : row.stock <;> simp [hp, hs, Product.give]
    · simp [hp, Ne.symm hp]

/-- What a chain of moves does to one product. -/
theorem given_stockOf {l : List (Uuid × ℤ)} (h : Chain Given l d d') (p : Uuid) :
    limited d' p = limited d p ∧
    stockOf p d' = stockOf p d +
      (l.map fun x => if x.1 = p ∧ limited d p = some true then x.2 else 0).sum := by
  induction l generalizing d with
  | nil => cases h; simp
  | cons x l ih =>
    obtain ⟨d₁, h1, h2⟩ := h
    obtain ⟨hl, hs⟩ := ih h2
    rw [h1.limited_eq] at hl hs
    exact ⟨hl, by rw [hs, h1.stockOf_eq, List.map_cons, List.sum_cons, add_assoc]⟩

/-! ## A sale -/

theorem Lined.tookOf_eq {line : OrderLine} {rev : Uuid → Bool} (h : Lined o now line d d')
    (p : Uuid) :
    tookOf rev p d' = tookOf rev p d + if rev o ∧ (line.item o now).tookFrom p then
      line.quantity else 0 := by
  obtain ⟨k, hk, -, rfl⟩ := h
  exact Store.total_add_new hk _ _

theorem Lined.item {line : OrderLine} (h : Lined o now line d d') {k : Uuid} {i : OrderItem}
    (hk : d'.get .orderItems k = some i) : (i = line.item o now ∧ i.checks = true) ∨
    d.get .orderItems k = some i := by
  obtain ⟨k', hk', hc, rfl⟩ := h
  rw [Store.get_add, hk'] at hk
  split at hk
  · cases hk; exact .inl ⟨rfl, hc⟩
  · exact .inr hk

theorem Given.nonneg {x : Uuid × ℤ} (h : Given x d d') (hd : StockNonneg d)
    (hx : ∀ row, d.get .products x.1 = some row → (row.give x.2).stock.all (0 ≤ ·) = true) :
    StockNonneg d' := by
  intro p row hr
  rw [h.get] at hr
  obtain ⟨row', hr', rfl⟩ := Option.map_eq_some_iff.1 hr
  split
  next he => rw [he] at hr'; exact hx row' hr'
  · exact hd p row' hr'

theorem Taken.nonneg {x : ReserveLine × (Uuid × Product)} (h : Taken x d d') (hd : StockNonneg d) :
    StockNonneg d' := by
  refine h.given.nonneg hd fun row hr => ?_
  obtain ⟨row', hr', hle, -, -⟩ := h
  rw [hr] at hr'
  cases hr'
  cases hs : row.stock with
  | none => simp [Product.give, hs]
  | some n => simp [hs, Product.give] at hle ⊢; omega

/-- The quantity of `p` in a cart line. -/
def CheckoutLine.quantityOf (p : Uuid) (line : CheckoutLine) : ℤ := if line.target = .product p then
    line.quantity else 0

section sale
variable {cart : List CheckoutLine} {outcome : PricingOutcome} {method : String}
  (x : SaleSteps u o cart outcome method now d d')
include x

theorem SaleSteps.given : Chain Given (x.ordered.map fun line => (line.1,
    -line.2.1)) d x.stocked := by
  have h := (x.stock.imp fun _ _ _ _ h => h.given).map (Q := Given)
    fun y : ReserveLine × (Uuid × Product) => (y.1.1, -y.1.2.1)
  have hz : (x.ordered.zip x.reserved).map Prod.fst = x.ordered :=
    List.map_fst_zip (le_of_eq x.reserved_length.symm)
  have hl : (x.ordered.zip x.reserved).map (fun y => (y.1.1, -y.1.2.1)) = x.ordered.map fun line =>
      (line.1, -line.2.1) := by
    conv_rhs => rw [← hz]
    rw [List.map_map]
    rfl
  rwa [hl] at h

/-- **A sale takes the cart's quantity of a limited product.** -/
theorem SaleSteps.stockOf_eq (p : Uuid) :
    limited x.stocked p = limited d p ∧
    stockOf p x.stocked = stockOf p d -
      (cart.map fun line => if limited d p = some true then line.quantityOf p else 0).sum := by
  obtain ⟨hl, hs⟩ := given_stockOf x.given p
  refine ⟨hl, ?_⟩
  rw [hs, List.map_map, (x.ordered_perm.map _).sum_eq, fulfilmentPlan, List.map_map,
    Lists.sum_map_filterMap, sub_eq_add_neg,
    List.sum_neg, List.map_map]
  congr 3
  funext line
  simp only [Function.comp, CheckoutLine.productLine, CheckoutLine.quantityOf]
  cases line.target with
  | product id =>
    by_cases hp : id = p <;> by_cases hlim : limited d p = some true <;> simp [hp, hlim,
      ProductFulfilment.reserve]
  | course id => simp

/-- The lines that took stock of `p` are the cart's lines of it, if it is limited. -/
theorem SaleSteps.flag (p : Uuid) {line : CheckoutLine} (hl : line ∈ cart) :
    ((orderLine x.reserved line).item o now).tookFrom p = true ↔ line.target = .product p ∧
    limited d p = some true := by
  unfold OrderItem.tookFrom
  rw [decide_eq_true_eq]
  refine and_congr_right fun ht => ?_
  have ht : line.target = .product p := ht
  simp only [OrderLine.item, orderLine, ht]
  have hmem : (p, line.quantity, line.name) ∈ x.ordered := by
    refine x.ordered_perm.mem_iff.2 (List.mem_map.2 ⟨⟨p, line.quantity, line.priceCents,
      line.name⟩, ?_, rfl⟩)
    exact List.mem_filterMap.2 ⟨line, hl, by rw [CheckoutLine.productLine, ht]⟩
  obtain ⟨hfind, -⟩ := reserved_find x.reserved_length x.stock hmem
  simp only at hfind
  rw [← hfind]
  cases x.reserved.find p <;> simp

/-- The lines of a sale, counted. -/
theorem SaleSteps.tookOf_eq {rev : Uuid → Bool} (ho : rev o = true) (p : Uuid) :
    tookOf rev p x.lined =
      tookOf rev p d +
        (cart.map fun line => if limited d p = some true then line.quantityOf p else 0).sum := by
  have hitems := x.items.sum (f := tookOf rev p) fun line _ a b h => h.tookOf_eq p
  have honly : Only (S := Shop) [.products, .orders] d x.placed :=
    (x.stock_only.mono (by simp)).trans (x.order_only.mono (by simp))
  have hsame : tookOf rev p x.placed = tookOf rev p d := by
    unfold tookOf
    exact honly.total (by simp) _
  rw [hitems, hsame, orderLines, List.map_map]
  congr 2
  refine List.map_congr_left fun line hl => ?_
  have hf := x.flag p hl
  simp only [Function.comp, ho, true_and, hf, CheckoutLine.quantityOf]
  by_cases hp : line.target = .product p <;> by_cases hlim : limited d p = some true <;> simp [hp,
    hlim, orderLine]

end sale

theorem tookOf_congr {rev rev' : Uuid → Bool} (hi : d' .orderItems = d .orderItems)
    (h : ∀ k i, d.get .orderItems k = some i → i.tookFrom p = true →
      rev' i.orderId = rev i.orderId) :
    tookOf rev' p d' = tookOf rev p d := by
  have hd : tookOf rev' p d' = tookOf rev' p d := by unfold tookOf Store.total; rw [hi]
  rw [hd]
  refine Store.total_ext fun k i hk => ?_
  by_cases ht : i.tookFrom p = true
  · rw [h k i hk ht]
  · simp [ht]

/-- What a checkout leaves of the items: those of the sale. -/
theorem CheckedOut.items_only {key : Option IdempotencyKey} (x : CheckedOut u key now d d') :
    d' .orderItems = x.steps.lined .orderItems := by
  have honly : Only (S := Shop) [.users, .pointLedger, .enrolments, .subscriptions, .cartItems,
    .orderIdempotency, .outbox]
      x.steps.lined d' :=
    (x.steps.points_only.mono (by simp)).trans <| (x.steps.enrol_only.mono (by simp)).trans <|
      (x.steps.grants.mono (by simp)).trans <| (x.steps.cleared.mono (by simp)).trans
        (x.tail_only.mono (by simp))
  exact honly _ (by simp)

theorem CheckedOut.products_only {key : Option IdempotencyKey} (x : CheckedOut u key now d d') :
    d' .products = x.steps.stocked .products := by
  have honly : Only (S := Shop) [.orders, .orderItems, .users, .pointLedger, .enrolments,
    .subscriptions, .cartItems,
      .orderIdempotency, .outbox] x.steps.stocked d' :=
    (x.steps.order_only.mono (by simp)).trans <| (x.steps.items_only.mono (by simp)).trans <|
      (x.steps.points_only.mono (by simp)).trans <| (x.steps.enrol_only.mono (by simp)).trans <|
      (x.steps.grants.mono (by simp)).trans <| (x.steps.cleared.mono (by simp)).trans
        (x.tail_only.mono (by simp))
  exact honly _ (by simp)

theorem nonneg_congr (h : d' .products = d .products) (hd : StockNonneg d) : StockNonneg d' := by
  intro p row hr
  refine hd p row ?_
  unfold Store.get at hr ⊢
  rwa [h] at hr

theorem limited_congr (h : d' .products = d .products) (p : Uuid) : limited d' p = limited d p := by
  unfold limited Store.get; rw [h]

theorem stockOf_congr (h : d' .products = d .products) (p : Uuid) : stockOf p d' = stockOf p d := by
  unfold stockOf Store.get; rw [h]

/-- What all commits keep: from `d₀` on, the same products are limited, and stock and
sold quantity add up to the same. -/
structure StockKept (d₀ d : Db) : Prop extends StockOK d where
  limited_eq : ∀ p, limited d p = limited d₀ p
  sum : ∀ p, stockOf p d + soldStock p d = stockOf p d₀ + soldStock p d₀

/-- A line there after a checkout is one of the sale, or was there before. -/
theorem CheckedOut.item {key : Option IdempotencyKey} (x : CheckedOut u key now d d') {k : Uuid}
    {i : OrderItem}
    (hk : d'.get .orderItems k = some i) :
    (∃ line ∈ x.cart, i = (orderLine x.steps.reserved line).item x.o now ∧ i.checks = true) ∨
    d.get .orderItems k = some i := by
  have hk' : x.steps.lined.get .orderItems k = some i := by
    unfold Store.get at hk ⊢
    rwa [x.items_only] at hk
  have honly : Only (S := Shop) [.products, .orders] d x.steps.placed :=
    (x.steps.stock_only.mono (by simp)).trans (x.steps.order_only.mono (by simp))
  have hinv := x.steps.items.inv (I := fun b : Db => ∀ k i, b.get .orderItems k = some i →
    (∃ line ∈ orderLines x.cart x.steps.reserved, i = line.item x.o now ∧ i.checks = true) ∨
    d.get .orderItems k = some i)
    (fun line hl a b hlined ih k i hk => (hlined.item hk).elim
      (fun hi => .inl ⟨line, hl, hi⟩) (ih k i))
    fun k i hk => .inr (by rwa [honly.get (t := ShopTbl.orderItems) (by simp)] at hk)
  rcases hinv k i hk' with ⟨line, hl, hi⟩ | hold
  · obtain ⟨line', hl', rfl⟩ := List.mem_map.1 hl
    exact .inl ⟨line', hl', hi⟩
  · exact .inr hold

/-- What a checkout takes from stock it adds to what is sold. -/
theorem CheckedOut.stock_sum {key : Option IdempotencyKey} (x : CheckedOut u key now d d')
    (ho : ∀ k i, d.get .orderItems k = some i → (d.get .orders i.orderId).isSome = true)
    (p : Uuid) :
    stockOf p d' + soldStock p d' = stockOf p d + soldStock p d := by
  have hrev : ∀ k, k ≠ x.o → revenueIn d' k = revenueIn d k := by
    intro k hk
    unfold revenueIn
    rw [x.orders, if_neg hk]
  have hnew : revenueIn d' x.o = true := by
    unfold revenueIn
    rw [x.orders, if_pos rfl]
    rfl
  have h1 : stockOf p d' = stockOf p x.steps.stocked := stockOf_congr x.products_only p
  have h2 : soldStock p d' = tookOf (revenueIn d') p x.steps.lined :=
    tookOf_congr x.items_only fun _ _ _ _ => rfl
  have h3 : tookOf (revenueIn d') p d = soldStock p d := by
    refine tookOf_congr rfl fun k i hk _ => hrev _ ?_
    rintro he
    have hthere := ho k i hk
    rw [he, x.steps.fresh] at hthere
    cases hthere
  rw [h1, h2, (x.steps.stockOf_eq p).2, x.steps.tookOf_eq hnew p, h3]
  omega

theorem CheckedOut.limited_eq {key : Option IdempotencyKey} (x : CheckedOut u key now d d')
    (p : Uuid) : limited d' p = limited d p :=
  (limited_congr x.products_only p).trans (x.steps.stockOf_eq p).1

theorem CheckedOut.nonneg {key : Option IdempotencyKey} (x : CheckedOut u key now d d')
    (h : StockNonneg d) : StockNonneg d' :=
  nonneg_congr x.products_only (x.steps.stock.inv (fun _ _ _ _ ht => ht.nonneg) h)

/-- The lines of a checkout have its order. -/
theorem CheckedOut.item_order {key : Option IdempotencyKey} (x : CheckedOut u key now d d')
    (ho : ∀ k i, d.get .orderItems k = some i → (d.get .orders i.orderId).isSome = true) {k : Uuid}
    {i : OrderItem}
    (hk : d'.get .orderItems k = some i) : (d'.get .orders i.orderId).isSome = true := by
  rcases x.item hk with ⟨line, -, rfl, -⟩ | hold
  · rw [x.orders, if_pos (show ((orderLine x.steps.reserved line).item x.o now).orderId =
      x.o from rfl)]
    rfl
  · rw [x.orders]
    split
    · rfl
    · exact ho k i hold

theorem CheckedOut.item_positive {key : Option IdempotencyKey} (x : CheckedOut u key now d d')
    (hpos : ∀ k i, d.get .orderItems k = some i → 0 < i.quantity) {k : Uuid} {i : OrderItem}
    (hk : d'.get .orderItems k = some i) :
    0 < i.quantity := by
  rcases x.item hk with ⟨line, -, -, hc⟩ | hold
  · exact (of_decide_eq_true hc).1
  · exact hpos k i hold

theorem CheckedOut.stockKept {key : Option IdempotencyKey} {d₀ : Db} (x : CheckedOut u key now d d')
    (h : StockKept d₀ d) :
    StockKept d₀ d' := by
  refine ⟨⟨x.nonneg h.nonneg, fun k i hk => x.item_order h.order hk,
    fun k i hk => x.item_positive h.positive hk,
    fun k i p hk ht => ?_⟩, fun p => (x.limited_eq p).trans (h.limited_eq p),
    fun p => (x.stock_sum h.order p).trans (h.sum p)⟩
  rw [x.limited_eq]
  rcases x.item hk with ⟨line, hl, rfl, -⟩ | hold
  · exact ((x.steps.flag p hl).1 ht).2
  · exact h.flagged k i p hold ht

/-! ## A refund -/

theorem restockLine_eq_some {i : OrderItem} {x : Uuid × ℤ} (h : restockLine i.trace = some x) :
    i.tookFrom x.1 = true ∧ x.2 = i.quantity := by
  obtain ⟨_, target, _, _, _, flag, _⟩ := i
  cases target <;> cases flag <;> simp [restockLine, OrderItem.trace] at h
  subst h
  simp [OrderItem.tookFrom]

theorem restockLine_quantity (p : Uuid) (i : OrderItem) :
    (restockLine i.trace).elim 0 (fun x => if x.1 = p then x.2 else 0) = if i.tookFrom p then
      i.quantity else 0 := by
  obtain ⟨_, target, _, _, _, flag, _⟩ := i
  cases target <;> cases flag <;> simp [restockLine, OrderItem.trace, OrderItem.tookFrom]

/-- The quantity of `p` in the lines a refund of order `o` gives back. -/
theorem tookStock_sum (p : Uuid) : ((tookStock o d).map fun x => if x.1 = p then x.2 else 0).sum =
    tookOf (fun k => k = o) p d := by
  have hsel : tookOf (fun k => k = o) p d = ((d.sel .orderItems fun _ item => item.orderId = o ∧
      item.target.isProduct).map
      fun e => if e.2.tookFrom p then e.2.quantity else 0).sum := by
    unfold tookOf
    rw [Store.total_eq_sum_sel (S := Shop) (t := .orderItems) (d := d)
      (p := fun _ item => item.orderId = o ∧ item.target.isProduct)]
    · congr 1
      refine List.map_congr_left fun e he => ?_
      have ho := (Store.mem_sel.1 he).2
      simp only [decide_eq_true_eq] at ho
      simp [ho.1]
    · intro k i hk
      refine if_neg fun hh => ?_
      simp only [OrderItem.tookFrom, decide_eq_true_eq] at hh
      simp [hh.1, hh.2.1, LineTarget.isProduct] at hk
  unfold tookStock restockLines findStockTracesByOrder
  rw [Lists.sum_map_filterMap, List.map_map, ((List.perm_insertionSort _ _).map _).sum_eq, hsel]
  congr 1
  exact List.map_congr_left fun e _ => restockLine_quantity p e.2

/-- Splitting off one order. -/
theorem tookOf_split {rev rev' : Uuid → Bool} (ho : rev o = true) (ho' : rev' o = false)
    (h : ∀ k, k ≠ o → rev' k = rev k) :
    tookOf rev p d = tookOf rev' p d + tookOf (fun k => k = o) p d := by
  unfold tookOf
  rw [← Store.total_add]
  refine Store.total_ext fun k i _ => ?_
  by_cases hk : i.orderId = o
  · simp [hk, ho, ho']
  · simp [hk, h _ hk]

/-- A line to give back is one of the order's that took stock. -/
theorem mem_tookStock {x : Uuid × ℤ} (hx : x ∈ tookStock o d) :
    ∃ k i, d.get .orderItems k = some i ∧ i.tookFrom x.1 = true ∧ x.2 = i.quantity := by
  obtain ⟨trace, ht, hr⟩ := List.mem_filterMap.1 hx
  obtain ⟨e, he, rfl⟩ := List.mem_map.1 ht
  exact ⟨e.1, e.2, (Store.mem_sel.1 ((List.perm_insertionSort _ _).mem_iff.1 he)).1,
    restockLine_eq_some hr⟩

theorem givenTo_perm {l l' : List (Uuid × ℤ)} (h : l.Perm l') (p : Uuid) :
    givenTo p l = givenTo p l' := (h.map _).sum_eq

/-- A refund gives each product what the order's lines took of it. -/
theorem Compensated.products_eq (y : Compensated id u now d d') (p : Uuid) :
    d'.get .products p = (d.get .products p).map (Product.give (tookOf (fun k => k = id) p d)) := by
  have hafter : Only (S := Shop) [.enrolments, .leaveRequests, .subscriptions] y.restocked d' :=
    (y.seats.only.mono (by simp)).trans (y.subscriptions.mono (by simp))
  rw [hafter.get (t := ShopTbl.products) (by simp), given_get y.stock,
    y.points_only.get (t := ShopTbl.products) (by simp),
    givenTo_perm y.lines_perm]
  congr 2
  exact tookStock_sum p

/-- What a status change gives back of product `p`. -/
def StatusChanged.back {target : OrderStatus} (x : StatusChanged id target now d d')
    (p : Uuid) : ℤ :=
  if compensationRequired x.order.status target then tookOf (fun k => k = id) p d else 0

theorem StatusChanged.products_eq {target : OrderStatus} (x : StatusChanged id target now d d')
    (p : Uuid) :
    d'.get .products p = (d.get .products p).map (Product.give (x.back p)) := by
  have htail : d'.get .products p = x.undone.get .products p := by
    unfold Store.get
    rw [x.tail_only _ (by simp)]
  rw [htail, back]
  cases hc : compensationRequired x.order.status target with
  | true =>
    obtain ⟨y⟩ := x.refund hc
    exact y.products_eq p
  | false =>
    rw [x.plain hc]
    cases d.get .products p with
    | none => rfl
    | some row => simp [Product.give]

/-- An order that is refunded no longer counts as sold. -/
theorem StatusChanged.sold {target : OrderStatus} (x : StatusChanged id target now d d')
    (p : Uuid) :
    soldStock p d' + x.back p = soldStock p d := by
  have hitems : d' .orderItems = d .orderItems := x.only _ (by simp)
  have hrev : ∀ k, k ≠ id → revenueIn d' k = revenueIn d k := by
    intro k hk
    unfold revenueIn
    rw [x.orders, if_neg hk]
  have hid : revenueIn d' id = target.isRevenue := by
    unfold revenueIn
    rw [x.orders, if_pos rfl]
    rfl
  have hid₀ : revenueIn d id = x.order.status.isRevenue := by
    unfold revenueIn
    rw [x.order_eq]
    rfl
  have hd' : soldStock p d' = tookOf (revenueIn d') p d := tookOf_congr hitems fun _ _ _ _ => rfl
  rw [hd', back]
  cases hc : compensationRequired x.order.status target with
  | false =>
    -- the order counts as revenue as before
    have hsame : ∀ k, revenueIn d' k = revenueIn d k := by
      intro k
      by_cases hk : k = id
      · rw [hk, hid, hid₀]
        have hal := x.allowed
        cases hs : x.order.status <;> cases target <;>
          simp_all [OrderStatus.canTransitionTo, compensationRequired, OrderStatus.isRevenue,
            OrderStatus.isReversal]
      · exact hrev k hk
    rw [if_neg Bool.false_ne_true, add_zero]
    exact tookOf_congr rfl fun k i _ _ => hsame _
  | true =>
    simp only [compensationRequired, Bool.and_eq_true] at hc
    have hgone : revenueIn d' id = false := by
      rw [hid]
      cases target <;> simp_all [OrderStatus.isRevenue, OrderStatus.isReversal]
    rw [if_pos rfl, soldStock]
    exact (tookOf_split (hid₀.trans hc.1 : revenueIn d _ = true) hgone hrev).symm

theorem tookOf_nonneg {rev : Uuid → Bool} (h : ∀ k i, d.get .orderItems k = some i → 0 < i.quantity)
    (p : Uuid) :
    0 ≤ tookOf rev p d := by
  refine Store.total_nonneg fun k i hk => ?_
  split
  · exact (h k i hk).le
  · exact le_rfl

theorem StatusChanged.nonneg {target : OrderStatus} (x : StatusChanged id target now d d')
    (hn : StockNonneg d)
    (hpos : ∀ k i, d.get .orderItems k = some i → 0 < i.quantity) : StockNonneg d' := by
  intro p row hr
  rw [x.products_eq] at hr
  obtain ⟨row₀, hr₀, rfl⟩ := Option.map_eq_some_iff.1 hr
  have hback : 0 ≤ x.back p := by
    unfold back
    split
    · exact tookOf_nonneg hpos p
    · exact le_rfl
  have hrow := hn p row₀ hr₀
  cases hs : row₀.stock with
  | none => simp [Product.give, hs]
  | some n =>
    rw [hs, Option.all_some, decide_eq_true_eq] at hrow
    simp only [Product.give, hs, Option.map_some, Option.all_some, decide_eq_true_eq]
    omega

theorem StatusChanged.limited_eq {target : OrderStatus} (x : StatusChanged id target now d d')
    (p : Uuid) : limited d' p = limited d p := by
  unfold limited
  rw [x.products_eq, Option.map_map]
  congr 1
  funext row
  simp [Product.give]

theorem StatusChanged.item_order {target : OrderStatus} (x : StatusChanged id target now d d')
    (ho : ∀ k i, d.get .orderItems k = some i → (d.get .orders i.orderId).isSome = true) {k : Uuid}
    {i : OrderItem}
    (hk : d'.get .orderItems k = some i) : (d'.get .orders i.orderId).isSome = true := by
  rw [x.only.get (t := ShopTbl.orderItems) (by simp)] at hk
  rw [x.orders]
  split
  · rfl
  · exact ho k i hk

theorem StatusChanged.back_unlimited {target : OrderStatus} (x : StatusChanged id target now d d')
    (h : StockOK d)
    (hlim : limited d p ≠ some true) : x.back p = 0 := by
  unfold back
  split
  · exact Store.total_eq_zero fun k i hk => if_neg fun ht => hlim (h.flagged k i p hk ht.2)
  · rfl

theorem StatusChanged.stockKept {target : OrderStatus} {d₀ : Db}
    (x : StatusChanged id target now d d') (h : StockKept d₀ d) :
    StockKept d₀ d' := by
  have hget : ∀ k, d'.get .orderItems k = d.get .orderItems k := x.only.get (by simp)
  refine ⟨⟨x.nonneg h.nonneg h.positive, fun k i hk => x.item_order h.order hk,
    fun k i hk => h.positive k i (hget k ▸ hk),
    fun k i p hk ht => ?_⟩, fun p => (x.limited_eq p).trans (h.limited_eq p), fun p => ?_⟩
  · rw [x.limited_eq]
    exact h.flagged k i p (hget k ▸ hk) ht
  · rw [← h.sum p, ← x.sold p, stockOf, x.products_eq, stockOf]
    by_cases hlim : limited d p = some true
    · obtain ⟨row, hr, hs⟩ := Option.map_eq_some_iff.1 hlim
      obtain ⟨n, hn⟩ := Option.isSome_iff_exists.1 hs
      simp only [hr, hn, Option.map_some, Option.bind_some, Product.give, Option.getD_some]
      omega
    · -- a product that is not limited has no stock, and nothing was taken of it
      rw [x.back_unlimited h.toStockOK hlim, add_zero]
      congr 2
      cases d.get .products p with
      | none => rfl
      | some row => simp [Product.give]

/-! ## Conservation -/

/-- No edit of a product's stock. -/
def Req.KeepsStock : Req → Prop
  | .updateProduct _ req => req.stock = none
  | _ => True

theorem StockKept.commit {d₀ : Db} (hq : q.KeepsStock) (h : q.Commits (.free Shop) σ)
    (hp : StockKept d₀ σ.now) :
    StockKept d₀ σ.db := by
  -- a commit that touches neither orders nor their lines nor any stock
  have hother : (∀ t ∈ [ShopTbl.orders, .orderItems], t ∉ q.writes) →
      (∀ p, (σ.db.get .products p).map Product.stock = (σ.now.get .products p).map Product.stock) →
      StockKept d₀ σ.db := by
    intro hw hs
    have ho : ∀ k, σ.db.get .orders k = σ.now.get .orders k := h.only.get (hw _ (by simp))
    have hi : ∀ k, σ.db.get .orderItems k = σ.now.get .orderItems k := h.only.get (hw _ (by simp))
    have hlim : ∀ p, limited σ.db p = limited σ.now p := by
      intro p
      have hmap := congrArg (Option.map Option.isSome) (hs p)
      rwa [Option.map_map, Option.map_map] at hmap
    have hstock : ∀ p, stockOf p σ.db = stockOf p σ.now := by
      intro p
      have hbind := congrArg (fun x => (x.bind id).getD 0) (hs p)
      simpa [stockOf, Option.bind_map] using hbind
    refine ⟨⟨fun p row hr => ?_, fun k i hk => ?_, fun k i hk => hp.positive k i (hi k ▸ hk),
      fun k i p hk ht => ?_⟩,
      fun p => (hlim p).trans (hp.limited_eq p), fun p => ?_⟩
    · have hsp := hs p
      rw [hr] at hsp
      obtain ⟨row', hr', he⟩ := Option.map_eq_some_iff.1 hsp.symm
      rw [← he]
      exact hp.nonneg p row' hr'
    · rw [ho]; exact hp.order k i (hi k ▸ hk)
    · rw [hlim]; exact hp.flagged k i p (hi k ▸ hk) ht
    · rw [hstock, ← hp.sum p]
      congr 1
      refine tookOf_congr (h.only _ (hw _ (by simp))) fun k i _ _ => ?_
      unfold revenueIn
      rw [ho]
  cases q with
  | checkout => obtain ⟨x⟩ := h; exact x.stockKept hp
  | updateOrderStatus => obtain ⟨_, -, ⟨x⟩⟩ := h; exact x.stockKept hp
  | updateProduct id req =>
    refine hother (by simp [Req.writes]) fun p => ?_
    obtain ⟨row, type, hr, -, he⟩ := h
    rw [he, Store.get_mod]
    split
    next hp =>
      rw [hp, hr]
      simp [UpdateProductRequest.apply, show req.stock = none from hq]
    · rfl
  | _ =>
    exact hother (by simp [Req.writes]) fun p => by
      rw [h.only.get (t := ShopTbl.products) (by simp [Req.writes])]

/-- **Stock is conserved.** In a run without stock edits, from a store whose order
lines have orders, positive quantities, and took stock only of limited products. -/
theorem stock_conserved (h0 : StockOK d) (h : shop.ReachOf Req.KeepsStock (Sys.init d) s) (p : Uuid)
    {row : Product}
    (hp : d.get .products p = some row) : ∃ row', s.db.get .products p = some row' ∧
    (∀ n, row.stock = some n → ∃ n', row'.stock = some n' ∧ 0 ≤ n' ∧
      n' + soldStock p s.db = n + soldStock p d) ∧
    (row.stock = none → row'.stock = none ∧ (∀ k i, s.db.get .orderItems k = some i →
      i.target = .product p →
      i.stockDecremented = false) ∧ ∀ o n, (p, n) ∉ tookStock o s.db) := by
  have hk : StockKept d s.db := shop_inv_of ⟨h0, fun _ => rfl, fun _ => rfl⟩
    (fun _ _ hq _ hc hp => hp.commit hq hc) h
  have hlim := hk.limited_eq p
  have hsum := hk.sum p
  have hflag := fun k i => hk.flagged k i p
  -- whether the stock is limited is fixed, and decides between the two halves
  unfold limited at hlim hflag
  unfold stockOf at hsum
  rw [hp, Option.map_some] at hlim
  obtain ⟨row', hr', hs⟩ := Option.map_eq_some_iff.1 hlim
  rw [hp, hr', Option.bind_some, Option.bind_some] at hsum
  rw [hr', Option.map_some, hs] at hflag
  refine ⟨row', hr', fun n hn => ?_, fun hn => ?_⟩
  · rw [hn, Option.isSome_some] at hs
    obtain ⟨n', hn'⟩ := Option.isSome_iff_exists.1 hs
    have hpos := hk.nonneg p row' hr'
    rw [hn, hn'] at hsum
    rw [hn'] at hpos
    exact ⟨n', hn', by simpa using hpos, by simpa using hsum⟩
  · -- no line of it is flagged
    rw [hn] at hs hflag
    refine ⟨by simpa using hs, fun k i hi ht => ?_, fun o n hm => ?_⟩
    · cases hf : i.stockDecremented with
      | false => rfl
      | true => exact absurd (hflag k i hi (by simp [OrderItem.tookFrom, ht, hf])) (by simp)
    · obtain ⟨k, i, hi, hf, -⟩ := mem_tookStock hm
      exact absurd (hflag k i hi hf) (by simp)

/-- The sale of two balls. -/
theorem stock_conserved_sale :
    ∃ row', (shop.after sampleSale (.init sampleShop)).db.get .products 3 = some row' ∧
    ∃ n', row'.stock = some n' ∧ 0 ≤ n' ∧
      n' + soldStock 3 (shop.after sampleSale (.init sampleShop)).db = 5 := by
  have h0 : StockOK sampleShop := by
    refine ⟨fun _ _ => Store.get_all (d := sampleShop) (t := ShopTbl.products)
      (P := fun _ row => row.stock.all (0 ≤ ·) = true) (by decide), fun k i hk => ?_, fun k i hk =>
        ?_, fun k i p hk => ?_⟩ <;> cases hk
  have hreach : shop.ReachOf Req.KeepsStock (.init sampleShop)
      (shop.after sampleSale (.init sampleShop)) := by
    refine Service.reach_after fun e he _ _ t q hq => ?_
    subst hq
    simp [sampleSale, Event.steps] at he
    rw [he.2]
    trivial
  obtain ⟨row', hr, hn, -⟩ := stock_conserved h0 hreach 3
    (rfl : sampleShop.get .products 3 = some ⟨"ball", .merchandise, 30000, some 5, none,
      none, true⟩)
  exact ⟨row', hr, hn 5 rfl⟩

end DreamFly
