import DreamFly.Reports.Revenue
import DreamFly.Proof.Pricing
import DreamFly.Txn.Join
import DreamFly.Run.Stock

/-!
# Income and revenue of one store

* `Priced`: the lines of every order add up to what it was priced at.
* `gross_of_month`: on such a store, the buckets of a month add up to what its orders were
  paid with, their discounts and the money value of their points.
-/

namespace DreamFly.Reports

open Txn

variable {cal : StudioMonths} {now : Instant} {months m : ℤ} {r : Rental.Db} {d d' : Db}
  {k o : Uuid}

/-! ## Sources and months -/

theorem IncomeSource.asStr_inj {a b : IncomeSource} (h : a.asStr = b.asStr) : a = b := by
  cases a <;> cases b <;> first | rfl | exact absurd h (by decide)

theorem revenueStatuses_contains (status : OrderStatus) :
    revenueStatuses.contains status.asStr = status.isRevenue := by
  cases status <;> decide

/-- The order counts as revenue of month `m`. -/
def paidIn (cal : StudioMonths) (m : ℤ) (row : Order) : Bool :=
  row.status.isRevenue && row.paidAt.any (cal.ofInstant · = m)

theorem revenueMonth_iff {row : Order} : revenueMonth cal row = some m ↔
    paidIn cal m row = true := by
  unfold revenueMonth paidIn
  rw [revenueStatuses_contains]
  cases row.status.isRevenue with
  | false => exact ⟨fun h => (nomatch h), fun h => (nomatch h)⟩
  | true =>
    cases row.paidAt with
    | none => exact ⟨fun h => (nomatch h), fun h => (nomatch h)⟩
    | some t => simp

/-- What is sold at all is sold under one of the sources of order lines. -/
theorem lineSource_eq {target : LineTarget} (h : ∀ p, target = .product p →
    (d.get .products p).isSome = true) :
    ∃ source : IncomeSource, source.isOrderLine = true ∧
      lineSource d target = some source.asStr := by
  cases target with
  | course id => exact ⟨.course, rfl, rfl⟩
  | product id =>
    obtain ⟨p, hp⟩ := Option.isSome_iff_exists.1 (h id rfl)
    rw [lineSource, hp, Option.map_some]
    cases p.productType with
    | ticket => exact ⟨.ticket, rfl, rfl⟩
    | coursePackage => exact ⟨.coursePackage, rfl, rfl⟩
    | membership => exact ⟨.membership, rfl, rfl⟩
    | merchandise => exact ⟨.merchandise, rfl, rfl⟩

theorem trailingMonths_nodup (anchor months : ℤ) : (trailingMonths anchor months).Nodup := by
  refine List.nodup_range.map fun i j h => ?_
  have h : anchor - (months - 1) + (i : ℤ) = anchor - (months - 1) + j := h
  omega

/-! ## The price of an order -/

/-- What a line cost, before any discount. -/
def gross (i : OrderItem) : ℤ := i.unitPriceCents * i.quantity

/-- What the lines of order `o` cost. -/
def grossOf (o : Uuid) (d : Db) : ℤ := d.total .orderItems fun _ i => if i.orderId = o then
    gross i else 0

/-- What an order was priced at: paid, taken off, and paid with points. -/
def priced (row : Order) : ℤ := row.totalCents + row.discountCents + 100 * row.pointsUsed

/-- Orders and lines fit together: a line's order and product are there, its amount is a
BIGINT, and the lines of an order add up to its price. -/
structure Priced (d : Db) : Prop where
  order : ∀ k i, d.get .orderItems k = some i → (d.get .orders i.orderId).isSome = true
  product : ∀ k i p, d.get .orderItems k = some i → i.target = .product p →
    (d.get .products p).isSome = true
  fits : ∀ k i, d.get .orderItems k = some i → fitsI64 (gross i) = true
  sum : ∀ o row, d.get .orders o = some row → grossOf o d = priced row

/-- The lines of the orders of a month, added up. -/
theorem gross_orders (h : Priced d) (p : Order → Bool) :
    (d.total .orderItems fun _ i => if (d.get .orders i.orderId).any p then gross i else 0) =
      d.total .orders fun _ row => if p row then priced row else 0 := by
  refine (@Store.total_join Shop d d .orders .orderItems OrderItem.orderId p gross).symm.trans ?_
  refine Store.total_ext fun k row hk => ?_
  split
  · exact h.sum k row hk
  · rfl

/-! ## The lines of the report -/

/-- The row that an order line becomes. -/
def lineOf (d : Db) (e : ℤ × OrderItem) : LineIncome :=
  ⟨e.1, lineSource d e.2.target, gross e.2, e.2.orderId, e.2.quantity⟩

theorem mem_revenueLines {e : ℤ × OrderItem} (h : e ∈ revenueLines cal d) :
    ∃ k, d.get .orderItems k = some e.2 := by
  obtain ⟨e', he', hm⟩ := List.mem_filterMap.1 h
  obtain ⟨m, -, rfl⟩ := Option.map_eq_some_iff.1 hm
  exact ⟨e'.1, (Store.mem_sel.1 he').1⟩

/-- On a store of priced orders no line fails. -/
theorem lineIncome_eq (h : Priced d) : lineIncome cal r d =
    .ok ((revenueLines cal d).map (lineOf d) ++ venueIncome cal r) := by
  unfold lineIncome
  rw [Lists.mapM_map (g := lineOf d)]
  · rfl
  · intro e he
    obtain ⟨k, hk⟩ := mem_revenueLines he
    have hfit := h.fits k e.2 hk
    unfold gross at hfit
    rw [orderLineIncome, toBigint, if_pos hfit]
    rfl

/-- Every line has a source, and its source is one of order lines. -/
theorem lineOf_source (h : Priced d) {e : ℤ × OrderItem} (he : e ∈ revenueLines cal d) :
    ∃ source : IncomeSource, source.isOrderLine = true ∧
      (lineOf d e).source = some source.asStr := by
  obtain ⟨k, hk⟩ := mem_revenueLines he
  exact lineSource_eq fun p hp => h.product k e.2 p hk hp

theorem sum_revenueLines :
    (((revenueLines cal d).filter fun e => e.1 = m).map fun e => gross e.2).sum =
    d.total .orderItems fun _ i => if (d.get .orders i.orderId).any
      (fun row => revenueMonth cal row = some m) then gross i else 0 := by
  rw [Lists.sum_filter, revenueLines, Lists.sum_map_filterMap,
    Store.total_eq_sum_sel (S := Shop) (t := .orderItems) (d := d)
      (p := fun _ _ => true) fun _ _ h => (nomatch h)]
  congr 1
  refine List.map_congr_left fun e _ => ?_
  cases d.get .orders e.2.orderId with
  | none => rfl
  | some row => cases hm : revenueMonth cal row <;> simp [hm]

/-! ## The buckets -/

/-- All lines of the report. -/
def reportLines (cal : StudioMonths) (r : Rental.Db) (d : Db) : List LineIncome :=
  (revenueLines cal d).map (lineOf d) ++ venueIncome cal r

def bucketGross (lines : List LineIncome) (m : ℤ) (source : IncomeSource) : ℤ :=
  ((bucket lines m source).map LineIncome.grossCents).sum

def bucketUnits (lines : List LineIncome) (m : ℤ) (source : IncomeSource) : ℤ :=
  ((bucket lines m source).map LineIncome.units).sum

/-- Both sums of a bucket are BIGINTs. -/
def BucketFits (lines : List LineIncome) (cell : ℤ × IncomeSource) : Prop :=
  fitsI64 (bucketGross lines cell.1 cell.2) = true ∧
  fitsI64 (bucketUnits lines cell.1 cell.2) = true

def rowOf (lines : List LineIncome) (cell : ℤ × IncomeSource) : IncomeSourceRow :=
  ⟨cell.1, cell.2.asStr, bucketGross lines cell.1 cell.2,
    ((bucket lines cell.1 cell.2).map LineIncome.revenueEventId).dedup.length,
    bucketUnits lines cell.1 cell.2⟩

theorem incomeRow_ok {lines : List LineIncome} {cell : ℤ × IncomeSource} {row : IncomeSourceRow} :
    incomeRow lines cell = .ok row ↔ row = rowOf lines cell ∧ BucketFits lines cell := by
  show (toBigint (bucketGross lines cell.1 cell.2) >>= fun g =>
      toBigint (bucketUnits lines cell.1 cell.2) >>= fun u =>
    pure ⟨cell.1, cell.2.asStr, g,
      ((bucket lines cell.1 cell.2).map LineIncome.revenueEventId).dedup.length, u⟩) = .ok row ↔ _
  unfold BucketFits toBigint
  by_cases hg : fitsI64 (bucketGross lines cell.1 cell.2) = true
  · by_cases hu : fitsI64 (bucketUnits lines cell.1 cell.2) = true
    · rw [if_pos hg, if_pos hu]
      constructor
      · intro h
        cases h
        exact ⟨rfl, hg, hu⟩
      · rintro ⟨rfl, -⟩
        rfl
    · rw [if_pos hg, if_neg hu]
      exact ⟨fun h => (nomatch h), fun h => absurd h.2.2 hu⟩
  · rw [if_neg hg]
    exact ⟨fun h => (nomatch h), fun h => absurd h.2.1 hg⟩

/-- The report has one row for each bucket, or fails because a sum is not a BIGINT. -/
theorem incomeBySource_ok (h : Priced d) {rows : List IncomeSourceRow} :
    incomeBySource cal now months r d = .ok rows ↔
    rows = (cells (cal.ofInstant now) months).map (rowOf (reportLines cal r d)) ∧
      ∀ cell ∈ cells (cal.ofInstant now) months, BucketFits (reportLines cal r d) cell := by
  unfold incomeBySource
  rw [lineIncome_eq h]
  show (cells (cal.ofInstant now) months).mapM (incomeRow (reportLines cal r d)) = .ok rows ↔ _
  exact Lists.mapM_ok_iff fun _ _ => incomeRow_ok

/-- The sources that order lines come from. -/
def orderLineSources : List IncomeSource := IncomeSource.all.filter IncomeSource.isOrderLine

/-- What the report shows for a month, over the sources of order lines. -/
def grossIn (m : ℤ) (rows : List IncomeSourceRow) : ℤ :=
  ((rows.filter fun row => row.month = m ∧
    row.source ∈ orderLineSources.map IncomeSource.asStr).map IncomeSourceRow.grossCents).sum

theorem mem_orderLineSources (source : IncomeSource) :
    source.asStr ∈ orderLineSources.map IncomeSource.asStr ↔ source.isOrderLine = true := by
  cases source <;> decide

/-- The rows of one month are those of its buckets. -/
theorem grossIn_rows {lines : List LineIncome} {anchor : ℤ}
    (hm : m ∈ trailingMonths anchor months) :
    grossIn m ((cells anchor months).map (rowOf lines)) =
    (orderLineSources.map (bucketGross lines m)).sum := by
  have hcell : ∀ cell : ℤ × IncomeSource, (if (rowOf lines cell).month = m ∧
      (rowOf lines cell).source ∈ orderLineSources.map IncomeSource.asStr
      then (rowOf lines cell).grossCents else 0) =
      if m = cell.1 then (if cell.2.isOrderLine then bucketGross lines m cell.2 else 0) else 0 :=
      fun cell => by
    simp only [rowOf, mem_orderLineSources]
    by_cases he : cell.1 = m
    · by_cases hs : cell.2.isOrderLine = true <;> simp [he, hs]
    · simp [he, Ne.symm he]
  unfold grossIn
  rw [Lists.sum_filter, List.map_map]
  simp only [Function.comp_def, decide_eq_true_eq, hcell]
  rw [cells, List.map_flatMap, List.flatMap_def, List.sum_flatten, List.map_map]
  have hmonth : ∀ m', ((IncomeSource.all.map fun source => (m', source)).map
      fun cell : ℤ × IncomeSource =>
      if m = cell.1 then (if cell.2.isOrderLine then bucketGross lines m cell.2 else 0)
        else 0).sum =
      if m = m' then (orderLineSources.map (bucketGross lines m)).sum else 0 := fun m' => by
    rw [List.map_map, orderLineSources, Lists.sum_filter]
    by_cases he : m = m' <;> simp [Function.comp_def, he]
  simp only [Function.comp_def, hmonth]
  rw [Lists.sum_of_key (trailingMonths_nodup anchor months), if_pos hm]

/-- The buckets of a month hold all lines of the month that have a source of order lines. -/
theorem sum_buckets (lines : List LineIncome) (m : ℤ) :
    (orderLineSources.map (bucketGross lines m)).sum =
    (((lines.filter fun li => li.monthStart = m).filter fun li =>
      li.source ∈ orderLineSources.map fun s => some s.asStr).map LineIncome.grossCents).sum := by
  have hgroups := Lists.sum_groups (κ := Option String)
    (by decide) LineIncome.source LineIncome.grossCents
    (p := fun li => li.source ∈ orderLineSources.map fun s => some s.asStr)
      (fun _ => decide_eq_true_iff)
    (lines.filter fun li => li.monthStart = m)
  rw [← hgroups, List.map_map]
  congr 1
  refine List.map_congr_left fun source _ => ?_
  unfold bucketGross bucket
  rw [Function.comp_apply, List.filter_filter]
  congr 2
  refine List.filter_congr fun li _ => ?_
  rw [Bool.decide_and, Bool.and_comm]

/-- Rent is in no bucket of order lines. -/
theorem venueIncome_filter : (venueIncome cal r).filter (fun li =>
    li.source ∈ orderLineSources.map fun s => some s.asStr) = [] := by
  refine List.filter_eq_nil_iff.2 fun li hli => ?_
  obtain ⟨e, -, he⟩ := List.mem_filterMap.1 hli
  obtain ⟨slot, -, rfl⟩ := Option.map_eq_some_iff.1 he
  have hrent : ¬ decide (some IncomeSource.venueRental.asStr ∈ orderLineSources.map
      fun s => some s.asStr) = true := by decide
  exact hrent

/-- **The buckets of a month add up to the price of its orders.** -/
theorem gross_of_month (h : Priced d) {rows : List IncomeSourceRow}
    (hrows : incomeBySource cal now months r d = .ok rows)
    (hm : m ∈ trailingMonths (cal.ofInstant now) months) :
    grossIn m rows = d.total .orders fun _ row => if paidIn cal m row then priced row else 0 := by
  obtain ⟨rfl, -⟩ := (incomeBySource_ok h).1 hrows
  rw [grossIn_rows hm, sum_buckets, List.filter_comm, reportLines, List.filter_append,
    venueIncome_filter, List.append_nil]
  have hall : ((revenueLines cal d).map (lineOf d)).filter (fun li =>
      li.source ∈ orderLineSources.map fun s => some s.asStr) =
      (revenueLines cal d).map (lineOf d) := by
    refine List.filter_eq_self.2 fun li hli => ?_
    obtain ⟨e, he, rfl⟩ := List.mem_map.1 hli
    obtain ⟨source, hs, hsource⟩ := lineOf_source h he
    rw [hsource]
    cases source <;> first | rfl | cases hs
  rw [hall, List.filter_map, List.map_map]
  refine sum_revenueLines.trans ?_
  rw [gross_orders h]
  refine Store.total_ext fun k row _ => ?_
  simp only [decide_eq_true_eq, revenueMonth_iff]

end DreamFly.Reports
