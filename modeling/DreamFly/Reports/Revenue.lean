import DreamFly.Shop.Pricing
import DreamFly.Rental.Bookings
import Mathlib.Algebra.Ring.Int.Defs

/-!
# Revenue by month and income by source

Two aggregations of the admin report over one window of studio months. `revenueTrend` adds
up what the orders of a month were paid with; `incomeBySource` adds up the lines of the
same orders, before any discount, by what was sold, beside the rent of venues.
-/

namespace DreamFly.Reports

open Txn

/-- The studio's calendar: the month of a UTC instant and of a local date, counted in
months. -/
structure StudioMonths where
  ofInstant : MonthOf
  ofDate : ℤ → ℤ

def trailingWindowMonths : ℤ := 12

/-- The months up to the one of `anchor`, oldest first. -/
def trailingMonths (anchor months : ℤ) : List ℤ := (List.range months.toNat).map fun (i : ℕ) =>
    anchor - (months - 1) + i

/-- `REVENUE_STATUSES` -/
def revenueStatuses : List String := ["paid", "processing", "completed"]

/-- `VENUE_REVENUE_STATUSES` -/
def venueRevenueStatuses : List String := ["confirmed", "completed"]

/-- The studio month in which the order's money came in. A refunded order keeps its
`paid_at`, so that its status is looked at too. -/
def revenueMonth (cal : StudioMonths) (o : Order) : Option ℤ :=
  if revenueStatuses.contains o.status.asStr then o.paidAt.map cal.ofInstant else none

/-! ## Revenue -/

/-- `revenue_trend` -/
def revenueTrend (cal : StudioMonths) (now : Instant) (months : ℤ) (d : Db) :
    Except DbError (List (ℤ × ℤ)) :=
  (trailingMonths (cal.ofInstant now) months).mapM fun m => do
    return (m, ← toBigint (d.total .orders fun _ o => if revenueMonth cal o = some m then
      o.totalCents else 0))

/-! ## Income -/

inductive IncomeSource
  | course
  | ticket
  | membership
  | coursePackage
  | merchandise
  | venueRental
deriving DecidableEq, Repr

namespace IncomeSource

/-- In display order. -/
def all : List IncomeSource := [.course, .ticket, .membership, .coursePackage, .merchandise,
    .venueRental]

def asStr : IncomeSource → String
  | .course => "course"
  | .ticket => "ticket"
  | .membership => "membership"
  | .coursePackage => "course_package"
  | .merchandise => "merchandise"
  | .venueRental => "venue_rental"

/-- All but the rent of venues come from order lines. -/
def isOrderLine : IncomeSource → Bool
  | .venueRental => false
  | _ => true

end IncomeSource

/-- `product_type::text` -/
def productTypeStr : ProductType → String
  | .ticket => "ticket"
  | .coursePackage => "course_package"
  | .membership => "membership"
  | .merchandise => "merchandise"

/-- A row of `line_income`. -/
structure LineIncome where
  monthStart : ℤ
  source : Option String
  grossCents : ℤ
  revenueEventId : Uuid
  units : ℤ
deriving DecidableEq, Repr

/-- The CASE over item type and product type; NULL if the product is missing. -/
def lineSource (d : Db) : LineTarget → Option String
  | .course _ => some "course"
  | .product id => (d.get .products id).map fun p => productTypeStr p.productType

/-- The order lines whose order counts, each with the month. -/
def revenueLines (cal : StudioMonths) (d : Db) : List (ℤ × OrderItem) :=
  (d.sel .orderItems fun _ _ => true).filterMap fun e =>
    ((d.get .orders e.2.orderId).bind (revenueMonth cal)).map fun m => (m, e.2)

def orderLineIncome (d : Db) (e : ℤ × OrderItem) : Except DbError LineIncome := do
  return ⟨e.1, lineSource d e.2.target, ← toBigint (e.2.unitPriceCents * e.2.quantity), e.2.orderId,
    e.2.quantity⟩

/-- Rent counts in the month the slot is used, not in the one it was booked. -/
def venueIncome (cal : StudioMonths) (r : Rental.Db) : List LineIncome :=
  (r.sel .bookings fun _ b => venueRevenueStatuses.contains b.status.asStr).filterMap fun e =>
    (r.get .timeSlots e.2.timeSlotId).map fun slot =>
      ⟨cal.ofDate slot.date, some IncomeSource.venueRental.asStr, e.2.priceCents, e.1, 1⟩

/-- The CTE `line_income`. -/
def lineIncome (cal : StudioMonths) (r : Rental.Db) (d : Db) :
    Except DbError (List LineIncome) := do
  let lines ← (revenueLines cal d).mapM (orderLineIncome d)
  return lines ++ venueIncome cal r

structure IncomeSourceRow where
  month : ℤ
  source : String
  grossCents : ℤ
  ordersCount : ℕ
  units : ℤ
deriving DecidableEq, Repr

/-- The lines of one bucket. -/
def bucket (lines : List LineIncome) (m : ℤ) (source : IncomeSource) : List LineIncome :=
  lines.filter fun li => li.monthStart = m ∧ li.source = some source.asStr

def incomeRow (lines : List LineIncome) (cell : ℤ × IncomeSource) :
    Except DbError IncomeSourceRow := do
  let li := bucket lines cell.1 cell.2
  let grossCents ← toBigint (li.map LineIncome.grossCents).sum
  let units ← toBigint (li.map LineIncome.units).sum
  return ⟨cell.1, cell.2.asStr, grossCents, (li.map LineIncome.revenueEventId).dedup.length, units⟩

/-- The buckets of the window: every month with every source. -/
def cells (anchor months : ℤ) : List (ℤ × IncomeSource) :=
  (trailingMonths anchor months).flatMap fun m => IncomeSource.all.map fun source => (m, source)

/-- `income_by_source` -/
def incomeBySource (cal : StudioMonths) (now : Instant) (months : ℤ) (r : Rental.Db) (d : Db) :
    Except DbError (List IncomeSourceRow) := do
  let lines ← lineIncome cal r d
  (cells (cal.ofInstant now) months).mapM (incomeRow lines)

end DreamFly.Reports
