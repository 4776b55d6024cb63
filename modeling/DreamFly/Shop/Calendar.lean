import DreamFly.Shop.Enrolments

/-!
# Calendar arithmetic

Dates and instants have a first and a last value; adding days past them panics. Where the
services do that arithmetic, a panic is a result of the model.
-/

namespace DreamFly

open Txn

/-- A computation that may panic (`none`) or fail. -/
abbrev OrPanic := ExceptT AppError Option

/-- A check that does not panic. -/
def OrPanic.check {α : Type} (r : Except AppError α) : OrPanic α := ExceptT.mk (some r)

/-- The first and the last day of the calendar, 1 January -262143 and 31 December 262142,
counted from 1 January 1970. -/
def minDay : ℤ := -96465292

def maxDay : ℤ := 95026236

/-- `NaiveDate` -/
structure Date where
  day : ℤ
  first : minDay ≤ day
  last : day ≤ maxDay
deriving DecidableEq, Repr

namespace Date

/-- `date + Duration::days(n)`, which panics outside the calendar. -/
def addDays (d : Date) (n : ℤ) : Option Date :=
  if h : minDay ≤ d.day + n ∧ d.day + n ≤ maxDay then some ⟨d.day + n, h.1, h.2⟩ else none

/-- `(to - from).num_days()` -/
def daysSince (stop start : Date) : ℤ := stop.day - start.day

end Date

/-- The day of a UTC instant. -/
def dayOf (t : Instant) : ℤ := t / day

/-- `DateTime<Utc>` -/
def InCalendar (t : Instant) : Prop := minDay ≤ dayOf t ∧ dayOf t ≤ maxDay

instance (t : Instant) : Decidable (InCalendar t) := inferInstanceAs (Decidable (_ ∧ _))

/-- `instant + Duration::days(n)`, which panics outside the calendar. -/
def addDays (t : Instant) (n : ℤ) : Option Instant := if InCalendar (t + n * day) then
    some (t + n * day) else none

/-! ## Listing the sessions of a course -/

def maxRangeDays : ℤ := 60

def defaultRangeDays : ℤ := 28

/-- The query string of `GET /courses/{id}/sessions`. -/
structure SessionsRangeQuery where
  fromDate : Option String
  toDate : Option String
deriving DecidableEq, Repr

/-- What `materialize_range` hands to the listing: the course ids and the window. -/
structure MaterializedRange where
  courseIds : List Uuid
  fromDate : Date
  toDate : Date
deriving DecidableEq, Repr

section Window

-- the format `%Y-%m-%d` of chrono
variable (parseDate : String → Option Date)

def parseQueryDate (s : String) : OrPanic Date :=
  match parseDate s with
  | some d => pure d
  | none => throw (.badRequest s!"invalid date format, expected YYYY-MM-DD: {s}")

/-- `from`, today if it is absent. -/
def windowStart (today : Date) (query : SessionsRangeQuery) : OrPanic Date :=
  match query.fromDate with
  | some s => parseQueryDate parseDate s
  | none => pure today

/-- `to`, `from + 28 days` if it is absent. -/
def windowStop (start : Date) (query : SessionsRangeQuery) : OrPanic Date :=
  match query.toDate with
  | some s => parseQueryDate parseDate s
  | none => ExceptT.lift (start.addDays defaultRangeDays)

def checkWindow (start stop : Date) : Except AppError Unit :=
  if stop.day < start.day then .error (.validation "to must not be before from")
  else if stop.daysSince start > maxRangeDays then
    .error (.validation s!"date range must not exceed {maxRangeDays} days")
  else .ok ()

/-- `list_course_sessions`, up to the rows of the window. -/
def listCourseSessions (today : Date) (courseId : Uuid) (query : SessionsRangeQuery) (d : Db) :
    OrPanic MaterializedRange := do
  let _ ← OrPanic.check ((d.get .courses courseId).elim (.error (.notFound "course not found")) .ok)
  let start ← windowStart parseDate today query
  let stop ← windowStop parseDate start query
  OrPanic.check (checkWindow start stop)
  return ⟨[courseId], start, stop⟩

end Window

/-! ## Entitlements -/

/-- `*` on `i32` where it neither wraps nor panics. -/
def checkedMulI32 (a b : ℤ) : Option ℤ := if fitsI32 (a * b) then some (a * b) else none

/-- `entitlementPlan` with every operation checked: `none` if one wraps or panics. -/
def entitlementPlanChecked (product : Product) (quantity : ℤ) (now : Instant) :
    Option (Option EntitlementGrant) :=
  if product.productType = .membership ∨ product.productType = .ticket then
    match product.sessionCount, product.validDays with
    | some count, validDays => do
      let total ← checkedMulI32 count quantity
      let expiresAt ← validDays.mapM (addDays now)
      return some ⟨some total, some total, expiresAt⟩
    | none, some days => do
      let expiresAt ← addDays now days
      return some ⟨none, none, some expiresAt⟩
    | none, none => some (some ⟨none, none, none⟩)
  else some none

end DreamFly
