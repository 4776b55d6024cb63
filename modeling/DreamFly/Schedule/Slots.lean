import DreamFly.Courses.Service
import DreamFly.Rental.Bookings

/-!
# Time slots of venues

Slots are created in bulk, by one INSERT in one transaction, and opened and closed one by
one. Slots of a venue may not overlap; the exclusion constraint is a lock on each moment
of a slot and a look at who has it. A listing of a month or a day shows each slot with how
many of its seats are booked.
-/

namespace DreamFly.Schedule

open Txn Prog
open Content (FieldError lengthCheck)
open Courses (ParseTime rangeCheck validateTimeWindow validatedNested)
open Rental (Booking SlotStatus occupying)

/-! ## Tables -/

/-- A date is counted in days, a time from midnight. -/
structure TimeSlot where
  date : ℤ
  startTime : ℤ
  endTime : ℤ
  venueId : Option Uuid
  courseId : Option Uuid
  capacity : ℤ
  isClosed : Bool
  priceCents : ℤ
deriving DecidableEq, Repr

inductive SlotTbl
  | venues
  | courses
  | timeSlots
  | bookings
deriving DecidableEq, Repr

/-- A moment at a venue, which one slot can have (`time_slots_venue_no_overlap`). -/
inductive SlotUniq
  | moment (venueId : Uuid) (date time : ℤ)
deriving DecidableEq, Repr

@[reducible] def SlotTbl.Row : SlotTbl → Type
  | .venues => Unit
  | .courses => Unit
  | .timeSlots => TimeSlot
  | .bookings => Booking

@[reducible] def Slots : Schema where
  Tbl := SlotTbl
  Key := fun _ => Uuid
  Row := SlotTbl.Row
  Uniq := SlotUniq

abbrev Db := Store Slots

abbrev Tx := Prog Slots AppError

/-! ## What is shown -/

structure TimeSlotResponse where
  id : Uuid
  date : ℤ
  startTime : ℤ
  endTime : ℤ
  venueId : Option Uuid
  courseId : Option Uuid
  capacity : ℤ
  booked : ℤ
  status : SlotStatus
  priceCents : ℤ
deriving DecidableEq, Repr

/-- COUNT of the rows of `occupying_bookings` that have the slot. -/
def booked (slotId : Uuid) (d : Db) : ℕ := d.count .bookings fun _ b => occupying slotId b

/-- A row as `SLOT_COLUMNS` and `TimeSlotResponse::from` make it. -/
def TimeSlotResponse.from (d : Db) (e : Uuid × TimeSlot) : TimeSlotResponse where
  id := e.1
  date := e.2.date
  startTime := e.2.startTime
  endTime := e.2.endTime
  venueId := e.2.venueId
  courseId := e.2.courseId
  capacity := e.2.capacity
  booked := Schedule.booked e.1 d
  status := SlotStatus.derive (Schedule.booked e.1 d) e.2.capacity e.2.isClosed
  priceCents := e.2.priceCents

structure DaySchedule where
  date : ℤ
  slots : List TimeSlotResponse
deriving DecidableEq, Repr

/-! ## Months -/

/-- Days from 1 January 1970 to 1 January of a year. -/
def yearStart (year : ℤ) : ℤ := 365 * (year - 1970) + (year - 1) / 4 - (year - 1) / 100 +
    (year - 1) / 400 - 477

def isLeap (year : ℤ) : Bool := year % 4 = 0 ∧ (year % 100 ≠ 0 ∨ year % 400 = 0)

/-- The days of a year before the first of a month. -/
def daysBefore (leap : Bool) (month : ℤ) : ℤ :=
  let days := [0, 31, 59, 90, 120, 151, 181, 212, 243, 273, 304, 334].getD (month - 1).toNat 0
  if leap ∧ 2 < month then days + 1 else days

/-- `NaiveDate::from_ymd_opt(year, month, 1)`, which knows the years of the calendar. -/
def firstOfMonth (year month : ℤ) : Option ℤ :=
  if -262143 ≤ year ∧ year ≤ 262142 ∧ 1 ≤ month ∧
  month ≤ 12 then some (yearStart year + daysBefore (isLeap year) month) else none

def nextMonthFirst (year month : ℤ) : Option ℤ := if month = 12 then firstOfMonth (year + 1) 1 else
    firstOfMonth year (month + 1)

/-- The first and the last day of a month. -/
def monthBounds (year month : ℤ) : Option (ℤ × ℤ) := do
  let firstDay ← firstOfMonth year month
  let next ← nextMonthFirst year month
  return (firstDay, next - 1)

/-! ## Listings -/

/-- SELECT … WHERE date >= first AND date <= last ORDER BY date, start_time. -/
def slotsBetween (firstDay lastDay : ℤ) (d : Db) : List (Uuid × TimeSlot) :=
  (d.sel .timeSlots fun _ s => firstDay ≤ s.date ∧ s.date ≤ lastDay).insertionSort fun a b =>
    a.2.date < b.2.date ∨ a.2.date = b.2.date ∧ a.2.startTime ≤ b.2.startTime

def findByMonth (year month : ℤ) (d : Db) : Except AppError (List TimeSlotResponse) :=
  match monthBounds year month with
  | none => .error (.internal "invalid year/month")
  | some (firstDay, lastDay) =>
    .ok ((slotsBetween firstDay lastDay d).map (TimeSlotResponse.from d))

/-- SELECT … WHERE date ORDER BY start_time. -/
def findByDate (date : ℤ) (d : Db) : List TimeSlotResponse :=
  ((d.sel .timeSlots fun _ s => s.date = date).insertionSort fun a b => a.2.startTime ≤
    b.2.startTime).map (TimeSlotResponse.from d)

/-- A slot goes to the last day, if it is of that day, or begins a day. -/
def pushSlot (days : List DaySchedule) (slot : TimeSlotResponse) : List DaySchedule :=
  match days.getLast?.filter fun day => day.date = slot.date with
  | some day => days.dropLast ++ [{ day with slots := day.slots ++ [slot] }]
  | none => days ++ [⟨slot.date, [slot]⟩]

def groupByDate (slots : List TimeSlotResponse) : List DaySchedule := slots.foldl pushSlot []

def getMonthlySchedule (year month : ℤ) : Tx (List DaySchedule) := do
  ensure (1 ≤ month ∧ month ≤ 12) (.badRequest "month must be between 1 and 12")
  ensure (1970 ≤ year ∧ year ≤ 2100) (.badRequest "year must be between 1970 and 2100")
  let slots ← read (S := Slots) (findByMonth year month)
  let slots ← checked slots
  return groupByDate slots

/-- A date as the library for dates reads it. -/
abbrev ParseDate := String → Option ℤ

def getAvailability (parseDate : ParseDate) (date : String) : Tx (List TimeSlotResponse) := do
  let date ← orFail (parseDate date) (.badRequest "invalid date format, expected YYYY-MM-DD")
  read (S := Slots) (findByDate date)

/-! ## New slots -/

structure SlotEntry where
  date : String
  startTime : String
  endTime : String
  venueId : Option Uuid
  courseId : Option Uuid
  capacity : ℤ
  priceCents : Option ℤ
deriving DecidableEq, Repr

def maxSlotCapacity : ℤ := 10000

def SlotEntry.validate (e : SlotEntry) : List FieldError :=
  lengthCheck "date" 10 10 e.date ++ lengthCheck "start_time" 5 8 e.startTime ++
  lengthCheck "end_time" 5 8 e.endTime ++
    rangeCheck "capacity" 1 10000 e.capacity ++
    (e.priceCents.map (rangeCheck "price_cents" 0 100000000)).getD []

/-- `CreateSlotsRequest`: the list itself, and then its entries. -/
def validateSlots (slots : List SlotEntry) : Except AppError Unit :=
  validatedNested (if slots.isEmpty then [⟨"slots", "length"⟩] else [])
    (slots.flatMap SlotEntry.validate)

/-- How dates and times of day are read. -/
structure Parsers where
  date : ParseDate
  time : ParseTime

def parsed {α : Type} (o : Option α) (what s : String) : Except AppError α :=
  match o with
  | some a => .ok a
  | none => .error (.badRequest ("invalid " ++ what ++ " format: " ++ s))

def checkCapacity (capacity : ℤ) : Except AppError Unit :=
  if capacity ≤ 0 ∨ maxSlotCapacity < capacity then
    .error (.badRequest "capacity must be between 1 and 10000") else .ok ()

def parseSlot (P : Parsers) (at' : StudioNow) (e : SlotEntry) : Except AppError TimeSlot := do
  let date ← parsed (P.date e.date) "date" e.date
  let startTime ← parsed (P.time e.startTime) "start_time" e.startTime
  let endTime ← parsed (P.time e.endTime) "end_time" e.endTime
  validateTimeWindow startTime endTime
  checkCapacity e.capacity
  requireNotStarted at'.tz at'.now date startTime "start_time"
    (.badRequest "cannot create a slot in the past")
  return ⟨date, startTime, endTime, e.venueId, e.courseId, e.capacity, false, e.priceCents.getD 0⟩

/-- The CHECK constraints of the table. -/
def TimeSlot.checks (s : TimeSlot) : Bool := s.startTime < s.endTime ∧ 0 ≤ s.capacity ∧
    0 ≤ s.priceCents

/-- Two slots that the exclusion constraint does not let stand side by side. A slot without
a venue is not subject to it. -/
def TimeSlot.overlaps (s r : TimeSlot) : Bool :=
  s.venueId.isSome ∧ s.venueId = r.venueId ∧ s.date = r.date ∧ s.startTime < r.endTime ∧
  r.startTime < s.endTime

/-- The moments of a slot; an INSERT that wants one waits for whoever inserts a slot with it. -/
def lockMoments (s : TimeSlot) : Tx Unit :=
  match s.venueId with
  | none => return ()
  | some venueId => do
    let _ ← each (fun n : ℕ => lockRes (S := Slots)
      (.uniq (.moment venueId s.date (s.startTime + n))) .update)
      (List.range (s.endTime - s.startTime).toNat)

/-- One row of the INSERT. -/
def insertSlot (overlapping : AppError) (s : TimeSlot) : Tx Uuid := do
  ensure s.checks (.database (.check "time_slots"))
  lockMoments s
  let free ← read (S := Slots) fun d => (d.sel .timeSlots fun _ r => r.overlaps s).isEmpty
  ensure free overlapping
  insert (S := Slots) .timeSlots id fun _ => s

def referencesOpt (t : SlotTbl) (key : Option Uuid) (e : AppError) : Tx Unit :=
  match key with
  | none => return ()
  | some k => references (S := Slots) t k e

/-- The foreign keys of a row, which are checked at the end of the statement. -/
def slotReferences (s : TimeSlot) : Tx Unit := do
  referencesOpt .venues s.venueId (.database (.foreignKey "venues"))
  referencesOpt .courses s.courseId (.database (.foreignKey "courses"))

/-- INSERT INTO time_slots … SELECT FROM UNNEST … RETURNING. -/
def bulkCreateTx (slots : List TimeSlot) (overlapping : AppError) : Tx (List TimeSlotResponse) := do
  let ids ← each (insertSlot overlapping) slots
  let _ ← each slotReferences slots
  read (S := Slots) fun d => (ids.zip slots).map (TimeSlotResponse.from d)

def createSlots (P : Parsers) (at' : StudioNow) (slots : List SlotEntry) :
    Tx (List TimeSlotResponse) := do
  checked (validateSlots slots)
  let parsedSlots ← checked (slots.mapM (parseSlot P at'))
  atomically (bulkCreateTx parsedSlots (.conflict "場地時段與既有時段重疊"))

/-- UPDATE time_slots SET is_closed WHERE id RETURNING. -/
def setClosed (id : Uuid) (isClosed : Bool) : Tx (Option TimeSlotResponse) := do
  match ← updateRow (S := Slots) .timeSlots id (fun _ => true) fun s =>
    { s with isClosed := isClosed } with
  | none => return none
  | some s => do return some (← read (S := Slots) fun d => TimeSlotResponse.from d (id, s))

def updateSlot (id : Uuid) (isClosed : Bool) : Tx TimeSlotResponse := atomically do
  let slot ← setClosed id isClosed
  orFail slot (.notFound "time slot not found")

/-! ## The service -/

inductive SlotReq
  | createSlots (at' : StudioNow) (slots : List SlotEntry)
  | updateSlot (id : Uuid) (isClosed : Bool)
  | getMonthlySchedule (year month : ℤ)
  | getAvailability (date : String)

inductive SlotReply
  | slots (l : List TimeSlotResponse)
  | slot (s : TimeSlotResponse)
  | days (l : List DaySchedule)

def SlotReq.prog (P : Parsers) : SlotReq → Tx SlotReply
  | .createSlots at' slots => do return .slots (← Schedule.createSlots P at' slots)
  | .updateSlot id isClosed => do return .slot (← Schedule.updateSlot id isClosed)
  | .getMonthlySchedule year month => do return .days (← Schedule.getMonthlySchedule year month)
  | .getAvailability date => do return .slots (← Schedule.getAvailability P.date date)

def slots (P : Parsers) : Service Slots AppError SlotReply SlotReq where
  prog := SlotReq.prog P
  crash := .database .connection

end DreamFly.Schedule
