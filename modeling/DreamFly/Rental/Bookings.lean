import DreamFly.Base
import DreamFly.Txn.Sql
import DreamFly.Txn.Sys

/-!
# Venue rental

Time slots of a venue and the bookings of them. Nothing stores how many seats of a slot
are taken: the bookings that occupy one are counted, under a lock on the slot's row when
a new booking is made, and without one where a slot is shown.
-/

namespace DreamFly.Rental

open Txn Prog

/-! ## Tables -/

inductive BookingStatus
  | pending
  | confirmed
  | cancelled
  | completed
  | noShow
deriving DecidableEq, Repr

namespace BookingStatus

def all : List BookingStatus := [.pending, .confirmed, .cancelled, .completed, .noShow]

def asStr : BookingStatus → String
  | .pending => "pending"
  | .confirmed => "confirmed"
  | .cancelled => "cancelled"
  | .completed => "completed"
  | .noShow => "no_show"

/-- A terminal booking cannot be cancelled. -/
def isCancellable : BookingStatus → Bool
  | .pending | .confirmed => true
  | _ => false

/-- Only a cancelled booking gives its seat back. -/
def occupiesSeat : BookingStatus → Bool
  | .pending | .confirmed | .completed | .noShow => true
  | .cancelled => false

end BookingStatus

structure TimeSlot where
  date : ℤ
  startTime : ℤ
  capacity : ℤ
  isClosed : Bool
  priceCents : ℤ
deriving DecidableEq, Repr

structure Booking where
  userId : Uuid
  timeSlotId : Uuid
  status : BookingStatus
  note : Option String
  priceCents : ℤ
deriving DecidableEq, Repr

inductive BookingEvent
  | bookingCreated (bookingId userId timeSlotId : Uuid)
  | bookingCancelled (bookingId userId timeSlotId : Uuid)
deriving DecidableEq, Repr

inductive RentalTbl
  | users
  | timeSlots
  | bookings
  | outbox
deriving DecidableEq, Repr

/-- The partial index `uq_bookings_user_slot_active`. -/
inductive RentalUniq
  | userSlot (userId timeSlotId : Uuid)
deriving DecidableEq, Repr

@[reducible] def RentalTbl.Row : RentalTbl → Type
  | .users => Unit
  | .timeSlots => TimeSlot
  | .bookings => Booking
  | .outbox => BookingEvent

@[reducible] def Rentals : Schema where
  Tbl := RentalTbl
  Key := fun _ => Uuid
  Row := RentalTbl.Row
  Uniq := RentalUniq

abbrev Db := Store Rentals

abbrev Tx := Prog Rentals AppError

/-! ## Occupancy -/

/-- The states listed in the view `occupying_bookings`. -/
def occupyingStatuses : List String := ["pending", "confirmed", "completed", "no_show"]

/-- A row of the view `occupying_bookings`. -/
def occupying (slotId : Uuid) (b : Booking) : Bool :=
  b.timeSlotId = slotId ∧ occupyingStatuses.contains b.status.asStr

/-- The view and the code agree on which bookings occupy a seat. -/
theorem occupying_iff (slotId : Uuid) (b : Booking) :
    occupying slotId b = true ↔ b.timeSlotId = slotId ∧ b.status.occupiesSeat = true := by
  obtain ⟨u, sl, st, note, price⟩ := b
  cases st <;> simp [occupying, occupyingStatuses, BookingStatus.asStr, BookingStatus.occupiesSeat]

/-- COUNT of the occupying bookings of a slot. -/
def booked (slotId : Uuid) (d : Db) : ℕ := d.count .bookings fun _ b => occupying slotId b

/-- A row of the partial unique index. -/
def active (userId slotId : Uuid) (b : Booking) : Bool :=
  b.userId = userId ∧ b.timeSlotId = slotId ∧ b.status ≠ .cancelled

/-- The slot, locked, if it is open and has a seat left. The count is a statement of its
own, after the lock. -/
def occupySlotTx (slotId : Uuid) : Tx (Option (Uuid × TimeSlot)) := do
  match ← selectFor (S := Rentals) .timeSlots slotId (fun s => s.isClosed = false) .noKeyUpdate with
  | none => return none
  | some slot => do
    let occupied ← read (S := Rentals) (booked slotId)
    if (occupied : ℤ) ≥ slot.capacity then return none
    else return some (slotId, slot)

def insertOccupyingBookingTx (hold : Uuid × TimeSlot) (userId : Uuid) (note : Option String)
    (taken : AppError) :
    Tx (Uuid × Booking) := do
  let b ← claim (S := Rentals) (.uniq (.userSlot userId hold.1)) fun d =>
    !(d.sel .bookings fun _ b => active userId hold.1 b).isEmpty
  ensure (!b) taken
  references (S := Rentals) .users userId (.database (.foreignKey "users"))
  let row : Booking := ⟨userId, hold.1, .confirmed, note, hold.2.priceCents⟩
  let n ← insert (S := Rentals) .bookings id fun _ => row
  return (n, row)

def cancel (b : Booking) : Booking := { b with status := .cancelled }

/-- UPDATE … WHERE id AND status <> 'cancelled'. The row leaves the partial index. -/
def cancelOccupyingBookingTx (bookingId : Uuid) : Tx (Option Booking) := do
  match ← selectFor (S := Rentals) .bookings bookingId
    (fun b => b.status ≠ .cancelled) .noKeyUpdate with
  | none => return none
  | some b => do
    lockRes (S := Rentals) (.uniq (.userSlot b.userId b.timeSlotId)) .update
    put (S := Rentals) (.mod .bookings bookingId (onlyIf (fun b => b.status ≠ .cancelled) cancel))
    return some (cancel b)

def insertDomainEventTx (e : BookingEvent) : Tx Unit := do
  let _ ← insert (S := Rentals) .outbox id fun _ => e

/-! ## Calls -/

def createBooking (at' : StudioNow) (userId timeSlotId : Uuid) (note : Option String) :
    Tx (Uuid × Booking) := atomically do
  let hold ← occupySlotTx timeSlotId
  let hold ← orFail hold (.badRequest "time slot is full or closed")
  checked (requireNotStarted at'.tz at'.now hold.2.date hold.2.startTime "time slot"
    (.badRequest "cannot book a time slot that has already started"))
  let booking ← insertOccupyingBookingTx hold userId note
      (.conflict "you already have a booking for this time slot")
  insertDomainEventTx (.bookingCreated booking.1 userId timeSlotId)
  return booking

/-- Members cancel at least 24 hours ahead; instants are seconds. -/
def requireDayAhead (at' : StudioNow) (slot : TimeSlot) : Except AppError Unit := do
  let slotUtc ← toUtcChecked at'.tz slot.date slot.startTime "time slot"
  if (slotUtc - at'.now).tdiv 3600 < 24 then
    throw (.badRequest "cannot cancel within 24 hours of the scheduled time")

def checkDayAheadTx (at' : StudioNow) (auth : AuthUser) (slotId : Uuid) : Tx Unit :=
  if auth.isAdmin then return ()
  else do
    let slot ← selectFor (S := Rentals) .timeSlots slotId (fun _ => true) .share
    let slot ← orFail slot (.notFound "time slot not found")
    checked (requireDayAhead at' slot)

def cancelBooking (at' : StudioNow) (auth : AuthUser) (bookingId : Uuid) : Tx Booking :=
  atomically do
  let booking ← selectFor (S := Rentals) .bookings bookingId (fun _ => true) .update
  let booking ← orFail booking (.notFound "booking not found")
  checked (auth.ownsOrAdmin booking.userId "you can only cancel your own bookings")
  ensure booking.status.isCancellable (.badRequest ("booking in state '" ++ booking.status.asStr ++
    "' cannot be cancelled"))
  checkDayAheadTx at' auth booking.timeSlotId
  let updated ← cancelOccupyingBookingTx bookingId
  let updated ← orFail updated (.conflict "booking is already cancelled")
  insertDomainEventTx (.bookingCancelled bookingId updated.userId updated.timeSlotId)
  return updated

/-- `set_closed`, for `PATCH /schedule/slots/…`. -/
def updateSlot (id : Uuid) (isClosed : Bool) : Tx TimeSlot := atomically do
  let slot ← updateRow (S := Rentals) .timeSlots id (fun _ => true) fun s =>
    { s with isClosed := isClosed }
  orFail slot (.notFound "time slot not found")

/-! ## What a slot shows -/

inductive SlotStatus
  | available
  | limited
  | full
  | closed
deriving DecidableEq, Repr

/-- Four fifths of the capacity, rounded to the nearest, make a slot `limited`. -/
def SlotStatus.derive (booked capacity : ℤ) (isClosed : Bool) : SlotStatus :=
  if isClosed then .closed
  else if booked ≥ capacity then .full
  else if booked ≥ (capacity * 8 + 5).tdiv 10 then .limited
  else .available

/-- The status of a slot as it is read and shown. -/
def slotStatus (id : Uuid) (slot : TimeSlot) (d : Db) : SlotStatus :=
  SlotStatus.derive (booked id d) slot.capacity slot.isClosed

/-! ## Requests -/

inductive RentalReq
  | createBooking (at' : StudioNow) (userId timeSlotId : Uuid) (note : Option String)
  | cancelBooking (at' : StudioNow) (auth : AuthUser) (bookingId : Uuid)
  | updateSlot (id : Uuid) (isClosed : Bool)

inductive RentalReply
  | booked (id : Uuid) (b : Booking)
  | cancelled (b : Booking)
  | slot (s : TimeSlot)

def RentalReq.prog : RentalReq → Tx RentalReply
  | .createBooking at' userId timeSlotId note => do
    let r ← Rental.createBooking at' userId timeSlotId note
    return .booked r.1 r.2
  | .cancelBooking at' auth bookingId =>
    do return .cancelled (← Rental.cancelBooking at' auth bookingId)
  | .updateSlot id isClosed => do return .slot (← Rental.updateSlot id isClosed)

def rentals : Service Rentals AppError RentalReply RentalReq where
  prog := RentalReq.prog
  crash := .database .connection

end DreamFly.Rental
