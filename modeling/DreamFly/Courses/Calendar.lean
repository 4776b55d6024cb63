import DreamFly.Base
import DreamFly.Txn.Sql
import DreamFly.Txn.Sys

/-!
# The calendar of sessions

A course's weekly slots and the sessions that they are spread out into. Sessions are
materialized when they are first read (`materializeRange`), from today on, in two statements
outside of a transaction. A new weekly schedule replaces the slots and brings the
future sessions in line (`replaceWeeklyScheduleTx`): what still has a slot takes over its
end and venue, what has none goes unless something refers to it.
-/

namespace DreamFly.Courses

open Txn Prog

/-! ## Tables -/

inductive CourseLevel
  | foundation
  | beginner
  | intermediate
  | advanced
  | elite
deriving DecidableEq, Repr

structure Course where
  name : String
  slug : String
  level : CourseLevel
  description : Option String
  durationMinutes : ℤ
  priceCents : ℤ
  maxStudents : ℤ
  minAge : Option ℤ
  maxAge : Option ℤ
  features : List String
  isActive : Bool
  coachId : Option Uuid
  category : Option String
  scheduleText : Option String
  isHighlighted : Bool
deriving DecidableEq, Repr

/-- One weekly slot; day 0 is Sunday, times count from midnight. -/
structure CourseScheduleSlot where
  courseId : Uuid
  dayOfWeek : ℤ
  startTime : ℤ
  endTime : ℤ
  venue : Option String
deriving DecidableEq, Repr

/-- A slot on a calendar date. -/
structure CourseSession where
  courseId : Uuid
  sessionDate : ℤ
  startTime : ℤ
  endTime : ℤ
  venue : Option String
deriving DecidableEq, Repr

/-- The sessions a leave request is about. -/
structure LeaveRequest where
  sessionId : Uuid
  makeupSessionId : Option Uuid
deriving DecidableEq, Repr

structure AttendanceRecord where
  sessionId : Uuid
deriving DecidableEq, Repr

inductive CourseTbl
  | courses
  | coaches
  | courseScheduleSlots
  | courseSessions
  | leaveRequests
  | attendanceRecords
deriving DecidableEq, Repr

inductive CourseUniq
  | courseSlug (lowerSlug : String)
  | slot (courseId : Uuid) (dayOfWeek startTime : ℤ)
  | session (courseId : Uuid) (sessionDate startTime : ℤ)
deriving DecidableEq, Repr

@[reducible] def CourseTbl.Row : CourseTbl → Type
  | .courses => Course
  | .coaches => Unit
  | .courseScheduleSlots => CourseScheduleSlot
  | .courseSessions => CourseSession
  | .leaveRequests => LeaveRequest
  | .attendanceRecords => AttendanceRecord

@[reducible] def Timetable : Schema where
  Tbl := CourseTbl
  Key := fun _ => Uuid
  Row := CourseTbl.Row
  Uniq := CourseUniq

abbrev Tx := Prog Timetable AppError

/-! ## Slots and sessions -/

/-- EXTRACT(DOW FROM date), of a day counted from 1970-01-01, a Thursday. -/
def dayOfWeek (date : ℤ) : ℤ := (date + 4) % 7

/-- Whether a session on `date` at `start` is one of the slot. -/
def slotOfSession (s : CourseScheduleSlot) (courseId : Uuid) (date start : ℤ) : Bool :=
  s.courseId = courseId ∧ s.dayOfWeek = dayOfWeek date ∧ s.startTime = start

def CourseSession.hasSlot (cs : CourseSession) (s : CourseScheduleSlot) : Bool :=
  slotOfSession s cs.courseId cs.sessionDate cs.startTime

/-- generate_series(from, to, '1 day'). -/
def dates (first last : ℤ) : List ℤ := (List.range (last - first + 1).toNat).map fun n => first + n

/-- The slots of some courses. -/
def slotsOf (courseIds : List Uuid) (d : Store Timetable) : List CourseScheduleSlot :=
  (d.sel .courseScheduleSlots fun _ s => courseIds.contains s.courseId).map Prod.snd

/-- The session a slot has on a date. -/
def CourseScheduleSlot.on (s : CourseScheduleSlot) (date : ℤ) : CourseSession :=
  ⟨s.courseId, date, s.startTime, s.endTime, s.venue⟩

/-- The sessions that the weekly slots have in a window. -/
def candidates (courseIds : List Uuid) (first last : ℤ) (d : Store Timetable) :
    List CourseSession :=
  (slotsOf courseIds d).flatMap fun s =>
    ((dates first last).filter fun date => slotOfSession s s.courseId date s.startTime).map s.on

/-! ## Materializing -/

/-- The entry of a unique index that a row is about to take: whether it is taken. -/
def taken (u : CourseUniq) (t : CourseTbl) (p : t.Row → Bool) : Tx Bool :=
  claim (S := Timetable) (.uniq u) fun d => !(d.sel t fun _ r => p r).isEmpty

def referencesCourse (courseId : Uuid) : Tx Unit :=
  references (S := Timetable) .courses courseId (.database (.foreignKey "courses"))

/-- One row of the INSERT … ON CONFLICT DO NOTHING. -/
def insertSession (cs : CourseSession) : Tx Unit := do
  let b ← taken (.session cs.courseId cs.sessionDate cs.startTime) .courseSessions fun r =>
    r.courseId = cs.courseId ∧ r.sessionDate = cs.sessionDate ∧ r.startTime = cs.startTime
  if b then return ()
  else do
    referencesCourse cs.courseId
    let _ ← insert (S := Timetable) .courseSessions id fun _ => cs

/-- Create what the weekly slots have in the window and is not there yet: a SELECT of the
candidates, then an INSERT of them. -/
def insertSessions (courseIds : List Uuid) (first last : ℤ) : Tx Unit := do
  if courseIds.isEmpty then return ()
  else
    let rows ← read (S := Timetable) (candidates courseIds first last)
    if rows.isEmpty then return ()
    else atomically do
      let _ ← each insertSession rows

/-- Proof that the window was materialized for these courses. -/
structure MaterializedRange where
  courseIds : List Uuid
  first : ℤ
  last : ℤ
deriving DecidableEq, Repr

/-- Dates before today are never created. -/
def materializeRange (today : ℤ) (courseIds : List Uuid) (first last : ℤ) :
    Tx MaterializedRange := do
  if max first today > last then return ⟨courseIds, first, last⟩
  else
    insertSessions courseIds (max first today) last
    return ⟨courseIds, first, last⟩

/-! ## A new weekly schedule -/

/-- Day, start, end and venue of a slot, parsed. -/
structure SlotRow where
  dayOfWeek : ℤ
  startTime : ℤ
  endTime : ℤ
  venue : Option String
deriving DecidableEq, Repr

def SlotRow.slot (courseId : Uuid) (row : SlotRow) : CourseScheduleSlot :=
  ⟨courseId, row.dayOfWeek, row.startTime, row.endTime, row.venue⟩

/-- The CHECK constraints of the table. -/
def SlotRow.checks (row : SlotRow) : Bool := 0 ≤ row.dayOfWeek ∧ row.dayOfWeek ≤ 6 ∧
    row.startTime < row.endTime

def insertSlot (courseId : Uuid) (row : SlotRow) : Tx Unit := do
  ensure row.checks (.database (.check "course_schedule_slots"))
  let b ← taken (.slot courseId row.dayOfWeek row.startTime) .courseScheduleSlots fun s =>
    s.courseId = courseId ∧ s.dayOfWeek = row.dayOfWeek ∧ s.startTime = row.startTime
  ensure (!b) (.database (.unique "course_schedule_slots_unique"))
  referencesCourse courseId
  let _ ← insert (S := Timetable) .courseScheduleSlots id fun _ => row.slot courseId

/-- Delete all, insert all. -/
def replaceSlotsTx (courseId : Uuid) (slots : List SlotRow) : Tx Unit := do
  let _ ← deleteAll (S := Timetable) .courseScheduleSlots fun _ s => s.courseId = courseId
  let _ ← each (insertSlot courseId) slots

/-- A future session whose slot says something else about its end or venue. -/
def outOfSync (slots : List CourseScheduleSlot) (courseId : Uuid) (today : ℤ)
    (cs : CourseSession) : Bool :=
  cs.courseId = courseId ∧ cs.sessionDate > today ∧
    slots.any fun s => cs.hasSlot s ∧ (s.endTime ≠ cs.endTime ∨ s.venue ≠ cs.venue)

/-- The session with its slot's end and venue. -/
def synced (slots : List CourseScheduleSlot) (cs : CourseSession) : CourseSession :=
  match slots.find? fun s => cs.hasSlot s with
  | some s => { cs with endTime := s.endTime, venue := s.venue }
  | none => cs

/-- A leave request, of whatever status, or an attendance record names the session. -/
def referenced (d : Store Timetable) (id : Uuid) : Bool :=
  !(d.sel .leaveRequests fun _ lr => lr.sessionId = id ∨ lr.makeupSessionId = some id).isEmpty ||
    !(d.sel .attendanceRecords fun _ ar => ar.sessionId = id).isEmpty

/-- A future session without a slot that nothing refers to. -/
def orphaned (d : Store Timetable) (courseId : Uuid) (today : ℤ) (id : Uuid)
    (cs : CourseSession) : Bool :=
  cs.courseId = courseId ∧ cs.sessionDate > today ∧
  !((slotsOf [courseId] d).any fun s => cs.hasSlot s) ∧ !referenced d id

/-- The keys of the orphans at one snapshot. -/
def orphans (courseId : Uuid) (today : ℤ) (d : Store Timetable) : List Uuid :=
  (d.sel .courseSessions (orphaned d courseId today)).map Prod.fst

/-- A leave request that came in between makes the DELETE fail; attendance goes with its
session. -/
def deleteSessions (ids : List Uuid) : Tx Unit := do
  let _ ← deleteAll (S := Timetable) .courseSessions fun id _ => ids.contains id
  let b ← read (S := Timetable) fun d => (d.sel .leaveRequests fun _ lr =>
    ids.contains lr.sessionId ∨ lr.makeupSessionId.any ids.contains).isEmpty
  ensure b (.database (.foreignKey "leave_requests"))
  let _ ← deleteAll (S := Timetable) .attendanceRecords fun _ ar => ids.contains ar.sessionId

/-- Sync the future sessions that have a slot, delete those that have none and that
nothing refers to. -/
def reconcileFutureSessionsTx (courseId : Uuid) (today : ℤ) : Tx Unit := do
  let slots ← read (S := Timetable) (slotsOf [courseId])
  let _ ← updateAll (S := Timetable) .courseSessions (fun _ cs => outOfSync slots courseId today cs)
    (synced slots)
  let ids ← read (S := Timetable) (orphans courseId today)
  deleteSessions ids

/-- A new course has no sessions to align. -/
def setInitialScheduleTx (courseId : Uuid) (slots : List SlotRow) : Tx Unit :=
  replaceSlotsTx courseId slots

def replaceWeeklyScheduleTx (courseId : Uuid) (slots : List SlotRow) (today : ℤ) : Tx Unit := do
  replaceSlotsTx courseId slots
  reconcileFutureSessionsTx courseId today

end DreamFly.Courses
