import DreamFly.Courses.Service

/-!
# Weekly schedules of coaches

A coach's schedule is replaced as a whole: one transaction deletes the rows of the coach
and inserts the new ones, and the rows are read once more after its commit. Rows of one
coach and day may not overlap; the exclusion constraint is a lock on each moment of a row
and a look at who has it.
-/

namespace DreamFly.Coaches

open Txn Prog
open Courses (ParseTime parseTime validateTimeWindow)

/-! ## Tables -/

structure Coach where
  userId : Uuid
  isActive : Bool
deriving DecidableEq, Repr

/-- Day 0 is Sunday, times count from midnight. -/
structure CoachSchedule where
  coachId : Uuid
  dayOfWeek : ℤ
  startTime : ℤ
  endTime : ℤ
  isAvailable : Bool
deriving DecidableEq, Repr

inductive CoachTbl
  | coaches
  | coachSchedules
deriving DecidableEq, Repr

/-- A moment of a coach's week, which one row can have (`coach_schedules_no_overlap`). -/
inductive CoachUniq
  | moment (coachId : Uuid) (dayOfWeek time : ℤ)
deriving DecidableEq, Repr

@[reducible] def CoachTbl.Row : CoachTbl → Type
  | .coaches => Coach
  | .coachSchedules => CoachSchedule

@[reducible] def Coaching : Schema where
  Tbl := CoachTbl
  Key := fun _ => Uuid
  Row := CoachTbl.Row
  Uniq := CoachUniq

abbrev Tx := Prog Coaching AppError

/-! ## Entries -/

structure ScheduleEntry where
  dayOfWeek : ℤ
  startTime : String
  endTime : String
  isAvailable : Bool
deriving DecidableEq, Repr

/-- Day, start, end and availability of an entry, parsed. -/
structure ScheduleRow where
  dayOfWeek : ℤ
  startTime : ℤ
  endTime : ℤ
  isAvailable : Bool
deriving DecidableEq, Repr

def ScheduleRow.schedule (coachId : Uuid) (row : ScheduleRow) : CoachSchedule :=
  ⟨coachId, row.dayOfWeek, row.startTime, row.endTime, row.isAvailable⟩

def parseScheduleEntry (parse : ParseTime) (e : ScheduleEntry) : Except AppError ScheduleRow := do
  let start ← parseTime parse "start_time" e.startTime
  let stop ← parseTime parse "end_time" e.endTime
  validateTimeWindow start stop
  return ⟨e.dayOfWeek, start, stop, e.isAvailable⟩

def parseScheduleEntries (parse : ParseTime) (entries : List ScheduleEntry) :
    Except AppError (List ScheduleRow) :=
  entries.mapM (parseScheduleEntry parse)

/-! ## Statements -/

/-- The CHECK constraints of the table. -/
def CoachSchedule.checks (s : CoachSchedule) : Bool := 0 ≤ s.dayOfWeek ∧ s.dayOfWeek ≤ 6 ∧
    s.startTime < s.endTime

/-- Two rows that the exclusion constraint does not let stand side by side. -/
def CoachSchedule.overlaps (s r : CoachSchedule) : Bool :=
  s.coachId = r.coachId ∧ s.dayOfWeek = r.dayOfWeek ∧ s.startTime < r.endTime ∧
  r.startTime < s.endTime

/-- The moments of a row; an INSERT that wants one waits for whoever inserts or deletes a
row with it. -/
def lockMoments (s : CoachSchedule) : Tx Unit := do
  let _ ← each (fun n : ℕ => lockRes (S := Coaching)
    (.uniq (.moment s.coachId s.dayOfWeek (s.startTime + n))) .update)
    (List.range (s.endTime - s.startTime).toNat)

/-- DELETE FROM coach_schedules WHERE coach_id. -/
def deleteSchedules (coachId : Uuid) : Tx Unit := do
  let gone ← deleteAll (S := Coaching) .coachSchedules fun _ s => s.coachId = coachId
  let _ ← each (fun e => lockMoments e.2) gone

/-- INSERT INTO coach_schedules. -/
def insertSchedule (coachId : Uuid) (overlapping : AppError) (row : ScheduleRow) : Tx Unit := do
  let s := row.schedule coachId
  ensure s.checks (.database (.check "coach_schedules"))
  lockMoments s
  let free ← read (S := Coaching) fun d => (d.sel .coachSchedules fun _ r => r.overlaps s).isEmpty
  ensure free overlapping
  references (S := Coaching) .coaches coachId (.database (.foreignKey "coaches"))
  let _ ← insert (S := Coaching) .coachSchedules id fun _ => s

/-- SELECT … FROM coach_schedules WHERE coach_id ORDER BY day_of_week, start_time. -/
def findSchedules (coachId : Uuid) (d : Store Coaching) : List (Uuid × CoachSchedule) :=
  (d.sel .coachSchedules fun _ s => s.coachId = coachId).insertionSort fun a b =>
    a.2.dayOfWeek < b.2.dayOfWeek ∨ a.2.dayOfWeek = b.2.dayOfWeek ∧ a.2.startTime ≤ b.2.startTime

/-- The transaction of `replaceSchedules`. -/
def replaceSchedulesTx (coachId : Uuid) (schedules : List ScheduleRow) (overlapping : AppError) :
    Tx Unit := do
  deleteSchedules coachId
  let _ ← each (insertSchedule coachId overlapping) schedules

/-- Delete all, insert all, and read what is there after the commit. -/
def replaceSchedules (coachId : Uuid) (schedules : List ScheduleRow) (overlapping : AppError) :
    Tx (List (Uuid × CoachSchedule)) := do
  atomically (replaceSchedulesTx coachId schedules overlapping)
  read (S := Coaching) (findSchedules coachId)

/-! ## Calls -/

def requireOwnCoachProfile (auth : AuthUser) (coachId : Uuid) : Tx Coach := do
  let coach ← read (S := Coaching) (·.get .coaches coachId)
  let coach ← orFail coach (.notFound "coach not found")
  checked (auth.ownsOrAdmin coach.userId "not authorized")
  return coach

def getSchedules (coachId : Uuid) : Tx (List (Uuid × CoachSchedule)) := do
  let coach ← read (S := Coaching) (·.get .coaches coachId)
  let _ ← orFail coach (.notFound "coach not found")
  read (S := Coaching) (findSchedules coachId)

def getActiveSchedules (coachId : Uuid) : Tx (List (Uuid × CoachSchedule)) := do
  let coach ← read (S := Coaching) fun d => (d.get .coaches coachId).filter (·.isActive)
  let _ ← orFail coach (.notFound "coach not found")
  read (S := Coaching) (findSchedules coachId)

def updateSchedules (parse : ParseTime) (auth : AuthUser) (coachId : Uuid)
    (entries : List ScheduleEntry) :
    Tx (List (Uuid × CoachSchedule)) := do
  let _ ← requireOwnCoachProfile auth coachId
  let parsed ← checked (parseScheduleEntries parse entries)
  replaceSchedules coachId parsed (.conflict "教練班表時段重疊")

/-! ## The service -/

inductive CoachReq
  | updateSchedules (auth : AuthUser) (coachId : Uuid) (entries : List ScheduleEntry)
  | getSchedules (coachId : Uuid)
  | getActiveSchedules (coachId : Uuid)

def CoachReq.prog (parse : ParseTime) : CoachReq → Tx (List (Uuid × CoachSchedule))
  | .updateSchedules auth coachId entries => Coaches.updateSchedules parse auth coachId entries
  | .getSchedules coachId => Coaches.getSchedules coachId
  | .getActiveSchedules coachId => Coaches.getActiveSchedules coachId

def coaches (parse : ParseTime) : Service Coaching AppError
    (List (Uuid × CoachSchedule)) CoachReq where
  prog := CoachReq.prog parse
  crash := .database .connection

end DreamFly.Coaches
