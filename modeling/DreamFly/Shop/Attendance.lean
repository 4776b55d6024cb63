import DreamFly.Shop.Seats

/-!
# Attendance records

A session's attendance rows are written by a coach's marking batch and by the
projection of an approved leave. An approved leave is not overwritten by another
status: the batch is checked as a whole before it writes, and every single write
checks again where it meets an existing row.
-/

namespace DreamFly

open Txn Prog

namespace AttendanceStatus

def asStr : AttendanceStatus → String
  | present => "present"
  | absent => "absent"
  | leave => "leave"

def fromStr (s : String) : Option AttendanceStatus :=
  [present, absent, leave].find? fun v => v.asStr = s

end AttendanceStatus

/-! ## The coach of a course -/

/-- The coach profile of a user. -/
def coachOf (userId : Uuid) (d : Db) : Option Uuid :=
  ((d.sel .coaches fun _ c => c.userId = userId).map Prod.fst).head?

def requireCourseCoach (auth : AuthUser) (courseCoachId : Option Uuid) (msg : String) : Tx Unit :=
  if auth.isAdmin then return ()
  else do
    let coach ← read (S := Shop) (coachOf auth.userId)
    ensure (coach.isSome ∧ coach = courseCoachId) (.forbidden msg)

/-! ## Writing one row -/

/-- The WHERE of the upsert: an approved leave is not overwritten by another status. -/
def mayOverwrite (new old : AttendanceStatus) (sessionId enrolmentId : Uuid) (d : Db) : Bool :=
  new = .leave ∨ old ≠ .leave ∨
    (d.sel .leaveRequests fun _ r =>
      r.enrolmentId = enrolmentId ∧ r.sessionId = sessionId ∧ r.status = .approved).isEmpty

/-- INSERT … ON CONFLICT (session_id, enrolment_id) DO UPDATE … WHERE: the rows affected. -/
def upsertAttendanceTx (sessionId enrolmentId : Uuid) (status : AttendanceStatus)
    (markedBy : Uuid) :
    Tx ℕ := do
  lockRes (S := Shop) (.row .attendance (sessionId, enrolmentId)) .update
  let (old, d) ← read (S := Shop) fun d => (d.get .attendance (sessionId, enrolmentId), d)
  match old with
  | some old =>
    if mayOverwrite status old.status sessionId enrolmentId d then
      references (S := Shop) .users markedBy (.database (.foreignKey "users"))
      put (S := Shop) (.mod .attendance (sessionId, enrolmentId) fun _ => ⟨status, markedBy⟩)
      return 1
    else return 0
  | none =>
    references (S := Shop) .sessions sessionId (.database (.foreignKey "course_sessions"))
    references (S := Shop) .enrolments enrolmentId (.database (.foreignKey "enrolments"))
    references (S := Shop) .users markedBy (.database (.foreignKey "users"))
    put (S := Shop) (.add .attendance (sessionId, enrolmentId) ⟨status, markedBy⟩)
    return 1

def projectApprovedLeaveTx (sessionId enrolmentId decidedBy : Uuid) : Tx Unit := do
  let _ ← upsertAttendanceTx sessionId enrolmentId .leave decidedBy

/-! ## Marking a batch -/

def approvedLeaveOverwrite : String := "cannot overwrite an approved leave with present/absent"

/-- One entry of the batch. -/
structure AttendanceRecordEntry where
  enrolmentId : Uuid
  status : String
deriving DecidableEq, Repr

/-- A batch that was parsed. -/
abbrev Marks := List (Uuid × AttendanceStatus)

def parseMarks (records : List AttendanceRecordEntry) : Except AppError Marks :=
  records.mapM fun r =>
    match AttendanceStatus.fromStr r.status with
    | some status => .ok (r.enrolmentId, status)
    | none => .error (.validation ("invalid attendance status: " ++ r.status))

/-- Two lists with the same elements. -/
def sameSet (a b : List Uuid) : Bool := a.all b.contains && b.all a.contains

def planMarks (parsed : Marks) (valid approved : List Uuid) : Except AppError Marks := do
  if !sameSet (parsed.map Prod.fst) valid then
    throw (.validation "all enrolments must belong to this session's course and be active")
  if parsed.any fun e => e.2 ≠ .leave ∧ approved.contains e.1 then
    throw (.validation approvedLeaveOverwrite)
  return parsed

/-- SELECT id FROM active_enrolments WHERE course_id AND id = ANY(ids). -/
def findActiveEnrolmentIdsIn (courseId : Uuid) (ids : List Uuid) (d : Db) : List Uuid :=
  (d.sel .enrolments fun k e => activeIn courseId k e && ids.contains k).map Prod.fst

/-- SELECT enrolment_id FROM leave_requests WHERE session_id AND enrolment_id = ANY(ids) AND
approved. -/
def findApprovedLeaveEnrolmentIdsTx (sessionId : Uuid) (ids : List Uuid) (d : Db) : List Uuid :=
  (d.sel .leaveRequests fun _ r => approvedLeave sessionId r && ids.contains r.enrolmentId).map
    fun e =>
    e.2.enrolmentId

/-- One entry: a blocked write fails the batch. -/
def markOneTx (sessionId markedBy : Uuid) (e : Uuid × AttendanceStatus) : Tx Unit := do
  let affected ← upsertAttendanceTx sessionId e.1 e.2 markedBy
  ensure (affected ≠ 0) (.validation approvedLeaveOverwrite)

def markTx (sessionId courseId : Uuid) (parsed : Marks) (markedBy : Uuid) : Tx Unit := do
  let ids := parsed.map Prod.fst
  let (valid, approved) ← (if parsed.isEmpty then return ([], [])
    else do
      let valid ← read (S := Shop) (findActiveEnrolmentIdsIn courseId ids)
      let approved ← read (S := Shop) (findApprovedLeaveEnrolmentIdsTx sessionId ids)
      return (valid, approved))
  let entries ← checked (planMarks parsed valid approved)
  let _ ← each (markOneTx sessionId markedBy) entries

/-- A session with its course's coach. -/
structure SessionCourse where
  courseId : Uuid
  coachId : Option Uuid
  sessionDate : ℤ
  startTime : ℤ
deriving DecidableEq, Repr

def findSessionCourse (sessionId : Uuid) (d : Db) : Option SessionCourse := do
  let session ← d.get .sessions sessionId
  let c ← d.get .courses session.courseId
  return ⟨session.courseId, c.coachId, session.sessionDate, session.startTime⟩

structure RosterEntry where
  enrolmentId : Uuid
  userId : Uuid
  attendanceStatus : Option AttendanceStatus
deriving DecidableEq, Repr

def findRoster (courseId sessionId : Uuid) (d : Db) : List RosterEntry :=
  (d.sel .enrolments (activeIn courseId)).map fun e =>
    ⟨e.1, e.2.userId, (d.get .attendance (sessionId, e.1)).map Attendance.status⟩

def bulkUpsertAttendance (at' : StudioNow) (auth : AuthUser) (sessionId : Uuid)
    (records : List AttendanceRecordEntry) : Tx (List RosterEntry) := do
  let sessionCourse ← read (S := Shop) (findSessionCourse sessionId)
  let sessionCourse ← orFail sessionCourse (.notFound "session not found")
  requireCourseCoach auth sessionCourse.coachId "not the coach for this course"
  checked (requireStarted at'.tz at'.now sessionCourse.sessionDate sessionCourse.startTime
    "session time"
    (.validation "場次尚未開始，無法點名"))
  let parsed ← checked (parseMarks records)
  atomically (markTx sessionId sessionCourse.courseId parsed auth.userId)
  read (S := Shop) (findRoster sessionCourse.courseId sessionId)

end DreamFly
