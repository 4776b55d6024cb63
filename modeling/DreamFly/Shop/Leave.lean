import DreamFly.Shop.Attendance
import DreamFly.Shop.Enrolments

/-!
# Leave requests and makeups

A member asks for leave from a session, the course's coach decides, and an
approved leave may be made up in another session with room. An approval is
projected into the attendance records in the same transaction.
-/

namespace DreamFly

open Txn Prog

def leaveNotFound : AppError := .notFound "請假申請不存在"

def sessionNotFound : AppError := .notFound "場次不存在"

/-! ## Rules -/

def decideNotPending : AppError := .conflict "僅待審核假單可審核"

def makeupAlreadyBooked : AppError := .conflict "此假單已預約過補課"

def parseDecision (s : String) : Except AppError LeaveStatus :=
  if s = "approved" then .ok .approved
  else if s = "rejected" then .ok .rejected
  else .error (.validation "status 僅接受 approved 或 rejected")

/-- What a decision reads of a request, its enrolment and its course. -/
structure LeaveDecisionContext where
  status : LeaveStatus
  coachId : Option Uuid
  enrolmentActive : Bool
deriving DecidableEq, Repr

def checkDecidable (ctx : LeaveDecisionContext) (decision : LeaveStatus) :
    Except AppError Unit := do
  if ctx.status ≠ .pending then throw decideNotPending
  if decision = .approved ∧ !ctx.enrolmentActive then throw (.conflict "報名已取消，無法核准請假")

/-- What a makeup booking reads of a request and its enrolment. -/
structure LeaveRequestForMakeup where
  sessionId : Uuid
  userId : Uuid
  courseId : Uuid
  status : LeaveStatus
  makeupSessionId : Option Uuid
  enrolmentActive : Bool
deriving DecidableEq, Repr

def checkMakeupSource (leave : LeaveRequestForMakeup) : Except AppError Unit := do
  if leave.status ≠ .approved then throw (.conflict "僅已核准的假單可預約補課")
  if leave.makeupSessionId.isSome then throw makeupAlreadyBooked
  if !leave.enrolmentActive then throw (.conflict "報名已取消，無法預約補課")

def checkMakeupTarget (leave : LeaveRequestForMakeup) (target : SessionLock) (at' : StudioNow) :
    Except AppError Unit := do
  if target.session.courseId ≠ leave.courseId then throw (.validation "補課場次須為同一課程")
  if target.id = leave.sessionId then throw (.validation "補課場次不可為請假場次")
  requireNotStarted at'.tz at'.now target.session.sessionDate target.session.startTime
    "session time"
    (.validation "補課場次已開始")

/-! ## Creating and cancelling -/

/-- A session whose course is there. -/
def findSessionContext (sessionId : Uuid) (d : Db) : Option Session := do
  let session ← d.get .sessions sessionId
  let _ ← d.get .courses session.courseId
  return session

/-- The active enrolment of a user in a course. -/
def findActiveEnrolment (userId courseId : Uuid) (d : Db) : Option Uuid :=
  ((d.sel .enrolments fun _ e =>
    e.userId = userId ∧ e.courseId = courseId ∧ e.status = .active).map Prod.fst).head?

/-- A pending or approved request for the session is there already. -/
def leaveTaken (enrolmentId sessionId : Uuid) (d : Db) : Bool :=
  !(d.sel .leaveRequests fun _ r => r.enrolmentId = enrolmentId ∧ r.sessionId = sessionId ∧
    (r.status = .pending ∨ r.status = .approved)).isEmpty

def insertLeaveTx (enrolmentId sessionId : Uuid) (reason : Option String) : Tx Uuid := do
  if ← claim (S := Shop) (.uniq (.leave enrolmentId sessionId))
    (leaveTaken enrolmentId sessionId) then
    throw (AppError.conflictOnUnique (.unique "uniq_leave_requests_active") "此場次已有請假紀錄")
  references (S := Shop) .enrolments enrolmentId (.database (.foreignKey "enrolments"))
  references (S := Shop) .sessions sessionId (.database (.foreignKey "course_sessions"))
  insert (S := Shop) .leaveRequests id fun _ =>
    { enrolmentId := enrolmentId, sessionId := sessionId, reason := reason, status := .pending
      makeupSessionId := none, decidedBy := none }

def createLeaveRequest (at' : StudioNow) (auth : AuthUser) (sessionId : Uuid)
    (reason : Option String) :
    Tx Uuid := do
  let session ← read (S := Shop) (findSessionContext sessionId)
  let session ← orFail session sessionNotFound
  let enrolmentId ← read (S := Shop) (findActiveEnrolment auth.userId session.courseId)
  let enrolmentId ← orFail enrolmentId (.notFound "未報名此課程")
  checked (requireNotStarted at'.tz at'.now session.sessionDate session.startTime "session time"
    (.validation "場次已開始，無法請假"))
  atomically (insertLeaveTx enrolmentId sessionId reason)

def cancelLeaveRequest (auth : AuthUser) (id : Uuid) : Tx Unit := atomically do
  -- the owner comes with the statement's snapshot, through the join with the enrolment
  let hit ← read (S := Shop) fun d =>
    (d.get .leaveRequests id).bind fun r => (d.get .enrolments r.enrolmentId).map Enrolment.userId
  let userId ← orFail hit leaveNotFound
  let row ← recheck (S := Shop) .leaveRequests id (fun _ => true) .update
  let _ ← orFail row leaveNotFound
  checked (auth.ownerOnly userId "僅本人可取消請假申請")
  let updated ← updateRow (S := Shop) .leaveRequests id
    (fun r => r.status = .pending) LeaveRequest.cancel
  let _ ← orFail updated (.conflict "僅待審核假單可取消")

/-! ## Deciding -/

def findDecisionContext (id : Uuid) (d : Db) : Option LeaveDecisionContext := do
  let r ← d.get .leaveRequests id
  let e ← d.get .enrolments r.enrolmentId
  let c ← d.get .courses e.courseId
  let _ ← d.get .sessions r.sessionId
  return ⟨r.status, c.coachId, enrolmentActive d r.enrolmentId⟩

def LeaveRequest.decide (status : LeaveStatus) (decidedBy : Uuid)
    (r : LeaveRequest) : LeaveRequest :=
  { r with status := status, decidedBy := some decidedBy }

/-- UPDATE leave_requests SET status, decided_by WHERE id AND status = 'pending' RETURNING *. -/
def decideLeaveTx (id : Uuid) (status : LeaveStatus) (decidedBy : Uuid) :
    Tx (Option LeaveRequest) := do
  let updated ← updateRow (S := Shop) .leaveRequests id (fun r => r.status = .pending)
    (LeaveRequest.decide status decidedBy)
  if updated.isSome then
    references (S := Shop) .users decidedBy (.database (.foreignKey "users"))
  return updated

def decideTx (id : Uuid) (status : LeaveStatus) (decidedBy : Uuid) : Tx (Option LeaveRequest) := do
  match ← decideLeaveTx id status decidedBy with
  | none => return none
  | some updated => do
    if status = .approved then
      let row ← read (S := Shop) (·.get .leaveRequests id)
      let row ← orFail row (.database .rowNotFound)
      projectApprovedLeaveTx updated.sessionId row.enrolmentId decidedBy
    return some updated

def decideLeaveRequest (auth : AuthUser) (id : Uuid) (newStatus : String) : Tx LeaveRequest := do
  let status ← checked (parseDecision newStatus)
  let ctx ← read (S := Shop) (findDecisionContext id)
  let ctx ← orFail ctx leaveNotFound
  requireCourseCoach auth ctx.coachId "非本課教練"
  checked (checkDecidable ctx status)
  atomically do
    let updated ← decideTx id status auth.userId
    orFail updated decideNotPending

/-! ## Making up -/

/-- What the booking reads of a request through its joins, in the snapshot `d`; the
request itself is the row `r` under its lock. -/
def leaveForMakeup (d : Db) (r : LeaveRequest) : Option LeaveRequestForMakeup := do
  let e ← d.get .enrolments r.enrolmentId
  let _ ← d.get .courses e.courseId
  let _ ← d.get .sessions r.sessionId
  return ⟨r.sessionId, e.userId, e.courseId, r.status, r.makeupSessionId,
    enrolmentActive d r.enrolmentId⟩

/-- SELECT … FROM leave_requests lr JOIN … WHERE lr.id FOR UPDATE OF lr. -/
def findForMakeupTx (id : Uuid) : Tx (Option LeaveRequestForMakeup) := do
  let (hit, d) ← read (S := Shop) fun d => ((d.get .leaveRequests id).bind (leaveForMakeup d), d)
  match hit with
  | none => return none
  | some _ => do
    let row ← recheck (S := Shop) .leaveRequests id (fun _ => true) .update
    return row.bind (leaveForMakeup d)

def LeaveRequest.book (sessionId : Uuid) (r : LeaveRequest) : LeaveRequest :=
  { r with makeupSessionId := some sessionId }

/-- UPDATE leave_requests SET makeup_session_id WHERE id AND status = 'approved' AND
makeup_session_id IS NULL RETURNING *. -/
def setMakeupSessionTx (id sessionId : Uuid) : Tx (Option LeaveRequest) := do
  let updated ← updateRow (S := Shop) .leaveRequests id
    (fun r => r.status = .approved ∧ r.makeupSessionId = none) (LeaveRequest.book sessionId)
  if updated.isSome then
    references (S := Shop) .sessions sessionId (.database (.foreignKey "course_sessions"))
  return updated

def bookMakeup (at' : StudioNow) (auth : AuthUser) (id sessionId : Uuid) : Tx LeaveRequest :=
  atomically do
  let leave ← findForMakeupTx id
  let leave ← orFail leave leaveNotFound
  checked (auth.ownerOnly leave.userId "僅本人可預約補課")
  checked (checkMakeupSource leave)
  let lock ← lockSessionTx sessionId
  let lock ← orFail lock sessionNotFound
  checked (checkMakeupTarget leave lock at')
  requireRoomTx lock
  let updated ← setMakeupSessionTx id sessionId
  orFail updated makeupAlreadyBooked

end DreamFly
