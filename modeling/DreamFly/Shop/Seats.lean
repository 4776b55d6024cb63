import DreamFly.Shop.Db

/-!
# Courses and seats

Whether a course, or one session of it, has room: the course lock and the count
of active enrolments, and the session lock and the physical seats of a session.
-/

namespace DreamFly

open Txn Prog

/-! ## Course rules -/

namespace Course

def ensureLineQuantity (quantity : ℤ) : Except AppError Unit :=
  if quantity ≠ 1 then .error (.validation "course quantity must be 1") else .ok ()

def ensurePurchasable (c : Course) : Except AppError Unit :=
  if !c.isActive then .error (.badRequest "course is not available") else .ok ()

/-- The CHECK constraints of the table. -/
def checks (c : Course) : Bool := 0 ≤ c.priceCents ∧ 0 < c.maxStudents

end Course

/-- An age bound within `0..=150`. -/
def ageBoundOk (bound : Option ℤ) : Bool := bound.all fun a => 0 ≤ a ∧ a ≤ 150

def ageRange (minAge maxAge : Option ℤ) : Except AppError Unit := do
  if !ageBoundOk minAge then throw (.validation "min_age must be between 0 and 150")
  if !ageBoundOk maxAge then throw (.validation "max_age must be between 0 and 150")
  match minAge, maxAge with
  | some min, some max =>
    if min > max then throw (.validation "min_age must be less than or equal to max_age")
  | _, _ => return ()

/-! ## Seats of a course -/

/-- The locked courses, ascending by id. -/
abbrev CourseLocks := List Uuid

def courseNotCovered (courseId : Uuid) : AppError :=
  .internal s!"course {courseId} is not covered by CourseLocks"

/-- The items ascending by course; one the locks do not cover is an internal error. -/
def CourseLocks.inLockOrder (locks : CourseLocks) (items : List Uuid) :
    Except AppError (List Uuid) :=
  match items.find? fun c => !locks.contains c with
  | some c => .error (courseNotCovered c)
  | none => .ok (items.insertionSort (· ≤ ·))

/-- SELECT id FROM courses WHERE id = ANY(ids) ORDER BY id FOR UPDATE. -/
def lockCoursesTx (ids : List Uuid) : Tx CourseLocks := do
  let rows ← selectAllFor (S := Shop) .courses (fun id _ => ids.contains id)
    (fun a b => a.1 ≤ b.1) .update
  return rows.map Prod.fst

structure CourseSeats where
  maxStudents : ℤ
  activeCount : ℕ
deriving DecidableEq, Repr

def CourseSeats.isFull (s : CourseSeats) : Bool := (s.activeCount : ℤ) ≥ s.maxStudents

/-- An active enrolment of course `c`: the view `active_enrolments`. -/
def activeIn (c : Uuid) (_ : Uuid) (e : Enrolment) : Bool := e.courseId = c ∧ e.status = .active

/-- The limit and the count, in two statements. -/
def courseSeatsTx (locks : CourseLocks) (courseId : Uuid) : Tx (Option CourseSeats) := do
  if !locks.contains courseId then throw (courseNotCovered courseId)
  let course ← read (S := Shop) (·.get .courses courseId)
  match course with
  | none => return none
  | some course =>
    let activeCount ← read (S := Shop) (·.count .enrolments (activeIn courseId))
    return some ⟨course.maxStudents, activeCount⟩

/-! ## Seats of a session -/

structure SessionSeats where
  maxStudents : ℤ
  activeCount : ℕ
  approvedLeaveCount : ℕ
  makeupCount : ℕ
deriving DecidableEq, Repr

namespace SessionSeats

def remaining (s : SessionSeats) : ℤ :=
  s.maxStudents - s.activeCount + s.approvedLeaveCount - s.makeupCount

def hasRoom (s : SessionSeats) : Bool := s.remaining > 0

end SessionSeats

/-- The enrolment of a leave request is active. -/
def enrolmentActive (d : Db) (enrolmentId : Uuid) : Bool :=
  (d.get .enrolments enrolmentId).any fun e => e.status = .active

/-- An approved leave for session `s`. -/
def approvedLeave (s : Uuid) (r : LeaveRequest) : Bool := r.sessionId = s ∧ r.status = .approved

/-- A makeup into session `s`. -/
def makeupInto (s : Uuid) (r : LeaveRequest) : Bool := r.makeupSessionId = some s

/-- The seat counts of a session, in one statement. -/
def sessionSeats (courseId sessionId : Uuid) (d : Db) : Option SessionSeats :=
  (d.get .courses courseId).map fun c =>
    { maxStudents := c.maxStudents
      activeCount := d.count .enrolments (activeIn courseId)
      approvedLeaveCount := d.count .leaveRequests fun _ r =>
        approvedLeave sessionId r && enrolmentActive d r.enrolmentId
      makeupCount := d.count .leaveRequests fun _ r =>
        makeupInto sessionId r && enrolmentActive d r.enrolmentId }

/-- A locked session with its row. -/
structure SessionLock where
  id : Uuid
  session : Session

def lockSessionTx (sessionId : Uuid) : Tx (Option SessionLock) := do
  let session ← selectFor (S := Shop) .sessions sessionId (fun _ => true) .update
  return session.map fun session => ⟨sessionId, session⟩

def sessionFull : String := "該場次名額已滿"

def requireRoomTx (lock : SessionLock) : Tx Unit := do
  let seats ← read (S := Shop) (sessionSeats lock.session.courseId lock.id)
  let seats ← orFail seats (.database .rowNotFound)
  ensure seats.hasRoom (.conflict sessionFull)

/-! ## Admin edits -/

/-- The fields of `PATCH /courses/{id}` the model has columns for. -/
structure UpdateCourseRequest where
  name : Option String
  priceCents : Option ℤ
  maxStudents : Option ℤ
  minAge : Option (Option ℤ)
  maxAge : Option (Option ℤ)
  coachId : Option (Option Uuid)
deriving DecidableEq, Repr

def UpdateCourseRequest.apply (req : UpdateCourseRequest) (c : Course) : Course where
  name := req.name.getD c.name
  priceCents := req.priceCents.getD c.priceCents
  maxStudents := req.maxStudents.getD c.maxStudents
  minAge := req.minAge.getD c.minAge
  maxAge := req.maxAge.getD c.maxAge
  isActive := c.isActive
  coachId := req.coachId.getD c.coachId

def updateCourse (id : Uuid) (req : UpdateCourseRequest) : Tx Course := atomically do
  let existing ← selectFor (S := Shop) .courses id (fun _ => true) .update
  let existing ← orFail existing (.notFound "course not found")
  checked (ageRange (req.minAge.getD existing.minAge) (req.maxAge.getD existing.maxAge))
  match ← selectFor (S := Shop) .courses id (fun _ => true) .noKeyUpdate with
  | none => throw (.notFound "course not found")
  | some c =>
    ensure (req.apply c).checks (.database (.check "courses"))
    put (S := Shop) (.mod .courses id req.apply)
    return req.apply c

/-- UPDATE courses SET is_active = b WHERE id: an operator's statement, no endpoint has it. -/
def setCourseActive (id : Uuid) (b : Bool) : Tx Unit := atomically do
  let _ ← updateRow (S := Shop) .courses id (fun _ => true) fun c => { c with isActive := b }

end DreamFly
