import DreamFly.Shop.Enrolments

/-!
# The waitlist of a course

Who wants a seat of a full course goes on its waitlist, by an INSERT under a partial unique
index. The waitlist is for reading: nothing moves up by itself. Whether the course is full is
looked at without a lock.
-/

namespace DreamFly.Waitlist

open Txn Prog

/-! ## Tables -/

inductive WaitlistStatus
  | waiting
  | cancelled
deriving DecidableEq, Repr

structure WaitlistEntry where
  userId : Uuid
  courseId : Uuid
  status : WaitlistStatus
  createdAt : Instant
deriving DecidableEq, Repr

inductive WaitTbl
  | users
  | courses
  | enrolments
  | waitlistEntries
deriving DecidableEq, Repr

/-- The entries of `uniq_waitlist_waiting`. -/
inductive WaitUniq
  | waiting (userId courseId : Uuid)
deriving DecidableEq, Repr

@[reducible] def WaitTbl.Row : WaitTbl → Type
  | .users => Unit
  | .courses => Course
  | .enrolments => Enrolment
  | .waitlistEntries => WaitlistEntry

@[reducible] def Waiting : Schema where
  Tbl := WaitTbl
  Key := fun _ => Uuid
  Row := WaitTbl.Row
  Uniq := WaitUniq

abbrev Tx := Prog Waiting AppError

/-! ## What is shown -/

structure WaitlistResponse where
  id : Uuid
  courseId : Uuid
  courseName : String
  status : WaitlistStatus
  createdAt : Instant
deriving DecidableEq, Repr

/-- `VIEW_COLUMNS` over `VIEW_JOINS`. -/
def view (d : Store Waiting) (e : Uuid × WaitlistEntry) : Option WaitlistResponse :=
  (d.get .courses e.2.courseId).map fun c => ⟨e.1, e.2.courseId, c.name, e.2.status, e.2.createdAt⟩

/-- The view `waiting_entries`, of a course. -/
def waitingIn (courseId : Uuid) (_ : Uuid) (w : WaitlistEntry) : Bool := w.courseId = courseId ∧
    w.status = .waiting

/-- ORDER BY created_at ASC, of a scan in the `n`-th order. -/
def queueOf (n : ℕ) (courseId : Uuid) (d : Store Waiting) : List WaitlistResponse :=
  ((arrange n (d.sel .waitlistEntries (waitingIn courseId))).insertionSort
    fun a b => a.2.createdAt ≤ b.2.createdAt).filterMap (view d)

def findByCourseWaiting (courseId : Uuid) : Tx (List WaitlistResponse) := do
  let n ← choose
  read (S := Waiting) (queueOf n courseId)

/-- ORDER BY created_at DESC, with cancelled entries. -/
def findByUserWithCourse (userId : Uuid) : Tx (List WaitlistResponse) := do
  let n ← choose
  read (S := Waiting) fun d =>
    ((arrange n (d.sel .waitlistEntries fun _ w => w.userId = userId)).insertionSort
      (fun a b => b.2.createdAt ≤ a.2.createdAt)).filterMap (view d)

/-! ## Joining -/

/-- An active enrolment of the course: the view `active_enrolments`. -/
def activeIn (courseId : Uuid) (_ : Uuid) (e : Enrolment) : Bool := e.courseId = courseId ∧
    e.status = .active

/-- The limit and the count, in two statements without a lock. -/
def courseSeats (courseId : Uuid) : Tx (Option CourseSeats) := do
  let course ← read (S := Waiting) (·.get .courses courseId)
  match course with
  | none => return none
  | some course =>
    let activeCount ← read (S := Waiting) (·.count .enrolments (activeIn courseId))
    return some ⟨course.maxStudents, activeCount⟩

def existsWaiting (userId courseId : Uuid) (d : Store Waiting) : Bool :=
  !(d.sel .waitlistEntries fun _ w => w.status = .waiting ∧
    (w.userId, w.courseId) = (userId, courseId)).isEmpty

def takeWaiting (userId courseId : Uuid) : Tx Unit := do
  let taken ← claim (S := Waiting) (.uniq (.waiting userId courseId))
    (existsWaiting userId courseId)
  ensure (!taken) (AppError.conflictOnUnique
    (.unique "uniq_waitlist_waiting") "already on waitlist")

/-- INSERT of a waiting entry, under `uniq_waitlist_waiting`, joined with its course. -/
def insertEntry (userId courseId : Uuid) : Tx WaitlistResponse := do
  let now ← choose
  takeWaiting userId courseId
  references (S := Waiting) .users userId (.database (.foreignKey "users"))
  references (S := Waiting) .courses courseId (.database (.foreignKey "courses"))
  let id ← insert (S := Waiting) .waitlistEntries id fun _ => ⟨userId, courseId, .waiting, now⟩
  let row ← read (S := Waiting) fun d => view d (id, ⟨userId, courseId, .waiting, now⟩)
  orFail row (.database .rowNotFound)

def joinWaitlist (userId courseId : Uuid) : Tx WaitlistResponse := do
  let course ← read (S := Waiting) (·.get .courses courseId)
  let course ← orFail course (.notFound "course not found")
  checked course.ensurePurchasable
  let seats ← courseSeats courseId
  let seats ← orFail seats (.notFound "course not found")
  ensure seats.isFull (.conflict "course is not full")
  let onList ← read (S := Waiting) (existsWaiting userId courseId)
  ensure (!onList) (.conflict "already on waitlist")
  atomically (insertEntry userId courseId)

/-! ## Leaving -/

def WaitlistEntry.cancel (w : WaitlistEntry) : WaitlistEntry := { w with status := .cancelled }

def WaitlistEntry.isWaiting (w : WaitlistEntry) : Bool := w.status = .waiting

/-- The entry of the index, which an INSERT of the same user and course waits for. -/
def leaveIndex (w : Option WaitlistEntry) : Tx Unit :=
  match w with
  | none => return ()
  | some w => lockRes (S := Waiting) (.uniq (.waiting w.userId w.courseId)) .update

/-- UPDATE waitlist_entries SET status = 'cancelled' WHERE id AND status = 'waiting' RETURNING *. -/
def cancelIfWaitingTx (id : Uuid) : Tx (Option WaitlistEntry) := do
  let w ← selectFor (S := Waiting) .waitlistEntries id WaitlistEntry.isWaiting .noKeyUpdate
  leaveIndex w
  updateRow (S := Waiting) .waitlistEntries id WaitlistEntry.isWaiting WaitlistEntry.cancel

def cancelWaitlistEntry (auth : AuthUser) (id : Uuid) : Tx Unit := atomically do
  let entry ← selectFor (S := Waiting) .waitlistEntries id (fun _ => true) .update
  let entry ← orFail entry (.notFound "waitlist entry not found")
  checked (auth.ownsOrAdmin entry.userId "you can only cancel your own waitlist entries")
  let cancelled ← cancelIfWaitingTx id
  let _ ← orFail cancelled (.notFound "waitlist entry not found")

/-! ## The service -/

/-- What other calls do to courses and enrolments, whatever they have checked. -/
inductive Elsewhere
  | enrol (e : Enrolment)
  | updateEnrolment (id : Uuid) (f : Enrolment → Enrolment)
  | updateCourse (id : Uuid) (f : Course → Course)

def Elsewhere.prog : Elsewhere → Tx Unit
  | .enrol e => do let _ ← insert (S := Waiting) .enrolments id fun _ => e
  | .updateEnrolment id f => do let _ ← updateRow (S := Waiting) .enrolments id (fun _ => true) f
  | .updateCourse id f => do let _ ← updateRow (S := Waiting) .courses id (fun _ => true) f

inductive WaitReq
  | join (userId courseId : Uuid)
  | cancel (auth : AuthUser) (id : Uuid)
  | listMine (userId : Uuid)
  | listForCourse (courseId : Uuid)
  | elsewhere (q : Elsewhere)

inductive WaitReply
  | entry (r : WaitlistResponse)
  | entries (rs : List WaitlistResponse)
  | done
deriving DecidableEq, Repr

def WaitReq.prog : WaitReq → Tx WaitReply
  | .join userId courseId => do return .entry (← joinWaitlist userId courseId)
  | .cancel auth id => do cancelWaitlistEntry auth id; return .done
  | .listMine userId => do return .entries (← findByUserWithCourse userId)
  | .listForCourse courseId => do return .entries (← findByCourseWaiting courseId)
  | .elsewhere q => do atomically q.prog; return .done

def waitlist : Service Waiting AppError WaitReply WaitReq where
  prog := WaitReq.prog
  crash := .database .connection

end DreamFly.Waitlist
