import DreamFly.Content.Lookup
import DreamFly.Courses.Calendar

/-!
# Courses

The requests that create and edit a course, with its weekly schedule in the same
transaction, and the public lookup of one, by id or by slug. What the other modules do to
the sessions of a course, refer to them, is there as three statements.
-/

namespace DreamFly.Courses

open Txn Prog
open Content (FieldError Letters ParseUuid lengthCheck optional formatValidationErrors slugify)

/-! ## Rules -/

namespace CourseLevel

def all : List CourseLevel := [.foundation, .beginner, .intermediate, .advanced, .elite]

def asStr : CourseLevel → String
  | .foundation => "foundation"
  | .beginner => "beginner"
  | .intermediate => "intermediate"
  | .advanced => "advanced"
  | .elite => "elite"

def fromStr (L : Letters) (s : String) : Option CourseLevel := all.find? fun v =>
    v.asStr = L.toLowercase s

end CourseLevel

def invalidCourseLevelMessage : String :=
  "invalid course level, must be one of: " ++ ", ".intercalate
    (CourseLevel.all.map CourseLevel.asStr)

/-- A legal age range. -/
structure AgeRange where
  minAge : Option ℤ
  maxAge : Option ℤ
  minBounds : minAge.all (fun m => 0 ≤ m ∧ m ≤ 150) = true
  maxBounds : maxAge.all (fun m => 0 ≤ m ∧ m ≤ 150) = true
  ordered : minAge.all (fun m => maxAge.all (m ≤ ·)) = true

def AgeRange.new (minAge maxAge : Option ℤ) : Except AppError AgeRange :=
  if h1 : minAge.all fun m => 0 ≤ m ∧ m ≤ 150 then
    if h2 : maxAge.all fun m => 0 ≤ m ∧ m ≤ 150 then
      if h3 : minAge.all fun m => maxAge.all (m ≤ ·) then .ok ⟨minAge, maxAge, h1, h2, h3⟩
      else .error (.validation "min_age must be less than or equal to max_age")
    else .error (.validation "max_age must be between 0 and 150")
  else .error (.validation "min_age must be between 0 and 150")

/-! ## Bodies of requests -/

def rangeCheck (field : String) (min max n : ℤ) : List FieldError :=
  if min ≤ n ∧ n ≤ max then [] else [⟨field, "range"⟩]

def optionalRange (field : String) (min max : ℤ) (n : Option ℤ) : List FieldError :=
  (n.map (rangeCheck field min max)).getD []

/-- The errors of nested entries refuse a body, but the text of the refusal leaves them out. -/
def validatedNested (errors nested : List FieldError) : Except AppError Unit :=
  if errors.isEmpty ∧ nested.isEmpty then .ok () else
    .error (.validation (formatValidationErrors errors))

structure CourseScheduleSlotEntry where
  dayOfWeek : ℤ
  startTime : String
  endTime : String
  venue : Option String
deriving DecidableEq, Repr

def CourseScheduleSlotEntry.validate (e : CourseScheduleSlotEntry) : List FieldError :=
  rangeCheck "day_of_week" 0 6 e.dayOfWeek ++ lengthCheck "start_time" 5 8 e.startTime ++
  lengthCheck "end_time" 5 8 e.endTime ++
    optional (lengthCheck "venue" 0 100) e.venue

def validateSlots (slots : Option (List CourseScheduleSlotEntry)) : List FieldError :=
  (slots.getD []).flatMap CourseScheduleSlotEntry.validate

structure CreateCourseRequest where
  name : String
  slug : Option String
  level : String
  description : Option String
  durationMinutes : ℤ
  priceCents : ℤ
  maxStudents : ℤ
  minAge : Option ℤ
  maxAge : Option ℤ
  features : Option (List String)
  coachId : Option Uuid
  category : Option String
  scheduleText : Option String
  isHighlighted : Bool
  scheduleSlots : Option (List CourseScheduleSlotEntry)
deriving DecidableEq, Repr

@[irreducible] def CreateCourseRequest.validate (req : CreateCourseRequest) : List FieldError :=
  lengthCheck "name" 1 100 req.name ++ optional (lengthCheck "slug" 0 200) req.slug ++
  lengthCheck "level" 1 32 req.level ++
    optional (lengthCheck "description" 0 5000) req.description ++
    rangeCheck "duration_minutes" 1 1440 req.durationMinutes ++
    rangeCheck "price_cents" 0 100000000 req.priceCents ++
    rangeCheck "max_students" 1 10000 req.maxStudents ++
    optionalRange "min_age" 0 150 req.minAge ++ optionalRange "max_age" 0 150 req.maxAge ++
    optional (lengthCheck "category" 0 50) req.category ++
    optional (lengthCheck "schedule_text" 0 100) req.scheduleText

structure UpdateCourseRequest where
  name : Option String
  slug : Option String
  level : Option String
  description : Option String
  durationMinutes : Option ℤ
  priceCents : Option ℤ
  maxStudents : Option ℤ
  minAge : Option (Option ℤ)
  maxAge : Option (Option ℤ)
  features : Option (List String)
  coachId : Option (Option Uuid)
  category : Option (Option String)
  scheduleText : Option (Option String)
  isHighlighted : Option Bool
  scheduleSlots : Option (List CourseScheduleSlotEntry)
deriving DecidableEq, Repr

/-- The doubly optional fields carry no check. -/
@[irreducible] def UpdateCourseRequest.validate (req : UpdateCourseRequest) : List FieldError :=
  optional (lengthCheck "name" 1 100) req.name ++ optional (lengthCheck "slug" 0 200) req.slug ++
    optional (lengthCheck "level" 1 32) req.level ++ optional
      (lengthCheck "description" 0 5000) req.description ++
    optionalRange "duration_minutes" 1 1440 req.durationMinutes ++
    optionalRange "price_cents" 0 100000000 req.priceCents ++
    optionalRange "max_students" 1 10000 req.maxStudents

def validateTimeWindow (start stop : ℤ) : Except AppError Unit :=
  if stop ≤ start then .error (.validation "end_time must be after start_time") else .ok ()

/-- A time of day as the library for dates reads it. -/
abbrev ParseTime := String → Option ℤ

def parseTime (parse : ParseTime) (field s : String) : Except AppError ℤ :=
  match parse s with
  | some t => .ok t
  | none => .error (.validation ("invalid " ++ field ++ ": " ++ s))

def parseSlotEntry (parse : ParseTime) (e : CourseScheduleSlotEntry) : Except AppError SlotRow := do
  let start ← parseTime parse "start_time" e.startTime
  let stop ← parseTime parse "end_time" e.endTime
  validateTimeWindow start stop
  return ⟨e.dayOfWeek, start, stop, e.venue⟩

def parseScheduleSlots (parse : ParseTime) (entries : List CourseScheduleSlotEntry) :
    Except AppError (List SlotRow) :=
  entries.mapM (parseSlotEntry parse)

/-! ## Statements -/

/-- The widths of the columns. -/
def Course.columns (c : Course) : Bool :=
  c.name.length ≤ 100 ∧ c.slug.length ≤ 100 ∧ c.category.all (fun s => s.length ≤ 50) ∧
  c.scheduleText.all (fun s => s.length ≤ 100)

/-- The CHECK constraints of the table. -/
def Course.checks (c : Course) : Bool :=
  0 ≤ c.priceCents ∧ 0 < c.durationMinutes ∧ 0 < c.maxStudents ∧
  c.minAge.all fun m => c.maxAge.all (m ≤ ·)

variable (L : Letters)

/-- The entry of `uq_courses_slug_lower` that a course is about to take. -/
def takeCourseSlug (id : Option Uuid) (slug : String) : Tx Unit := do
  let b ← claim (S := Timetable) (.uniq (.courseSlug (L.lower slug))) fun d =>
    !(d.sel .courses fun k c => some k ≠ id ∧ L.lower c.slug = L.lower slug).isEmpty
  ensure (!b) (.conflict "course slug already exists")

def referencesCoach (coachId : Option Uuid) : Tx Unit :=
  match coachId with
  | none => return ()
  | some id => references (S := Timetable) .coaches id (.database (.foreignKey "coaches"))

/-- INSERT INTO courses … RETURNING. -/
def insertCourse (c : Course) : Tx (Uuid × Course) := do
  ensure c.columns (.database .outOfRange)
  ensure c.checks (.database (.check "courses"))
  takeCourseSlug L none c.slug
  referencesCoach c.coachId
  let id ← insert (S := Timetable) .courses id fun _ => c
  return (id, c)

def UpdateCourseRequest.apply (req : UpdateCourseRequest) (level : Option CourseLevel)
    (c : Course) : Course where
  name := req.name.getD c.name
  slug := req.slug.getD c.slug
  level := level.getD c.level
  description := req.description.orElse fun _ => c.description
  durationMinutes := req.durationMinutes.getD c.durationMinutes
  priceCents := req.priceCents.getD c.priceCents
  maxStudents := req.maxStudents.getD c.maxStudents
  minAge := req.minAge.getD c.minAge
  maxAge := req.maxAge.getD c.maxAge
  features := req.features.getD c.features
  isActive := c.isActive
  coachId := req.coachId.getD c.coachId
  category := req.category.getD c.category
  scheduleText := req.scheduleText.getD c.scheduleText
  isHighlighted := req.isHighlighted.getD c.isHighlighted

/-- A new slug gives up the old entry of the index and takes the new one. -/
def courseEntries (id : Uuid) (req : UpdateCourseRequest) (c : Course) : Tx Unit :=
  match req.slug with
  | none => return ()
  | some slug => do
    lockRes (S := Timetable) (.uniq (.courseSlug (L.lower c.slug))) .update
    takeCourseSlug L (some id) slug

/-- UPDATE courses … WHERE id RETURNING. -/
def updateCourseRow (id : Uuid) (req : UpdateCourseRequest) (level : Option CourseLevel) :
    Tx (Option Course) := do
  match ← selectFor (S := Timetable) .courses id (fun _ => true) .noKeyUpdate with
  | none => return none
  | some c => do
    ensure (req.apply level c).columns (.database .outOfRange)
    ensure (req.apply level c).checks (.database (.check "courses"))
    courseEntries L id req c
    referencesCoach (req.coachId.getD none)
    put (S := Timetable) (.mod .courses id (req.apply level))
    return some (req.apply level c)

/-! ## Requests -/

/-- A course as it is shown: its row and its slots. -/
structure CourseDetail where
  id : Uuid
  course : Course
  scheduleSlots : List (Uuid × CourseScheduleSlot)
deriving DecidableEq, Repr

/-- SELECT … FROM course_schedule_slots WHERE course_id ORDER BY day_of_week, start_time. -/
def findSlotsByCourse (courseId : Uuid) (d : Store Timetable) : List (Uuid × CourseScheduleSlot) :=
  (d.sel .courseScheduleSlots fun _ s => s.courseId = courseId).insertionSort fun a b =>
    a.2.dayOfWeek < b.2.dayOfWeek ∨ a.2.dayOfWeek = b.2.dayOfWeek ∧ a.2.startTime ≤ b.2.startTime

def courseDetail (course : Uuid × Course) : Tx CourseDetail := do
  let slots ← read (S := Timetable) (findSlotsByCourse course.1)
  return ⟨course.1, course.2, slots⟩

def createCourse (parse : ParseTime) (req : CreateCourseRequest) : Tx CourseDetail := do
  checked (validatedNested req.validate (validateSlots req.scheduleSlots))
  let level ← orFail (CourseLevel.fromStr L req.level) (.validation invalidCourseLevelMessage)
  let ageRange ← checked (AgeRange.new req.minAge req.maxAge)
  let slug := req.slug.getD (slugify L req.name)
  let parsedSlots ← checked (req.scheduleSlots.mapM (parseScheduleSlots parse))
  let course ← atomically do
    let course ← insertCourse L ⟨req.name, slug, level, req.description, req.durationMinutes,
        req.priceCents, req.maxStudents,
      ageRange.minAge, ageRange.maxAge, req.features.getD [], true, req.coachId, req.category,
      req.scheduleText, req.isHighlighted⟩
    match parsedSlots with
    | none => return course
    | some slots => do
      setInitialScheduleTx course.1 slots
      return course
  courseDetail course

/-- The course's row is locked before the new age bounds are judged against the stored ones. -/
def updateCourse (parse : ParseTime) (id : Uuid) (req : UpdateCourseRequest) (today : ℤ) :
    Tx CourseDetail := do
  checked (validatedNested req.validate (validateSlots req.scheduleSlots))
  let level ← checked (req.level.mapM fun s =>
    match CourseLevel.fromStr L s with
    | some l => .ok l
    | none => .error (.validation invalidCourseLevelMessage))
  let parsedSlots ← checked (req.scheduleSlots.mapM (parseScheduleSlots parse))
  let course ← atomically do
    let existing ← selectFor (S := Timetable) .courses id (fun _ => true) .update
    let existing ← orFail existing (.notFound "course not found")
    let _ ← checked (AgeRange.new (req.minAge.getD existing.minAge)
        (req.maxAge.getD existing.maxAge))
    let course ← updateCourseRow L id req level
    let course ← orFail course (.notFound "course not found")
    match parsedSlots with
    | none => return (id, course)
    | some slots => do
      replaceWeeklyScheduleTx id slots today
      return (id, course)
  courseDetail course

/-! ## The public lookup -/

def findActiveById (id : Uuid) (d : Store Timetable) : Option (Uuid × Course) :=
  ((d.get .courses id).filter (·.isActive)).map fun c => (id, c)

def findActiveBySlug (slug : String) (d : Store Timetable) : Option (Uuid × Course) :=
  (d.sel .courses fun _ c => L.lower c.slug = L.lower slug ∧ c.isActive).head?

/-- Nothing where reading the parameter panics. -/
def getActiveCourseBySlugOrId (parse : ParseUuid) (param : String) : Option (Tx CourseDetail) := do
  let find ← match parse param with
    | .key id => some (findActiveById id)
    | .slug => some (findActiveBySlug L param)
    | .panic => none
  return do
    let course ← read (S := Timetable) find
    let course ← orFail course (.notFound "course not found")
    courseDetail course

/-! ## What refers to a session -/

def referencesSession (id : Uuid) : Tx Unit :=
  references (S := Timetable) .courseSessions id (.database (.foreignKey "course_sessions"))

/-- INSERT INTO leave_requests. -/
def insertLeave (sessionId : Uuid) : Tx Unit := atomically do
  referencesSession sessionId
  let _ ← insert (S := Timetable) .leaveRequests id fun _ => ⟨sessionId, none⟩

/-- UPDATE leave_requests SET makeup_session_id, once for each request. -/
def bookMakeup (id sessionId : Uuid) : Tx Unit := atomically do
  referencesSession sessionId
  let _ ← updateRow (S := Timetable) .leaveRequests id (fun lr => lr.makeupSessionId.isNone)
    fun lr => { lr with makeupSessionId := some sessionId }

/-- INSERT INTO attendance_records. -/
def markAttendance (sessionId : Uuid) : Tx Unit := atomically do
  referencesSession sessionId
  let _ ← insert (S := Timetable) .attendanceRecords id fun _ => ⟨sessionId⟩

/-! ## The service -/

inductive CourseReq
  | createCourse (req : CreateCourseRequest)
  | updateCourse (id : Uuid) (req : UpdateCourseRequest) (today : ℤ)
  | materializeRange (today : ℤ) (courseIds : List Uuid) (first last : ℤ)
  | insertLeave (sessionId : Uuid)
  | bookMakeup (id sessionId : Uuid)
  | markAttendance (sessionId : Uuid)

inductive CourseReply
  | course (c : CourseDetail)
  | range (r : MaterializedRange)
  | done

def CourseReq.prog (parse : ParseTime) : CourseReq → Tx CourseReply
  | .createCourse req => do return .course (← Courses.createCourse L parse req)
  | .updateCourse id req today => do return .course (← Courses.updateCourse L parse id req today)
  | .materializeRange today courseIds first last =>
    do return .range (← Courses.materializeRange today courseIds first last)
  | .insertLeave sessionId => do Courses.insertLeave sessionId; return .done
  | .bookMakeup id sessionId => do Courses.bookMakeup id sessionId; return .done
  | .markAttendance sessionId => do Courses.markAttendance sessionId; return .done

def courses (parse : ParseTime) : Service Timetable AppError CourseReply CourseReq where
  prog := CourseReq.prog L parse
  crash := .database .connection

end DreamFly.Courses
