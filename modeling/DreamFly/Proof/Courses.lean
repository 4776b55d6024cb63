import DreamFly.Courses.Service
import DreamFly.Txn.Plain

/-!
# Courses, proved

What each request does to the courses where it commits (`CourseReq.Edits`,
`CourseReq.edits`): a create request adds the course that its body says, an update changes
the course as its body says, and no other request touches one. Whatever else they write is
in the tables of the calendar.
-/

namespace DreamFly.Courses

open Txn Prog Plain
open Content (Letters slugify)

/-- Slots, sessions and what refers to them. -/
def calendar : List CourseTbl := [.courseScheduleSlots, .courseSessions, .leaveRequests,
    .attendanceRecords]

/-- The course that a create request asks for. -/
def CreateCourseRequest.course (req : CreateCourseRequest) (L : Letters) (level : CourseLevel)
    (ages : AgeRange) : Course :=
  ⟨req.name, req.slug.getD (slugify L req.name), level, req.description, req.durationMinutes,
    req.priceCents, req.maxStudents,
    ages.minAge, ages.maxAge, req.features.getD [], true, req.coachId, req.category,
    req.scheduleText, req.isHighlighted⟩

/-- The transaction added this course. -/
def Added (course : Course) (σ : Pt Timetable) : Prop :=
  ∃ k, σ.now.get .courses k = none ∧ Only calendar (σ.now.apply (.add .courses k course)) σ.db

/-- The transaction changed course `id` by `f`. -/
def Modified (id : Uuid) (f : Course → Course) (σ : Pt Timetable) : Prop :=
  ∃ c, σ.now.get .courses id = some c ∧ Only calendar (σ.now.apply (.mod .courses id f)) σ.db

/-- What a request does to the courses where it commits. -/
def CourseReq.Edits (L : Letters) : CourseReq → Pt Timetable → Prop
  | .createCourse req, σ => ∃ level ages, Added (req.course L level ages) σ
  | .updateCourse id req _, σ => ∃ level, Modified id (req.apply level) σ
  | _, σ => Only calendar σ.now σ.db

variable {C : Pt Timetable → Prop} {σ : Pt Timetable} {L : Letters} {d d' : Store Timetable}
  {parse : ParseTime}

/-! ## The calendar -/

theorem insertSlot_within (courseId : Uuid) (row : SlotRow) :
    Within (rowLocks Timetable) C calendar (insertSlot courseId row) := by
  refine (Quiet.ensure _ _).within.bind fun _ => (Quiet.claim _ _).within.bind fun b =>
    (Quiet.ensure _ _).within.bind fun _ => ?_
  refine (Quiet.references _ _ _).within.bind fun _ => ?_
  exact (Within.insert (by decide)).bind fun _ => (Quiet.ret _).within

theorem replaceSlotsTx_within (courseId : Uuid) (slots : List SlotRow) :
    Within (rowLocks Timetable) C calendar (replaceSlotsTx courseId slots) :=
  (Within.deleteAll (by decide)).bind fun _ =>
    (Within.each fun row _ => insertSlot_within courseId row).bind fun _ => (Quiet.ret _).within

theorem reconcileFutureSessionsTx_within (courseId : Uuid) (today : ℤ) :
    Within (rowLocks Timetable) C calendar (reconcileFutureSessionsTx courseId today) := by
  refine (Quiet.read _).within.bind fun slots => (Within.updateAll (by decide)).bind fun _ => ?_
  refine (Quiet.read _).within.bind fun ids => (Within.deleteAll (by decide)).bind fun _ => ?_
  refine (Quiet.read _).within.bind fun b => (Quiet.ensure _ _).within.bind fun _ => ?_
  exact (Within.deleteAll (by decide)).bind fun _ => (Quiet.ret _).within

theorem replaceWeeklyScheduleTx_within (courseId : Uuid) (slots : List SlotRow) (today : ℤ) :
    Within (rowLocks Timetable) C calendar (replaceWeeklyScheduleTx courseId slots today) :=
  (replaceSlotsTx_within courseId slots).bind fun _ =>
    reconcileFutureSessionsTx_within courseId today

theorem insertSession_within (cs : CourseSession) :
    Within (rowLocks Timetable) C calendar (insertSession cs) := by
  refine (Quiet.claim _ _).within.bind fun b => ?_
  cases b with
  | true => exact (Quiet.ret _).within
  | false =>
    refine (Quiet.references _ _ _).within.bind fun _ => ?_
    exact (Within.insert (by decide)).bind fun _ => (Quiet.ret _).within

/-! ## The row of a course -/

theorem takeCourseSlug_quiet (id : Option Uuid) (slug : String) :
    Quiet (rowLocks Timetable) C (takeCourseSlug L id slug) :=
  (Quiet.claim _ _).bind fun _ => Quiet.ensure _ _

theorem referencesCoach_quiet (id : Option Uuid) :
    Quiet (rowLocks Timetable) C (referencesCoach id) := by
  cases id with
  | none => exact Quiet.ret ()
  | some id => exact Quiet.references _ _ _

theorem courseEntries_quiet (id : Uuid) (req : UpdateCourseRequest) (c : Course) :
    Quiet (rowLocks Timetable) C (courseEntries L id req c) := by
  unfold courseEntries
  cases req.slug with
  | none => exact Quiet.ret ()
  | some slug => exact (Quiet.lockRes _ _).bind fun _ => takeCourseSlug_quiet _ _

theorem insertCourse_plain {course : Course} (hσ : σ.db = σ.now) :
    Plain (rowLocks Timetable) C σ (insertCourse L course) fun _ σ' =>
      ∃ k, σ'.now.get .courses k = none ∧ σ'.db = σ'.now.apply (.add .courses k course) := by
  refine Yields.bind (Quiet.ensure _ _ _) fun _ σ₁ h1 hd₁ =>
    Yields.bind (Quiet.ensure _ _ _) fun _ σ₂ h2 hd₂ => ?_
  refine Yields.bind (takeCourseSlug_quiet _ _ _) fun _ σ₃ h3 hd₃ =>
    Yields.bind (referencesCoach_quiet _ _) fun _ σ₄ h4 hd₄ => ?_
  have hnow : σ₄.now = σ.now := by rw [h4.now, h3.now, h2.now, h1.now]
  have hdb : σ₄.db = σ₄.now := by rw [hd₄, hd₃, hd₂, hd₁, hσ, hnow]
  refine Yields.bind (Yields.insert fun n => rowLocks_covers (holds_acquire _ _ _))
    fun n σ₅ h5 ⟨hn, _, _, he⟩ => .pure ⟨n, ?_, ?_⟩
  · rw [h5.now]; exact hn
  · rw [h5.now, ← hdb, he]; rfl

theorem updateCourseRow_plain {id : Uuid} {req : UpdateCourseRequest} {level : Option CourseLevel}
    (hσ : σ.db = σ.now) :
    Plain (rowLocks Timetable) C σ (updateCourseRow L id req level) fun r σ' => r.isSome = true →
      ∃ c, σ'.now.get .courses id = some c ∧
        σ'.db = σ'.now.apply (.mod .courses id (req.apply level)) := by
  refine Yields.bind (Yields.selectFor (m := .noKeyUpdate) (by decide) trivial)
    fun r σ₁ h1 ⟨hd₁, hr⟩ => ?_
  cases r with
  | none => exact .pure fun h => (nomatch h)
  | some c =>
    obtain ⟨hh, hg, -⟩ := hr c rfl
    refine Yields.bind (Quiet.ensure _ _ _) fun _ σ₂ h2 hd₂ =>
      Yields.bind (Quiet.ensure _ _ _) fun _ σ₃ h3 hd₃ => ?_
    refine Yields.bind (courseEntries_quiet _ _ _ _) fun _ σ₄ h4 hd₄ =>
      Yields.bind (referencesCoach_quiet _ _) fun _ σ₅ h5 hd₅ => ?_
    have hnow : σ₅.now = σ.now := by rw [h5.now, h4.now, h3.now, h2.now, h1.now]
    have hdb : σ₅.db = σ.db := by rw [hd₅, hd₄, hd₃, hd₂, hd₁]
    have hheld : Holds σ₅.held (.row .courses id) .noKeyUpdate :=
      h5.holds (h4.holds (h3.holds (h2.holds hh)))
    refine Yields.bind (Yields.put (rowLocks_covers hheld)) fun _ σ₆ h6 he => .pure fun _ =>
      ⟨c, ?_, ?_⟩
    · rw [h6.now, hnow, ← hσ]; exact hg
    · rw [h6.now, hnow, ← hσ, he, ← hdb]; rfl

/-! ## Requests -/

theorem courseDetail_quiet (course : Uuid × Course) :
    Quiet (rowLocks Timetable) C (courseDetail course) :=
  (Quiet.read _).bind fun _ => Quiet.ret _

theorem createCourse_edits (req : CreateCourseRequest) :
    Commits (rowLocks Timetable) (CourseReq.Edits L (.createCourse req)) (createCourse L parse req)
    (.begin d d' false) := by
  unfold createCourse
  refine commits_bind (R := fun _ σ' => σ' = .begin d d' false)
    (plain_checked fun _ _ => rfl) fun _ σ₁ _ h₁ => ?_
  subst h₁
  refine commits_bind (R := fun _ σ' => σ' = .begin d d' false)
    (.orFail (fun _ _ => rfl) trivial) fun level σ₂ _ h₂ => ?_
  subst h₂
  refine commits_bind (R := fun _ σ' => σ' = .begin d d' false)
    (plain_checked fun _ _ => rfl) fun ages σ₃ _ h₃ => ?_
  subst h₃
  refine commits_bind (R := fun _ σ' => σ' = .begin d d' false)
    (plain_checked fun _ _ => rfl) fun parsed σ₄ _ h₄ => ?_
  subst h₄
  refine commits_then (R := fun _ σ' => Added (req.course L level ages) σ') ?_
    (fun _ _ _ h => ⟨level, ages, h⟩)
    fun course σ' => (courseDetail_quiet course).commits
  refine Yields.bind (insertCourse_plain rfl) fun course σ₅ _ ⟨k, hk, hdb⟩ => ?_
  have hdb : σ₅.db = σ₅.now.apply (.add .courses k (req.course L level ages)) := hdb
  cases parsed with
  | none => exact .pure ⟨k, hk, by rw [hdb]; exact .refl _ _⟩
  | some slots =>
    refine Yields.bind (replaceSlotsTx_within _ _ _) fun _ σ₆ h6 hd₆ => .pure ⟨k, ?_, ?_⟩
    · rw [h6.now]; exact hk
    · rw [h6.now, ← hdb]; exact hd₆

theorem updateCourse_edits (id : Uuid) (req : UpdateCourseRequest) (today : ℤ) :
    Commits (rowLocks Timetable) (CourseReq.Edits L (.updateCourse id req today))
    (updateCourse L parse id req today)
      (.begin d d' false) := by
  unfold updateCourse
  refine commits_bind (R := fun _ σ' => σ' = .begin d d' false)
    (plain_checked fun _ _ => rfl) fun _ σ₁ _ h₁ => ?_
  subst h₁
  refine commits_bind (R := fun _ σ' => σ' = .begin d d' false)
    (plain_checked fun _ _ => rfl) fun level σ₂ _ h₂ => ?_
  subst h₂
  refine commits_bind (R := fun _ σ' => σ' = .begin d d' false)
    (plain_checked fun _ _ => rfl) fun parsed σ₃ _ h₃ => ?_
  subst h₃
  refine commits_then (R := fun _ σ' => Modified id (req.apply level) σ') ?_
    (fun _ _ _ h => ⟨level, h⟩)
    fun course σ' => (courseDetail_quiet course).commits
  refine Yields.bind (Yields.selectFor (m := .update) (by decide) trivial)
    fun existing σ₄ h4 ⟨hd₄, _⟩ => ?_
  refine Yields.bind (Quiet.orFail _ _ _) fun existing σ₅ h5 hd₅ => ?_
  refine Yields.bind (plain_checked (R := fun _ σ' => σ' = σ₅) fun _ _ => rfl) fun _ σ₆ _ h6 => ?_
  subst h6
  have hbegin : σ₆.db = σ₆.now := by rw [hd₅, hd₄, h5.now, h4.now]; rfl
  refine Yields.bind (updateCourseRow_plain hbegin) fun course σ₇ h7 hc => ?_
  refine Yields.bind (R := fun _ σ' => σ' = σ₇ ∧ course.isSome = true)
    (.orFail (fun a ha => ⟨rfl, by rw [ha]; rfl⟩) trivial)
    fun course' σ₈ _ ⟨h8, hsome⟩ => ?_
  subst h8
  obtain ⟨c, hk, hdb⟩ := hc hsome
  cases parsed with
  | none => exact .pure ⟨c, hk, by rw [hdb]; exact .refl _ _⟩
  | some slots =>
    refine Yields.bind (replaceWeeklyScheduleTx_within _ _ _ _) fun _ σ₉ h9 hd₉ => .pure ⟨c, ?_, ?_⟩
    · rw [h9.now]; exact hk
    · rw [h9.now, ← hdb]; exact hd₉

theorem insertSessions_edits (courseIds : List Uuid) (first last : ℤ) :
    Commits (rowLocks Timetable) (fun σ => Only calendar σ.now σ.db)
    (insertSessions courseIds first last) (.begin d d' false) := by
  unfold insertSessions
  split
  · exact (Quiet.ret ()).commits
  · refine commits_bind (R := fun _ σ' => σ' = .begin d d' false)
      (.read fun _ _ _ => rfl) fun rows σ₁ _ h₁ => ?_
    subst h₁
    split
    · exact (Quiet.ret ()).commits
    · refine commits_atomically (R := fun _ σ' => Only calendar d' σ'.db) ?_ fun _ σ' hl h => by
        rw [hl.now]; exact h
      exact (Within.each fun cs _ => insertSession_within cs).bind
        (fun _ => (Quiet.ret ()).within) _

theorem Within.only {α : Type} {p : Tx α} (h : Within (rowLocks Timetable)
    (fun σ => Only calendar σ.now σ.db) calendar p) :
    Commits (rowLocks Timetable) (fun σ => Only calendar σ.now σ.db) p.atomically
      (.begin d d' false) :=
  commits_atomically (h _) fun _ _ hl ho => by rw [hl.now]; exact ho

theorem referencesSession_quiet (id : Uuid) : Quiet (rowLocks Timetable) C (referencesSession id) :=
    Quiet.references _ _ _

/-- **Every request does to the courses where it commits what `Edits` says.** -/
theorem CourseReq.edits (q : CourseReq) : Commits (rowLocks Timetable) (q.Edits L)
    ((courses L parse).prog q) (.begin d d' false) := by
  cases q with
  | createCourse req =>
    exact commits_map (createCourse_edits req)
  | updateCourse id req today =>
    exact commits_map (updateCourse_edits id req today)
  | materializeRange today courseIds first last =>
    refine commits_map ?_
    unfold Courses.materializeRange
    split
    · exact (Quiet.ret _).commits
    · exact commits_map (insertSessions_edits courseIds (max first today) last)
  | insertLeave sessionId =>
    refine commits_map (Within.only ?_)
    exact (referencesSession_quiet _).within.bind fun _ => (Within.insert (by decide)).bind fun _ =>
      (Quiet.ret _).within
  | bookMakeup id sessionId =>
    refine commits_map (Within.only ?_)
    exact (referencesSession_quiet _).within.bind fun _ =>
      (Within.updateRow (by decide)).bind fun _ => (Quiet.ret _).within
  | markAttendance sessionId =>
    refine commits_map (Within.only ?_)
    exact (referencesSession_quiet _).within.bind fun _ => (Within.insert (by decide)).bind fun _ =>
      (Quiet.ret _).within

end DreamFly.Courses
