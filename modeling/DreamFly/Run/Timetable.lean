import DreamFly.Proof.Timetable
import DreamFly.Txn.Books

/-!
# Timetables over whole runs

* `weekly_slots`: however the requests interleave, the weekly slots of a course are those that
  the last commit has set.
* `schedule_reconciled`: an update of a schedule that runs alone brings the future sessions in
  line.
* `calendar_filled`: materializing then fills the calendar in, once and for all.
-/

namespace DreamFly.Courses

open Txn Prog
open Content (Letters)

abbrev CourseSys := Sys Timetable AppError CourseReply CourseReq

abbrev CourseCommit := Entry Timetable AppError CourseReply CourseReq

variable {L : Letters} {parse : ParseTime} {d d' d₀ : Store Timetable} {s s' : CourseSys}
  {γ : List CourseCommit} {x : CourseCommit}
  {t : ℕ} {id : Uuid} {rows : List SlotRow} {today first last : ℤ} {ids : List Uuid}

/-! ## Runs -/

section runs
variable {ok : CourseSys → Event CourseReq → CourseSys → Prop}

theorem courses_ok (h : (courses L parse).Reach ok (Sys.init d) s) :
    s.OK (plainContract fun q _ _ _ => CourseReq.does L parse q) :=
  plain_ok (fun _ _ _ => trivial) h

theorem keyed_reachable (h0 : Keyed d) (h : (courses L parse).Reachable (Sys.init d) s) :
    Keyed s.db := by
  refine plain_inv (W := fun _ => True) (fun _ _ _ => trivial)
    (fun q _ _ _ => CourseReq.does L parse q) h0 (fun q σ _ _ hdoes hk => ?_)
    (h.mono fun _ _ _ _ _ _ _ => trivial)
  exact (hdoes hk).keyed

/-- Every entry of the journal leaves the timetable as its request says. -/
theorem timetable_leaves (h0 : Keyed d) (hj : (courses L parse).Journaled ok d s γ) :
    ∀ x ∈ γ, Keyed x.before ∧ Leaves parse x.req x.before x.after := by
  have hdoes : ∀ x ∈ γ, Keyed x.before → Leaves parse x.req x.before x.after := by
    intro x hx
    obtain ⟨σ, hnow, hdb, -, h⟩ := journal_meets (fun _ hr => courses_ok hr) hj x hx
    rw [← hnow, ← hdb]
    exact h
  intro x hx
  obtain ⟨γ₁, γ₂, rfl⟩ := List.append_of_mem hx
  have hbefore : Keyed x.before :=
    (journal_linked hj).at_entry.1.inv (fun y hy hk =>
      (hdoes y (List.mem_append_left _ hy) hk).keyed) h0
  exact ⟨hbefore, hdoes x hx hbefore⟩

end runs

/-! ## Answers -/

/-- Who may answer without a commit. -/
def CourseReq.Reads : CourseReq → Prop
  | .materializeRange _ _ _ _ => True
  | _ => False

theorem replaceSlotsTx_uncommitting (courseId : Uuid) (slots : List SlotRow) :
    (replaceSlotsTx courseId slots).Uncommitting := by
  refine (Uncommitting.deleteAll _).bind fun _ =>
    (Uncommitting.each (fun row => ?_) slots).bind fun _ => .ret _
  exact (Uncommitting.ensure _ _).bind fun _ => (Uncommitting.claim _ _).bind fun _ =>
    (Uncommitting.ensure _ _).bind fun _ =>
    (Uncommitting.references _ _ _).bind fun _ => (Uncommitting.insert _ _).bind fun _ => .ret _

theorem reconcileFutureSessionsTx_uncommitting (courseId : Uuid) (today : ℤ) :
    (reconcileFutureSessionsTx courseId today).Uncommitting :=
  (Uncommitting.read _).bind fun _ => (Uncommitting.updateAll _ _).bind fun _ =>
    (Uncommitting.read _).bind fun _ =>
    (Uncommitting.deleteAll _).bind fun _ => (Uncommitting.read _).bind fun _ =>
      (Uncommitting.ensure _ _).bind fun _ =>
    (Uncommitting.deleteAll _).bind fun _ => .ret _

theorem takeCourseSlug_uncommitting (id : Option Uuid) (slug : String) :
    (takeCourseSlug L id slug).Uncommitting :=
  (Uncommitting.claim _ _).bind fun _ => .ensure _ _

theorem referencesCoach_uncommitting (id : Option Uuid) : (referencesCoach id).Uncommitting := by
  cases id with
  | none => exact .ret _
  | some id => exact .references _ _ _

theorem updateCourseRow_uncommitting (id : Uuid) (req : UpdateCourseRequest)
    (level : Option CourseLevel) :
    (updateCourseRow L id req level).Uncommitting := by
  refine (Uncommitting.selectFor _ _).bind fun o => ?_
  cases o with
  | none => exact .ret _
  | some c =>
    refine (Uncommitting.ensure _ _).bind fun _ => (Uncommitting.ensure _ _).bind fun _ =>
      Uncommitting.bind ?_ fun _ =>
      (referencesCoach_uncommitting _).bind fun _ => Uncommitting.bind (p := put (S := Timetable) _)
        (fun _ => trivial) fun _ => .ret _
    unfold courseEntries
    cases req.slug with
    | none => exact .ret _
    | some slug => exact (Uncommitting.lockRes _ _).bind fun _ => takeCourseSlug_uncommitting _ _

/-- **A request that has committed can only answer.** -/
theorem CourseReq.firm (q : CourseReq) : ((courses L parse).prog q).Firm fun _ => q.Reads := by
  have hunit : ∀ {p : Tx Unit} {N : CourseReply → Prop}, p.Uncommitting →
      (p.atomically >>= fun _ => pure CourseReply.done).Firm N :=
    fun hp => hp.atomically fun _ => trivial
  cases q with
  | createCourse req =>
    refine Firm.map (N := fun _ => False) ?_ fun _ h => h
    refine (Uncommitting.checked _).firm fun _ => (Uncommitting.orFail _ _).firm fun level =>
      (Uncommitting.checked _).firm fun ages =>
      (Uncommitting.checked _).firm fun parsed => Uncommitting.atomically ?_ fun course _ => trivial
    refine Uncommitting.bind ?_ fun course => ?_
    · exact (Uncommitting.ensure _ _).bind fun _ => (Uncommitting.ensure _ _).bind fun _ =>
        (takeCourseSlug_uncommitting _ _).bind fun _ =>
        (referencesCoach_uncommitting _).bind fun _ =>
          (Uncommitting.insert _ _).bind fun _ => .ret _
    · cases parsed with
      | none => exact .ret _
      | some slots => exact (replaceSlotsTx_uncommitting _ _).bind fun _ => .ret _
  | updateCourse id req today =>
    refine Firm.map (N := fun _ => False) ?_ fun _ h => h
    refine (Uncommitting.checked _).firm fun _ => (Uncommitting.checked _).firm fun level =>
      (Uncommitting.checked _).firm fun parsed =>
      Uncommitting.atomically ?_ fun course _ => trivial
    refine (Uncommitting.selectFor _ _).bind fun _ => (Uncommitting.orFail _ _).bind fun _ =>
      (Uncommitting.checked _).bind fun _ =>
      (updateCourseRow_uncommitting _ _ _).bind fun _ => (Uncommitting.orFail _ _).bind fun _ => ?_
    cases parsed with
    | none => exact .ret _
    | some slots =>
      exact ((replaceSlotsTx_uncommitting _ _).bind
        fun _ => reconcileFutureSessionsTx_uncommitting _ _).bind fun _ => .ret _
  | materializeRange today ids first last =>
    refine Firm.map (N := fun _ => True) ?_ fun _ _ => trivial
    unfold Courses.materializeRange
    split
    · exact trivial
    refine Firm.map (f := fun _ : Unit => (⟨ids, first, last⟩ : MaterializedRange))
      (N := fun _ => True) ?_ fun _ _ => trivial
    unfold insertSessions
    split
    · exact trivial
    refine (Uncommitting.read _).firm fun rows => ?_
    split
    · exact trivial
    refine Uncommitting.handle (p := do let _ ← each insertSession rows) ?_ (fun _ => trivial)
      fun _ => trivial
    refine (Uncommitting.each (fun cs => ?_) rows).bind fun _ => .ret _
    refine (Uncommitting.claim _ _).bind fun b => ?_
    cases b with
    | true => exact .ret _
    | false =>
      exact (Uncommitting.references _ _ _).bind fun _ =>
        (Uncommitting.insert _ _).bind fun _ => .ret _
  | insertLeave sessionId =>
    exact hunit ((Uncommitting.references _ _ _).bind fun _ =>
      (Uncommitting.insert _ _).bind fun _ => .ret _)
  | bookMakeup id sessionId =>
    exact hunit ((Uncommitting.references _ _ _).bind fun _ =>
      (Uncommitting.updateRow _ _).bind fun _ => .ret _)
  | markAttendance sessionId =>
    exact hunit ((Uncommitting.references _ _ _).bind fun _ =>
      (Uncommitting.insert _ _).bind fun _ => .ret _)

/-! ## Alone -/

theorem draws_insertSlot (courseId : Uuid) (row : SlotRow) : (insertSlot courseId row).Draws :=
  (draws_ensure _ _).bind fun _ => (draws_claim _ _).bind fun _ => (draws_ensure _ _).bind fun _ =>
    draws_references.bind fun _ =>
    (draws_insert (fun _ _ h => h) _).bind fun _ => trivial

theorem draws_referencesCoach (id : Option Uuid) : (referencesCoach id).Draws := by
  cases id with
  | none => trivial
  | some id => exact draws_references

theorem draws_updateCourseRow (id : Uuid) (req : UpdateCourseRequest) (level : Option CourseLevel) :
    (updateCourseRow L id req level).Draws := by
  refine (draws_selectFor _ _ _ _).bind fun o => ?_
  cases o with
  | none => trivial
  | some c =>
    refine (draws_ensure _ _).bind fun _ => (draws_ensure _ _).bind fun _ => Draws.bind ?_ fun _ =>
      (draws_referencesCoach _).bind fun _ => trivial
    unfold courseEntries
    cases req.slug with
    | none => trivial
    | some slug =>
      exact (draws_lockRes _ _).bind fun _ => (draws_claim _ _).bind fun _ => draws_ensure _ _

theorem draws_replaceWeeklySchedule (courseId : Uuid) (slots : List SlotRow) (today : ℤ) :
    (replaceWeeklyScheduleTx courseId slots today).Draws := by
  refine Draws.bind ?_ fun _ => ?_
  · exact (draws_deleteAll _).bind fun _ => (Draws.each (draws_insertSlot courseId) slots).bind
      fun _ => trivial
  · exact (draws_read _).bind fun _ => (draws_updateAll _ _).bind fun _ =>
      (draws_read _).bind fun _ => (draws_deleteAll _).bind fun _ =>
      (draws_read _).bind fun _ => (draws_ensure _ _).bind fun _ =>
        (draws_deleteAll _).bind fun _ => trivial

theorem draws_updateCourse (id : Uuid) (req : UpdateCourseRequest) (today : ℤ) :
    ((courses L parse).prog (.updateCourse id req today)).Draws := by
  refine Draws.bind ?_ fun _ => trivial
  refine (draws_checked _).bind fun _ => (draws_checked _).bind fun level =>
    (draws_checked _).bind fun parsed => Draws.bind (Draws.atomically ?_) fun c =>
    (draws_read _).bind fun _ => trivial
  refine (draws_selectFor _ _ _ _).bind fun _ => (draws_orFail _ _).bind fun _ =>
    (draws_checked _).bind fun _ =>
    (draws_updateCourseRow _ _ _).bind fun _ => (draws_orFail _ _).bind fun _ => ?_
  cases parsed with
  | none => trivial
  | some slots => exact (draws_replaceWeeklySchedule _ _ _).bind fun _ => trivial

theorem draws_materializeRange (today : ℤ) (ids : List Uuid) (first last : ℤ) :
    ((courses L parse).prog (.materializeRange today ids first last)).Draws := by
  refine Draws.bind ?_ fun _ => trivial
  unfold Courses.materializeRange
  split
  · trivial
  refine Draws.bind ?_ fun _ => trivial
  unfold insertSessions
  split
  · trivial
  refine (draws_read _).bind fun rows => ?_
  split
  · trivial
  refine Draws.atomically ((Draws.each (fun cs => ?_) rows).bind fun _ => trivial)
  refine (draws_claim _ _).bind fun b => ?_
  cases b with
  | true => trivial
  | false =>
    exact draws_references.bind fun _ => (draws_insert (fun _ _ h => h) _).bind fun _ => trivial

theorem tidy_courseDetail (course : Uuid × Course) : (courseDetail course).Tidy false :=
    fun _ => rfl

theorem courses_tidy (q : CourseReq) : ((courses L parse).prog q).Tidy false := by
  cases q with
  | createCourse req =>
    refine Tidy.bind ?_ fun _ => rfl
    refine (Tidy.checked _).bind fun _ => Tidy.bind ?_ fun level =>
      (Tidy.checked _).bind fun ages => (Tidy.checked _).bind fun parsed =>
      Tidy.atomically.bind fun c => tidy_courseDetail c
    cases CourseLevel.fromStr L req.level <;> exact rfl
  | updateCourse id req today =>
    refine Tidy.bind ?_ fun _ => rfl
    exact (Tidy.checked _).bind fun _ => (Tidy.checked _).bind fun level =>
      (Tidy.checked _).bind fun parsed =>
      Tidy.atomically.bind fun c => tidy_courseDetail c
  | materializeRange today ids first last =>
    refine Tidy.bind ?_ fun _ => rfl
    unfold Courses.materializeRange
    split
    · exact rfl
    refine Tidy.bind ?_ fun _ => rfl
    unfold insertSessions
    split
    · exact rfl
    refine Tidy.bind (p := read _) (fun _ => rfl) fun rows => ?_
    split
    · exact rfl
    · exact Tidy.atomically
  | insertLeave sessionId => exact Tidy.atomically.bind fun _ => rfl
  | bookMakeup id sessionId => exact Tidy.atomically.bind fun _ => rfl
  | markAttendance sessionId => exact Tidy.atomically.bind fun _ => rfl

/-! ## In line -/

/-- A window of a course's calendar after its schedule has been replaced: each slot has its
sessions, and what else is there is from before and referred to. -/
structure InLine (id : Uuid) (rows : List SlotRow) (first last : ℤ)
    (d₀ d' : Store Timetable) : Prop where
  once : sessionKeys.Apart d'
  slots : ∀ row ∈ rows, ∀ date, first ≤ date → date ≤ last → row.dayOfWeek = dayOfWeek date →
    ∃ k, d'.get .courseSessions k = some ((row.slot id).on date)
  rest : ∀ k cs, d'.get .courseSessions k = some cs → cs.courseId = id → first ≤ cs.sessionDate →
    cs.sessionDate ≤ last →
    (∃ row ∈ rows, row.dayOfWeek = dayOfWeek cs.sessionDate ∧
      cs = (row.slot id).on cs.sessionDate) ∨
      d₀.get .courseSessions k = some cs ∧ referenced d₀ k = true ∧
      ∀ row ∈ rows, cs.hasSlot (row.slot id) = false

/-- A future session that has met its fate has a slot, which it is a session of, or is kept. -/
theorem fate_some {slots : List CourseScheduleSlot} {kept : Bool} {cs₀ cs : CourseSession}
    (h : fate slots id today kept cs₀ = some cs)
    (hc : cs₀.courseId = id) (hd : today < cs₀.sessionDate) :
    (∃ s ∈ slots, cs₀.hasSlot s = true ∧ cs = s.on cs₀.sessionDate) ∨
      cs = cs₀ ∧ kept = true ∧ ∀ s ∈ slots, cs₀.hasSlot s = false := by
  unfold fate at h
  rw [if_pos ⟨hc, hd⟩] at h
  cases hfind : slots.find? fun s => cs₀.hasSlot s with
  | some s =>
    rw [hfind] at h
    cases h
    have hs := List.find?_some hfind
    obtain ⟨hcourse, -, hstart⟩ := hasSlot_iff.1 hs
    refine .inl ⟨s, List.mem_of_find?_eq_some hfind, hs, ?_⟩
    unfold CourseScheduleSlot.on
    rw [hcourse, hstart]
  | none =>
    rw [hfind] at h
    cases kept with
    | false => cases h
    | true =>
      cases h
      refine .inr ⟨rfl, rfl, fun s hs => ?_⟩
      simpa using List.find?_eq_none.1 hfind s hs

/-- The key of a session does not change. -/
theorem fate_key {slots : List CourseScheduleSlot} {kept : Bool} {cs₀ cs : CourseSession}
    (h : fate slots id today kept cs₀ = some cs) :
    cs.courseId = cs₀.courseId ∧ cs.sessionDate = cs₀.sessionDate ∧
    cs.startTime = cs₀.startTime := by
  rw [fate_eq] at h
  split at h
  · cases h
  · cases h
    split
    · exact synced_key _ _
    · exact ⟨rfl, rfl, rfl⟩

/-- **Materializing after a replacement** brings the window in line. -/
theorem in_line (hk : Keyed d) (hrec : Reconciled id rows today d₀ d) (hid : id ∈ ids)
    (hfirst : today < first)
    (hfill : Filled (candidates ids first last d) d d') : InLine id rows first last d₀ d' := by
  have hslot : ∀ s : CourseScheduleSlot, s.courseId = id → s ∈ slotsOf ids d →
      ∃ row ∈ rows, s = row.slot id := by
    intro s hc hs
    obtain ⟨k, hks, -⟩ := mem_slotsOf.1 hs
    have hm : s ∈ slotsOf [id] d := mem_slotsOf.2 ⟨k, hks, by simp [hc]⟩
    obtain ⟨row, hrow, he⟩ := List.mem_map.1 (hrec.slots.mem_iff.1 hm)
    exact ⟨row, hrow, he.symm⟩
  have hold : ∀ k cs, d.get .courseSessions k = some cs → cs.courseId = id →
      first ≤ cs.sessionDate →
      (∃ row ∈ rows, row.dayOfWeek = dayOfWeek cs.sessionDate ∧
        cs = (row.slot id).on cs.sessionDate) ∨
        d₀.get .courseSessions k = some cs ∧ referenced d₀ k = true ∧
        ∀ row ∈ rows, cs.hasSlot (row.slot id) = false := by
    intro k cs hks hc hdate
    rw [hrec.sessions] at hks
    obtain ⟨cs₀, hks₀, hfate⟩ := Option.bind_eq_some_iff.1 hks
    obtain ⟨hkc, hkd, -⟩ := fate_key hfate
    rcases fate_some hfate (hkc ▸ hc) (by omega) with ⟨s, hs, hhas, he⟩ | ⟨he, hkept, hno⟩
    · obtain ⟨row, hrow, rfl⟩ := List.mem_map.1 hs
      refine .inl ⟨row, hrow, ?_, ?_⟩
      · rw [hkd]
        exact (hasSlot_iff.1 hhas).2.1
      · rw [hkd]
        exact he
    · subst he
      exact .inr ⟨hks₀, hkept, fun row hrow => hno _ (List.mem_map.2 ⟨row, hrow, rfl⟩)⟩
  refine ⟨hfill.apart hk.sessions, fun row hrow date h1 h2 hday => ?_, fun k cs hks hc h1 h2 => ?_⟩
  · have hm : row.slot id ∈ slotsOf [id] d := hrec.slots.mem_iff.2 (List.mem_map.2 ⟨row, hrow, rfl⟩)
    obtain ⟨kₛ, hkₛ, -⟩ := mem_slotsOf.1 hm
    have hcand : (row.slot id).on date ∈ candidates ids first last d :=
      mem_candidates.2 ⟨row.slot id, mem_slotsOf.2 ⟨kₛ, hkₛ, hid⟩, date, h1, h2, hday, rfl⟩
    obtain ⟨k, r, hkr, hclash⟩ := hfill.all _ hcand
    obtain ⟨hc, hd, ht⟩ := session_clash.1 hclash
    have hc : r.courseId = id := hc
    have hd : r.sessionDate = date := hd
    have ht : r.startTime = row.startTime := ht
    -- whoever has the key is a session of a slot with the same day and start, and that is this one
    have hsame : ∀ row' ∈ rows, row'.dayOfWeek = dayOfWeek r.sessionDate →
        r = (row'.slot id).on r.sessionDate → r = (row.slot id).on date := by
      intro row' hrow' hday' hr
      have hstart : row'.startTime = row.startTime := by
        rw [hr] at ht
        exact ht
      have hhas : r.hasSlot (row'.slot id) = true :=
        hasSlot_iff.2 ⟨hc.symm, hday', hstart.trans ht.symm⟩
      have hhas' : r.hasSlot (row.slot id) = true :=
        hasSlot_iff.2 ⟨hc.symm, by rw [hd]; exact hday, ht.symm⟩
      rw [hrec.distinct.eq (List.mem_map.2 ⟨row', hrow', rfl⟩)
        (List.mem_map.2 ⟨row, hrow, rfl⟩) hhas hhas', hd] at hr
      exact hr
    refine ⟨k, ?_⟩
    rw [hkr]
    congr 1
    rcases hfill.origin k r hkr with hkr | ⟨-, hm⟩
    · rcases hold k r hkr hc (by omega) with ⟨row', hrow', hday', hr⟩ | ⟨-, -, hno⟩
      · exact hsame row' hrow' hday' hr
      · have hhas : r.hasSlot (row.slot id) = true :=
          hasSlot_iff.2 ⟨hc.symm, by rw [hd]; exact hday, ht.symm⟩
        rw [hno row hrow] at hhas
        cases hhas
    · obtain ⟨s, hs, date', -, -, hday', rfl⟩ := mem_candidates.1 hm
      obtain ⟨row', hrow', rfl⟩ := hslot s hc hs
      exact hsame row' hrow' hday' rfl
  · rcases hfill.origin k cs hks with hks | ⟨-, hm⟩
    · exact hold k cs hks hc h1
    · obtain ⟨s, hs, date, -, -, hday, rfl⟩ := mem_candidates.1 hm
      obtain ⟨row, hrow, rfl⟩ := hslot s hc hs
      exact .inl ⟨row, hrow, hday, rfl⟩

/-! ## Results -/

/-- **The weekly slots of a course are those of the last commit that has set them.** In every
run of requests for courses, however they interleave, no two slots of a course share day and
start and no two sessions date and start, and the slots of each course are those of the start
or, as a whole, those of the last request that has set them and committed. Where no connection
is lost after a commit, who has answered has committed, and who has failed has not. -/
theorem weekly_slots (L : Letters) (parse : ParseTime) {ok : CourseSys → Event CourseReq →
    CourseSys → Prop} {d : Store Timetable} {s : CourseSys}
    {γ : List CourseCommit} (h0 : Keyed d) (hj : (courses L parse).Journaled ok d s γ) :
    Keyed s.db ∧ Linked d γ s.db ∧
    (∀ id, ((∀ x ∈ γ, ¬ ∃ rows, x.req.Sets parse x.before x.after id rows) ∧
      (slotsOf [id] s.db).Perm (slotsOf [id] d)) ∨
      ∃ γ₁ x γ₂, γ = γ₁ ++ x :: γ₂ ∧ (∃ rows, x.req.Sets parse x.before x.after id rows) ∧
        (∀ y ∈ γ₂, ¬ ∃ rows, y.req.Sets parse y.before y.after id rows) ∧
        ∃ rows, x.req.Sets parse x.before x.after id rows ∧
          (slotsOf [id] s.db).Perm (rows.map (SlotRow.slot id))) ∧
    ((∀ s e s', ok s e s' → Unbroken s e s') →
      (∀ t c a, s.call t = some c → c.prog = .ret a → ¬ c.req.Reads → ∃ x ∈ γ, x.call = t ∧
        x.req = c.req) ∧
      ∀ t c e, s.call t = some c → c.prog = .fail e → ∀ x ∈ γ, x.call ≠ t) := by
  have hl := journal_linked hj
  have hx := timetable_leaves h0 hj
  refine ⟨keyed_reachable h0 (hj.reach.mono fun _ _ _ _ => trivial), hl, fun id => ?_, fun hok =>
    ⟨fun t c a hc hp hr => ?_, fun t c e hc hp => ?_⟩⟩
  · -- the last entry that sets the slots of the course decides
    refine hl.last (f := slotsOf [id]) (r := List.Perm)
      (P := fun x : CourseCommit => ∃ rows, x.req.Sets parse x.before x.after id rows)
      (I := fun (x : CourseCommit) l => ∃ rows, x.req.Sets parse x.before x.after id rows ∧
        l.Perm (rows.map (SlotRow.slot id)))
      List.Perm.refl (fun _ _ _ h h' => h.trans h') (fun _ _ _ hi hr => ?_)
        (fun x hm hs => ?_) fun x hm hs => ?_
    · obtain ⟨rows, hs, hp⟩ := hi
      exact ⟨rows, hs, hr.trans hp⟩
    · obtain ⟨rows, hs⟩ := hs
      exact ⟨rows, hs, (hx x hm).2.sets id rows hs⟩
    · exact (hx x hm).2.same id fun rows hr => hs ⟨rows, hr⟩
  · exact firm_answered (N := fun q _ => CourseReq.Reads q) CourseReq.firm hok hj hc hp hr
  · exact firm_failed (N := fun q _ => CourseReq.Reads q) CourseReq.firm hok hj hc hp

/-- **A new weekly schedule, when nobody else is about.** With no call in flight an update of a
course's schedule finishes. If it answers, its list can be read and the slots of the course are
what it reads as, and each future
session of the course has taken over the end and the venue of its slot, or has stayed because
something refers to it, or has gone; every other session, each leave request and each attendance
record is as before. If it fails, nothing has changed. -/
theorem schedule_reconciled (L : Letters) (parse : ParseTime) {d : Store Timetable} {s : CourseSys}
    {t : ℕ} (h0 : Keyed d)
    (h : (courses L parse).Reachable (Sys.init d) s) (hq : s.Quiescent) (hnew : s.call t = none)
    {id : Uuid} {req : UpdateCourseRequest}
    {entries : List CourseScheduleSlotEntry} {today : ℤ} (hreq : req.scheduleSlots = some entries) :
    let alone := (courses L parse).Reach (fun _ e _ => e = .start t (.updateCourse id req today) ∨
      e.IsStep t) s
    (∃ s' c', alone s' ∧ s'.call t = some c' ∧ c'.finished = true) ∧
    ∀ s' c', alone s' → s'.call t = some c' → c'.finished = true →
      ((∃ a, c'.prog = .ret a) ∧ ∃ rows, parseScheduleSlots parse entries = .ok rows ∧
        Reconciled id rows today s.db s'.db) ∨
        (∃ e, c'.prog = .fail e) ∧ s'.db = s.db := by
  refine ⟨solo_ends (hq.free courses_tidy h t) hnew (draws_updateCourse id req today),
    fun s' c' hr hc' hf => ?_⟩
  rcases Alone.outcome
      (R := fun _ d' => ∃ rows, parseScheduleSlots parse entries = .ok rows ∧
        Reconciled id rows today s.db d')
      (X := fun _ d' => d' = s.db) hnew (updateCourse_alone hreq
        (keyed_reachable h0 h).slots) hr hc' hf with ⟨a, ha, hrec⟩ | ⟨e, he, hd⟩
  · exact .inl ⟨⟨a, ha⟩, hrec⟩
  · exact .inr ⟨⟨e, he⟩, hd⟩

/-- **Materializing fills the calendar in, once and for all.** With no call in flight it
finishes and answers; every session stays, and what is added are the sessions of the weekly slots
in the window from today on that were missing. Doing it again changes nothing. Where the
schedule of a course has been replaced before and the window is in the future, the window then
has exactly one session for each slot and date, with the end and the venue of the slot, and
beside them the old sessions without a slot that something refers to. -/
theorem calendar_filled (L : Letters) (parse : ParseTime) {d : Store Timetable} {s : CourseSys}
    {t : ℕ} (h0 : Keyed d)
    (h : (courses L parse).Reachable (Sys.init d) s) (hq : s.Quiescent) (hnew : s.call t = none)
    (today : ℤ) (ids : List Uuid) (first last : ℤ) :
    let alone := fun t s => (courses L parse).Reach (fun _ e _ =>
      e = .start t (.materializeRange today ids first last) ∨ e.IsStep t) s
    (∃ s' c', alone t s s' ∧ s'.call t = some c' ∧ c'.finished = true) ∧
    ∀ s' c', alone t s s' → s'.call t = some c' → c'.finished = true →
      (∃ a, c'.prog = .ret a) ∧ Filled (candidates ids (max first today) last s.db) s.db s'.db ∧
      (∀ t' s'' c'', s'.call t' = none → alone t' s' s'' → s''.call t' = some c'' →
        c''.finished = true → s''.db = s'.db) ∧
      ∀ id rows day d₀, Reconciled id rows day d₀ s.db → id ∈ ids → day < first → today ≤ first →
        InLine id rows first last d₀ s'.db := by
  have hk := keyed_reachable h0 h
  refine ⟨solo_ends (hq.free courses_tidy h t) hnew (draws_materializeRange today ids first last),
    fun s' c' hr hc' hf => ?_⟩
  rcases Alone.outcome (R := fun _ d' => Chain Placed
    (candidates ids (max first today) last s.db) s.db d') (X := fun _ _ => False) hnew
    (materializeRange_alone L parse today ids first last hk.parents) hr hc' hf with ⟨a, ha,
      hplaced⟩ | ⟨e, -, hfalse⟩
  · have hfill := filled_of_placed hplaced
    refine ⟨⟨a, ha⟩, hfill, fun t' s'' c'' hnew' hr' hc'' hf'' => ?_,
      fun id rows day d₀ hrec hid hday htoday => ?_⟩
    · have hk' := keyed_reachable h0 (h.trans (hr.mono fun _ _ _ _ => trivial))
      -- filling adds no slot, so the candidates stay
      have hsame : candidates ids (max first today) last s'.db =
          candidates ids (max first today) last s.db := by
        unfold candidates
        rw [slotsOf_only hfill.only (by simp)]
      rcases Alone.outcome (R := fun _ d' => Chain Placed
        (candidates ids (max first today) last s'.db) s'.db d') (X := fun _ _ => False) hnew'
        (materializeRange_alone L parse today ids first last hk'.parents) hr' hc'' hf'' with ⟨-, -,
          hagain⟩ | ⟨-, -, hfalse⟩
      · rw [hsame] at hagain
        exact placed_again hagain hfill.all
      · exact hfalse.elim
    · rw [max_eq_left htoday] at hfill
      exact in_line hk hrec hid hday hfill
  · exact hfalse.elim

/-! ## Samples -/

/-- Letters that are in lower case already. -/
def sameLetters : Letters := ⟨fun s => s, fun s => s⟩

def sampleTimes : ParseTime := fun s =>
  match s with
  | "09:00" => some 32400
  | "10:00" => some 36000
  | "11:00" => some 39600
  | _ => none

/-- One course with a slot on Mondays, and sessions on the Monday and the Tuesday after 20513, a
Sunday. Somebody is on leave on the Tuesday. -/
def oneCourse : Store Timetable
  | .courses =>
    AList.singleton 1 ⟨"Tumbling", "tumbling", .beginner, none, 60, 100000, 10, none, none, [],
      true, none, none, none, false⟩
  | .coaches => ∅
  | .courseScheduleSlots => AList.singleton 31 ⟨1, 1, 32400, 36000, none⟩
  | .courseSessions =>
    (AList.singleton 11 ⟨1, 20514, 32400, 36000, none⟩).insert 12 ⟨1, 20515, 32400, 36000, none⟩
  | .leaveRequests => AList.singleton 21 ⟨12, none⟩
  | .attendanceRecords => ∅

/-- A request that sets the weekly schedule and nothing else. -/
def newSchedule (slots : List CourseScheduleSlotEntry) : UpdateCourseRequest :=
  ⟨none, none, none, none, none, none, none, none, none, none, none, none, none, none, some slots⟩

theorem keyed_oneCourse : Keyed oneCourse := by
  refine ⟨fun k k' r r' hk hk' _ => ?_, fun k k' r r' hk hk' hc => ?_, fun k r hk => ?_⟩
  · have hone : ∀ x ∈ (oneCourse .courseScheduleSlots).rows, x.1 = 31 := by decide +kernel
    exact (hone (k, r) (Table.mem_rows.2 hk)).trans (hone (k', r') (Table.mem_rows.2 hk')).symm
  · have hdates : ∀ x ∈ (oneCourse .courseSessions).rows, ∀ y ∈ (oneCourse .courseSessions).rows,
        x.2.sessionDate = y.2.sessionDate → x.1 = y.1 := by decide +kernel
    exact hdates (k, r) (Table.mem_rows.2 hk) (k', r') (Table.mem_rows.2 hk')
      (session_clash.1 hc).2.1
  · exact Store.get_all (P := fun _ (s : CourseScheduleSlot) =>
      (oneCourse.get .courses s.courseId).isSome = true) (by decide +kernel) hk

/-- Two updates of one schedule, the second of which waits for the first. -/
def sampleSchedules : List (Event CourseReq) :=
  .start 0 (.updateCourse 1 (newSchedule [⟨1, "09:00", "11:00", none⟩]) 20513) ::
  Event.steps 0 100 5 ++
    .start 1 (.updateCourse 1 (newSchedule [⟨2, "09:00", "10:00", none⟩]) 20513) ::
    Event.steps 1 200 1 ++ Event.steps 0 200 27 ++
    Event.steps 1 300 30

theorem weekly_slots_twice :
    let y := (courses sameLetters sampleTimes).journalAfter sampleSchedules oneCourse
    y.2.map Entry.call = [0, 1] ∧ slotsOf [1] y.1.db = [⟨1, 2, 32400, 36000, none⟩] ∧
      Keyed y.1.db := by
  have hrun : ∀ y, y = (courses sameLetters sampleTimes).journalAfter sampleSchedules oneCourse →
      y.2.map Entry.call = [0, 1] ∧ slotsOf [1] y.1.db = [⟨1, 2, 32400, 36000, none⟩] := by
    rintro _ rfl
    decide +kernel
  obtain ⟨hcalls, hslots⟩ := hrun _ rfl
  exact ⟨hcalls, hslots, (weekly_slots sameLetters sampleTimes keyed_oneCourse
    (journaled_after (fun _ _ _ => trivial) _ _)).1⟩

theorem quiescent_init (d : Store Timetable) : (Sys.init d : CourseSys).Quiescent :=
    fun t c hc => by rw [Sys.call_init] at hc; cases hc

/-- A call that runs alone. -/
theorem reach_alone {V : Service Timetable AppError CourseReply CourseReq} {q : CourseReq}
    {n m : ℕ} :
    V.Reach (fun _ e _ => e = .start t q ∨ e.IsStep t) s
      (V.after (.start t q :: Event.steps t n m) s) := by
  refine Service.reach_after fun e he _ _ => ?_
  rcases List.mem_cons.1 he with rfl | he
  · exact .inl rfl
  · obtain ⟨i, -, rfl⟩ := List.mem_map.1 he
    exact .inr ⟨_, rfl⟩

theorem schedule_reconciled_monday :
    let s := (courses sameLetters sampleTimes).after
      (.start 0 (.updateCourse 1 (newSchedule [⟨1, "09:00", "11:00", none⟩]) 20513) ::
        Event.steps 0 100 32) (Sys.init oneCourse)
    Reconciled 1 [⟨1, 32400, 39600, none⟩] 20513 oneCourse s.db ∧
      s.db.get .courseSessions 11 = some ⟨1, 20514, 32400, 39600, none⟩ ∧
      s.db.get .courseSessions 12 = some ⟨1, 20515, 32400, 36000, none⟩ := by
  intro s
  have hrun : ∀ s', s' = s → (s'.call 0).map (fun c => (c.finished, c.returned)) =
      some (true, true) ∧
      s'.db.get .courseSessions 11 = some ⟨1, 20514, 32400, 39600, none⟩ ∧
        s'.db.get .courseSessions 12 = some ⟨1, 20515, 32400, 36000, none⟩ := by
    rintro _ rfl
    decide +kernel
  obtain ⟨hcall, hsessions⟩ := hrun _ rfl
  obtain ⟨c, hc, hret⟩ := Option.map_eq_some_iff.1 hcall
  obtain ⟨hfin, hret⟩ := Prod.mk.inj hret
  obtain ⟨-, hall⟩ := @schedule_reconciled sameLetters sampleTimes _ _ 0 keyed_oneCourse .refl
    (quiescent_init oneCourse) (Sys.call_init ..)
    1 (newSchedule [⟨1, "09:00", "11:00", none⟩]) _ 20513 rfl
  rcases hall _ c reach_alone hc hfin with ⟨-, rows, hrows, hrec⟩ | ⟨⟨e, he⟩, -⟩
  · obtain rfl : [⟨1, 32400, 39600, none⟩] = rows := Except.ok.inj hrows
    exact ⟨hrec, hsessions⟩
  · unfold Call.returned at hret
    rw [he] at hret
    cases hret

/-- The schedule of the course is already as a replacement would leave it. -/
theorem reconciled_oneCourse :
    Reconciled 1 [⟨1, 32400, 36000, none⟩] 20513 oneCourse oneCourse := by
  refine ⟨List.pairwise_singleton _ _, by decide +kernel, fun _ _ _ => Iff.rfl, fun k => ?_,
    fun _ => rfl, fun _ => rfl⟩
  cases hk : oneCourse.get .courseSessions k with
  | none => rfl
  | some cs =>
    exact Store.get_all (P := fun k (cs : CourseSession) =>
      some cs = fate ([⟨1, 32400, 36000, none⟩].map (SlotRow.slot 1)) 1 20513
        (referenced oneCourse k) cs) (by decide +kernel) hk

theorem calendar_filled_fortnight :
    let s := (courses sameLetters sampleTimes).after
      (.start 0 (.materializeRange 20513 [1] 20514 20527) :: Event.steps 0 100 10)
      (Sys.init oneCourse)
    InLine 1 [⟨1, 32400, 36000, none⟩] 20514 20527 oneCourse s.db ∧
      (s.db.count .courseSessions fun _ _ => true) = 3 := by
  intro s
  have hrun : ∀ s', s' = s → (s'.call 0).map Call.finished = some true ∧
      (s'.db.count .courseSessions fun _ _ => true) = 3 := by
    rintro _ rfl
    decide +kernel
  obtain ⟨hcall, hthree⟩ := hrun _ rfl
  obtain ⟨c, hc, hfin⟩ := Option.map_eq_some_iff.1 hcall
  obtain ⟨-, hall⟩ := calendar_filled sameLetters sampleTimes (t := 0) keyed_oneCourse .refl
    (quiescent_init oneCourse) (Sys.call_init ..)
    20513 [1] 20514 20527
  obtain ⟨-, -, -, hline⟩ := hall _ c reach_alone hc hfin
  exact ⟨hline 1 [⟨1, 32400, 36000, none⟩] 20513 oneCourse reconciled_oneCourse
    (List.mem_singleton.2 rfl) (by decide) (by decide), hthree⟩

end DreamFly.Courses
