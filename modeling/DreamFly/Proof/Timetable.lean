import DreamFly.Proof.Reconcile
import DreamFly.Txn.Firm

/-!
# What requests for courses commit to the timetable

Whoever adds weekly slots to a course has its row locked, so that a replacement of them finds
all there are, and a slot or a session is inserted under its key.
-/

namespace DreamFly.Courses

open Txn Prog Plain
open Content (Letters)

variable {C : Pt Timetable → Prop} {σ : Pt Timetable} {L : Letters} {parse : ParseTime}
  {d d' : Store Timetable} {id : Uuid}
  {rows : List SlotRow} {H : Locks (Res Timetable)} {w : Write Timetable} {α : Type}

/-! ## Rules -/

/-- Nobody adds a weekly slot to a course that somebody else updates. -/
def slotOwners : Protect Timetable :=
  .noNew .courseScheduleSlots (fun c _ s => s.courseId = c)
    (fun c => .row .courses c) .update .noKeyUpdate (by decide)

def timetableRules : Discipline Timetable :=
  (Protect.all [slotKeys.protect, sessionKeys.protect, slotOwners, .noDelete .courses]).discipline

/-- The guards of the four rules. -/
theorem timetable_covers (hh : Holds H w.res .noKeyUpdate) (h₁ : slotKeys.protect.guard H w)
    (h₂ : sessionKeys.protect.guard H w)
    (h₃ : slotOwners.guard H w) (h₄ : ∀ k, w ≠ .del .courses k) : timetableRules.Covers H w := by
  refine ⟨hh, fun P hP => ?_⟩
  simp only [List.mem_cons, List.not_mem_nil, or_false] at hP
  rcases hP with rfl | rfl | rfl | rfl
  · exact h₁
  · exact h₂
  · exact h₃
  · exact h₄

/-- A write to neither slots nor sessions, and no course removed. -/
theorem covers_other (hh : Holds H w.res .noKeyUpdate) (hslots : w.tbl ≠ .courseScheduleSlots)
    (hsessions : w.tbl ≠ .courseSessions)
    (hdel : ∀ k, w ≠ .del .courses k) : timetableRules.Covers H w := by
  refine timetable_covers hh (Exclusion.guard_other hslots) (Exclusion.guard_other hsessions)
    ⟨fun k row he => ?_, fun k f he => ?_⟩ hdel
  · exact absurd (by rw [he]; rfl) hslots
  · exact absurd (by rw [he]; rfl) hslots

/-- A write to the sessions. -/
theorem covers_session (hh : Holds H w.res .noKeyUpdate) (ht : w.tbl = .courseSessions)
    (hg : sessionKeys.protect.guard H w) :
    timetableRules.Covers H w := by
  have hslots : w.tbl ≠ .courseScheduleSlots := by rw [ht]; decide
  refine timetable_covers hh (Exclusion.guard_other hslots) hg ⟨fun k row he => ?_,
    fun k f he => ?_⟩ fun k he => ?_
  · exact absurd (by rw [he]; rfl) hslots
  · exact absurd (by rw [he]; rfl) hslots
  · rw [he] at ht
    cases ht

theorem rel_slotKeys {v : Store Timetable} (h : timetableRules.rel H v d) :
    slotKeys.protect.rel H v d :=
  h.2 _ (by simp)

theorem rel_sessionKeys {v : Store Timetable} (h : timetableRules.rel H v d) :
    sessionKeys.protect.rel H v d :=
  h.2 _ (by simp)

theorem rel_owners {v : Store Timetable} (h : timetableRules.rel H v d) : slotOwners.rel H v d :=
  h.2 _ (by simp)

/-! ## A well kept timetable -/

/-- Slots and sessions differ in their keys, and each slot has its course. -/
structure Keyed (d : Store Timetable) : Prop where
  slots : slotKeys.Apart d
  sessions : sessionKeys.Apart d
  parents : ∀ k s, d.get .courseScheduleSlots k = some s → (d.get .courses s.courseId).isSome = true

/-- The slots of a course are those of a list, and nothing is done to the others. -/
structure Puts (id : Uuid) (rows : List SlotRow) (d d' : Store Timetable) : Prop where
  slots : (slotsOf [id] d').Perm (rows.map (SlotRow.slot id))
  others : ∀ k s, s.courseId ≠ id → (d'.get .courseScheduleSlots k = some s ↔
    d.get .courseScheduleSlots k = some s)

theorem Puts.same (h : Puts id rows d d') {id' : Uuid} (hid : id' ≠ id) :
    (slotsOf [id'] d').Perm (slotsOf [id'] d) := by
  refine List.Perm.map _ (Store.sel_perm fun k s hs => ?_)
  have hcourse : s.courseId = id' := by simpa using hs
  exact (h.others k s (by rw [hcourse]; exact hid))

/-- The course whose slots a committed request has set, and the list. -/
def CourseReq.Sets (parse : ParseTime) (d d' : Store Timetable) (id : Uuid) (rows : List SlotRow) :
    CourseReq → Prop
  | .createCourse req => d.get .courses id = none ∧ (d'.get .courses id).isSome = true ∧
      ∃ entries, req.scheduleSlots = some entries ∧ parseScheduleSlots parse entries = .ok rows
  | .updateCourse id' req _ =>
    id' = id ∧ ∃ entries, req.scheduleSlots = some entries ∧
      parseScheduleSlots parse entries = .ok rows
  | _ => False

/-- What a committed request leaves of a timetable that is well kept. -/
structure Leaves (parse : ParseTime) (q : CourseReq) (d d' : Store Timetable) : Prop where
  keyed : Keyed d'
  sets : ∀ id rows, q.Sets parse d d' id rows → (slotsOf [id] d').Perm (rows.map (SlotRow.slot id))
  same : ∀ id, (∀ rows, ¬ q.Sets parse d d' id rows) → (slotsOf [id] d').Perm (slotsOf [id] d)

def CourseReq.Does (parse : ParseTime) (q : CourseReq) (σ : Pt Timetable) : Prop := Keyed σ.now →
    Leaves parse q σ.now σ.db

/-- What touches the slots of no course. -/
structure Spares (d d' : Store Timetable) : Prop where
  slots : ∀ k, d'.get .courseScheduleSlots k = d.get .courseScheduleSlots k
  courses : ∀ k, (d.get .courses k).isSome = true → (d'.get .courses k).isSome = true
  sessions : sessionKeys.Apart d → sessionKeys.Apart d'

theorem Spares.refl (d : Store Timetable) : Spares d d := ⟨fun _ => rfl, fun _ h => h, fun h => h⟩

theorem Spares.trans {d₁ : Store Timetable} (h : Spares d d₁) (h' : Spares d₁ d') : Spares d d' :=
  ⟨fun k => (h'.slots k).trans (h.slots k), fun k hk => h'.courses k (h.courses k hk),
    fun ha => h'.sessions (h.sessions ha)⟩

theorem Spares.only {ts : List CourseTbl} (h : Only (S := Timetable) ts d d')
    (hts : ∀ t ∈ ts, t = .leaveRequests ∨ t = .attendanceRecords) :
    Spares d d' := by
  have hn : ∀ t : CourseTbl, t ≠ .leaveRequests → t ≠ .attendanceRecords → t ∉ ts :=
    fun t h1 h2 hm => (hts t hm).elim h1 h2
  refine ⟨fun k => h.get (hn _ (by decide) (by decide)) k, fun k hk => ?_,
    fun ha => ha.only h (hn _ (by decide) (by decide))⟩
  rw [h.get (hn _ (by decide) (by decide))]
  exact hk

theorem Spares.slotsOf (h : Spares d d') (id : Uuid) : (slotsOf [id] d').Perm (slotsOf [id] d) :=
  List.Perm.map _ (Store.sel_perm fun k s _ => by rw [h.slots])

theorem Spares.keyed (h : Spares d d') (hk : Keyed d) : Keyed d' := by
  refine ⟨hk.slots.sub fun k s hs => by rw [← h.slots]; exact hs, h.sessions hk.sessions,
    fun k s hs => h.courses _ (hk.parents k s ?_)⟩
  rw [← h.slots]
  exact hs

/-! ## Pieces -/

theorem takeCourseSlug_still (id : Option Uuid) (slug : String) :
    Quiet timetableRules C (takeCourseSlug L id slug) :=
  (Quiet.claim _ _).bind fun _ => Quiet.ensure _ _

theorem referencesCoach_still (id : Option Uuid) : Quiet timetableRules C (referencesCoach id) := by
  cases id with
  | none => exact Quiet.ret ()
  | some id => exact Quiet.references _ _ _

theorem courseEntries_still (id : Uuid) (req : UpdateCourseRequest) (c : Course) :
    Quiet timetableRules C (courseEntries L id req c) := by
  unfold courseEntries
  cases req.slug with
  | none => exact Quiet.ret ()
  | some slug => exact (Quiet.lockRes _ _).bind fun _ => takeCourseSlug_still _ _

/-- A new course is locked, and was not there. -/
theorem insertCourse_puts {course : Course} :
    Plain timetableRules C σ (insertCourse L course) fun r σ' =>
    σ.now.get .courses r.1 = none ∧ Holds σ'.held (.row .courses r.1) .noKeyUpdate ∧
    σ'.db = σ.db.apply (.add .courses r.1 course) := by
  refine Yields.bind (Quiet.ensure _ _ _) fun _ σ₁ h1 hd₁ =>
    Yields.bind (Quiet.ensure _ _ _) fun _ σ₂ h2 hd₂ => ?_
  refine Yields.bind (takeCourseSlug_still _ _ _) fun _ σ₃ h3 hd₃ =>
    Yields.bind (referencesCoach_still _ _) fun _ σ₄ h4 hd₄ => ?_
  have hnow : σ₄.now = σ.now := by rw [h4.now, h3.now, h2.now, h1.now]
  have hdb : σ₄.db = σ.db := by rw [hd₄, hd₃, hd₂, hd₁]
  refine Yields.bind (Yields.insert fun n => covers_other (holds_acquire _ _ _)
    (fun he => by cases he) (fun he => by cases he) fun _ he => by cases he)
    fun n σ₅ h5 hnew => ?_
  obtain ⟨hn, -, -, hs⟩ := hnew
  refine .pure ⟨?_, ?_, ?_⟩
  · rw [← hnow]
    exact hn
  · rw [hs]
    exact holds_acquire _ _ _
  · rw [hs, ← hdb]
    rfl

theorem updateCourseRow_spares {req : UpdateCourseRequest} {level : Option CourseLevel} :
    Plain timetableRules C σ (updateCourseRow L id req level) fun _ σ' => Spares σ.db σ'.db := by
  refine Yields.bind (Yields.selectFor (m := .noKeyUpdate) (by decide) trivial)
    fun r σ₁ h1 hsel => ?_
  obtain ⟨hd₁, hr⟩ := hsel
  cases r with
  | none => exact .pure (hd₁ ▸ Spares.refl _)
  | some c =>
    obtain ⟨hh, -, -⟩ := hr c rfl
    refine Yields.bind (Quiet.ensure _ _ _) fun _ σ₂ h2 hd₂ =>
      Yields.bind (Quiet.ensure _ _ _) fun _ σ₃ h3 hd₃ => ?_
    refine Yields.bind (courseEntries_still _ _ _ _) fun _ σ₄ h4 hd₄ =>
      Yields.bind (referencesCoach_still _ _) fun _ σ₅ h5 hd₅ => ?_
    have hdb : σ₅.db = σ.db := by rw [hd₅, hd₄, hd₃, hd₂, hd₁]
    have hheld : Holds σ₅.held (.row .courses id) .noKeyUpdate :=
      h5.holds (h4.holds (h3.holds (h2.holds hh)))
    refine Yields.bind (Yields.put (covers_other hheld (fun he => by cases he)
      (fun he => by cases he) fun _ he => by cases he)) fun _ σ₆ h6 he => .pure ?_
    rw [he, ← hdb]
    have ho : Only (S := Timetable) [.courses] σ₅.db
      (σ₅.db.apply (.mod .courses id (req.apply level))) :=
      Only.write (S := Timetable) (w := .mod CourseTbl.courses id
        (req.apply level)) _ List.mem_cons_self
    refine ⟨fun k => ho.get (by simp) k, fun k hk => ?_, fun ha => ha.only ho (by simp)⟩
    rw [Pt.write_db, Store.get_mod]
    split
    next he =>
      rw [Option.isSome_map, ← he]
      exact hk
    next => exact hk

/-! ## Slots -/

theorem guard_slot {k : Uuid} {s : CourseScheduleSlot}
    (hh : Holds H (.row .courseScheduleSlots k) .noKeyUpdate)
    (hkey : Holds H (.uniq (.slot s.courseId s.dayOfWeek s.startTime)) .update)
    (hown : Holds H (.row .courses s.courseId) .noKeyUpdate) :
    timetableRules.Covers H (.add CourseTbl.courseScheduleSlots k s) := by
  refine timetable_covers hh (Exclusion.guard_add ?_) (Exclusion.guard_other fun he => by cases he)
    ⟨fun k' row he c hc => ?_, fun k' f he => ?_⟩
    fun _ he => by cases he
  · rintro x hx
    cases hx
    exact hkey
  · cases he
    cases hc
    exact hown
  · cases he

theorem insertSlot_puts {row : SlotRow} (hown : Holds σ.held (.row .courses id) .noKeyUpdate) :
    Plain timetableRules C σ (insertSlot id row) fun _ σ' =>
      ∃ k, σ.db.get .courseScheduleSlots k = none ∧
      slotKeys.Free (row.slot id) σ.db ∧
      σ'.db = σ.db.apply (.add .courseScheduleSlots k (row.slot id)) := by
  unfold insertSlot
  refine Yields.bind (Quiet.ensure _ _ _) fun _ σ₁ h1 hd₁ => ?_
  refine Yields.bind (Yields.claim trivial) fun b σ₂ h2 hclaim => ?_
  obtain ⟨hs₂, v, -, hv, hb⟩ := hclaim
  have hkey : Holds σ₂.held (.uniq (.slot id row.dayOfWeek row.startTime)) .update := by
    rw [hs₂]
    exact holds_acquire _ _ _
  -- what the read has not found under the key's lock is not there at the end
  have hfree : b = false → slotKeys.Free (row.slot id) σ₂.db := by
    intro hbf
    have hv₂ : timetableRules.rel σ₂.held v σ₂.db := by rw [hs₂] at hv ⊢; exact hv
    refine Exclusion.Free.later (fun k s hk hc => ?_) (fun x hx => ?_) (rel_slotKeys hv₂)
    · obtain ⟨hcourse, hday, hstart⟩ := slot_clash.1 hc
      have hm : (k, s) ∈ v.sel .courseScheduleSlots fun _ s => s.courseId = id ∧
          s.dayOfWeek = row.dayOfWeek ∧ s.startTime = row.startTime :=
        Store.mem_sel.2 ⟨hk, decide_eq_true ⟨hcourse, hday, hstart⟩⟩
      rw [hb, Bool.not_eq_false', List.isEmpty_iff] at hbf
      rw [hbf] at hm
      cases hm
    · cases hx
      exact hkey
  refine Yields.bind (R := fun _ σ' => σ' = σ₂ ∧ b = false)
    (.ensure (fun h => ⟨rfl, by simpa using h⟩) trivial) fun _ σ₃ _ hens => ?_
  obtain ⟨hs₃, hbf⟩ := hens
  subst hs₃
  refine Yields.bind (Quiet.references _ _ _ _) fun _ σ₄ h4 hd₄ => ?_
  have hd : σ₄.db = σ.db := by
    rw [hd₄, hs₂, Pt.grant_db, hd₁]
  have hown₄ := h4.holds (h2.holds (h1.holds hown))
  refine Yields.bind (Yields.insert fun n => guard_slot (holds_acquire _ _ _)
    ((h4.holds hkey).mono (subset_acquire _ _ _))
    (hown₄.mono (subset_acquire _ _ _))) fun n σ₅ _ hnew => ?_
  obtain ⟨-, hn, -, hs₅⟩ := hnew
  refine .pure ⟨n, hd ▸ hn, ?_, ?_⟩
  · rw [← hd, hd₄]
    exact hfree hbf
  · rw [hs₅, ← hd]
    rfl

/-- **A replacement finds all slots of its course**: the row is locked, or the course is new. -/
theorem replaceSlotsTx_puts (hown : Holds σ.held (.row .courses id) .noKeyUpdate) :
    Plain timetableRules C σ (replaceSlotsTx id rows) fun _ σ' => Only (S := Timetable)
    [.courseScheduleSlots] σ.db σ'.db ∧
      (slotKeys.Apart σ.db → slotKeys.Apart σ'.db) ∧
      (∀ k s, σ'.db.get .courseScheduleSlots k = some s → σ.db.get .courseScheduleSlots k = some s ∨
        s.courseId = id) ∧
      (Holds σ.held (.row .courses id) .update ∨ (∀ k s, σ.db.get .courseScheduleSlots k = some s →
        s.courseId ≠ id) → Puts id rows σ.db σ'.db) := by
  unfold replaceSlotsTx
  refine Yields.bind (Yields.deleteAll (fun _ _ => trivial) fun σ' k _ hh => ?_)
    fun gone σ₁ h1 hdel => ?_
  · refine timetable_covers (hh.weaken (by decide)) Exclusion.guard_del
      (Exclusion.guard_other fun he => by cases he)
      ⟨fun k' row he => (by cases he), fun k' f he => by cases he⟩ fun _ he => by cases he
  obtain ⟨ho₁, ⟨v₀, -, hv, -, hgone⟩, hg₁⟩ := hdel
  have hsub : ∀ k s, σ₁.db.get .courseScheduleSlots k = some s →
      σ.db.get .courseScheduleSlots k = some s := by
    intro k s hk
    rw [hg₁] at hk
    split at hk
    · cases hk
    · exact hk
  refine Yields.bind (Yields.each_inv (fun done σ' =>
    slotKeys.Inserted (done.map (SlotRow.slot id)) σ₁.db σ'.db) rfl ?_)
    fun _ σ₂ _ hi => .pure ⟨ho₁.trans hi.only, fun ha => hi.apart (ha.sub hsub), fun k s hk => ?_,
      fun hall => ?_⟩
  · intro done row rest σ' _ hl hi
    refine (insertSlot_puts (hl.holds (h1.holds hown))).imp (fun _ σ'' _ h => ?_) fun _ h => h
    rw [List.map_append]
    exact Chain.snoc hi h
  · rcases hi.get.2 k s hk with hk | ⟨-, hm⟩
    · exact .inl (hsub k s hk)
    · obtain ⟨row, -, rfl⟩ := List.mem_map.1 hm
      exact .inr rfl
  · -- the DELETE has found every row of the course
    have hfound : ∀ k s, σ.db.get .courseScheduleSlots k = some s → s.courseId = id →
        (k, s) ∈ gone := by
      intro k s hk hs
      refine (hgone k s).2 ⟨hk, decide_eq_true hs, ?_⟩
      rcases hall with hlock | hnone
      · obtain ⟨s', hs', hc'⟩ := rel_owners hv k id hlock s hk hs
        exact ⟨s', hs', decide_eq_true hc'⟩
      · exact absurd hs (hnone k s hk)
    have hfilter : ∀ k, σ₁.db.get .courseScheduleSlots k = (σ.db.get .courseScheduleSlots k).filter
        fun s => !decide (s.courseId = id) := by
      intro k
      rw [hg₁]
      cases hk : σ.db.get .courseScheduleSlots k with
      | none => split <;> rfl
      | some s =>
        rw [Option.filter_some]
        by_cases hs : s.courseId = id
        · rw [if_pos (List.mem_map.2 ⟨(k, s), hfound k s hk hs, rfl⟩), if_neg (by simp [hs])]
        · rw [if_neg, if_pos (by simp [hs])]
          intro hm
          obtain ⟨⟨k', s'⟩, hg, rfl⟩ := List.mem_map.1 hm
          obtain ⟨hk', hc', -⟩ := (hgone k' s').1 hg
          rw [hk] at hk'
          cases hk'
          exact hs (of_decide_eq_true hc')
    obtain ⟨hslots, hothers⟩ := replaced_slots hfilter hi
    exact ⟨hslots, hothers⟩

/-! ## Sessions -/

theorem reconcileFutureSessionsTx_spares (courseId : Uuid) (today : ℤ) :
    Plain timetableRules C σ (reconcileFutureSessionsTx courseId today) fun _ σ' =>
      Spares σ.db σ'.db := by
  unfold reconcileFutureSessionsTx deleteSessions
  refine Yields.bind (Quiet.read _ σ) fun slots σ₁ h1 hd₁ => ?_
  -- a sync keeps the key of a session
  have hkey : ∀ (cs : CourseSession) x, sessionKeys.has
      (onlyIf (fun cs => outOfSync slots courseId today cs) (synced slots) cs) x →
      sessionKeys.has cs x := by
    intro cs x
    unfold onlyIf
    split
    · obtain ⟨hc, hd, ht⟩ := synced_key slots cs
      show ((synced slots cs).courseId, (synced slots cs).sessionDate,
          (synced slots cs).startTime) = x → (cs.courseId, cs.sessionDate, cs.startTime) = x
      rw [hc, hd, ht]
      exact fun h => h
    · exact fun h => h
  refine Yields.bind (Yields.updateAll (fun _ _ => trivial) fun σ' k _ hh =>
    covers_session hh rfl (Exclusion.guard_mod fun r x => hkey r x))
    fun _ σ₂ h2 hup => ?_
  have hsync : Spares σ.db σ₂.db := by
    obtain ⟨hed, -, -⟩ := hup
    rw [hd₁] at hed
    refine ⟨fun k => hed.only.get (by simp) k, fun k hk => by rw [hed.only.get (by simp)]; exact hk,
      fun ha => ha.less fun k r' hk => ?_⟩
    rcases hed.row k with he | ⟨r, hr, hp, he⟩
    · exact ⟨r', by rw [← he]; exact hk, fun _ hx => hx⟩
    · rw [he] at hk
      cases hk
      refine ⟨r, hr, fun x hx => hkey r x ?_⟩
      rw [onlyIf_pos hp]
      exact hx
  refine Yields.bind (Quiet.read _ σ₂) fun ids σ₃ h3 hd₃ => ?_
  refine Yields.bind (Yields.deleteAll (fun _ _ => trivial) fun σ' k _ hh =>
    covers_session (hh.weaken (by decide)) rfl Exclusion.guard_del)
    fun gone σ₄ h4 hdel => ?_
  have hdeleted : Spares σ₂.db σ₄.db := by
    obtain ⟨ho, -, hg⟩ := hdel
    rw [hd₃] at ho hg
    refine ⟨fun k => ho.get (by simp) k, fun k hk => by rw [ho.get (by simp)]; exact hk,
      fun ha => ha.sub fun k r hk => ?_⟩
    rw [hg] at hk
    split at hk
    · cases hk
    · exact hk
  refine Yields.bind (Quiet.read _ σ₄) fun b σ₅ h5 hd₅ =>
    Yields.bind (Quiet.ensure _ _ σ₅) fun _ σ₆ h6 hd₆ => ?_
  refine Yields.bind (Yields.deleteAll (fun _ _ => trivial) fun σ' k _ hh =>
    covers_other (hh.weaken (by decide)) (fun he => by cases he)
    (fun he => by cases he) fun _ he => by cases he) fun _ σ₇ h7 hatt => .pure ?_
  obtain ⟨ho₇, -, -⟩ := hatt
  rw [hd₆, hd₅] at ho₇
  refine (hsync.trans hdeleted).trans (Spares.only ho₇ fun t ht => .inr (List.mem_singleton.1 ht))

theorem insertSession_spares (cs : CourseSession) :
    Plain timetableRules C σ (insertSession cs) fun _ σ' => Spares σ.db σ'.db := by
  unfold insertSession
  refine Yields.bind (Yields.claim trivial) fun b σ₁ h1 hclaim => ?_
  obtain ⟨hs₁, v, -, hv, hb⟩ := hclaim
  have hd₁ : σ₁.db = σ.db := by rw [hs₁, Pt.grant_db]
  cases b with
  | true => exact .pure (hd₁ ▸ Spares.refl _)
  | false =>
    have hkey : Holds σ₁.held
        (.uniq (.session cs.courseId cs.sessionDate cs.startTime)) .update := by
      rw [hs₁]
      exact holds_acquire _ _ _
    -- what the read has not found under the key's lock is not there at the end
    have hfree : sessionKeys.Free cs σ.db := by
      refine Exclusion.Free.later (fun k r hk hc => ?_) (fun x hx => ?_) (rel_sessionKeys hv)
      · have hm : (k, r) ∈ v.sel .courseSessions fun _ r => r.courseId = cs.courseId ∧
            r.sessionDate = cs.sessionDate ∧ r.startTime = cs.startTime :=
          Store.mem_sel.2 ⟨hk, decide_eq_true (session_clash.1 hc)⟩
        have hempty := hb.symm
        rw [Bool.not_eq_false', List.isEmpty_iff] at hempty
        rw [hempty] at hm
        cases hm
      · cases hx
        exact hkey
    refine Yields.bind (Quiet.references _ _ _ σ₁) fun _ σ₂ h2 hd₂ => ?_
    refine Yields.bind (Yields.insert fun n => covers_session (holds_acquire _ _ _) rfl
      (Exclusion.guard_add ?_)) fun n σ₃ _ hnew => .pure ?_
    · rintro x hx
      cases hx
      exact (h2.holds hkey).mono (subset_acquire _ _ _)
    obtain ⟨-, hn, -, hs₃⟩ := hnew
    rw [hd₂, hd₁] at hn
    have hd₃ : σ₃.db = σ.db.apply (.add .courseSessions n cs) := by
      rw [hs₃, Pt.write_db, Pt.grant_db, hd₂, hd₁]
      rfl
    rw [hd₃]
    have ho : Only (S := Timetable) [.courseSessions] σ.db
      (σ.db.apply (.add .courseSessions n cs)) :=
      Only.write (S := Timetable) (w := .add CourseTbl.courseSessions n cs) _ List.mem_cons_self
    exact ⟨fun k => ho.get (by simp) k, fun k hk => by rw [ho.get (by simp)]; exact hk,
      fun ha => ha.add hn hfree⟩

/-! ## Requests -/

theorem Leaves.of_spares {q : CourseReq} (h : Spares d d') (hk : Keyed d)
    (hq : ∀ id rows, ¬ q.Sets parse d d' id rows) : Leaves parse q d d' :=
  ⟨h.keyed hk, fun id rows hs => absurd hs (hq id rows), fun id _ => h.slotsOf id⟩

theorem add_course_spares {k : Uuid} {c : Course} (hn : d.get .courses k = none) :
    Spares d (d.apply (.add .courses k c)) := by
  have ho : Only (S := Timetable) [.courses] d (d.apply (.add .courses k c)) :=
    Only.write (S := Timetable) (w := .add CourseTbl.courses k c) _ List.mem_cons_self
  refine ⟨fun k' => ho.get (by simp) k', fun k' hk' => ?_, fun ha => ha.only ho (by simp)⟩
  rw [Store.get_add, hn]
  split
  · rfl
  · exact hk'

/-- A replacement keeps a timetable well kept, where the course is there. -/
theorem keyed_replaced (hk : Keyed d) (hc : (d.get .courses id).isSome = true)
    (ho : Only (S := Timetable) [.courseScheduleSlots] d d')
    (ha : slotKeys.Apart d → slotKeys.Apart d')
    (hs : ∀ k s, d'.get .courseScheduleSlots k = some s → d.get .courseScheduleSlots k = some s ∨
      s.courseId = id) : Keyed d' := by
  refine ⟨ha hk.slots, hk.sessions.only ho (by simp), fun k s hks => ?_⟩
  rw [ho.get (by simp)]
  rcases hs k s hks with hold | hid
  · exact hk.parents k s hold
  · rw [hid]
    exact hc

theorem parsed_some {slots : Option (List CourseScheduleSlotEntry)} {r : Option (List SlotRow)}
    (h : slots.mapM (parseScheduleSlots parse) = .ok r) :
    (r = none ∧ slots = none) ∨ ∃ entries rows, r = some rows ∧ slots = some entries ∧
      parseScheduleSlots parse entries = .ok rows := by
  cases slots with
  | none => cases h; exact .inl ⟨rfl, rfl⟩
  | some entries =>
    rw [Option.mapM_some] at h
    obtain ⟨rows, hrows, hr⟩ := bind_eq_ok h
    cases hr
    exact .inr ⟨entries, rows, rfl, rfl, hrows⟩

theorem createCourse_does (req : CreateCourseRequest) :
    Commits timetableRules (CourseReq.Does parse (.createCourse req)) (createCourse L parse req)
    (.begin d d' false) := by
  unfold createCourse
  refine commits_bind (R := fun _ σ' => σ' = .begin d d' false) (by cases validatedNested _ _ with
    | ok a => exact .ret rfl
    | error e => exact .fail trivial) fun _ σ₁ _ h₁ => ?_
  subst h₁
  refine commits_bind (R := fun _ σ' => σ' = .begin d d' false)
    (.orFail (fun _ _ => rfl) trivial) fun level σ₂ _ h₂ => ?_
  subst h₂
  refine commits_bind (R := fun _ σ' => σ' = .begin d d' false) (by cases AgeRange.new _ _ with
    | ok a => exact .ret rfl
    | error e => exact .fail trivial) fun ages σ₃ _ h₃ => ?_
  subst h₃
  refine commits_bind (R := fun r σ' => req.scheduleSlots.mapM (parseScheduleSlots parse) = .ok r ∧
    σ' = .begin d d' false)
    (by cases hp : req.scheduleSlots.mapM (parseScheduleSlots parse) with
    | ok a => exact .ret ⟨rfl, rfl⟩
    | error e => exact .fail trivial) fun parsed σ₄ _ h₄ => ?_
  obtain ⟨hparsed, h₄⟩ := h₄
  subst h₄
  refine commits_then (R := fun _ σ' => CourseReq.Does parse (.createCourse req) σ') ?_
    (fun _ _ _ h => h)
    fun course σ' => ((Quiet.read _).bind fun _ => Quiet.ret _).commits
  refine Yields.bind insertCourse_puts fun course σ₅ h5 hnew => ?_
  obtain ⟨hn, hown, hdb⟩ := hnew
  have hadd : Spares σ₅.now σ₅.db := by
    rw [hdb, h5.now]
    exact add_course_spares hn
  have hthere : (σ₅.db.get .courses course.1).isSome = true := by
    rw [hdb, Store.get_add, if_pos rfl]
    rfl
  have hothers : ∀ id, id ≠ course.1 → σ₅.db.get .courses id = σ₅.now.get .courses id := by
    intro id hid
    rw [hdb, Store.get_add, if_neg hid, h5.now]
    rfl
  have hnow : σ₅.now.get .courses course.1 = none := by
    rw [h5.now]
    exact hn
  rcases parsed_some hparsed with ⟨rfl, hnone⟩ | ⟨entries, rows, rfl, hsome, hrows⟩
  · refine .pure fun hk => Leaves.of_spares hadd hk fun id rows hs => ?_
    obtain ⟨-, -, entries, he, -⟩ := hs
    rw [hnone] at he
    cases he
  · refine Yields.bind (replaceSlotsTx_puts hown) fun _ σ₆ h6 hrep => .pure fun hk => ?_
    obtain ⟨ho, ha, hs, hput⟩ := hrep
    rw [h6.now] at hk ⊢
    have hk₅ := hadd.keyed hk
    -- a new course has no slots
    have hputs := hput (.inr fun k s hks hid => by
      rw [hadd.slots] at hks
      have hparent := hk.parents k s hks
      rw [hid, hnow] at hparent
      cases hparent)
    refine ⟨keyed_replaced hk₅ hthere ho ha hs, fun id rows' hsets => ?_, fun id hsets => ?_⟩
    · obtain ⟨hbefore, hafter, entries', he, hr⟩ := hsets
      rw [hsome] at he
      cases he
      rw [hrows] at hr
      cases hr
      have hid : id = course.1 := by
        by_contra hne
        rw [ho.get (by simp), hothers id hne, hbefore] at hafter
        cases hafter
      subst hid
      exact hputs.slots
    · have hid : id ≠ course.1 := by
        rintro rfl
        refine hsets rows ⟨hnow, ?_, entries, hsome, hrows⟩
        rw [ho.get (by simp)]
        exact hthere
      exact (hputs.same hid).trans (hadd.slotsOf id)

theorem updateCourse_does (id : Uuid) (req : UpdateCourseRequest) (today : ℤ) :
    Commits timetableRules (CourseReq.Does parse (.updateCourse id req today))
    (updateCourse L parse id req today) (.begin d d' false) := by
  unfold updateCourse
  refine commits_bind (R := fun _ σ' => σ' = .begin d d' false) (by cases validatedNested _ _ with
    | ok a => exact .ret rfl
    | error e => exact .fail trivial) fun _ σ₁ _ h₁ => ?_
  subst h₁
  refine commits_bind (Quiet.checked _ (.begin d d' false)) fun level σ₂ hl₂ hd₂ => ?_
  refine commits_bind (R := fun r σ' => req.scheduleSlots.mapM (parseScheduleSlots parse) =
    .ok r ∧ σ' = σ₂)
    (by cases hp : req.scheduleSlots.mapM (parseScheduleSlots parse) with
    | ok a => exact .ret ⟨rfl, rfl⟩
    | error e => exact .fail trivial) fun parsed σ₃ _ h₃ => ?_
  obtain ⟨hparsed, h₃⟩ := h₃
  subst h₃
  have hbegin : σ₃.db = σ₃.now := by
    rw [hl₂.now, hd₂]
    rfl
  refine commits_then (R := fun _ σ' => CourseReq.Does parse (.updateCourse id req today) σ') ?_
    (fun _ _ _ h => h)
    fun course σ' => ((Quiet.read _).bind fun _ => Quiet.ret _).commits
  refine Yields.bind (Yields.selectFor (m := .update) (by decide) trivial) fun o σ₄ h4 hsel => ?_
  obtain ⟨hd₄, hrow⟩ := hsel
  refine Yields.bind (R := fun c σ' => o = some c ∧ σ' = σ₄)
    (.orFail (fun c hc => ⟨hc, rfl⟩) trivial) fun c σ₅ _ hc => ?_
  obtain ⟨hc, h₅⟩ := hc
  subst h₅
  obtain ⟨hlock, hget, -⟩ := hrow c hc
  refine Yields.bind (Quiet.checked _ σ₅) fun _ σ₆ h6 hd₆ =>
    Yields.bind updateCourseRow_spares fun r σ₇ h7 hsp₇ => ?_
  refine Yields.bind (Quiet.orFail _ _ σ₇) fun course σ₈ h8 hd₈ => ?_
  have hnow : σ₈.now = σ₃.db := by rw [h8.now, h7.now, h6.now, h4.now, hbegin]
  have hspares : Spares σ₈.now σ₈.db := by
    rw [hd₆, hd₄] at hsp₇
    rw [hnow, hd₈]
    exact hsp₇
  have hlock₈ : Holds σ₈.held (.row .courses id) .update := h8.holds (h7.holds (h6.holds hlock))
  have hthere : (σ₈.db.get .courses id).isSome = true := by
    refine hspares.courses id ?_
    rw [hnow, hget]
    rfl
  -- without a new list the slots stay; with one they are replaced, then reconciled
  rcases parsed_some hparsed with ⟨rfl, hnone⟩ | ⟨entries, rows, rfl, hsome, hrows⟩
  · refine .pure fun hk => Leaves.of_spares hspares hk fun id' rows' hs => ?_
    obtain ⟨-, entries, he, -⟩ := hs
    rw [hnone] at he
    cases he
  · unfold replaceWeeklyScheduleTx
    refine Yields.bind ?_ fun _ σ₁₀ h10 hall => .pure hall
    refine Yields.bind (replaceSlotsTx_puts (hlock₈.weaken (by decide))) fun _ σ₉ h9 hrep => ?_
    refine (reconcileFutureSessionsTx_spares id today).imp (fun _ σ₁₀ h10 hsp => ?_) fun _ h => h
    intro hk
    obtain ⟨ho, ha, hs, hput⟩ := hrep
    have hputs := hput (.inl hlock₈)
    have hk₈ : Keyed σ₁₀.now := hk
    rw [h10.now, h9.now] at hk₈ ⊢
    have hk₉ := keyed_replaced (hspares.keyed hk₈) hthere ho ha hs
    refine ⟨hsp.keyed hk₉, fun id' rows' hsets => ?_, fun id' hsets => ?_⟩
    · obtain ⟨rfl, entries', he, hr⟩ := hsets
      rw [hsome] at he
      cases he
      rw [hrows] at hr
      cases hr
      exact (hsp.slotsOf _).trans hputs.slots
    · have hid : id' ≠ id := by
        rintro rfl
        exact hsets rows ⟨rfl, entries, hsome, hrows⟩
      exact (hsp.slotsOf id').trans ((hputs.same hid).trans (hspares.slotsOf id'))

theorem materializeRange_does (today : ℤ) (ids : List Uuid) (first last : ℤ) :
    Commits timetableRules (CourseReq.Does parse (.materializeRange today ids first last))
    (materializeRange today ids first last)
      (.begin d d' false) := by
  unfold materializeRange
  split
  · exact (Quiet.ret _).commits
  refine (wp_bind _ _ _).2 ?_
  unfold insertSessions
  split
  · exact (Quiet.ret _).commits
  refine commits_bind (R := fun _ σ' => σ' = .begin d d' false)
    (.read fun _ _ _ => rfl) fun rows σ₁ _ h₁ => ?_
  subst h₁
  split
  · exact (Quiet.ret _).commits
  refine commits_atomically (R := fun _ σ' => Spares d' σ'.db ∧
    σ'.now = d') ?_ fun _ σ' _ h hk => ?_
  · refine Yields.bind (Yields.each_inv (fun _ σ' => Spares d' σ'.db ∧ σ'.now = d')
      ⟨Spares.refl _, rfl⟩ ?_) fun _ σ₂ _ h₂ => .pure h₂
    intro done cs rest σ' _ _ hi
    exact (insertSession_spares cs).imp (fun _ σ'' hl h => ⟨hi.1.trans h, hl.now.trans hi.2⟩)
      fun _ h => h
  · obtain ⟨hsp, hnow⟩ := h
    rw [hnow] at hk ⊢
    exact Leaves.of_spares hsp hk fun _ _ hs => hs

/-- A transaction that touches nobody's slots. -/
theorem commits_spares {q : CourseReq} {p : Tx Unit}
    (hp : Plain timetableRules (q.Does parse) (.begin d d' false) p fun _ σ' => Spares d' σ'.db)
    (hq : ∀ a b id rows, ¬ q.Sets parse a b id rows) :
    Commits timetableRules (q.Does parse) p.atomically (.begin d d' false) := by
  refine commits_atomically hp fun _ σ' hl hsp hk => ?_
  rw [hl.now] at hk ⊢
  exact Leaves.of_spares hsp hk (hq _ _)

/-- A new row that refers to a session. -/
theorem insert_spares {t : CourseTbl} {key : ℕ → Uuid} {row : ℕ → t.Row} (ht : t = .leaveRequests ∨
    t = .attendanceRecords) :
    Plain (E := AppError) timetableRules C σ (insert (S := Timetable) t key row) fun _ σ' =>
      Spares σ.db σ'.db := by
  refine (Yields.insert fun n => covers_other (holds_acquire _ _ _) ?_ ?_
    fun _ he => by cases he).imp (fun n σ' _ h => ?_) fun _ h => h
  · rcases ht with rfl | rfl
    all_goals
      intro he
      cases he
  · rcases ht with rfl | rfl
    all_goals
      intro he
      cases he
  · rw [h.2.2.2]
    have ho : Only (S := Timetable) [t] σ.db (σ.db.apply (.add t (key n) (row n))) :=
      Only.write (S := Timetable) (w := .add t (key n) (row n)) _ List.mem_cons_self
    exact Spares.only ho fun t' ht' => by rw [List.mem_singleton.1 ht']; exact ht

/-- **Every request leaves the timetable as it says.** -/
theorem CourseReq.does (L : Letters) (parse : ParseTime) (q : CourseReq) :
    Commits timetableRules (q.Does parse) ((courses L parse).prog q) (.begin d d' false) := by
  have hrefs : ∀ {C : Pt Timetable → Prop} (σ : Pt Timetable) (id : Uuid), Plain timetableRules C σ
      (referencesSession id) fun _ σ' => σ'.db = σ.db :=
    fun σ id => Quiet.references _ _ _ σ
  cases q with
  | createCourse req => exact commits_map (createCourse_does req)
  | updateCourse id req today => exact commits_map (updateCourse_does id req today)
  | materializeRange today ids first last =>
    exact commits_map (materializeRange_does today ids first last)
  | insertLeave sessionId =>
    refine commits_map (commits_spares (Yields.bind (hrefs _ _) fun _ σ₁ _ hd₁ => ?_)
      fun _ _ _ _ h => h)
    refine Yields.bind (insert_spares (.inl rfl)) fun _ σ₂ _ hsp => .pure ?_
    rw [hd₁] at hsp
    exact hsp
  | bookMakeup id sessionId =>
    refine commits_map (commits_spares (Yields.bind (hrefs _ _) fun _ σ₁ _ hd₁ => ?_)
      fun _ _ _ _ h => h)
    refine Yields.bind (Yields.updateRow trivial fun _ _ hh =>
      covers_other hh (fun he => by cases he) (fun he => by cases he) fun _ he => by cases he)
      fun o σ₂ _ hup => .pure ?_
    rw [hd₁] at hup
    rcases hup with ⟨-, hd₂⟩ | ⟨r, -, -, -, -, hd₂⟩
    · rw [hd₂]
      exact Spares.refl _
    · rw [hd₂]
      refine Spares.only (?_ : Only (S := Timetable) [.leaveRequests] _ _) fun t ht =>
        .inl (List.mem_singleton.1 ht)
      exact Only.write (S := Timetable)
        (w := .mod CourseTbl.leaveRequests id _) _ List.mem_cons_self
  | markAttendance sessionId =>
    refine commits_map (commits_spares (Yields.bind (hrefs _ _) fun _ σ₁ _ hd₁ => ?_)
      fun _ _ _ _ h => h)
    refine Yields.bind (insert_spares (.inr rfl)) fun _ σ₂ _ hsp => .pure ?_
    rw [hd₁] at hsp
    exact hsp

end DreamFly.Courses
