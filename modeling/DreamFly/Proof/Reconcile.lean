import DreamFly.Courses.Service
import DreamFly.Txn.Alone
import DreamFly.Txn.Exclusion

/-!
# A new weekly schedule, with nobody else about

The slots of the course are the new ones, and each of its future sessions meets its fate: it
takes over the end and the venue of its slot, stays where something refers to it, or goes.
Materializing then fills in what the slots have and is not there.
-/

namespace DreamFly.Courses

open Txn Prog
open Content (Letters)

variable {d d₁ d' : Store Timetable} {courseId : Uuid} {today : ℤ}
  {slots slots' : List CourseScheduleSlot} {rows : List SlotRow}
  {cs : CourseSession} {F : AppError → Prop}

/-! ## Keys -/

/-- Course, day and start of a weekly slot. -/
def slotKeys : Exclusion Timetable CourseTbl.courseScheduleSlots (Uuid × ℤ × ℤ) where
  has s x := (s.courseId, s.dayOfWeek, s.startTime) = x
  entry x := .slot x.1 x.2.1 x.2.2

/-- Course, date and start of a session. -/
def sessionKeys : Exclusion Timetable CourseTbl.courseSessions (Uuid × ℤ × ℤ) where
  has cs x := (cs.courseId, cs.sessionDate, cs.startTime) = x
  entry x := .session x.1 x.2.1 x.2.2

theorem slot_clash {s s' : CourseScheduleSlot} :
    slotKeys.Clash s s' ↔ s.courseId = s'.courseId ∧ s.dayOfWeek = s'.dayOfWeek ∧
    s.startTime = s'.startTime := by
  constructor
  · rintro ⟨x, hs, hs'⟩
    have he : (s.courseId, s.dayOfWeek, s.startTime) = (s'.courseId, s'.dayOfWeek, s'.startTime) :=
      Eq.trans hs (Eq.symm hs')
    simp only [Prod.mk.injEq] at he
    exact he
  · rintro ⟨hc, hd, ht⟩
    refine ⟨_, rfl, ?_⟩
    show (s'.courseId, s'.dayOfWeek, s'.startTime) = (s.courseId, s.dayOfWeek, s.startTime)
    rw [hc, hd, ht]

theorem session_clash {a b : CourseSession} :
    sessionKeys.Clash a b ↔ a.courseId = b.courseId ∧ a.sessionDate = b.sessionDate ∧
    a.startTime = b.startTime := by
  constructor
  · rintro ⟨x, ha, hb⟩
    have he : (a.courseId, a.sessionDate, a.startTime) = (b.courseId, b.sessionDate, b.startTime) :=
      Eq.trans ha (Eq.symm hb)
    simp only [Prod.mk.injEq] at he
    exact he
  · rintro ⟨hc, hd, ht⟩
    refine ⟨_, rfl, ?_⟩
    show (b.courseId, b.sessionDate, b.startTime) = (a.courseId, a.sessionDate, a.startTime)
    rw [hc, hd, ht]

theorem hasSlot_iff {s : CourseScheduleSlot} :
    cs.hasSlot s = true ↔ s.courseId = cs.courseId ∧ s.dayOfWeek = dayOfWeek cs.sessionDate ∧
    s.startTime = cs.startTime := by
  simp only [CourseSession.hasSlot, slotOfSession, decide_eq_true_eq]

/-! ## The fate of a session -/

/-- What becomes of a session under the slots `slots`; `kept`: something refers to it. -/
def fate (slots : List CourseScheduleSlot) (courseId : Uuid) (today : ℤ) (kept : Bool)
    (cs : CourseSession) : Option CourseSession :=
  if cs.courseId = courseId ∧ today < cs.sessionDate then
    match slots.find? fun s => cs.hasSlot s with
    | some s => some { cs with endTime := s.endTime, venue := s.venue }
    | none => if kept then some cs else none
  else some cs

/-- No two of the slots have the same key. -/
def Distinct (slots : List CourseScheduleSlot) : Prop := slots.Pairwise fun s s' =>
    ¬ slotKeys.Clash s s'

/-- Two slots that a session has are one. -/
theorem Distinct.eq (h : Distinct slots) {s s' : CourseScheduleSlot} (hs : s ∈ slots)
    (hs' : s' ∈ slots) (hc : cs.hasSlot s = true)
    (hc' : cs.hasSlot s' = true) : s = s' := by
  rw [hasSlot_iff] at hc hc'
  have hclash : ∀ a b : CourseScheduleSlot, a.courseId = cs.courseId ∧
      a.dayOfWeek = dayOfWeek cs.sessionDate ∧ a.startTime = cs.startTime →
      b.courseId = cs.courseId ∧ b.dayOfWeek = dayOfWeek cs.sessionDate ∧
      b.startTime = cs.startTime → slotKeys.Clash a b := by
    intro a b ha hb
    exact slot_clash.2 ⟨ha.1.trans hb.1.symm, ha.2.1.trans hb.2.1.symm, ha.2.2.trans hb.2.2.symm⟩
  by_contra hne
  obtain ⟨i, hi, rfl⟩ := List.mem_iff_getElem.1 hs
  obtain ⟨j, hj, rfl⟩ := List.mem_iff_getElem.1 hs'
  rcases Nat.lt_trichotomy i j with hij | rfl | hij
  · exact List.pairwise_iff_getElem.1 h i j hi hj hij (hclash _ _ hc hc')
  · exact hne rfl
  · exact List.pairwise_iff_getElem.1 h j i hj hi hij (hclash _ _ hc' hc)

/-- The order of the slots does not matter. -/
theorem fate_perm (hp : slots.Perm slots') (h : Distinct slots) (kept : Bool) :
    fate slots courseId today kept cs = fate slots' courseId today kept cs := by
  have hfind : (slots.find? fun s => cs.hasSlot s) = slots'.find? fun s => cs.hasSlot s := by
    cases h₁ : slots.find? fun s => cs.hasSlot s with
    | none =>
      symm
      rw [List.find?_eq_none] at h₁ ⊢
      exact fun s hs => h₁ s (hp.mem_iff.2 hs)
    | some s =>
      have hs := List.mem_of_find?_eq_some h₁
      have hc := List.find?_some h₁
      cases h₂ : slots'.find? fun s => cs.hasSlot s with
      | none => exact absurd hc (List.find?_eq_none.1 h₂ s (hp.mem_iff.1 hs))
      | some s' =>
        have hs' := hp.mem_iff.2 (List.mem_of_find?_eq_some h₂)
        have hc' := List.find?_some h₂
        rw [h.eq hs hs' hc hc']
  unfold fate
  rw [hfind]

/-! ## Slots -/

theorem slotsOf_only {ts : List CourseTbl} (h : Only (S := Timetable) ts d d')
    (ht : CourseTbl.courseScheduleSlots ∉ ts) (ids : List Uuid) :
    slotsOf ids d' = slotsOf ids d := by
  unfold slotsOf
  rw [h.sel ht]

theorem mem_slotsOf {s : CourseScheduleSlot} {ids : List Uuid} :
    s ∈ slotsOf ids d ↔ ∃ k, d.get .courseScheduleSlots k = some s ∧ s.courseId ∈ ids := by
  unfold slotsOf
  rw [List.mem_map]
  constructor
  · rintro ⟨⟨k, s'⟩, hm, rfl⟩
    obtain ⟨hk, hc⟩ := Store.mem_sel.1 hm
    exact ⟨k, hk, by simpa using hc⟩
  · rintro ⟨k, hk, hc⟩
    exact ⟨(k, s), Store.mem_sel.2 ⟨hk, by simpa using hc⟩, rfl⟩

/-- Rows with different keys are different slots. -/
theorem distinct_slotsOf (h : slotKeys.Apart d) (ids : List Uuid) : Distinct (slotsOf ids d) := by
  unfold Distinct slotsOf
  rw [List.pairwise_map]
  refine (List.pairwise_iff_getElem.2 fun i j hi hj hij hc => ?_)
  have hi' := Store.mem_sel.1 (List.getElem_mem hi)
  have hj' := Store.mem_sel.1 (List.getElem_mem hj)
  have hk := h _ _ _ _ hi'.1 hj'.1 hc
  have hne := List.pairwise_iff_getElem.1 (Store.sel_keys_nodup d .courseScheduleSlots
    fun _ s => ids.contains s.courseId) i j
    (by simpa using hi) (by simpa using hj) hij
  simp only [List.getElem_map] at hne
  exact hne hk

theorem insertSlot_alone (courseId : Uuid) (row : SlotRow) :
    Alone d (insertSlot courseId row) (fun _ => True) fun _ d' =>
      ∃ k, d.get .courseScheduleSlots k = none ∧
      slotKeys.Free (row.slot courseId) d ∧
      d' = d.apply (.add .courseScheduleSlots k (row.slot courseId)) := by
  unfold insertSlot
  refine Alone.bind (R := fun _ d₁ => d₁ = d) (Alone.ensure (fun _ => rfl) fun _ => trivial)
    fun _ d₁ h₁ => ?_
  subst h₁
  refine Alone.bind (R := fun b d₂ => d₂ = d₁ ∧ (b = false → slotKeys.Free (row.slot courseId) d₁))
    (Alone.claim ⟨rfl, ?_⟩)
    fun b d₂ ⟨h₂, hfree⟩ => ?_
  · intro hb k s hk hc
    obtain ⟨hcourse, hday, hstart⟩ := slot_clash.1 hc
    have hm : (k, s) ∈ d₁.sel .courseScheduleSlots fun _ s => s.courseId = courseId ∧
        s.dayOfWeek = row.dayOfWeek ∧ s.startTime = row.startTime :=
      Store.mem_sel.2 ⟨hk, decide_eq_true ⟨hcourse, hday, hstart⟩⟩
    rw [Bool.not_eq_false', List.isEmpty_iff] at hb
    rw [hb] at hm
    cases hm
  subst h₂
  refine Alone.bind (R := fun _ d₃ => d₃ = d₂ ∧ b = false)
    (Alone.ensure (fun h => ⟨rfl, by simpa using h⟩) fun _ => trivial)
    fun _ d₃ ⟨h₃, hb⟩ => ?_
  subst h₃
  refine Alone.bind (R := fun _ d₄ => d₄ = d₃) (Alone.references (fun _ => rfl) fun _ => trivial)
    fun _ d₄ h₄ => ?_
  subst h₄
  refine Alone.bind (R := fun n d₅ => d₄.get .courseScheduleSlots n = none ∧
    d₅ = d₄.apply (.add .courseScheduleSlots n (row.slot courseId)))
    (Alone.insert fun n hn => ⟨hn, rfl⟩) fun n d₅ ⟨hn, h₅⟩ => ?_
  exact .pure ⟨n, hn, hfree hb, h₅⟩

/-- The slots of the course go, and those of the list come. -/
theorem replaceSlotsTx_alone (courseId : Uuid) (rows : List SlotRow) :
    Alone d (replaceSlotsTx courseId rows) (fun _ => True) fun _ d' => ∃ d₁, Only (S := Timetable)
      [.courseScheduleSlots] d d₁ ∧
      (∀ k, d₁.get .courseScheduleSlots k = (d.get .courseScheduleSlots k).filter fun s => !decide
        (s.courseId = courseId)) ∧
      slotKeys.Inserted (rows.map (SlotRow.slot courseId)) d₁ d' := by
  unfold replaceSlotsTx
  refine Alone.bind (R := fun _ d₁ => Only (S := Timetable) [.courseScheduleSlots] d d₁ ∧
    ∀ k, d₁.get .courseScheduleSlots k =
    (d.get .courseScheduleSlots k).filter fun s => !decide (s.courseId = courseId))
      (Alone.deleteAll fun _ d₁ ho hg => ⟨ho, hg⟩)
    fun _ d₁ ⟨ho, hg⟩ => ?_
  refine Alone.bind (Alone.each (fun done d' =>
    slotKeys.Inserted (done.map (SlotRow.slot courseId)) d₁ d') rfl ?_) fun _ d' hi =>
    .pure ⟨d₁, ho, hg, hi⟩
  intro done row rest d' _ hi
  refine (insertSlot_alone courseId row).imp (fun _ d'' h => ?_) fun _ h => h
  rw [List.map_append]
  exact Chain.snoc hi h

/-- **The slots of the course are those of the list**, and those of the other courses stay. -/
theorem replaced_slots (ho : ∀ k, d₁.get .courseScheduleSlots k =
    (d.get .courseScheduleSlots k).filter fun s => !decide (s.courseId = courseId))
    (hi : slotKeys.Inserted (rows.map (SlotRow.slot courseId)) d₁ d') :
    (slotsOf [courseId] d').Perm (rows.map (SlotRow.slot courseId)) ∧
      ∀ k s, s.courseId ≠ courseId → (d'.get .courseScheduleSlots k = some s ↔
        d.get .courseScheduleSlots k = some s) := by
  -- the DELETE has left exactly the slots of the other courses
  have hold : ∀ k s, d₁.get .courseScheduleSlots k = some s ↔
      d.get .courseScheduleSlots k = some s ∧ s.courseId ≠ courseId := by
    intro k s
    rw [ho k, Option.filter_eq_some_iff, Bool.not_eq_true', decide_eq_false_iff_not]
  constructor
  · have hp := hi.sel_perm fun s => [courseId].contains s.courseId
    have hnone : (d₁.sel .courseScheduleSlots fun _ s => [courseId].contains s.courseId) = [] := by
      refine List.eq_nil_iff_forall_not_mem.2 fun ⟨k, s⟩ hm => ?_
      obtain ⟨hk, hc⟩ := Store.mem_sel.1 hm
      exact ((hold k s).1 hk).2 (by simpa using hc)
    have hall : (rows.map (SlotRow.slot courseId)).filter
        (fun s => [courseId].contains s.courseId) = rows.map (SlotRow.slot courseId) := by
      refine List.filter_eq_self.2 fun s hs => ?_
      obtain ⟨row, -, rfl⟩ := List.mem_map.1 hs
      simp [SlotRow.slot]
    rw [hnone, hall, List.map_nil, List.nil_append] at hp
    exact hp
  · intro k s hne
    constructor
    · intro hk
      rcases hi.get.2 k s hk with hk | ⟨-, hm⟩
      · exact ((hold k s).1 hk).1
      · obtain ⟨row, -, rfl⟩ := List.mem_map.1 hm
        exact absurd rfl hne
    · intro hk
      exact hi.get.1 k s ((hold k s).2 ⟨hk, hne⟩)

/-! ## Sessions -/

theorem referenced_iff {id : Uuid} : referenced d id = true ↔
    (∃ k lr, d.get .leaveRequests k = some lr ∧
      (lr.sessionId = id ∨ lr.makeupSessionId = some id)) ∨
      ∃ k ar, d.get .attendanceRecords k = some ar ∧ ar.sessionId = id := by
  have hsel : ∀ {t : CourseTbl} (p : Uuid → t.Row → Bool), (!(d.sel t p).isEmpty) = true ↔
      ∃ k r, d.get t k = some r ∧ p k r = true := by
    intro t p
    rw [Bool.not_eq_true', ← Bool.not_eq_true, List.isEmpty_iff]
    constructor
    · intro h
      obtain ⟨⟨k, r⟩, hm⟩ := List.exists_mem_of_ne_nil _ h
      exact ⟨k, r, Store.mem_sel.1 hm⟩
    · rintro ⟨k, r, hr⟩ h
      have hm := Store.mem_sel.2 hr
      rw [h] at hm
      cases hm
  unfold referenced
  rw [Bool.or_eq_true, hsel, hsel]
  simp only [decide_eq_true_eq]

theorem referenced_only {ts : List CourseTbl} (h : Only (S := Timetable) ts d d')
    (h₁ : CourseTbl.leaveRequests ∉ ts)
    (h₂ : CourseTbl.attendanceRecords ∉ ts) (id : Uuid) : referenced d' id = referenced d id := by
  unfold referenced
  rw [h.sel h₁, h.sel h₂]

/-- The UPDATE gives each future session that has a slot its end and venue. -/
theorem sync_eq : onlyIf (fun cs => outOfSync slots courseId today cs) (synced slots) cs =
    if cs.courseId = courseId ∧ today < cs.sessionDate then synced slots cs else cs := by
  unfold onlyIf
  by_cases hfuture : cs.courseId = courseId ∧ today < cs.sessionDate
  · rw [if_pos hfuture]
    split
    next => rfl
    next hin =>
      -- it is in sync: its slot says nothing else
      symm
      unfold synced
      cases hfind : slots.find? fun s => cs.hasSlot s with
      | none => rfl
      | some s =>
        have hs := List.mem_of_find?_eq_some hfind
        have hc := List.find?_some hfind
        have hsame : s.endTime = cs.endTime ∧ s.venue = cs.venue := by
          by_contra hne
          refine hin (decide_eq_true ⟨hfuture.1, hfuture.2,
            List.any_eq_true.2 ⟨s, hs, decide_eq_true ⟨hc, ?_⟩⟩⟩)
          by_cases he : s.endTime = cs.endTime
          · exact .inr fun hv => hne ⟨he, hv⟩
          · exact .inl he
        simp only
        rw [hsame.1, hsame.2]
  · rw [if_neg hfuture, if_neg]
    intro h
    have hout := of_decide_eq_true h
    exact hfuture ⟨hout.1, hout.2.1⟩

/-- The fate of a session, from the two statements. -/
theorem fate_eq {kept : Bool} : fate slots courseId today kept cs =
    if cs.courseId = courseId ∧ today < cs.sessionDate ∧ !(slots.any fun s => cs.hasSlot s) ∧
    !kept then none
    else some (if cs.courseId = courseId ∧ today < cs.sessionDate then
      synced slots cs else cs) := by
  unfold fate synced
  by_cases hfuture : cs.courseId = courseId ∧ today < cs.sessionDate
  · rw [if_pos hfuture, if_pos hfuture]
    cases hfind : slots.find? fun s => cs.hasSlot s with
    | none =>
      have hnone : (slots.any fun s => cs.hasSlot s) = false := by
        rw [List.any_eq_false]
        exact List.find?_eq_none.1 hfind
      rw [hnone]
      cases kept with
      | false =>
        simp only [hfuture, and_self, Bool.not_false, if_true, Bool.false_eq_true, if_false]
      | true => simp only [Bool.not_true, Bool.false_eq_true, and_false, if_true, if_false]
    | some s =>
      have hany : (slots.any fun s => cs.hasSlot s) = true :=
        List.any_eq_true.2 ⟨s, List.mem_of_find?_eq_some hfind, List.find?_some hfind⟩
      rw [hany]
      simp only [Bool.not_true, Bool.false_eq_true, false_and, and_false, if_false]
  · rw [if_neg hfuture, if_neg hfuture, if_neg fun h => hfuture ⟨h.1, h.2.1⟩]

theorem synced_key (slots : List CourseScheduleSlot) (cs : CourseSession) :
    (synced slots cs).courseId = cs.courseId ∧ (synced slots cs).sessionDate = cs.sessionDate ∧
    (synced slots cs).startTime = cs.startTime := by
  unfold synced
  cases slots.find? fun s => cs.hasSlot s <;> exact ⟨rfl, rfl, rfl⟩

theorem mem_orphans {id : Uuid} : id ∈ orphans courseId today d ↔
    ∃ cs, d.get .courseSessions id = some cs ∧
    cs.courseId = courseId ∧ today < cs.sessionDate ∧
    !((slotsOf [courseId] d).any fun s => cs.hasSlot s) ∧ !referenced d id := by
  unfold orphans
  rw [List.mem_map]
  constructor
  · rintro ⟨⟨k, cs⟩, hm, rfl⟩
    obtain ⟨hk, ho⟩ := Store.mem_sel.1 hm
    exact ⟨cs, hk, of_decide_eq_true ho⟩
  · rintro ⟨cs, hk, ho⟩
    exact ⟨(id, cs), Store.mem_sel.2 ⟨hk, decide_eq_true ho⟩, rfl⟩

/-- Sessions that nothing refers to go, and nothing else does. -/
theorem deleteSessions_alone {ids : List Uuid} (hfree : ∀ id ∈ ids, referenced d id = false) :
    Alone d (deleteSessions ids) (fun _ => True) fun _ d' => Only (S := Timetable)
    [.courseSessions, .attendanceRecords] d d' ∧
      (∀ k, d'.get .attendanceRecords k = d.get .attendanceRecords k) ∧
      ∀ k, d'.get .courseSessions k = (d.get .courseSessions k).filter fun _ =>
        !ids.contains k := by
  unfold deleteSessions
  refine Alone.bind (R := fun _ d₁ => Only (S := Timetable) [.courseSessions] d d₁ ∧
    ∀ k, d₁.get .courseSessions k =
    (d.get .courseSessions k).filter fun _ => !ids.contains k)
      (Alone.deleteAll fun _ d₁ ho hg => ⟨ho, hg⟩) fun _ d₁ ⟨ho₁, hg₁⟩ => ?_
  refine Alone.bind (R := fun _ d₂ => d₂ = d₁) (Alone.read rfl) fun b d₂ h₂ => ?_
  subst h₂
  refine Alone.bind (R := fun _ d₃ => d₃ = d₂) (Alone.ensure (fun _ => rfl) fun _ => trivial)
    fun _ d₃ h₃ => ?_
  subst h₃
  refine Alone.bind (R := fun _ d₄ => Only (S := Timetable) [.attendanceRecords] d₃ d₄ ∧
    ∀ k, d₄.get .attendanceRecords k =
    (d₃.get .attendanceRecords k).filter fun ar => !ids.contains ar.sessionId)
      (Alone.deleteAll fun _ d₄ ho hg => ⟨ho, hg⟩)
    fun _ d₄ ⟨ho₄, hg₄⟩ => .pure ⟨?_, fun k => ?_, fun k => ?_⟩
  · have h₁ : Only (S := Timetable) [.courseSessions, .attendanceRecords] d d₃ := ho₁.mono (by simp)
    have h₄ : Only (S := Timetable) [.courseSessions, .attendanceRecords] d₃ d₄ :=
      ho₄.mono (by simp)
    exact h₁.trans h₄
  · rw [hg₄, ho₁.get (by simp)]
    cases har : d.get .attendanceRecords k with
    | none => rfl
    | some ar =>
      rw [Option.filter_some, if_pos]
      -- no record names one of them
      rw [Bool.not_eq_true', ← Bool.not_eq_true, List.contains_iff_mem]
      intro hm
      have href : referenced d ar.sessionId = true := referenced_iff.2 (.inr ⟨k, ar, har, rfl⟩)
      rw [hfree _ hm] at href
      cases href
  · rw [ho₄.get (by simp), hg₁]

/-- **Each session of the course meets its fate**, and nothing else changes. -/
theorem reconcileFutureSessionsTx_alone (courseId : Uuid) (today : ℤ) :
    Alone d (reconcileFutureSessionsTx courseId today) (fun _ => True) fun _ d' =>
      Only (S := Timetable) [.courseSessions, .attendanceRecords] d d' ∧
      (∀ k, d'.get .attendanceRecords k = d.get .attendanceRecords k) ∧
      ∀ k, d'.get .courseSessions k = (d.get .courseSessions k).bind
        (fate (slotsOf [courseId] d) courseId today (referenced d k)) := by
  unfold reconcileFutureSessionsTx
  refine Alone.bind (R := fun slots d₁ => slots = slotsOf [courseId] d ∧ d₁ = d)
    (Alone.read ⟨rfl, rfl⟩) fun slots d₁ ⟨hslots, h₁⟩ => ?_
  subst h₁
  subst hslots
  refine Alone.bind (R := fun _ d₂ => Only (S := Timetable) [.courseSessions] d₁ d₂ ∧
    ∀ k, d₂.get .courseSessions k =
    (d₁.get .courseSessions k).map (onlyIf (fun cs =>
      outOfSync (slotsOf [courseId] d₁) courseId today cs) (synced (slotsOf [courseId] d₁))))
    (Alone.updateAll fun _ d₂ ho hg => ⟨ho, hg⟩) fun _ d₂ ⟨ho₂, hg₂⟩ => ?_
  refine Alone.bind (R := fun ids d₃ => ids = orphans courseId today d₂ ∧ d₃ = d₂)
    (Alone.read ⟨rfl, rfl⟩) fun ids d₃ ⟨hids, h₃⟩ => ?_
  subst h₃
  subst hids
  -- the sync changes no slot and no reference
  have hslots : slotsOf [courseId] d₃ = slotsOf [courseId] d₁ := slotsOf_only ho₂ (by simp) _
  have href : ∀ id, referenced d₃ id = referenced d₁ id := fun id => referenced_only ho₂ (by simp)
    (by simp) id
  refine (deleteSessions_alone fun id hid => ?_).imp (fun _ d₄ ⟨ho₄, ha₄, hg₄⟩ => ⟨?_, fun k => ?_,
    fun k => ?_⟩) fun _ h => h
  · obtain ⟨cs, -, -, -, -, hr⟩ := mem_orphans.1 hid
    simpa using hr
  · have h₂ : Only (S := Timetable) [.courseSessions, .attendanceRecords] d₁ d₃ :=
      ho₂.mono (by simp)
    exact h₂.trans ho₄
  · rw [ha₄, ho₂.get (by simp)]
  · rw [hg₄, hg₂]
    cases hcs : d₁.get .courseSessions k with
    | none => rfl
    | some cs =>
      -- a synced session keeps what its fate depends on
      have hkey : ∀ b : Prop, [Decidable b] →
          (if b then synced (slotsOf [courseId] d₁) cs else cs).courseId = cs.courseId ∧
          (if b then synced (slotsOf [courseId] d₁) cs else cs).sessionDate = cs.sessionDate ∧
          ∀ s, (if b then synced (slotsOf [courseId] d₁) cs else cs).hasSlot s = cs.hasSlot s := by
        intro b _
        obtain ⟨h1, h2, h3⟩ := synced_key (slotsOf [courseId] d₁) cs
        split
        · refine ⟨h1, h2, fun s => ?_⟩
          unfold CourseSession.hasSlot
          rw [h1, h2, h3]
        · exact ⟨rfl, rfl, fun _ => rfl⟩
      have hmem : (orphans courseId today d₃).contains k = true ↔ cs.courseId = courseId ∧
          today < cs.sessionDate ∧
          !((slotsOf [courseId] d₁).any fun s => cs.hasSlot s) ∧ !referenced d₁ k := by
        rw [List.contains_iff_mem, mem_orphans, hg₂, hcs, Option.map_some, sync_eq, href, hslots]
        obtain ⟨h1, h2, h3⟩ := hkey (cs.courseId = courseId ∧ today < cs.sessionDate)
        constructor
        · rintro ⟨cs', he, hc, hd, hs, hr⟩
          cases he
          rw [h1] at hc
          rw [h2] at hd
          simp only [h3] at hs
          exact ⟨hc, hd, hs, hr⟩
        · rintro ⟨hc, hd, hs, hr⟩
          refine ⟨_, rfl, h1.trans hc, by rw [h2]; exact hd, ?_, hr⟩
          simp only [h3]
          exact hs
      rw [Option.map_some, Option.bind_some, Option.filter_some, sync_eq, fate_eq]
      by_cases ho : cs.courseId = courseId ∧ today < cs.sessionDate ∧
        !((slotsOf [courseId] d₁).any fun s => cs.hasSlot s) ∧ !referenced d₁ k
      · rw [if_pos ho, if_neg]
        rw [hmem.2 ho]
        decide
      · rw [if_neg ho, if_pos]
        rw [Bool.not_eq_true', ← Bool.not_eq_true]
        exact fun h => ho (hmem.1 h)

/-! ## The schedule as a whole -/

/-- A schedule that has been replaced: its slots are the list, and each future session of the
course has met its fate. -/
structure Reconciled (courseId : Uuid) (rows : List SlotRow) (today : ℤ)
    (d d' : Store Timetable) : Prop where
  distinct : Distinct (rows.map (SlotRow.slot courseId))
  slots : (slotsOf [courseId] d').Perm (rows.map (SlotRow.slot courseId))
  others : ∀ k s, s.courseId ≠ courseId → (d'.get .courseScheduleSlots k = some s ↔
    d.get .courseScheduleSlots k = some s)
  sessions : ∀ k, d'.get .courseSessions k =
    (d.get .courseSessions k).bind (fate (rows.map (SlotRow.slot courseId)) courseId today
      (referenced d k))
  leaves : ∀ k, d'.get .leaveRequests k = d.get .leaveRequests k
  attendance : ∀ k, d'.get .attendanceRecords k = d.get .attendanceRecords k

theorem Reconciled.from {ts : List CourseTbl} (h : Reconciled courseId rows today d₁ d')
    (ho : Only (S := Timetable) ts d d₁)
    (hts : ∀ t ∈ ts, t = .courses) : Reconciled courseId rows today d d' := by
  have hn : ∀ t : CourseTbl, t ≠ .courses → t ∉ ts := fun t ht hm => ht (hts t hm)
  refine ⟨h.distinct, h.slots, fun k s hs => ?_, fun k => ?_, fun k => ?_, fun k => ?_⟩
  · rw [h.others k s hs, ho.get (hn _ (by decide))]
  · rw [h.sessions, ho.get (hn _ (by decide)), referenced_only ho (hn _ (by decide))
      (hn _ (by decide))]
  · rw [h.leaves, ho.get (hn _ (by decide))]
  · rw [h.attendance, ho.get (hn _ (by decide))]

theorem replaceWeeklyScheduleTx_alone (courseId : Uuid) (rows : List SlotRow) (today : ℤ)
    (ha : slotKeys.Apart d) :
    Alone d (replaceWeeklyScheduleTx courseId rows today) (fun _ => True) fun _ d' =>
      Reconciled courseId rows today d d' := by
  unfold replaceWeeklyScheduleTx
  refine Alone.bind (replaceSlotsTx_alone courseId rows) fun _ d₂ ⟨d₁, ho₁, hg₁, hi₂⟩ => ?_
  refine (reconcileFutureSessionsTx_alone courseId today).imp (fun _ d₃ ⟨ho₃, ha₃, hg₃⟩ => ?_)
    fun _ h => h
  obtain ⟨hperm, hothers⟩ := replaced_slots hg₁ hi₂
  have ho₂ : Only (S := Timetable) [.courseScheduleSlots] d d₂ := ho₁.trans hi₂.only
  have hsub : ∀ k s, d₁.get .courseScheduleSlots k = some s →
      d.get .courseScheduleSlots k = some s := by
    intro k s hk
    rw [hg₁ k, Option.filter_eq_some_iff] at hk
    exact hk.1
  have hdistinct := distinct_slotsOf (hi₂.apart (ha.sub hsub)) [courseId]
  refine ⟨(hperm.pairwise_iff fun h hc => h (Exclusion.Clash.symm hc)).1 hdistinct, ?_,
    fun k s hs => ?_, fun k => ?_, fun k => ?_, fun k => ?_⟩
  · rw [slotsOf_only ho₃ (by simp)]
    exact hperm
  · rw [ho₃.get (by simp)]
    exact hothers k s hs
  · rw [hg₃, ho₂.get (by simp), referenced_only ho₂ (by simp) (by simp)]
    congr 1
    funext cs
    exact fate_perm hperm hdistinct _
  · rw [ho₃.get (by simp), ho₂.get (by simp)]
  · rw [ha₃, ho₂.get (by simp)]

/-! ## The request -/

variable {L : Letters} {parse : ParseTime} {id : Uuid} {req : UpdateCourseRequest}
  {level : Option CourseLevel}
  {entries : List CourseScheduleSlotEntry}

theorem courseEntries_alone (c : Course) : Alone d (courseEntries L id req c)
    (fun _ => True) fun _ d' => d' = d := by
  unfold courseEntries
  cases req.slug with
  | none => exact .ret rfl
  | some slug =>
    refine Alone.bind (R := fun _ d₁ => d₁ = d) (Alone.lockRes rfl) fun _ d₁ h₁ => ?_
    subst h₁
    refine Alone.bind (R := fun _ d₂ => d₂ = d₁) (Alone.claim rfl) fun _ d₂ h₂ => ?_
    subst h₂
    exact Alone.ensure (fun _ => rfl) fun _ => trivial

theorem referencesCoach_alone (coachId : Option Uuid) :
    Alone d (referencesCoach coachId) (fun _ => True) fun _ d' => d' = d := by
  cases coachId with
  | none => exact .ret rfl
  | some id => exact .references (fun _ => rfl) fun _ => trivial

theorem updateCourseRow_alone : Alone d (updateCourseRow L id req level) (fun _ => True) fun _ d' =>
    Only (S := Timetable) [.courses] d d' := by
  intro σ hσ hd
  subst hd
  unfold updateCourseRow
  refine Yields.bind (Yields.selectFor_still hσ trivial) fun o σ₁ _ h₁ => ?_
  obtain ⟨-, hσ₁, hd₁, hh₁⟩ := h₁
  cases o with
  | none => exact .pure ⟨hσ₁, hd₁ ▸ Only.refl _ _⟩
  | some c =>
    have hensure : ∀ (b : Bool) (e : AppError), Alone σ₁.db (ensure b e) (fun _ => True) fun _ d' =>
        d' = σ₁.db :=
      fun b e => Alone.ensure (fun _ => rfl) fun _ => trivial
    refine Yields.bind (hensure _ _ σ₁ hσ₁ rfl) fun _ σ₂ hl₂ ⟨hσ₂, hd₂⟩ =>
      Yields.bind (hensure _ _ σ₂ hσ₂ hd₂) fun _ σ₃ hl₃ ⟨hσ₃, hd₃⟩ => ?_
    refine Yields.bind (courseEntries_alone c σ₃ hσ₃ hd₃) fun _ σ₄ hl₄ ⟨hσ₄, hd₄⟩ => ?_
    refine Yields.bind (referencesCoach_alone _ σ₄ hσ₄ hd₄) fun _ σ₅ hl₅ ⟨hσ₅, hd₅⟩ => ?_
    have hh₅ := hl₅.holds (hl₄.holds (hl₃.holds (hl₂.holds (hh₁ rfl))))
    refine Yields.bind (Alone.put (R := fun _ d' =>
      d' = σ₅.db.apply (.mod .courses id (req.apply level))) hσ₅ hh₅ rfl)
      fun _ σ₆ _ ⟨hσ₆, hd₆⟩ => .pure ⟨hσ₆, ?_⟩
    rw [hd₆, hd₅, hd₁]
    exact Only.write (S := Timetable)
      (w := .mod CourseTbl.courses id (req.apply level)) _ List.mem_cons_self

/-- **An update of the schedule that runs alone** reconciles the calendar, or changes nothing. -/
theorem updateCourse_alone (hreq : req.scheduleSlots = some entries) (ha : slotKeys.Apart d) :
    wp ((rowLocks Timetable).under (.still Timetable)) (plainly (rowLocks Timetable) fun _ => True)
      (fun _ σ => ∃ rows, parseScheduleSlots parse entries = .ok rows ∧
        Reconciled id rows today d σ.start) (fun _ σ => σ.start = d)
      ((courses L parse).prog (.updateCourse id req today)) (.begin d d false) := by
  show wp _ _ _ _ (updateCourse L parse id req today >>= fun c => pure (CourseReply.course c)) _
  rw [wp_bind]
  unfold updateCourse
  refine wp_checked_bind (fun _ _ => wp_checked_bind (fun level _ => ?_) fun _ _ => rfl)
    fun _ _ => rfl
  refine wp_checked_bind (fun parsed hp => ?_) fun _ _ => rfl
  obtain ⟨rows, hrows, rfl⟩ : ∃ rows, parseScheduleSlots parse entries = .ok rows ∧
      parsed = some rows := by
    rw [hreq, Option.mapM_some] at hp
    cases hr : parseScheduleSlots parse entries with
    | error e => rw [hr] at hp; cases hp
    | ok rows => rw [hr] at hp; cases hp; exact ⟨rows, rfl, rfl⟩
  refine Alone.wp_atomically (F := fun _ => True)
    (R := fun _ d' => Reconciled id rows today d d') ?_
    (fun c d' d'' hr v _ _ _ => ⟨rows, hrows, hr⟩) fun _ _ _ => rfl
  refine Alone.bind (R := fun _ d₁ => d₁ = d) (Alone.selectFor rfl) fun existing d₁ h₁ => ?_
  subst h₁
  refine Alone.bind (R := fun _ d₂ => d₂ = d₁) (Alone.orFail (fun _ _ => rfl) fun _ => trivial)
    fun existing d₂ h₂ => ?_
  subst h₂
  have hages : ∀ r : Except AppError AgeRange, Alone d₂ (checked r) (fun _ => True) fun _ d₃ =>
      d₃ = d₂ := by
    intro r
    cases r with
    | ok a => exact .ret rfl
    | error e => exact .fail trivial
  refine Alone.bind (hages _) fun _ d₃ h₃ => ?_
  subst h₃
  refine Alone.bind updateCourseRow_alone fun course d₄ h₄ => ?_
  refine Alone.bind (R := fun _ d₅ => d₅ = d₄) (Alone.orFail (fun _ _ => rfl) fun _ => trivial)
    fun course d₅ h₅ => ?_
  subst h₅
  have ha₅ : slotKeys.Apart d₅ := ha.sub fun k s hk => by
    rw [← h₄.get (t := CourseTbl.courseScheduleSlots) (by simp)]; exact hk
  refine Alone.bind (replaceWeeklyScheduleTx_alone id rows today ha₅) fun _ d₆ h₆ =>
    .pure (h₆.from h₄ ?_)
  intro t ht
  exact List.mem_singleton.1 ht

/-! ## Materializing -/

variable {ids : List Uuid} {first last : ℤ} {new : List CourseSession}

theorem mem_dates {x : ℤ} : x ∈ dates first last ↔ first ≤ x ∧ x ≤ last := by
  unfold dates
  simp only [List.mem_map, List.bind_eq_flatMap, List.mem_flatMap, List.pure_def,
    List.mem_singleton, List.mem_range]
  constructor
  · rintro ⟨_, ⟨n, hn, rfl⟩, rfl⟩
    omega
  · rintro ⟨h1, h2⟩
    refine ⟨x - first, ⟨(x - first).toNat, by omega, by omega⟩, by omega⟩

theorem mem_candidates : cs ∈ candidates ids first last d ↔
    ∃ s ∈ slotsOf ids d, ∃ date, first ≤ date ∧ date ≤ last ∧ s.dayOfWeek = dayOfWeek date ∧
      cs = s.on date := by
  unfold candidates
  rw [List.mem_flatMap]
  constructor
  · rintro ⟨s, hs, hm⟩
    obtain ⟨date, hd, rfl⟩ := List.mem_map.1 hm
    obtain ⟨hd, hslot⟩ := List.mem_filter.1 hd
    obtain ⟨h1, h2⟩ := mem_dates.1 hd
    unfold slotOfSession at hslot
    rw [decide_eq_true_eq] at hslot
    exact ⟨s, hs, date, h1, h2, hslot.2.1, rfl⟩
  · rintro ⟨s, hs, date, h1, h2, hd, rfl⟩
    refine ⟨s, hs, List.mem_map.2 ⟨date, List.mem_filter.2 ⟨mem_dates.2 ⟨h1, h2⟩, ?_⟩, rfl⟩⟩
    unfold slotOfSession
    rw [decide_eq_true_eq]
    exact ⟨rfl, hd, rfl⟩

/-- A session that is there under its key already, or is added. -/
def Placed (cs : CourseSession) (d d' : Store Timetable) : Prop :=
  (∃ k r, d.get .courseSessions k = some r ∧ sessionKeys.Clash r cs) ∧ d' = d ∨
    sessionKeys.Free cs d ∧ ∃ k, d.get .courseSessions k = none ∧
      d' = d.apply (.add .courseSessions k cs)

/-- The courses of the sessions are there. -/
def Housed (new : List CourseSession) (d : Store Timetable) : Prop :=
  ∀ cs ∈ new, (d.get .courses cs.courseId).isSome = true

theorem insertSession_alone (hc : (d.get .courses cs.courseId).isSome = true) :
    Alone d (insertSession cs) (fun _ => False) fun _ d' => Placed cs d d' := by
  unfold insertSession
  refine Alone.bind (R := fun b d₁ => d₁ = d ∧ (b = true ↔ ∃ k r, d.get .courseSessions k = some r ∧
    sessionKeys.Clash r cs))
    (Alone.claim ⟨rfl, ?_⟩) fun b d₁ ⟨h₁, hb⟩ => ?_
  · rw [Bool.not_eq_true', ← Bool.not_eq_true, List.isEmpty_iff]
    constructor
    · intro h
      obtain ⟨⟨k, r⟩, hm⟩ := List.exists_mem_of_ne_nil _ h
      obtain ⟨hk, hr⟩ := Store.mem_sel.1 hm
      exact ⟨k, r, hk, session_clash.2 (of_decide_eq_true hr)⟩
    · rintro ⟨k, r, hk, hr⟩ h
      have hm : (k, r) ∈ d.sel .courseSessions fun _ r => r.courseId = cs.courseId ∧
          r.sessionDate = cs.sessionDate ∧ r.startTime = cs.startTime :=
        Store.mem_sel.2 ⟨hk, decide_eq_true (session_clash.1 hr)⟩
      rw [h] at hm
      cases hm
  subst h₁
  cases b with
  | true => exact .pure (.inl ⟨hb.1 rfl, rfl⟩)
  | false =>
    have hfree : sessionKeys.Free cs d₁ := by
      intro k r hk hr
      cases hb.2 ⟨k, r, hk, hr⟩
    refine Alone.bind (R := fun _ d₂ => d₂ = d₁) (Alone.references (fun _ => rfl) fun hn => ?_)
      fun _ d₂ h₂ => ?_
    · rw [hn] at hc
      cases hc
    subst h₂
    refine Alone.bind (R := fun n d₃ => d₂.get .courseSessions n = none ∧
      d₃ = d₂.apply (.add .courseSessions n cs))
      (Alone.insert fun n hn => ⟨hn, rfl⟩) fun n d₃ ⟨hn, h₃⟩ => ?_
    exact .pure (.inr ⟨hfree, n, hn, h₃⟩)

theorem Placed.only (h : Placed cs d d') : Only (S := Timetable) [.courseSessions] d d' := by
  rcases h with ⟨-, rfl⟩ | ⟨-, k, -, rfl⟩
  · exact Only.refl _ _
  · exact Only.write (S := Timetable) (w := .add CourseTbl.courseSessions k cs) d List.mem_cons_self

theorem insertSessions_alone (hc : Housed new d) : Alone d (each insertSession new)
    (fun _ => False) fun _ d' => Chain Placed new d d' := by
  refine (Alone.each (fun done d' => Chain Placed done d d') rfl
    fun done cs rest d₁ he hi => ?_).imp (fun _ _ h => h) fun _ h => h
  have ho : Only (S := Timetable) [.courseSessions] d d₁ := Chain.only (fun _ _ _ _ h => h.only) hi
  have hcs : (d₁.get .courses cs.courseId).isSome = true := by
    rw [ho.get (by simp)]
    exact hc cs (by simp [he])
  exact (insertSession_alone hcs).imp (fun _ _ h => hi.snoc h) fun _ h => h

/-- What materializing has made of a store. -/
structure Filled (new : List CourseSession) (d d' : Store Timetable) : Prop where
  only : Only (S := Timetable) [.courseSessions] d d'
  kept : ∀ k cs, d.get .courseSessions k = some cs → d'.get .courseSessions k = some cs
  origin : ∀ k cs, d'.get .courseSessions k = some cs → d.get .courseSessions k = some cs ∨
    d.get .courseSessions k = none ∧ cs ∈ new
  all : ∀ cs ∈ new, ∃ k r, d'.get .courseSessions k = some r ∧ sessionKeys.Clash r cs
  apart : sessionKeys.Apart d → sessionKeys.Apart d'

theorem Filled.nil (d : Store Timetable) : Filled [] d d :=
  ⟨Only.refl _ _, fun _ _ h => h, fun _ _ h => .inl h, by simp, fun h => h⟩

theorem Placed.filled (h : Placed cs d d') : Filled [cs] d d' := by
  rcases h with ⟨⟨k, r, hk, hr⟩, rfl⟩ | ⟨hfree, k, hn, rfl⟩
  · refine ⟨Only.refl _ _, fun _ _ h => h, fun _ _ h => .inl h, fun cs' hcs' => ?_, fun h => h⟩
    rw [List.mem_singleton.1 hcs']
    exact ⟨k, r, hk, hr⟩
  · have hget : ∀ k', (d.apply (.add CourseTbl.courseSessions k cs)).get .courseSessions k' =
        if k' = k then some cs else d.get .courseSessions k' := by
      intro k'
      rw [Store.get_add, hn, Option.getD_none]
    refine ⟨Placed.only (.inr ⟨hfree, k, hn, rfl⟩), fun k' r hk' => ?_, fun k' r hk' => ?_,
      fun cs' hcs' => ?_, fun h => h.add hn hfree⟩
    · rw [hget, if_neg fun he => ?_]
      · exact hk'
      · rw [he, hn] at hk'
        cases hk'
    · rw [hget] at hk'
      split at hk'
      next he =>
        cases hk'
        exact .inr ⟨he ▸ hn, List.mem_cons_self⟩
      next => exact .inl hk'
    · rw [List.mem_singleton.1 hcs']
      exact ⟨k, cs, by rw [hget, if_pos rfl], session_clash.2 ⟨rfl, rfl, rfl⟩⟩

theorem Filled.append {new' : List CourseSession} (h : Filled new d d₁) (h' : Filled new' d₁ d') :
    Filled (new ++ new') d d' := by
  refine ⟨h.only.trans h'.only, fun k cs hk => h'.kept k cs (h.kept k cs hk), fun k cs hk => ?_,
    fun cs hcs => ?_, fun ha => h'.apart (h.apart ha)⟩
  · rcases h'.origin k cs hk with hk | ⟨hn, hm⟩
    · rcases h.origin k cs hk with hk | ⟨hn, hm⟩
      · exact .inl hk
      · exact .inr ⟨hn, List.mem_append_left _ hm⟩
    · refine .inr ⟨?_, List.mem_append_right _ hm⟩
      cases hd : d.get .courseSessions k with
      | none => rfl
      | some r =>
        rw [h.kept k r hd] at hn
        cases hn
  · rcases List.mem_append.1 hcs with hcs | hcs
    · obtain ⟨k, r, hk, hr⟩ := h.all cs hcs
      exact ⟨k, r, h'.kept k r hk, hr⟩
    · exact h'.all cs hcs

/-- **Materializing a list** adds what is not there. -/
theorem filled_of_placed (h : Chain Placed new d d') : Filled new d d' := by
  induction new generalizing d with
  | nil => cases h; exact .nil _
  | cons cs new ih =>
    obtain ⟨d₁, hfirst, hrest⟩ := h
    exact hfirst.filled.append (ih hrest)

/-- A list of sessions that are all there is not added again. -/
theorem placed_again (h : Chain Placed new d d')
    (hall : ∀ cs ∈ new, ∃ k r, d.get .courseSessions k = some r ∧ sessionKeys.Clash r cs) :
    d' = d := by
  induction new generalizing d with
  | nil => cases h; rfl
  | cons cs new ih =>
    obtain ⟨d₁, hfirst, hrest⟩ := h
    have h₁ : d₁ = d := by
      rcases hfirst with ⟨-, h₁⟩ | ⟨hfree, -⟩
      · exact h₁
      · obtain ⟨k, r, hk, hr⟩ := hall cs List.mem_cons_self
        exact absurd hr (hfree k r hk)
    subst h₁
    exact ih hrest fun cs' hcs' => hall cs' (List.mem_cons_of_mem _ hcs')

theorem candidates_empty (h : last < first) : candidates ids first last d = [] := by
  refine List.eq_nil_iff_forall_not_mem.2 fun cs hm => ?_
  obtain ⟨s, -, date, h1, h2, -⟩ := mem_candidates.1 hm
  omega

/-- Course of a candidate. -/
theorem housed_candidates (hp : ∀ k s, d.get .courseScheduleSlots k = some s →
    (d.get .courses s.courseId).isSome = true) :
    Housed (candidates ids first last d) d := by
  intro cs hm
  obtain ⟨s, hs, date, -, -, -, rfl⟩ := mem_candidates.1 hm
  obtain ⟨k, hk, -⟩ := mem_slotsOf.1 hs
  exact hp k s hk

/-- **Materializing, with nobody else about**: it does not fail. -/
theorem materializeRange_alone (L : Letters) (parse : ParseTime) (today : ℤ) (ids : List Uuid)
    (first last : ℤ)
    (hp : ∀ k s, d.get .courseScheduleSlots k = some s →
      (d.get .courses s.courseId).isSome = true) :
    wp ((rowLocks Timetable).under (.still Timetable)) (plainly (rowLocks Timetable) fun _ => True)
      (fun _ σ => Chain Placed (candidates ids (max first today) last d) d σ.start)
      (fun _ _ => False)
      ((courses L parse).prog (.materializeRange today ids first last)) (.begin d d false) := by
  show wp _ _ _ _ (materializeRange today ids first last >>= fun r => pure (CourseReply.range r)) _
  rw [wp_bind]
  unfold materializeRange
  split
  next hlast =>
    have hnone : candidates ids (max first today) last d = [] := candidates_empty hlast
    rw [hnone]
    exact rfl
  rw [wp_bind]
  unfold insertSessions
  split
  next hids =>
    have hnone : candidates ids (max first today) last d = [] := by
      rw [List.isEmpty_iff] at hids
      subst hids
      refine List.eq_nil_iff_forall_not_mem.2 fun cs hm => ?_
      obtain ⟨s, hs, -⟩ := mem_candidates.1 hm
      obtain ⟨-, -, hc⟩ := mem_slotsOf.1 hs
      cases hc
    rw [hnone]
    exact rfl
  rw [wp_bind]
  refine wp_snapshot fun v₀ _ _ hv => ?_
  rw [Alone.view_eq (Pt.laid_begin d false) hv]
  show wp _ _ _ _ (if (candidates ids (max first today) last d).isEmpty then _ else _) _
  split
  next hempty =>
    rw [List.isEmpty_iff.1 hempty]
    exact rfl
  -- alone, each candidate is placed or was there
  have hinsert : Alone d (each insertSession (candidates ids (max first today) last d) >>=
      fun _ => pure ()) (fun _ => False)
      fun _ d' => Chain Placed (candidates ids (max first today) last d) d d' :=
    Alone.bind (insertSessions_alone (housed_candidates hp)) fun _ d' h => .pure h
  exact (Txn.wp_atomically _ _).2 ((hinsert _ (Pt.laid_begin d false) rfl).wp
    (fun a σ' _ hr => ⟨trivial, fun d'' _ => hr.2⟩) fun e σ' _ hf => hf.elim)

end DreamFly.Courses
