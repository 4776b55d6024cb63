import DreamFly.Run.Leaves
import DreamFly.Txn.Solo

/-!
# Attendance over whole runs

* `reach_kept`: in every run, nobody approves a leave whose attendance row somebody else
  has locked (`approvedKept`).
* `approved_leave_marked`: every approved leave has its attendance row, batches neither
  overwrite it nor mark around it, and other rows can be marked again.
-/

namespace DreamFly

open Txn Prog

variable {q : Req} {σ : Pt Shop} {d d' : Db} {s s' : ShopSys} {t : ℕ}
  {c : Call Shop AppError Reply Req} {e sess u : Uuid}
  {marks : Marks}

/-! ## The invariant -/

/-- An approved leave was approved before a commit, or is approved by it and gets its
attendance row under the row's lock. -/
theorem Req.Commits.approved {K : Rely Shop} (h : q.Commits K σ) (ha : ApprovedLeave e sess σ.db) :
    ApprovedLeave e sess σ.now ∨ Holds σ.held (.row (S := Shop) .attendance (sess, e)) .update ∧
      ∃ a, σ.db.get .attendance (sess, e) = some a ∧ a.status = .leave := by
  obtain ⟨k, r, hr, he, hs, hap⟩ := ha
  rcases h.leave_cases k with hsame | ⟨x, -, hx⟩ | ⟨r₀, -, -, hx⟩ |
      ⟨r₀, st, u, -, -, -, -, hx, hrow⟩ | ⟨_, _, _, -, x, hx⟩
  · exact .inl ⟨k, r, hsame ▸ hr, he, hs, hap⟩
  · rw [hr] at hx
    cases hx
    rw [x.pending] at hap
    cases hap
  · rw [hr] at hx
    cases hx
    cases hap
  · rw [hr] at hx
    cases hx
    obtain ⟨hh, hatt⟩ := hrow hap
    cases he
    cases hs
    exact .inr ⟨hh, _, hatt, rfl⟩
  · rw [hr] at hx
    cases hx
    exact .inl ⟨k, x.row, x.row_eq, he, hs, x.approved⟩

/-- Every run respects `approvedKept`. -/
theorem reach_kept (h : shop.Reachable (Sys.init d) s) : s.OK (shopContract approvedKept) := by
  refine reach_ok (fun s e s' hs he _ => keeps_of_commit he
    fun t c u c' hcs hu hne e sess hh ha => ?_) (ok_init d) h
  obtain ⟨σ, hnow, hdb, hheld, -, -, hcommits⟩ := Sys.OK.commits rfl hs hcs
  rw [← hdb] at ha
  rcases hcommits.approved ha with ha | ⟨hh', -⟩
  · rw [← hnow]; exact ha
  · rw [hheld] at hh'
    exact absurd hh' ((hs.compat u t c' c hu hcs.1 hne).not_holds hh rfl)

/-- A leave that was projected stays so. -/
theorem Req.Commits.projected (h : q.Commits approvedKept σ) (hp : Projected σ.now σ.now) :
    Projected σ.db σ.db := by
  intro e sess ha
  rcases h.approved ha with ha | ⟨-, hatt⟩
  · cases q with
    | bulkUpsertAttendance at' auth sess' records =>
      obtain ⟨marks, -, hb⟩ := h
      exact (hb.projected (fun _ _ _ h => h) hp).1 e sess ha
    | decideLeaveRequest auth id newStatus =>
      obtain ⟨st, -, -, x, -⟩ := h
      obtain ⟨a, ha', hs⟩ := hp e sess ha
      rw [x.attendance]
      split
      · exact ⟨_, rfl, rfl⟩
      · exact ⟨a, ha', hs⟩
    | _ =>
      rw [h.only.get (t := ShopTbl.attendance) (by simp [Req.writes])]
      exact hp e sess ha
  · exact hatt

/-- **Every approved leave has its attendance row.** -/
theorem reach_projected (h0 : Projected d d) (h : shop.Reachable (Sys.init d) s) :
    Projected s.db s.db :=
  reach_inv (C := shopContract approvedKept) (P := fun d => Projected d d) (fun _ => reach_kept) h0
    (fun _ _ _ ho hp => Req.Commits.projected ho.2 hp) h

theorem ApprovedLeave.later (hr : shopRules.rel [] d d') (h : ApprovedLeave e sess d) :
    ApprovedLeave e sess d' := by
  obtain ⟨k, r, hk, he, hs, ha⟩ := h
  obtain ⟨r', hk', hu⟩ := rel_leave hr hk
  exact ⟨k, r', hk', hu.enrolment.trans he, hu.session.trans hs,
    (hu.decided (by rw [ha]; simp)).trans ha⟩

/-! ## Refused batches -/

/-- A batch that commits meets no approved leave with its other marks. -/
theorem batch_clear (h0 : Projected d d) (h : shop.Reachable (Sys.init d) s)
    (hcs : CommitStep s t c s') {at' : StudioNow}
    {auth : AuthUser} {records : List AttendanceRecordEntry}
    (hq : c.req = .bulkUpsertAttendance at' auth sess records)
    (hm : parseMarks records = .ok marks) : MarksClear sess marks s.db := by
  obtain ⟨σ, hnow, -, -, -, -, hcommits⟩ := Sys.OK.commits rfl (reach_kept h) hcs
  have hp := reach_projected h0 h
  rw [← hnow] at hp ⊢
  rw [hq] at hcommits
  obtain ⟨marks', hm', hb⟩ := hcommits
  rw [hm] at hm'
  cases hm'
  exact (hb.projected (fun _ _ _ h => h) hp).2

/-- **A batch that marks an approved leave otherwise never commits.** -/
theorem batch_refused (h0 : Projected d d) (h : shop.Reachable (Sys.init d) s)
    {m : Uuid × AttendanceStatus} (hm : m ∈ marks)
    (hn : m.2 ≠ .leave) (ha : ApprovedLeave m.1 sess s.db) (hcom : ∀ c, s.call t = some c →
      c.committed = false)
    (hr : shop.Reachable s s') {at' : StudioNow} {auth : AuthUser}
    {records : List AttendanceRecordEntry}
    (hc : s'.call t = some c) (hq : c.req = .bulkUpsertAttendance at' auth sess records)
    (hp : parseMarks records = .ok marks) :
    c.committed = false := by
  induction hr generalizing c with
  | refl => exact hcom c hc
  | @tail s₁ s₂ hr hst ih =>
    obtain ⟨ev, he, -⟩ := hst
    by_contra hne
    rw [Bool.not_eq_false] at hne
    rcases step_committed he hc hne with ⟨c₁, hc₁, hcom₁, hreq⟩ | ⟨c₁, hcs, hreq⟩
    · rw [ih hc₁ (hreq.trans hq)] at hcom₁
      cases hcom₁
    · have hrel := reach_rel (C := shopContract (.free Shop)) (fun s₂ h₂ => shop_ok (h.trans h₂)) hr
      exact batch_clear h0 (h.trans hr) hcs (hreq.trans hq) hp m hm hn (ha.later hrel)

/-! ## Marking with nobody else around -/

/-- A batch that the checks let through: a started session of the caller's course, active
enrolments, and no approved leave marked otherwise. -/
structure Markable (at' : StudioNow) (auth : AuthUser) (sess : Uuid)
    (records : List AttendanceRecordEntry) (marks : Marks)
    (d : Db) : Prop where
  user : (d.get .users auth.userId).isSome = true
  parsed : parseMarks records = .ok marks
  session : ∃ sc, findSessionCourse sess d = some sc ∧
    (auth.isAdmin = true ∨ (coachOf auth.userId d).isSome = true ∧
      coachOf auth.userId d = sc.coachId) ∧
    requireStarted at'.tz at'.now sc.sessionDate sc.startTime "session time"
      (.validation "場次尚未開始，無法點名") = .ok () ∧
    sameSet (marks.map Prod.fst) (findActiveEnrolmentIdsIn sc.courseId
      (marks.map Prod.fst) d) = true
  clear : MarksClear sess marks d

/-- Every mark of the batch is in the records, for one of its entries, and nothing else
has changed. -/
structure Written (sess u : Uuid) (marks : Marks) (d d' : Db) : Prop where
  only : Only (S := Shop) [.attendance] d d'
  row : ∀ m ∈ marks, ∃ st, (m.1, st) ∈ marks ∧ d'.get .attendance (sess, m.1) = some ⟨st, u⟩

theorem mayOverwrite_of_clear {new old : AttendanceStatus} (h : new = .leave ∨
    ¬ ApprovedLeave e sess d) :
    mayOverwrite new old sess e d = true := by
  simp only [mayOverwrite, decide_eq_true_eq]
  refine h.imp id fun hn => .inr ?_
  rw [List.isEmpty_iff, List.eq_nil_iff_forall_not_mem]
  rintro ⟨k, r⟩ hm
  obtain ⟨hg, hp⟩ := Store.mem_sel.1 hm
  simp only [decide_eq_true_eq] at hp
  exact hn ⟨k, r, hg, hp.1, hp.2.1, hp.2.2⟩

variable {C : Pt Shop → Prop} {st : AttendanceStatus}

/-- The specification of a piece of a transaction when nobody else commits: it does not
fail. -/
abbrev DoesAlone {α : Type} (C : Pt Shop → Prop) (σ : Pt Shop) (p : Tx α)
    (R : α → Pt Shop → Prop) : Prop :=
  Yields (shopRules.under (.still Shop)) (writing C fun _ _ => True) σ p (fun _ => False) R

theorem upsertAttendance_alone (hσ : σ.Laid) (hs : (σ.db.get .sessions sess).isSome = true)
    (he : (σ.db.get .enrolments e).isSome = true) (hu : (σ.db.get .users u).isSome = true)
    (hclear : st = .leave ∨ ¬ ApprovedLeave e sess σ.db) :
    DoesAlone C σ (upsertAttendanceTx sess e st u) fun n σ' => n = 1 ∧ σ'.Laid ∧
    Marked sess e st u σ.db σ'.db := by
  refine Yields.bind (Yields.lockRes trivial) fun _ σ₁ _ h₁ => ?_
  have hσ₁ : σ₁.Laid := by rw [h₁]; exact hσ.grant _ _
  have hh : Holds σ₁.held (.row (S := Shop) .attendance (sess, e)) .update := by
    rw [h₁]; exact holds_acquire _ _ _
  have hd₁ : σ₁.db = σ.db := by rw [h₁]; rfl
  rw [← hd₁] at hs he hu hclear ⊢
  refine Yields.bind (R := fun r σ' => σ' = σ₁ ∧ r = (σ₁.db.get .attendance (sess, e), σ₁.db))
    (Yields.read_still hσ₁ ⟨rfl, rfl⟩)
    fun r σ₂ _ ⟨h₂, hr⟩ => ?_
  subst h₂
  subst hr
  dsimp only
  -- without an approved leave whatever is there may be overwritten
  cases hold : σ₂.db.get .attendance (sess, e) with
  | some old =>
    dsimp only
    rw [if_pos (mayOverwrite_of_clear hclear)]
    refine Yields.bind (Yields.references_still hσ₁ hu trivial) fun _ σ₃ hl₃ h₃ => ?_
    refine Yields.bind (Yields.put ⟨(hl₃.holds hh).weaken (by decide), trivial⟩) fun _ σ₄ _ h₄ =>
      .pure ⟨rfl, ?_, ?_⟩
    · rw [h₄, h₃]; exact (hσ₁.grant _ _).write _
    · have hd : σ₄.db = σ₂.db.apply (.mod .attendance (sess, e) fun _ => ⟨st, u⟩) := by
        rw [h₄, h₃]; rfl
      rw [hd]
      refine ⟨Only.write _ (by simp [Write.tbl]), fun k => ?_⟩
      rw [Store.get_mod]
      split
      · next hk => subst hk; rw [hold]; rfl
      · rfl
  | none =>
    dsimp only
    refine Yields.bind (Yields.references_still hσ₁ hs trivial) fun _ σ₃ hl₃ h₃ => ?_
    have hσ₃ : σ₃.Laid := by rw [h₃]; exact hσ₁.grant _ _
    have hd₃ : σ₃.db = σ₂.db := by rw [h₃]; rfl
    refine Yields.bind (Yields.references_still hσ₃ (hd₃ ▸ he) trivial) fun _ σ₄ hl₄ h₄ => ?_
    have hσ₄ : σ₄.Laid := by rw [h₄]; exact hσ₃.grant _ _
    have hd₄ : σ₄.db = σ₂.db := by rw [h₄, ← hd₃]; rfl
    refine Yields.bind (Yields.references_still hσ₄ (hd₄ ▸ hu) trivial) fun _ σ₅ hl₅ h₅ => ?_
    have hd₅ : σ₅.db = σ₂.db := by rw [h₅, ← hd₄]; rfl
    refine Yields.bind (Yields.put ⟨(((hl₃.trans hl₄).trans hl₅).holds hh).weaken
      (by decide), trivial⟩)
      fun _ σ₆ _ h₆ => .pure ⟨rfl, ?_, ?_⟩
    · rw [h₆, h₅]; exact (hσ₄.grant _ _).write _
    · have hd : σ₆.db = σ₂.db.apply (.add .attendance (sess, e) ⟨st, u⟩) := by rw [h₆, ← hd₅]; rfl
      rw [hd]
      refine ⟨Only.write _ (by simp [Write.tbl]), fun k => ?_⟩
      rw [Store.get_add, hold]
      rfl

/-- One mark more. -/
theorem Written.snoc {m : Uuid × AttendanceStatus} {d₁ d₂ : Db} (h : Written sess u marks d d₁)
    (hm : Marked sess m.1 m.2 u d₁ d₂) : Written sess u (marks ++ [m]) d d₂ where
  only := h.only.trans hm.only
  row m' hm' := by
    rw [hm.row]
    by_cases hk : (sess, m'.1) = (sess, m.1)
    · rw [if_pos hk]
      have he : m'.1 = m.1 := by simpa using hk
      exact ⟨m.2, by rw [he]; simp, rfl⟩
    · rw [if_neg hk]
      rcases List.mem_append.1 hm' with hm' | hm'
      · obtain ⟨st, hin, hrow⟩ := h.row m' hm'
        exact ⟨st, List.mem_append_left _ hin, hrow⟩
      · rw [List.mem_singleton.1 hm'] at hk
        exact absurd rfl hk

theorem markTx_alone {c : Uuid} (hσ : σ.Laid) (hs : (σ.db.get .sessions sess).isSome = true)
    (hu : (σ.db.get .users u).isSome = true)
    (hset : sameSet (marks.map Prod.fst)
      (findActiveEnrolmentIdsIn c (marks.map Prod.fst) σ.db) = true)
    (hclear : MarksClear sess marks σ.db) :
    DoesAlone C σ (markTx sess c marks u) fun _ σ' => Written sess u marks σ.db σ'.db := by
  have hactive : ∀ m ∈ marks, (σ.db.get .enrolments m.1).isSome = true := by
    intro m hm
    simp only [sameSet, Bool.and_eq_true, List.all_eq_true, List.contains_iff_mem] at hset
    have hin := hset.1 m.1 (List.mem_map.2 ⟨m, hm, rfl⟩)
    obtain ⟨⟨k, row⟩, hk, heq⟩ := List.mem_map.1 hin
    rw [← heq, (Store.mem_sel.1 hk).1]
    rfl
  -- what the two reads before the plan say
  have hplan : ∀ valid approved, sameSet (marks.map Prod.fst) valid = true →
      (∀ x ∈ approved, ApprovedLeave x sess σ.db) →
      planMarks marks valid approved = .ok marks := by
    intro valid approved hv ha
    have hany : (marks.any fun m => m.2 ≠ .leave ∧ approved.contains m.1) = false := by
      rw [List.any_eq_false]
      intro m hm
      simp only [decide_eq_true_eq, List.contains_iff_mem, not_and]
      exact fun hn hin => hclear m hm hn (ha m.1 hin)
    simp only [planMarks, hv, hany]
    rfl
  have hreads : DoesAlone C σ (if marks.isEmpty then return ([], []) else do
      let valid ← read (S := Shop) (findActiveEnrolmentIdsIn c (marks.map Prod.fst))
      let approved ← read (S := Shop) (findApprovedLeaveEnrolmentIdsTx sess (marks.map Prod.fst))
      return (valid, approved)) fun r σ' => σ' = σ ∧ planMarks marks r.1 r.2 = .ok marks := by
    split
    · next hnil =>
      rw [List.isEmpty_iff] at hnil
      subst hnil
      exact .pure ⟨rfl, rfl⟩
    · refine Yields.bind (R := fun r σ' => σ' = σ ∧
        r = findActiveEnrolmentIdsIn c (marks.map Prod.fst) σ.db)
        (Yields.read_still hσ ⟨rfl, rfl⟩) fun valid σ₁ _ hv₁ => ?_
      obtain ⟨h₁, hv⟩ := hv₁
      subst h₁
      refine Yields.bind (R := fun r σ' => σ' = σ₁ ∧
        r = findApprovedLeaveEnrolmentIdsTx sess (marks.map Prod.fst) σ₁.db)
        (Yields.read_still hσ ⟨rfl, rfl⟩) fun approved σ₂ _ h₂ =>
          .pure ⟨h₂.1, hplan _ _ (hv ▸ hset) ?_⟩
      intro x hx
      rw [h₂.2] at hx
      obtain ⟨⟨k, r⟩, hk, rfl⟩ := List.mem_map.1 hx
      obtain ⟨hg, hp⟩ := Store.mem_sel.1 hk
      simp only [approvedLeave, Bool.and_eq_true, decide_eq_true_eq] at hp
      exact ⟨k, r, hg, rfl, hp.1.1, hp.1.2⟩
  refine Yields.bind hreads fun r σ₁ _ hr₁ => ?_
  obtain ⟨h₁, hr⟩ := hr₁
  subst h₁
  refine Yields.bind (R := fun entries σ' => entries = marks ∧
    σ' = σ₁) ?_ fun entries σ₂ _ he₂ => ?_
  · rw [hr]
    exact .ret ⟨rfl, rfl⟩
  obtain ⟨he, h₂⟩ := he₂
  subst he
  subst h₂
  -- every turn writes one mark more
  refine Yields.bind (R := fun _ σ' => Written sess u entries σ₂.db σ'.db)
    (wp_each (fun _ rest σ' => σ₂.Later σ' ∧ σ'.Laid ∧
      ∃ done, entries = done ++ rest ∧ Written sess u done σ₂.db σ'.db) ?_ ?_ ?_)
        fun _ _ _ h => .pure h
  · rintro _ m rest σ' ⟨hl, hσ', done, hdone, hw⟩
    have hin : m ∈ entries := by rw [hdone]; simp
    have hmark : DoesAlone C σ' (markOneTx sess u m) fun _ σ'' => σ''.Laid ∧
        Marked sess m.1 m.2 u σ'.db σ''.db := by
      refine Yields.bind (upsertAttendance_alone hσ' ?_ ?_ ?_ ?_) fun n σ'' _ hn' => ?_
      · rw [hw.only.get (t := ShopTbl.sessions) (by simp)]; exact hs
      · rw [hw.only.get (t := ShopTbl.enrolments) (by simp)]; exact hactive m hin
      · rw [hw.only.get (t := ShopTbl.users) (by simp)]; exact hu
      · by_cases hlv : m.2 = .leave
        · exact .inl hlv
        · exact .inr fun ha => hclear m hin hlv ((approvedLeave_only hw.only (by simp)).1 ha)
      · obtain ⟨hn, hσ'', hm⟩ := hn'
        subst hn
        exact .ret ⟨hσ'', hm⟩
    exact hmark.wp (fun _ σ'' hl' h => ⟨hl.trans hl', h.1, done ++ [m], by simp [hdone],
      hw.snoc h.2⟩) fun _ _ _ h => h.elim
  · exact ⟨.refl σ₂, hσ, [], rfl, Only.refl _ _, fun m hm => by cases hm⟩
  · rintro _ σ' ⟨hl, -, done, hdone, hw⟩
    rw [List.append_nil] at hdone
    exact ⟨hl, hdone ▸ hw⟩

theorem bulkUpsertAttendance_alone {at' : StudioNow} {auth : AuthUser}
    {records : List AttendanceRecordEntry}
    (hm : Markable at' auth sess records marks d) :
    wp (shopRules.under (.still Shop)) (writing (fun _ => True) fun _ _ => True)
      (fun _ σ' => Written sess auth.userId marks d σ'.start) (fun _ _ => False)
      (bulkUpsertAttendance at' auth sess records) (.begin d d false) := by
  obtain ⟨hu, hp, ⟨sc, hsc, hcoach, hstart, hset⟩, hclear⟩ := hm
  have hσ : (Pt.begin d d false : Pt Shop).Laid := Pt.laid_begin d false
  refine Yields.bind_wp (R := fun r σ' => σ' = Pt.begin d d false ∧ r = findSessionCourse sess d)
    (Yields.read_still hσ ⟨rfl, rfl⟩)
    (fun r σ₁ _ ⟨h₁, hr⟩ => ?_) fun _ _ _ h => h
  subst h₁
  rw [hr, hsc]
  -- the coach is read from the store the call began with
  have hcourse : DoesAlone (fun _ => True) (.begin d d false)
      (requireCourseCoach auth sc.coachId "not the coach for this course")
      fun _ σ' => σ' = Pt.begin d d false := by
    unfold requireCourseCoach
    split
    · exact .pure rfl
    · next hadmin =>
      refine Yields.bind (R := fun r σ' => σ' = Pt.begin d d false ∧ r = coachOf auth.userId d)
        (Yields.read_still hσ ⟨rfl, rfl⟩)
        fun r σ₂ _ ⟨h₂, hr⟩ => ?_
      subst h₂
      have hcoach := hcoach.resolve_left hadmin
      rw [hr, decide_eq_true hcoach]
      exact .ret rfl
  refine hcourse.bind_wp (fun _ σ₂ _ h₂ => ?_) fun _ _ _ h => h
  subst h₂
  rw [hstart, hp]
  have hsess : (d.get .sessions sess).isSome = true := by
    unfold findSessionCourse at hsc
    cases hs : d.get .sessions sess with
    | none => rw [hs] at hsc; cases hsc
    | some _ => rfl
  -- nobody else is there, so every record is written
  have hmark := markTx_alone (C := fun _ => True) hσ hsess hu hset hclear
  show wp _ _ _ _
    ((markTx sess sc.courseId marks auth.userId).atomically >>= fun _ => read (S := Shop) _) _
  rw [wp_bind, wp_atomically]
  refine hmark.wp (fun _ σ' hl hw => ?_) fun _ _ _ h => h.elim
  refine ⟨trivial, fun d' _ => wp_read fun _ _ _ => ?_⟩
  exact hw

theorem draws_upsertAttendance : (upsertAttendanceTx sess e st u).Draws := by
  refine Draws.bind (p := lockRes _ _) trivial fun _ => Draws.bind (p := read _)
    (fun _ => trivial) fun ⟨old, d⟩ => ?_
  cases old with
  | some old => exact .ite (draws_references.bind fun _ => trivial) trivial
  | none =>
    exact draws_references.bind fun _ => draws_references.bind fun _ =>
      draws_references.bind fun _ => trivial

theorem draws_markTx {c : Uuid} : (markTx sess c marks u).Draws := by
  refine Draws.bind (.ite trivial fun _ _ => trivial) fun r => (draws_checked _).bind fun entries =>
    Draws.bind ?_ fun _ => trivial
  exact Draws.each (fun m => draws_upsertAttendance.bind fun _ => draws_ensure _ _) entries

theorem draws_batch {at' : StudioNow} {auth : AuthUser} {records : List AttendanceRecordEntry} :
    (Req.bulkUpsertAttendance at' auth sess records).prog.Draws := by
  refine Draws.bind ?_ fun _ => trivial
  refine Draws.bind (p := read _) (fun _ => trivial) fun r => (draws_orFail _ _).bind fun sc =>
    Draws.bind ?_ fun _ =>
    (draws_checked _).bind fun _ => (draws_checked _).bind fun marks =>
      draws_markTx.atomically.bind fun _ => ?_
  · exact .ite trivial (Draws.bind (p := read _) (fun _ => trivial) fun _ => draws_ensure _ _)
  · exact fun _ => trivial

/-- **A batch that the checks let through is written** when it runs alone. -/
theorem batch_written (hfree : s.Free t) (hnew : s.call t = none) {at' : StudioNow}
    {auth : AuthUser}
    {records : List AttendanceRecordEntry} (hm : Markable at' auth sess records marks s.db) :
    ∃ s', shop.Reach (fun _ e _ => e = .start t (.bulkUpsertAttendance at' auth sess records) ∨
      e.IsStep t) s s' ∧
      Written sess auth.userId marks s.db s'.db := by
  have hwp : wp (shopRules.under (.still Shop)) (writing (fun _ => True) fun _ _ => True)
      (fun _ σ' => Written sess auth.userId marks s.db σ'.start) (fun _ _ => False)
      (shop.prog (.bulkUpsertAttendance at' auth sess records)) (.begin s.db s.db false) :=
    wp_reply (bulkUpsertAttendance_alone hm)
  have hcovers : ∀ (σ : Pt Shop) w, (writing (fun _ => True) fun _ _ => True).write σ w →
      shopRules.Covers σ.held w :=
    fun _ _ h => covers_of h.1 h.2
  obtain ⟨s', c', hr, hc', hfin⟩ := solo_ends (V := shop)
    (q := .bulkUpsertAttendance at' auth sess records) hfree hnew draws_batch
  rcases solo_outcome hnew hcovers hwp hr hc' hfin with ⟨a, σ', -, hw, hs⟩ | ⟨e, σ', -, hf, -⟩
  · exact ⟨s', hr, hs ▸ hw⟩
  · exact hf.elim

/-! ## Approved leave -/

/-- **Approved leave is in the attendance**, however decisions and batches interleave. In
every reachable state each approved leave has its row, and every commit keeps that. A batch
that marks an approved leave otherwise never commits, and none of its events changes the
store. What no approved leave stands behind can be marked: a batch that the checks let
through is written when it runs alone. -/
theorem approved_leave_marked (h0 : Projected d d) (h : shop.Reachable (Sys.init d) s) :
    Projected s.db s.db ∧
    (∀ t c s', CommitStep s t c s' → Projected s.db s'.db ∧ Projected s'.db s'.db) ∧
    (∀ (t : ℕ) (at' : StudioNow) (auth : AuthUser) (sess : Uuid)
        (records : List AttendanceRecordEntry) (marks : Marks),
      parseMarks records = .ok marks →
      ((∃ m ∈ marks, m.2 ≠ .leave ∧ ApprovedLeave m.1 sess s.db) →
        (∀ c, s.call t = some c → c.committed = false) →
        ∀ s' c, shop.Reachable s s' → s'.call t = some c →
          c.req = .bulkUpsertAttendance at' auth sess records →
          c.committed = false ∧ shop.Reach (fun s₁ ev s₂ => ev.call = t → s₂.db = s₁.db) s s') ∧
      (Markable at' auth sess records marks s.db → s.Free t → s.call t = none →
        ∃ s', shop.Reach (fun _ ev _ => ev = .start t
          (.bulkUpsertAttendance at' auth sess records) ∨ ev.IsStep t) s s' ∧
          Written sess auth.userId marks s.db s'.db)) := by
  refine ⟨reach_projected h0 h, fun t c s' hcs => ?_,
    fun t at' auth sess records marks hp => ⟨?_, fun hm hfree hnew => ?_⟩⟩
  · have hp := reach_projected h0 h
    obtain ⟨σ, hnow, hdb, -, -, -, hcommits⟩ := Sys.OK.commits rfl (reach_kept h) hcs
    rw [← hnow] at hp
    have hp' := hcommits.projected hp
    rw [hdb] at hp'
    exact ⟨fun e sess ha => hp' e sess (ha.later ((shop_ok h).rel_commit hcs)), hp'⟩
  · rintro ⟨m, hm, hn, ha⟩ hcom s' c hr hc hq
    have hcom' := batch_refused h0 h hm hn ha hcom hr hc hq hp
    refine ⟨hcom', (reach_quiet hr fun c' hc' => ?_).mono fun _ _ _ h => h.2⟩
    rw [hc] at hc'
    cases hc'
    exact hcom'
  · exact batch_written hfree hnew hm

/-- User 2 asks for leave from session 5 and an admin approves it. -/
def sampleLeave : List (Event Req) :=
  .start 0 (.createLeaveRequest sampleNow ⟨2, []⟩ 5 none) :: (Event.steps 0 100 11 ++
    .start 1 (.decideLeaveRequest ⟨9, ["admin"]⟩ 108 "approved") :: Event.steps 1 200 18)

theorem approved_leave_marked_sample :
    let s := shop.after sampleLeave (.init sampleShop)
    Projected s.db s.db ∧ ApprovedLeave 7 5 s.db := by
  have h0 : Projected sampleShop sampleShop := by
    rintro e sess ⟨k, r, hk, -⟩
    exact (Store.get_all (d := sampleShop) (t := ShopTbl.leaveRequests) (P := fun _ _ => False)
      (by decide) hk).elim
  exact ⟨(approved_leave_marked h0 (Service.reachable_after sampleLeave)).1, 108,
    ⟨7, 5, none, .approved, none, some 9⟩,
    by decide +kernel, rfl, rfl, rfl⟩

end DreamFly
