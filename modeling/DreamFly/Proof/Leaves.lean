import DreamFly.Proof.Edits

/-!
# Leave requests, makeups and attendance, proved

What a committed leave call or marking batch did to the store. Decisions, bookings
and markings are judged on what their snapshots may still say when they commit, so
they are specified for runs that respect some `K` beside the discipline.
-/

namespace DreamFly

open Txn Prog

variable {K : Rely Shop} {C : Pt Shop → Prop} {B : Option AppError → Pt Shop → Prop} {σ : Pt Shop}
  {F : AppError → Prop} {id s e u by' : Uuid} {d d' : Db} {st : AttendanceStatus}

/-- The specification of a piece of a transaction in runs that respect `K`. -/
abbrev DoesIn {α : Type} (K : Rely Shop) (C : Pt Shop → Prop) (B : Option AppError → Pt Shop → Prop)
    (σ : Pt Shop)
    (p : Tx α) (F : AppError → Prop) (R : α → Pt Shop → Prop) : Prop :=
  Yields (shopRules.under K) (writing C B) σ p F R

theorem Does.inside {α : Type} {p : Tx α} {R : α → Pt Shop → Prop} (h : Does C B σ p F R) :
    DoesIn K C B σ p F R :=
  h.under fun _ _ _ => trivial

/-- A transaction whose body is specified, in runs that respect `K`. -/
theorem atomically_in {α : Type} {p : Tx α} {R : α → Pt Shop → Prop} {Q : α → Pt Shop → Prop}
    {X : AppError → Pt Shop → Prop} (h : DoesIn K C B σ p (fun _ => True) R) (hB : ∀ e σ, B e σ)
    (hC : ∀ a σ', σ.Later σ' → R a σ' → C σ') (hQ : ∀ a σ', Q a σ') (hX : ∀ e σ', X e σ') :
    wp (shopRules.under K) (writing C B) Q X p.atomically σ :=
  (wp_atomically p σ).2 (h.wp (fun a σ' hl hr => ⟨hC a σ' hl hr, fun _ _ => hQ _ _⟩)
    fun _ _ _ _ => ⟨hB _ _, fun _ _ => hX _ _⟩)

/-! ## Cancelling an enrolment -/

theorem cancelEnrolment_wp {auth : AuthUser} {Q : Enrolment → Pt Shop → Prop}
    {X : AppError → Pt Shop → Prop}
    (hd : σ.db = σ.now) (hB : ∀ e σ, B e σ) (hC : ∀ σ', σ.Later σ' → Cancelled σ'.now σ'.db → C σ')
    (hQ : ∀ a σ', Q a σ') (hX : ∀ e σ', X e σ') :
    wp shopRules (writing C B) Q X (cancelEnrolment auth id) σ := by
  refine atomically_wp (R := fun _ σ' => Cancelled σ.db σ'.db) ?_ hB
    (fun a σ' hl h => hC σ' hl (by rw [hl.now, ← hd]; exact h)) hQ hX
  refine Yields.bind (Yields.selectFor (by decide) trivial) fun r σ₁ _ ⟨hd₁, hr⟩ => ?_
  refine Yields.bind (R := fun row σ' => r = some row ∧ σ' = σ₁)
    (Yields.orFail (fun _ h => ⟨h, rfl⟩) trivial)
    fun row σ₂ _ ⟨he, h₂⟩ => ?_
  subst h₂
  obtain ⟨hh, -, -⟩ := hr row he
  refine Yields.bind (R := fun _ σ' => σ' = σ₂) (Yields.checked (fun _ _ => rfl) fun _ _ => trivial)
    fun _ σ₃ _ h₃ => ?_
  subst h₃
  refine Yields.bind (R := fun r σ' => r = none ∨
    Edited (S := Shop) .enrolments (fun _ e => e.status ≠ .cancelled)
      Enrolment.cancel σ₃.db σ'.db) (wp_updateRow_held hh (fun _ => ⟨.refl _, .inl rfl⟩)
        fun row hr hp =>
        ⟨⟨hh, allowed_cancel _ id⟩, σ₃.later_write _,
          .inr (Edited.one (p := fun _ (e : Enrolment) => e.status ≠ .cancelled) hr hp)⟩)
    fun updated σ₄ _ hup => ?_
  refine Yields.bind (R := fun e σ' => updated = some e ∧ σ' = σ₄)
    (Yields.orFail (fun _ h => ⟨h, rfl⟩) trivial)
    fun e σ₅ _ ⟨he, h₅⟩ => ?_
  subst h₅
  refine Yields.bind cancelPending_spec fun _ σ₆ _ ⟨hp, _⟩ => .pure ?_
  rcases hup with hn | hed
  · rw [he] at hn; cases hn
  · rw [← hd₁]
    exact cancelled_of_edits hed (fun k e h => by simpa using h) hp
      fun k r h => by simpa using And.right (by simpa using h)

/-! ## Creating and cancelling a request -/

/-- A committed request: new, pending, for a session of the enrolment's course, with
no open one beside. -/
structure LeaveCreated (d d' : Db) where
  k : Uuid
  row : LeaveRequest
  enrolment : Enrolment
  session : Session
  fresh : d.get .leaveRequests k = none
  pending : row.status = .pending
  unbooked : row.makeupSessionId = none
  enrolment_eq : d.get .enrolments row.enrolmentId = some enrolment
  session_eq : d.get .sessions row.sessionId = some session
  course : enrolment.courseId = session.courseId
  alone : ∀ k' r, d.get .leaveRequests k' = some r → r.enrolmentId = row.enrolmentId →
    r.sessionId = row.sessionId → ¬ r.isOpen
  added : d' = d.apply (.add .leaveRequests k row)

theorem leaveTaken_eq_false (h : leaveTaken e s d = false) {k : Uuid} {r : LeaveRequest}
    (hr : d.get .leaveRequests k = some r) (he : r.enrolmentId = e) (hs : r.sessionId = s) :
    ¬ r.isOpen := by
  intro ho
  simp only [leaveTaken, Bool.not_eq_false', List.isEmpty_iff] at h
  have hm : (k, r) ∈ d.sel .leaveRequests fun _ r => r.enrolmentId = e ∧ r.sessionId = s ∧
      (r.status = .pending ∨ r.status = .approved) :=
      Store.mem_sel.2 ⟨hr, by simpa [he, hs, LeaveRequest.isOpen] using ho⟩
  rw [h] at hm
  cases hm

theorem findSessionContext_get {v : Db} {session : Session}
    (h : findSessionContext s v = some session) :
    v.get .sessions s = some session := by
  unfold findSessionContext at h
  obtain ⟨x, hx, h⟩ := Option.bind_eq_some_iff.1 h
  obtain ⟨c, -, h⟩ := Option.bind_eq_some_iff.1 h
  cases h
  exact hx

theorem findActiveEnrolment_get {v : Db} {c : Uuid} (h : findActiveEnrolment u c v = some e) :
    ∃ row, v.get .enrolments e = some row ∧ row.courseId = c := by
  unfold findActiveEnrolment at h
  obtain ⟨⟨k, row⟩, hm, rfl⟩ := List.mem_map.1 (List.mem_of_head? h)
  obtain ⟨hg, hp⟩ := Store.mem_sel.1 hm
  simp only [decide_eq_true_eq] at hp
  exact ⟨row, hg, hp.2.1⟩

theorem createLeaveRequest_wp {at' : StudioNow} {auth : AuthUser} {reason : Option String}
    {Q : Uuid → Pt Shop → Prop}
    {X : AppError → Pt Shop → Prop} (hd : σ.db = σ.now) (hB : ∀ e σ, B e σ)
    (hC : ∀ σ', σ.Later σ' → Nonempty (LeaveCreated σ'.now σ'.db) → C σ')
    (hQ : ∀ a σ', Q a σ') (hX : ∀ e σ', X e σ') :
    wp shopRules (writing C B) Q X (createLeaveRequest at' auth s reason) σ := by
  refine Yields.bind_wp (F := fun _ => True) (R := fun r σ' => σ' = σ ∧ ∀ x, r = some x →
    σ.db.get .sessions s = some x)
    (Yields.read fun v _ hv => ⟨rfl, fun x h => rel_session hv (findSessionContext_get h)⟩)
    (fun r σ₁ _ ⟨h₁, hs⟩ => ?_) fun e σ' _ _ => hX e σ'
  subst h₁
  refine Yields.bind_wp (F := fun _ => True) (R := fun x σ' => r = some x ∧ σ' = σ₁)
    (Yields.orFail (fun _ h => ⟨h, rfl⟩) trivial)
    (fun session σ₂ _ ⟨hr, h₂⟩ => ?_) fun e σ' _ _ => hX e σ'
  subst h₂
  have hsession := hs session hr
  refine Yields.bind_wp (F := fun _ => True) (R := fun r σ' => σ' = σ₂ ∧ ∀ e, r = some e →
      ∃ row, σ₂.db.get .enrolments e = some row ∧ row.courseId = session.courseId)
        (Yields.read fun v _ hv => ⟨rfl, fun e h => ?_⟩)
    (fun r' σ₃ _ ⟨h₃, he⟩ => ?_) fun e σ' _ _ => hX e σ'
  · obtain ⟨row, hg, hc⟩ := findActiveEnrolment_get h
    obtain ⟨row', hg', hu⟩ := rel_enrolment hv hg
    exact ⟨row', hg', hu.course.trans hc⟩
  subst h₃
  refine Yields.bind_wp (F := fun _ => True) (R := fun x σ' => r' = some x ∧ σ' = σ₃)
    (Yields.orFail (fun _ h => ⟨h, rfl⟩) trivial)
    (fun e σ₄ _ ⟨hr', h₄⟩ => ?_) fun e σ' _ _ => hX e σ'
  subst h₄
  obtain ⟨enrolment, hen, hcourse⟩ := he e hr'
  refine Yields.bind_wp (F := fun _ => True) (R := fun _ σ' => σ' = σ₄)
    (Yields.checked (fun _ _ => rfl) fun _ _ => trivial)
    (fun _ σ₅ _ h₅ => ?_) fun e σ' _ _ => hX e σ'
  subst h₅
  refine atomically_wp (R := fun _ σ' => Nonempty (LeaveCreated σ₅.db σ'.db)) ?_ hB
    (fun a σ' hl h => hC σ' hl (by rw [hl.now, ← hd]; exact h)) hQ hX
  refine Yields.bind (Yields.claim trivial) fun b σ₆ _ ⟨h₆, v, _, hv, hb⟩ => ?_
  cases b with
  | true => exact .throw trivial
  | false =>
    -- the claim of the pair excludes another open request until the end
    have halone : ∀ k r, σ₅.db.get .leaveRequests k = some r → r.enrolmentId = e → r.sessionId = s →
        ¬ r.isOpen := by
      intro k r hr he hs ho
      obtain ⟨r', hr', he', hs', ho'⟩ := rel_leaveKey hv (h₆ ▸ holds_acquire _ _ _) hr he hs ho
      exact leaveTaken_eq_false hb.symm hr' he' hs' ho'
    have hu : Holds σ₆.held (.uniq (S := Shop) (.leave e s)) .update := by
      rw [h₆]; exact holds_acquire _ _ _
    refine Yields.bind (Yields.references trivial trivial) fun _ σ₇ hl₇ h₇ => ?_
    refine Yields.bind (Yields.references trivial trivial) fun _ σ₈ hl₈ h₈ => ?_
    refine Yields.imp (Yields.insert fun n => ⟨holds_acquire _ _ _, fun _ h => (nomatch h), fun _ =>
      ((hl₇.trans hl₈).holds hu).mono (subset_acquire _ _ _)⟩) (fun n σ₉ _ ⟨_, hnew, _, h₉⟩ =>
        ?_) fun _ h => h
    have hd₈ : σ₈.db = σ₅.db := by rw [h₈, h₇, h₆]; rfl
    rw [hd₈] at hnew
    exact ⟨{
      k := n
      row := { enrolmentId := e, sessionId := s, reason := reason, status :=
        .pending, makeupSessionId := none, decidedBy := none }
      enrolment := enrolment, session := session, fresh := hnew, pending := rfl, unbooked := rfl
      enrolment_eq := hen, session_eq := hsession, course := hcourse, alone := halone
      added := by rw [h₉, ← hd₈]; rfl }⟩

/-- A committed cancellation by the member. -/
def LeaveCancelled (id : Uuid) (d d' : Db) : Prop :=
  ∃ r, d.get .leaveRequests id = some r ∧ r.status = .pending ∧
    d' = d.apply (.mod .leaveRequests id (onlyIf (fun r => r.status =
      .pending) LeaveRequest.cancel))

theorem cancelLeaveRequest_wp {auth : AuthUser} {Q : Unit → Pt Shop → Prop}
    {X : AppError → Pt Shop → Prop}
    (hd : σ.db = σ.now) (hB : ∀ e σ, B e σ) (hC : ∀ σ', σ.Later σ' →
      LeaveCancelled id σ'.now σ'.db → C σ')
    (hQ : ∀ a σ', Q a σ') (hX : ∀ e σ', X e σ') :
    wp shopRules (writing C B) Q X (cancelLeaveRequest auth id) σ := by
  refine atomically_wp (R := fun _ σ' => LeaveCancelled id σ.db σ'.db) ?_ hB
    (fun a σ' hl h => hC σ' hl (by rw [hl.now, ← hd]; exact h)) hQ hX
  refine Yields.bind (R := fun _ σ' => σ' = σ) (Yields.read fun _ _ _ => rfl) fun _ σ₁ _ h₁ => ?_
  refine Yields.bind (R := fun _ σ' => σ' = σ₁) (Yields.orFail (fun _ _ => rfl) trivial)
    fun _ σ₂ _ h₂ => ?_
  refine Yields.bind (R := fun _ σ' => σ' = σ₂.grant (.row (S := Shop) .leaveRequests id) .update)
    (wp_recheck (by decide) (fun _ => trivial) ⟨σ₂.later_grant _ _, rfl⟩) fun row σ₃ _ h₃ => ?_
  refine Yields.bind (R := fun _ σ' => σ' = σ₃) (Yields.orFail (fun _ _ => rfl) trivial)
    fun _ σ₄ _ h₄ => ?_
  refine Yields.bind (R := fun _ σ' => σ' = σ₄) (Yields.checked (fun _ _ => rfl) fun _ _ => trivial)
    fun _ σ₅ _ h₅ => ?_
  have hd₅ : σ₅.db = σ.db := by rw [h₅, h₄, h₃, h₂, h₁]; rfl
  have hh : Holds σ₅.held (.row (S := Shop) .leaveRequests id) .noKeyUpdate := by
    rw [h₅, h₄, h₃]; exact (holds_acquire _ _ _).weaken (by decide)
  refine Yields.bind (R := fun r σ' => r = none ∨ LeaveCancelled id σ₅.db σ'.db)
    (wp_updateRow_held hh (fun _ => ⟨.refl _, .inl rfl⟩)
    fun row hr hp => ⟨⟨hh, allowed_cancelLeave (fun r h => by simpa using h) id⟩, σ₅.later_write _,
      .inr ⟨row, hr, by simpa using hp, rfl⟩⟩) fun updated σ₆ _ hup => ?_
  refine Yields.bind (R := fun x σ' => updated = some x ∧ σ' = σ₆)
    (Yields.orFail (fun _ h => ⟨h, rfl⟩) trivial)
    fun x σ₇ _ ⟨hx, h₇⟩ => .pure ?_
  rcases hup with hn | hc
  · rw [hx] at hn; cases hn
  · rw [h₇, ← hd₅]; exact hc

/-! ## Attendance rows -/

/-- The enrolment has an approved leave for the session. -/
def ApprovedLeave (e s : Uuid) (d : Db) : Prop :=
  ∃ k r, d.get .leaveRequests k = some r ∧ r.enrolmentId = e ∧ r.sessionId = s ∧
    r.status = .approved

/-- One attendance row is set, nothing else. -/
structure Marked (s e : Uuid) (st : AttendanceStatus) (u : Uuid) (d d' : Db) : Prop where
  only : Only (S := Shop) [.attendance] d d'
  row : ∀ k, d'.get .attendance k = if k = (s, e) then some ⟨st, u⟩ else d.get .attendance k

theorem mayOverwrite_eq_true {new old : AttendanceStatus} (h : mayOverwrite new old s e d = true) :
    new = .leave ∨ old ≠ .leave ∨ ¬ ApprovedLeave e s d := by
  simp only [mayOverwrite, decide_eq_true_eq] at h
  refine h.imp id (Or.imp id fun hn => ?_)
  rintro ⟨k, r, hr, he, hs, ha⟩
  have hm : (k, r) ∈ d.sel .leaveRequests fun _ r => r.enrolmentId = e ∧ r.sessionId = s ∧
      r.status = .approved :=
    Store.mem_sel.2 ⟨hr, by simp [he, hs, ha]⟩
  rw [List.isEmpty_iff.1 hn] at hm
  cases hm

/-- The upsert writes its row, unless an approved leave is in the way: then it
affects no row. What is in the way is judged under the lock on the row. -/
theorem upsertAttendance_spec :
    DoesIn K C B σ (upsertAttendanceTx s e st u) (fun _ => True) fun n σ' =>
      Holds σ'.held (.row (S := Shop) .attendance (s, e)) .update ∧
      (n = 0 ∧ st ≠ .leave ∨ Marked s e st u σ.db σ'.db ∧
        (∃ w : Write Shop, w.tbl = .attendance ∧ σ'.ws = σ.ws ++ [w]) ∧
        (st = .leave ∨ (∀ a, σ.db.get .attendance (s, e) = some a → a.status ≠ .leave) ∨
          ∃ L v, K.rel L v σ.now ∧ Holds L (.row (S := Shop) .attendance (s, e)) .update ∧
            ¬ ApprovedLeave e s (Store.overlay σ.ws v))) := by
  refine Yields.bind (Yields.lockRes trivial) fun _ σ₁ hl₁ h₁ => ?_
  have hh : Holds σ₁.held (.row (S := Shop) .attendance (s, e)) .update := by
    rw [h₁]; exact holds_acquire _ _ _
  have hd₁ : σ₁.db = σ.db := by rw [h₁]; rfl
  have hws₁ : σ₁.ws = σ.ws := by rw [h₁]; rfl
  -- the attendance row is locked, the leave beside it is only read
  refine Yields.bind (R := fun r σ' => σ' = σ₁ ∧ r.1 = σ.db.get .attendance (s, e) ∧
      ∃ v, K.rel σ₁.held v σ.now ∧ r.2 = Store.overlay σ.ws v)
        (Yields.snapshot fun v _ hv hm => ⟨rfl, ?_, v, ?_, ?_⟩)
    fun r σ₂ _ ⟨h₂, hold, v, hK, hv⟩ => ?_
  · rw [← hd₁]; exact rel_same hv (hh.weaken (by decide))
  · rw [← hl₁.now]; exact hm
  · rw [hws₁]
  subst h₂
  obtain ⟨old, dv⟩ := r
  simp only at hold hv
  cases old with
  | some old =>
    simp only
    split
    next hmay =>
      refine Yields.bind (Yields.references trivial trivial) fun _ σ₃ hl₃ h₃ => ?_
      refine Yields.bind (Yields.put ⟨(hl₃.holds hh).weaken (by decide), trivial⟩)
        fun _ σ₄ hl₄ h₄ =>
        .pure ⟨(hl₃.trans hl₄).holds hh, .inr ⟨?_, ⟨.mod .attendance (s, e) fun _ => ⟨st, u⟩,
          rfl, ?_⟩, ?_⟩⟩
      · have hd : σ₄.db = σ.db.apply (.mod .attendance (s, e) fun _ => ⟨st, u⟩) := by
          rw [h₄, h₃, ← hd₁]; rfl
        rw [hd]
        refine ⟨Only.write _ (by simp [Write.tbl]), fun k => ?_⟩
        rw [Store.get_mod]
        split
        next hk => subst hk; rw [← hold]; rfl
        · rfl
      · rw [h₄, h₃, ← hws₁]; rfl
      · rcases mayOverwrite_eq_true hmay with h | h | h
        · exact .inl h
        · refine .inr (.inl fun a ha => ?_)
          rw [ha] at hold
          cases hold
          exact h
        · exact .inr (.inr ⟨_, v, hK, hh, hv ▸ h⟩)
    next hmay => exact .pure ⟨hh, .inl ⟨rfl, by rintro rfl; simp [mayOverwrite] at hmay⟩⟩
  | none =>
    refine Yields.bind (Yields.references trivial trivial) fun _ σ₃ hl₃ h₃ => ?_
    refine Yields.bind (Yields.references trivial trivial) fun _ σ₄ hl₄ h₄ => ?_
    refine Yields.bind (Yields.references trivial trivial) fun _ σ₅ hl₅ h₅ => ?_
    refine Yields.bind (Yields.put ⟨(((hl₃.trans hl₄).trans hl₅).holds hh).weaken (by decide),
      trivial⟩) fun _ σ₆ hl₆ h₆ =>
      .pure ⟨(((hl₃.trans hl₄).trans hl₅).trans hl₆).holds hh,
        .inr ⟨?_, ⟨.add .attendance (s, e) ⟨st, u⟩, rfl, ?_⟩, ?_⟩⟩
    · have hd : σ₆.db = σ.db.apply (.add .attendance (s, e) ⟨st, u⟩) := by
        rw [h₆, h₅, h₄, h₃, ← hd₁]; rfl
      rw [hd]
      refine ⟨Only.write _ (by simp [Write.tbl]), fun k => ?_⟩
      rw [Store.get_add, ← hold]
      rfl
    · rw [h₆, h₅, h₄, h₃, ← hws₁]; rfl
    · exact .inr (.inl fun a ha => by rw [← hold] at ha; cases ha)

/-! ## Deciding -/

/-- A committed decision: the request was pending, and an approval has its attendance
row. -/
structure LeaveDecided (id u : Uuid) (st : LeaveStatus) (d d' : Db) where
  row : LeaveRequest
  row_eq : d.get .leaveRequests id = some row
  pending : row.status = .pending
  only : Only (S := Shop) [.leaveRequests, .attendance] d d'
  leave : ∀ k, d'.get .leaveRequests k = if k = id then some (row.decide st u) else
    d.get .leaveRequests k
  attendance : ∀ k, d'.get .attendance k =
    if st = .approved ∧ k = (row.sessionId, row.enrolmentId) then some ⟨.leave, u⟩ else
      d.get .attendance k

/-- What the check before the transaction saw of the request. -/
def DecidableAt (K : Rely Shop) (id : Uuid) (st : LeaveStatus) (d : Db) : Prop :=
  ∃ v r, shopRules.rel [] v d ∧ K.rel [] v d ∧ v.get .leaveRequests id = some r ∧
    (st = .approved → enrolmentActive v r.enrolmentId = true)

/-- A decision as it commits. -/
def DecidedAt (K : Rely Shop) (id u : Uuid) (σ : Pt Shop) : Prop :=
  ∃ st, (st = .approved ∨ st = .rejected) ∧ DecidableAt K id st σ.now ∧
    ∃ x : LeaveDecided id u st σ.now σ.db,
    st = .approved → Holds σ.held (.row (S := Shop) .attendance (x.row.sessionId,
      x.row.enrolmentId)) .update

theorem LeaveRequest.upto_decide {r : LeaveRequest} (h : r.status = .pending) (st : LeaveStatus)
    (u : Uuid) :
    r.Upto (r.decide st u) :=
  ⟨rfl, rfl, fun hn => absurd h hn, fun _ h => h⟩

theorem decideLeaveTx_spec {st : LeaveStatus} :
    Does C B σ (decideLeaveTx id st u) (fun _ => True) fun r σ' => ∀ x, r = some x →
      Holds σ'.held (.row (S := Shop) .leaveRequests id) .noKeyUpdate ∧
      ∃ row, σ.db.get .leaveRequests id = some row ∧ row.status = .pending ∧ x = row.decide st u ∧
        σ'.db = σ.db.apply (.mod .leaveRequests id (onlyIf (fun r => r.status = .pending)
          (LeaveRequest.decide st u))) := by
  have hok : ∀ L, Allowed L (.mod .leaveRequests id
      (onlyIf (fun r : LeaveRequest => r.status = .pending) (LeaveRequest.decide st u))) := fun L =>
    onlyIf_ind (P := LeaveRequest.Change L) (fun r h =>
      ⟨LeaveRequest.upto_decide (by simpa using h) st u, fun _ h => .inl h⟩)
      fun r => ⟨.refl r, fun _ h => .inl h⟩
  have hup : Does C B σ (updateRow (S := Shop) .leaveRequests id (fun r => r.status = .pending)
    (LeaveRequest.decide st u))
      (fun _ => True) fun r σ' => ∀ x, r = some x →
        Holds σ'.held (.row (S := Shop) .leaveRequests id) .noKeyUpdate ∧
        ∃ row, σ.db.get .leaveRequests id = some row ∧ row.status = .pending ∧ x = row.decide st u ∧
          σ'.db = σ.db.apply (.mod .leaveRequests id (onlyIf (fun r => r.status = .pending)
            (LeaveRequest.decide st u))) := by
    refine wp_updateRow (fun _ _ _ _ _ _ _ => trivial)
      (fun _ _ _ _ => ⟨.refl _, fun _ h => (nomatch h)⟩)
      (fun _ => ⟨σ.later_grant _ _, fun _ h => (nomatch h)⟩) fun row hr hp =>
      ⟨⟨holds_acquire _ _ _, hok _⟩, (σ.later_grant _ _).trans (Pt.later_write _ _), fun x hx => ?_⟩
    cases hx
    exact ⟨holds_acquire _ _ _, row, hr, by simpa using hp, rfl, rfl⟩
  refine Yields.bind hup fun r σ₁ _ h => ?_
  dsimp only
  split
  · refine Yields.bind (Yields.references trivial trivial) fun _ σ₂ hl h₂ => .pure fun x hx => ?_
    obtain ⟨hh, row, h1, h2, h3, h4⟩ := h x hx
    exact ⟨hl.holds hh, row, h1, h2, h3, by rw [h₂]; exact h4⟩
  · exact .pure h

theorem decideTx_spec {st : LeaveStatus} (hd : σ.db = σ.now) :
    DoesIn K C B σ (decideTx id st u) (fun _ => True) fun r σ' => ∀ x, r = some x →
      ∃ y : LeaveDecided id u st σ'.now σ'.db,
        st = .approved → Holds σ'.held (.row (S := Shop) .attendance (y.row.sessionId,
          y.row.enrolmentId)) .update := by
  refine Yields.bind (Does.inside decideLeaveTx_spec) fun r σ₁ hl₁ h => ?_
  cases r with
  | none => exact .pure fun _ h => (nomatch h)
  | some updated =>
    obtain ⟨hh, row, hrow, hp, rfl, hd₁⟩ := h updated rfl
    have hget : ∀ k, σ₁.db.get .leaveRequests k = if k = id then some (row.decide st u) else
        σ.db.get .leaveRequests k := by
      intro k
      rw [hd₁, Store.get_mod]
      split
      next hk => subst hk; rw [hrow, Option.map_some, onlyIf_pos (by simpa using hp)]
      · rfl
    have honly : Only (S := Shop) [.leaveRequests] σ.db σ₁.db := by
      rw [hd₁]; exact Only.write _ (by simp [Write.tbl])
    have hatt : ∀ k, σ₁.db.get .attendance k = σ.db.get .attendance k :=
      honly.get (t := ShopTbl.attendance) (by simp)
    dsimp only
    split
    next hst =>
      refine Yields.bind (R := fun r σ' => r = some (row.decide st u) ∧ σ' = σ₁)
        (wp_read_locked (hh.weaken (by decide)) ⟨.refl _, by rw [hget, if_pos rfl], rfl⟩)
          fun r σ₂ _ h₂ => ?_
      obtain ⟨hr, rfl⟩ := h₂
      refine Yields.bind (R := fun x σ' => r = some x ∧ σ' = σ₂)
        (Yields.orFail (fun _ h => ⟨h, rfl⟩) trivial)
        fun x σ₃ _ h₃ => ?_
      obtain ⟨hx, rfl⟩ := h₃
      rw [hx] at hr
      cases hr
      refine Yields.bind (R := fun _ σ' => Holds σ'.held
        (.row (S := Shop) .attendance (row.sessionId, row.enrolmentId)) .update ∧
          Marked row.sessionId row.enrolmentId .leave u σ₃.db σ'.db) ?_ fun _ σ₄ hl₄ hmark =>
            .pure fun x hx => ?_
      · refine Yields.bind upsertAttendance_spec fun n σ₄ _ h => .pure ⟨h.1, ?_⟩
        rcases h.2 with ⟨-, hn⟩ | ⟨hm, -⟩
        · exact absurd rfl hn
        · exact hm
      · obtain ⟨hha, hm⟩ := hmark
        have hnow : σ₄.now = σ.db := by rw [hl₄.now, hl₁.now, hd]
        have honly₄ : Only (S := Shop) [.leaveRequests, .attendance] σ₄.now σ₄.db := by
          rw [hnow]; exact (honly.mono (by simp)).trans (hm.only.mono (by simp))
        refine ⟨⟨row, hnow ▸ hrow, hp, honly₄, fun k => ?_, fun k => ?_⟩, fun _ => hha⟩
        · rw [hm.only.get (t := ShopTbl.leaveRequests) (by simp), hget, hnow]
        · rw [hm.row, hatt, hnow]
          simp only [hst, true_and]
    next hst =>
      refine .pure fun x hx => ?_
      have hnow : σ₁.now = σ.db := by rw [hl₁.now, hd]
      have honly₁ : Only (S := Shop) [.leaveRequests, .attendance] σ₁.now σ₁.db := by
        rw [hnow]; exact honly.mono (by simp)
      refine ⟨⟨row, hnow ▸ hrow, hp, honly₁, fun k => ?_, fun k => ?_⟩, fun h => absurd h hst⟩
      · rw [hget, hnow]
      · rw [hatt, hnow, if_neg fun h => hst h.1]

theorem checkDecidable_ok {ctx : LeaveDecisionContext} {st : LeaveStatus}
    (h : checkDecidable ctx st = .ok ()) :
    st = .approved → ctx.enrolmentActive = true := by
  intro hst
  by_contra hn
  have hn' : ctx.enrolmentActive = false := by simpa using hn
  by_cases hp : ctx.status = .pending
  · have he : checkDecidable ctx st = .error (.conflict "報名已取消，無法核准請假") := by
      simp [checkDecidable, hp, hst, hn']; rfl
    rw [he] at h
    cases h
  · have he : checkDecidable ctx st = .error decideNotPending := by
      simp [checkDecidable, hp]; rfl
    rw [he] at h
    cases h

theorem findDecisionContext_get {v : Db} {ctx : LeaveDecisionContext}
    (h : findDecisionContext id v = some ctx) :
    ∃ r, v.get .leaveRequests id = some r ∧ ctx.enrolmentActive =
      enrolmentActive v r.enrolmentId := by
  unfold findDecisionContext at h
  obtain ⟨r, hr, h⟩ := Option.bind_eq_some_iff.1 h
  obtain ⟨_, -, h⟩ := Option.bind_eq_some_iff.1 h
  obtain ⟨_, -, h⟩ := Option.bind_eq_some_iff.1 h
  obtain ⟨_, -, h⟩ := Option.bind_eq_some_iff.1 h
  cases h
  exact ⟨r, hr, rfl⟩

theorem requireCourseCoach_spec {auth : AuthUser} {coachId : Option Uuid} {msg : String} :
    DoesIn K C B σ (requireCourseCoach auth coachId msg) (fun _ => True) fun _ σ' => σ' = σ := by
  unfold requireCourseCoach
  split
  · exact .pure rfl
  · refine Yields.bind (R := fun _ σ' => σ' = σ) (Yields.read fun _ _ _ => rfl) fun _ σ₁ _ h₁ => ?_
    subst h₁
    exact Yields.ensure (fun _ => rfl) trivial

theorem decideLeaveRequest_wp {auth : AuthUser} {newStatus : String} {born : Db}
    {Q : LeaveRequest → Pt Shop → Prop}
    {X : AppError → Pt Shop → Prop} (hB : ∀ e σ, B e σ)
    (hC : ∀ σ', σ'.committed = false → DecidedAt K id auth.userId σ' → C σ')
    (hQ : ∀ a σ', Q a σ') (hX : ∀ e σ', X e σ') :
    wp (shopRules.under K) (writing C B) Q X (decideLeaveRequest auth id newStatus)
    (.begin born d false) := by
  refine Yields.bind_wp (F := fun _ => True) (R := fun st σ' => parseDecision newStatus = .ok st ∧
    σ' = Pt.begin born d false)
    (Does.inside (Yields.checked (fun _ h => ⟨h, rfl⟩) fun _ _ => trivial))
      (fun st σ₁ _ ⟨hst, h₁⟩ => ?_) fun e σ' _ _ => hX e σ'
  have hst' : st = .approved ∨ st = .rejected := by
    unfold parseDecision at hst
    split at hst
    · cases hst; exact .inl rfl
    · split at hst
      · cases hst; exact .inr rfl
      · cases hst
  subst h₁
  refine Yields.bind_wp (F := fun _ => True) (R := fun r σ' => σ' = Pt.begin born d false ∧
    ∀ ctx, r = some ctx →
      ∃ v r, shopRules.rel [] v d ∧ K.rel [] v d ∧ v.get .leaveRequests id = some r ∧
        ctx.enrolmentActive = enrolmentActive v r.enrolmentId)
    (Yields.snapshot fun v _ hv hm => ⟨rfl, fun ctx h => ?_⟩)
      (fun r σ₂ _ ⟨h₂, hctx⟩ => ?_) fun e σ' _ _ => hX e σ'
  · obtain ⟨r, hr, ha⟩ := findDecisionContext_get h
    exact ⟨v, r, hv, hm, hr, ha⟩
  subst h₂
  refine Yields.bind_wp (F := fun _ => True) (R := fun ctx σ' => r = some ctx ∧
    σ' = Pt.begin born d false)
    (Yields.orFail (fun _ h => ⟨h, rfl⟩) trivial)
      (fun ctx σ₃ _ ⟨hr, h₃⟩ => ?_) fun e σ' _ _ => hX e σ'
  subst h₃
  obtain ⟨v, row, hv, hm, hrow, hact⟩ := hctx ctx hr
  refine Yields.bind_wp (F := fun _ => True) requireCourseCoach_spec (fun _ σ₄ _ h₄ => ?_)
    fun e σ' _ _ => hX e σ'
  subst h₄
  refine Yields.bind_wp (F := fun _ => True) (R := fun _ σ' => checkDecidable ctx st = .ok () ∧
    σ' = Pt.begin born d false)
    (Does.inside (Yields.checked (fun _ h => ⟨h, rfl⟩) fun _ _ => trivial))
      (fun _ σ₅ _ ⟨hdec, h₅⟩ => ?_) fun e σ' _ _ => hX e σ'
  subst h₅
  -- what was checked before the transaction is known of the store read there
  refine atomically_in (R := fun _ σ' => ∃ y : LeaveDecided id auth.userId st σ'.now σ'.db, st =
    .approved →
      Holds σ'.held (.row (S := Shop) .attendance (y.row.sessionId,
        y.row.enrolmentId)) .update) ?_ hB
    (fun a σ' hl hy => hC σ' hl.committed ⟨st, hst', ?_, hy⟩) hQ hX
  · refine Yields.bind (decideTx_spec rfl) fun r σ₆ _ h => ?_
    exact Yields.orFail (fun x hx => h x hx) trivial
  · rw [hl.now]
    exact ⟨v, row, hv, hm, hrow, fun h => hact ▸ checkDecidable_ok hdec h⟩

/-! ## Making up -/

/-- A committed booking: an approved request without a makeup got a session of its
course, another one than its own, that had not started. -/
structure MakeupBooked (at' : StudioNow) (id s : Uuid) (d d' : Db) where
  row : LeaveRequest
  enrolment : Enrolment
  session : Session
  row_eq : d.get .leaveRequests id = some row
  approved : row.status = .approved
  unbooked : row.makeupSessionId = none
  enrolment_eq : d.get .enrolments row.enrolmentId = some enrolment
  session_eq : d.get .sessions s = some session
  course : session.courseId = enrolment.courseId
  other : s ≠ row.sessionId
  ahead : requireNotStarted at'.tz at'.now session.sessionDate session.startTime "session time"
    (.validation "補課場次已開始") = .ok ()
  booked : d' = d.apply (.mod .leaveRequests id
    (onlyIf (fun r => r.status = .approved ∧ r.makeupSessionId = none) (LeaveRequest.book s)))

/-- What the check of the seats saw, under the lock on the session. -/
def RoomAt (K : Rely Shop) (c s : Uuid) (d : Db) : Prop :=
  ∃ L v seats, shopRules.rel L v d ∧ K.rel L v d ∧ Holds L (.row (S := Shop) .sessions s) .update ∧
    sessionSeats c s v = some seats ∧ seats.hasRoom = true

/-- A booking as it commits. -/
def BookedAt (K : Rely Shop) (at' : StudioNow) (id s : Uuid) (σ : Pt Shop) : Prop :=
  Holds σ.held (.row (S := Shop) .sessions s) .update ∧ ∃ x : MakeupBooked at' id s σ.now σ.db,
    RoomAt K x.session.courseId s σ.now

theorem leaveForMakeup_get {v : Db} {r : LeaveRequest} {leave : LeaveRequestForMakeup}
    (h : leaveForMakeup v r = some leave) :
    ∃ e, v.get .enrolments r.enrolmentId = some e ∧ leave.courseId = e.courseId ∧
      leave.sessionId = r.sessionId ∧
      leave.status = r.status ∧ leave.makeupSessionId = r.makeupSessionId := by
  unfold leaveForMakeup at h
  obtain ⟨e, he, h⟩ := Option.bind_eq_some_iff.1 h
  obtain ⟨_, -, h⟩ := Option.bind_eq_some_iff.1 h
  obtain ⟨_, -, h⟩ := Option.bind_eq_some_iff.1 h
  cases h
  exact ⟨e, he, rfl, rfl, rfl, rfl⟩

theorem findForMakeupTx_spec :
    Does C B σ (findForMakeupTx id) (fun _ => True) fun r σ' => σ'.db = σ.db ∧ σ'.ws = σ.ws ∧
    ∀ leave, r = some leave →
      Holds σ'.held (.row (S := Shop) .leaveRequests id) .noKeyUpdate ∧
      ∃ row e, σ.db.get .leaveRequests id = some row ∧
        σ.db.get .enrolments row.enrolmentId = some e ∧ leave.courseId = e.courseId ∧
        leave.sessionId = row.sessionId ∧
        leave.status = row.status ∧ leave.makeupSessionId = row.makeupSessionId := by
  refine Yields.bind (R := fun r σ' => σ' = σ ∧ shopRules.rel σ.held r.2 σ.db)
    (Yields.read fun v _ hv => ⟨rfl, hv⟩)
    fun r σ₁ _ ⟨h₁, hv⟩ => ?_
  subst h₁
  obtain ⟨hit, v⟩ := r
  cases hit with
  | none => exact .pure ⟨rfl, rfl, fun _ h => (nomatch h)⟩
  | some hit =>
    refine Yields.bind (R := fun r σ' => r = σ₁.db.get .leaveRequests id ∧
      σ' = σ₁.grant (.row (S := Shop) .leaveRequests id) .update)
      (wp_recheck (by decide) (fun _ => trivial) ⟨σ₁.later_grant _ _, by simp, rfl⟩)
        fun row σ₂ _ ⟨hrow, h₂⟩ =>
      .pure ⟨by rw [h₂]; rfl, by rw [h₂]; rfl, fun leave hl => ⟨?_, ?_⟩⟩
    · rw [h₂]; exact (holds_acquire _ _ _).weaken (by decide)
    · obtain ⟨row', hr, hl⟩ := Option.bind_eq_some_iff.1 hl
      obtain ⟨e, he, h1, h2, h3, h4⟩ := leaveForMakeup_get hl
      obtain ⟨e', he', hu⟩ := rel_enrolment hv he
      exact ⟨row', e', hrow ▸ hr, he', h1.trans hu.course.symm, h2, h3, h4⟩

theorem checkMakeupSource_ok {leave : LeaveRequestForMakeup}
    (h : checkMakeupSource leave = .ok ()) :
    leave.status = .approved ∧ leave.makeupSessionId = none := by
  by_cases hs : leave.status = .approved
  · refine ⟨hs, ?_⟩
    cases hm : leave.makeupSessionId with
    | none => rfl
    | some s =>
      have he : checkMakeupSource leave = .error makeupAlreadyBooked := by
        simp [checkMakeupSource, hs, hm]; rfl
      rw [he] at h
      cases h
  · have he : checkMakeupSource leave = .error (.conflict "僅已核准的假單可預約補課") := by
      simp [checkMakeupSource, hs]; rfl
    rw [he] at h
    cases h

theorem checkMakeupTarget_ok {leave : LeaveRequestForMakeup} {target : SessionLock}
    {at' : StudioNow}
    (h : checkMakeupTarget leave target at' = .ok ()) :
    target.session.courseId = leave.courseId ∧ target.id ≠ leave.sessionId ∧
      requireNotStarted at'.tz at'.now target.session.sessionDate target.session.startTime
        "session time"
        (.validation "補課場次已開始") = .ok () := by
  by_cases hc : target.session.courseId = leave.courseId
  · by_cases hs : target.id = leave.sessionId
    · have he : checkMakeupTarget leave target at' = .error (.validation "補課場次不可為請假場次") := by
        simp [checkMakeupTarget, hc, hs]; rfl
      rw [he] at h
      cases h
    · exact ⟨hc, hs, by simpa [checkMakeupTarget, hc, hs] using h⟩
  · have he : checkMakeupTarget leave target at' = .error (.validation "補課場次須為同一課程") := by
      simp [checkMakeupTarget, hc]; rfl
    rw [he] at h
    cases h

theorem LeaveRequest.upto_book {r : LeaveRequest} (h : r.makeupSessionId = none) (s : Uuid) :
    r.Upto (r.book s) :=
  ⟨rfl, rfl, fun _ => rfl, fun s' hs => by rw [h] at hs; cases hs⟩

theorem setMakeupSessionTx_spec (hs : Holds σ.held (.row (S := Shop) .sessions s) .update) :
    Does C B σ (setMakeupSessionTx id s) (fun _ => True) fun r σ' => ∀ x, r = some x →
      σ'.db = σ.db.apply (.mod .leaveRequests id
        (onlyIf (fun r => r.status = .approved ∧ r.makeupSessionId = none)
          (LeaveRequest.book s))) := by
  have hup : Does C B σ (updateRow (S := Shop) .leaveRequests id (fun r => r.status = .approved ∧
    r.makeupSessionId = none)
      (LeaveRequest.book s)) (fun _ => True) fun r σ' => ∀ x, r = some x →
        σ'.db = σ.db.apply (.mod .leaveRequests id
        (onlyIf (fun r => r.status = .approved ∧ r.makeupSessionId = none)
          (LeaveRequest.book s))) := by
    refine wp_updateRow (fun _ _ _ _ _ _ _ => trivial)
      (fun _ _ _ _ => ⟨.refl _, fun _ h => (nomatch h)⟩)
      (fun _ => ⟨σ.later_grant _ _, fun _ h => (nomatch h)⟩) fun row hr hp =>
      ⟨⟨holds_acquire _ _ _, ?_⟩, (σ.later_grant _ _).trans (Pt.later_write _ _), fun _ _ => rfl⟩
    refine onlyIf_ind (P := LeaveRequest.Change _) (fun r h => ?_) fun r =>
      ⟨.refl r, fun _ h => .inl h⟩
    simp only [decide_eq_true_eq] at h
    refine ⟨LeaveRequest.upto_book h.2 s, fun s' hs' => .inr ?_⟩
    cases hs'
    exact hs.mono (subset_acquire _ _ _)
  refine Yields.bind hup fun r σ₁ _ h => ?_
  dsimp only
  split
  · exact Yields.bind (Yields.references trivial trivial) fun _ σ₂ _ h₂ => .pure fun x hx => by
      rw [h₂]; exact h x hx
  · exact .pure h

theorem bookMakeup_wp {at' : StudioNow} {auth : AuthUser} {born : Db}
    {Q : LeaveRequest → Pt Shop → Prop}
    {X : AppError → Pt Shop → Prop} (hB : ∀ e σ, B e σ) (hC : ∀ σ', σ'.committed = false →
      BookedAt K at' id s σ' → C σ')
    (hQ : ∀ a σ', Q a σ') (hX : ∀ e σ', X e σ') :
    wp (shopRules.under K) (writing C B) Q X (bookMakeup at' auth id s) (.begin born d false) := by
  refine atomically_in (R := fun _ σ' => BookedAt K at' id s σ') ?_ hB
    (fun a σ' hl h => hC σ' hl.committed h) hQ hX
  refine Yields.bind (Does.inside findForMakeupTx_spec) fun r σ₁ hl₁ ⟨hd₁, hws₁, hr⟩ => ?_
  refine Yields.bind (R := fun x σ' => r = some x ∧ σ' = σ₁)
    (Yields.orFail (fun _ h => ⟨h, rfl⟩) trivial)
    fun leave σ₂ _ ⟨hx, h₂⟩ => ?_
  subst h₂
  obtain ⟨hh, row, enrolment, hrow, hen, hcourse, hsession, hstatus, hmakeup⟩ := hr leave hx
  refine Yields.bind (R := fun _ σ' => σ' = σ₂)
    (Does.inside (Yields.checked (fun _ _ => rfl) fun _ _ => trivial)) fun _ σ₃ _ h₃ => ?_
  subst h₃
  refine Yields.bind (R := fun _ σ' => checkMakeupSource leave = .ok () ∧ σ' = σ₃)
    (Does.inside (Yields.checked (fun _ h => ⟨h, rfl⟩) fun _ _ => trivial))
      fun _ σ₄ _ ⟨hsrc, h₄⟩ => ?_
  subst h₄
  have hlockspec : DoesIn K C B σ₄ (lockSessionTx s) (fun _ => True) fun r σ' => σ'.db = σ₄.db ∧
      σ'.ws = σ₄.ws ∧
      ∀ x, r = some x → x.id = s ∧ σ₄.db.get .sessions s = some x.session ∧
        Holds σ'.held (.row (S := Shop) .sessions s) .update := by
    refine Yields.bind (R := fun r σ' => σ'.db = σ₄.db ∧ σ'.ws = σ₄.ws ∧ ∀ x, r = some x →
        σ₄.db.get .sessions s = some x ∧ Holds σ'.held (.row (S := Shop) .sessions s) .update)
      (wp_selectFor (by decide) (fun _ _ _ _ _ _ _ => trivial)
        (fun _ _ _ _ => ⟨.refl _, rfl, rfl, fun _ h => (nomatch h)⟩)
        ⟨σ₄.later_grant _ _, rfl, rfl, fun x hx => ⟨by simpa using hx, holds_acquire _ _ _⟩⟩)
      fun r σ₅ _ ⟨h1, h2, h3⟩ => .pure ⟨h1, h2, fun x hx => ?_⟩
    obtain ⟨y, hy, rfl⟩ := Option.map_eq_some_iff.1 hx
    exact ⟨rfl, (h3 y hy).1, (h3 y hy).2⟩
  refine Yields.bind hlockspec fun lock σ₅ hl₅ ⟨hd₅, hws₅, hlock⟩ => ?_
  refine Yields.bind (R := fun x σ' => lock = some x ∧ σ' = σ₅)
    (Yields.orFail (fun _ h => ⟨h, rfl⟩) trivial)
    fun lock' σ₆ _ ⟨hlk, h₆⟩ => ?_
  subst h₆
  obtain ⟨hid, hses, hhs⟩ := hlock lock' hlk
  refine Yields.bind (R := fun _ σ' => checkMakeupTarget leave lock' at' = .ok () ∧ σ' = σ₆)
    (Does.inside (Yields.checked (fun _ h => ⟨h, rfl⟩) fun _ _ => trivial))
      fun _ σ₇ _ ⟨htgt, h₇⟩ => ?_
  subst h₇
  have hws₇ : σ₇.ws = [] := by rw [hws₅, hws₁]; rfl
  -- the seats, counted under the session's lock
  refine Yields.bind (R := fun _ σ' => σ' = σ₇ ∧ RoomAt K lock'.session.courseId s σ₇.now) ?_
    fun _ σ₈ _ ⟨h₈, hroom⟩ => ?_
  · refine Yields.bind (R := fun r σ' => σ' = σ₇ ∧ ∃ v, shopRules.rel σ₇.held v σ₇.db ∧
      K.rel σ₇.held v σ₇.now ∧
        r = sessionSeats lock'.session.courseId lock'.id v)
          (Yields.snapshot fun v _ hv hm => ⟨rfl, v, ?_, hm, ?_⟩)
      fun r σ₈ _ ⟨h₈, v, hv, hm, hr⟩ => ?_
    · rw [hws₇] at hv; exact hv
    · rw [hws₇]; rfl
    subst h₈
    refine Yields.bind (R := fun x σ' => r = some x ∧ σ' = σ₈)
      (Yields.orFail (fun _ h => ⟨h, rfl⟩) trivial)
      fun seats σ₉ _ ⟨hx, h₉⟩ => ?_
    subst h₉
    refine Yields.ensure (fun hroom => ⟨rfl, σ₉.held, v, seats, ?_, hm, hhs, ?_, hroom⟩) trivial
    · have hnow : σ₉.now = σ₉.db := by rw [hd₅, hd₁, hl₅.now, hl₁.now]; rfl
      rw [hnow]; exact hv
    · rw [← hx, hr, hid]
  subst h₈
  refine Yields.bind (Does.inside (setMakeupSessionTx_spec hhs)) fun r' σ₉ hl₉ hset => ?_
  refine Yields.orFail (fun x hx => ?_) trivial
  have hnow : σ₉.now = σ₈.db := by rw [hl₉.now, hd₅, hd₁, hl₅.now, hl₁.now]; rfl
  have hroom₉ : RoomAt K lock'.session.courseId s σ₉.now := by rw [hl₉.now]; exact hroom
  obtain ⟨hap, hun⟩ := checkMakeupSource_ok hsrc
  obtain ⟨hc, hne, hahead⟩ := checkMakeupTarget_ok htgt
  have hd₈ : σ₈.db = (Pt.begin born d false).db := hd₅.trans hd₁
  refine ⟨hl₉.holds hhs,
    { row := row, enrolment := enrolment, session := lock'.session
      row_eq := by rw [hnow, hd₈]; exact hrow
      approved := hstatus ▸ hap
      unbooked := hmakeup ▸ hun
      enrolment_eq := by rw [hnow, hd₈]; exact hen
      session_eq := by rw [hnow, hd₈, ← hd₁]; exact hses
      course := hc.trans hcourse
      other := by rw [← hid, ← hsession]; exact hne
      ahead := hahead
      booked := by rw [hnow]; exact hset x hx }, hroom₉⟩

/-! ## Marking a batch -/

/-- While an attendance row is locked, no leave for it becomes approved. -/
def approvedKept : Rely Shop where
  rel L a b := ∀ e s, Holds L (.row (S := Shop) .attendance (s, e)) .update → ApprovedLeave e s b →
    ApprovedLeave e s a
  refl _ _ _ _ _ h := h
  trans h h' e s hh ha := h e s hh (h' e s hh ha)
  anti hs h e s hh ha := h e s (hh.mono hs) ha

/-- Every approved leave of `d` has its attendance row in `d'`. -/
def Projected (d d' : Db) : Prop :=
  ∀ e s, ApprovedLeave e s d → ∃ a, d'.get .attendance (s, e) = some a ∧ a.status = .leave

/-- The non-leave marks of a batch meet no approved leave. -/
def MarksClear (s : Uuid) (marks : Marks) (d : Db) : Prop :=
  ∀ m ∈ marks, m.2 ≠ .leave → ¬ ApprovedLeave m.1 s d

/-- A batch as it commits. If the leaves approved by then are projected, they stay so,
and the batch marks none of them otherwise. -/
structure BatchAt (K : Rely Shop) (s : Uuid) (marks : Marks) (σ : Pt Shop) : Prop where
  only : Only (S := Shop) [.attendance] σ.now σ.db
  row : ∀ k, σ.db.get .attendance k = σ.now.get .attendance k ∨
    ∃ m u, m ∈ marks ∧ k = (s, m.1) ∧ σ.db.get .attendance k = some ⟨m.2, u⟩
  projected : (∀ L a b, K.rel L a b → approvedKept.rel L a b) → Projected σ.now σ.now →
    Projected σ.now σ.db ∧ MarksClear s marks σ.now

theorem approvedLeave_only {ts : List ShopTbl} (h : Only (S := Shop) ts d d')
    (ht : .leaveRequests ∉ ts) :
    ApprovedLeave e s d' ↔ ApprovedLeave e s d := by
  unfold ApprovedLeave
  simp only [h.get (t := ShopTbl.leaveRequests) ht]

/-- One more mark. -/
theorem BatchAt.snoc {σ σ' : Pt Shop} {marks : Marks} {m : Uuid × AttendanceStatus}
    (h : BatchAt K s marks σ)
    (hl : σ.Later σ') (hws : ∀ w ∈ σ.ws, w.tbl = .attendance) (hm : Marked s m.1 m.2 u σ.db σ'.db)
    (hclear : m.2 = .leave ∨ (∀ a, σ.db.get .attendance (s, m.1) = some a → a.status ≠ .leave) ∨
      ∃ L v, K.rel L v σ.now ∧ Holds L (.row (S := Shop) .attendance (s, m.1)) .update ∧
        ¬ ApprovedLeave m.1 s (Store.overlay σ.ws v)) : BatchAt K s (marks ++ [m]) σ' where
  only := by rw [hl.now]; exact h.only.trans hm.only
  row k := by
    rw [hm.row, hl.now]
    split
    next hk => exact .inr ⟨m, u, by simp, hk, rfl⟩
    · exact (h.row k).imp id fun ⟨m', u', h1, h2, h3⟩ => ⟨m', u', List.mem_append_left _ h1, h2, h3⟩
  projected hK hp := by
    rw [hl.now] at hp ⊢
    obtain ⟨h1, h2⟩ := h.projected hK hp
    -- a mark other than leave goes only where no leave is approved
    have hno : m.2 ≠ .leave → ¬ ApprovedLeave m.1 s σ.now := by
      intro hn ha
      rcases hclear with hc | hc | ⟨L, v, hv, hh, hc⟩
      · exact hn hc
      · obtain ⟨a, hg, hs⟩ := h1 _ _ ha
        exact hc a hg hs
      · have ho : Only (S := Shop) [.attendance] v (Store.overlay σ.ws v) :=
          Only.writes (fun w hw => by simp [hws w hw]) v
        exact hc ((approvedLeave_only ho (by simp)).2 (hK _ _ _ hv _ _ hh ha))
    refine ⟨fun e' s' ha => ?_, fun m' hm' hn => ?_⟩
    · obtain ⟨a, hg, hs⟩ := h1 e' s' ha
      rw [hm.row]
      split
      next hk =>
        cases hk
        by_cases hst : m.2 = .leave
        · exact ⟨_, rfl, hst⟩
        · exact absurd ha (hno hst)
      · exact ⟨a, hg, hs⟩
    · rcases List.mem_append.1 hm' with hm' | hm'
      · exact h2 m' hm' hn
      · rw [List.mem_singleton.1 hm'] at hn ⊢
        exact hno hn

theorem planMarks_ok {parsed entries : Marks} {valid approved : List Uuid}
    (h : planMarks parsed valid approved = .ok entries) :
    entries = parsed := by
  by_cases h1 : sameSet (parsed.map Prod.fst) valid = true
  · by_cases h2 : (parsed.any fun e => e.2 ≠ .leave ∧ approved.contains e.1) = true
    · have he : planMarks parsed valid approved = .error (.validation approvedLeaveOverwrite) := by
        simp only [planMarks, h1, h2]; rfl
      rw [he] at h
      cases h
    · have he : planMarks parsed valid approved = .ok parsed := by
        simp only [planMarks, h1, h2]; rfl
      rw [he] at h
      cases h
      rfl
  · have he : planMarks parsed valid approved =
        .error
          (.validation "all enrolments must belong to this session's course and be active") := by
      simp only [planMarks, h1]; rfl
    rw [he] at h
    cases h

/-- One entry of the batch. -/
theorem markOneTx_spec {m : Uuid × AttendanceStatus} {marks : Marks}
    (hw : ∀ w ∈ σ.ws, w.tbl = .attendance)
    (hb : BatchAt K s marks σ) : DoesIn K C B σ (markOneTx s u m) (fun _ => True) fun _ σ' =>
      (∀ w ∈ σ'.ws, w.tbl = .attendance) ∧ BatchAt K s (marks ++ [m]) σ' := by
  refine Yields.bind upsertAttendance_spec fun n σ₁ hl ⟨_, h⟩ => ?_
  refine Yields.ensure (fun hn => ?_) trivial
  obtain ⟨h0, -⟩ | ⟨hm, ⟨w, hwt, hws⟩, hc⟩ := h
  · simp [h0] at hn
  · refine ⟨fun x hx => ?_, hb.snoc hl hw hm hc⟩
    rw [hws] at hx
    rcases List.mem_append.1 hx with hx | hx
    · exact hw x hx
    · rw [List.mem_singleton.1 hx]; exact hwt

theorem markTx_spec {c : Uuid} {parsed : Marks} (hd : σ.db = σ.now) (hws : σ.ws = []) :
    DoesIn K C B σ (markTx s c parsed u) (fun _ => True) fun _ σ' => BatchAt K s parsed σ' := by
  have hset : DoesIn K C B σ (if parsed.isEmpty then return ([], []) else do
      let valid ← read (S := Shop) (findActiveEnrolmentIdsIn c (parsed.map Prod.fst))
      let approved ← read (S := Shop) (findApprovedLeaveEnrolmentIdsTx s (parsed.map Prod.fst))
      return (valid, approved)) (fun _ => True) fun _ σ' => σ' = σ := by
    split
    · exact .pure rfl
    · refine Yields.bind (R := fun _ σ' => σ' = σ)
        (Yields.read fun _ _ _ => rfl) fun _ σ₁ _ h₁ => ?_
      refine Yields.bind (R := fun _ σ' => σ' = σ₁)
        (Yields.read fun _ _ _ => rfl) fun _ σ₂ _ h₂ => ?_
      exact .pure (h₂.trans h₁)
  refine Yields.bind hset fun sets σ₁ _ h₁ => ?_
  subst h₁
  refine Yields.bind (R := fun entries σ' => entries = parsed ∧ σ' = σ₁)
    (Does.inside (Yields.checked (fun _ h => ⟨planMarks_ok h, rfl⟩) fun _ _ => trivial))
      fun entries σ₂ _ ⟨he, h₂⟩ => ?_
  subst he
  subst h₂
  -- every turn adds one mark to those that are clear
  refine Yields.bind (R := fun _ σ' => BatchAt K s entries σ')
    (wp_each (fun _ rest σ' => σ₂.Later σ' ∧
      (∀ w ∈ σ'.ws, w.tbl = .attendance) ∧ ∃ done, entries = done ++ rest ∧
        BatchAt K s done σ') ?_ ?_ ?_) fun _ _ _ h => .pure h
  · rintro _ m rest σ' ⟨hl, hw, done, hdone, hb⟩
    exact (markOneTx_spec hw hb).wp (fun _ σ'' hl' h =>
      ⟨hl.trans hl', h.1, done ++ [m], by simp [hdone], h.2⟩)
      fun _ _ hl' _ => ⟨hl.trans hl', trivial⟩
  · refine ⟨.refl σ₂, by simp [hws], [], rfl, ⟨hd ▸ Only.refl _ _, fun k => .inl (by rw [hd]),
      fun _ hp => ⟨by rw [hd]; exact hp, ?_⟩⟩⟩
    intro m hm
    cases hm
  · rintro _ σ' ⟨hl, _, done, hdone, hb⟩
    rw [List.append_nil] at hdone
    exact ⟨hl, hdone ▸ hb⟩

theorem bulkUpsertAttendance_wp {at' : StudioNow} {auth : AuthUser}
    {records : List AttendanceRecordEntry} {born : Db}
    {Q : List RosterEntry → Pt Shop → Prop} {X : AppError → Pt Shop → Prop} (hB : ∀ e σ, B e σ)
    (hC : ∀ σ' marks, σ'.committed = false → parseMarks records = .ok marks →
      BatchAt K s marks σ' → C σ')
    (hQ : ∀ a σ', Q a σ') (hX : ∀ e σ', X e σ') :
    wp (shopRules.under K) (writing C B) Q X (bulkUpsertAttendance at' auth s records)
    (.begin born d false) := by
  refine Yields.bind_wp (F := fun _ => True) (R := fun _ σ' => σ' = Pt.begin born d false)
    (Yields.read fun _ _ _ => rfl)
    (fun _ σ₁ _ h₁ => ?_) fun e σ' _ _ => hX e σ'
  subst h₁
  refine Yields.bind_wp (F := fun _ => True) (R := fun _ σ' => σ' = Pt.begin born d false)
    (Yields.orFail (fun _ _ => rfl) trivial)
    (fun sc σ₂ _ h₂ => ?_) fun e σ' _ _ => hX e σ'
  subst h₂
  refine Yields.bind_wp (F := fun _ => True) requireCourseCoach_spec (fun _ σ₃ _ h₃ => ?_)
    fun e σ' _ _ => hX e σ'
  subst h₃
  refine Yields.bind_wp (F := fun _ => True) (R := fun _ σ' => σ' = Pt.begin born d false)
    (Does.inside (Yields.checked (fun _ _ => rfl) fun _ _ => trivial))
      (fun _ σ₄ _ h₄ => ?_) fun e σ' _ _ => hX e σ'
  subst h₄
  refine Yields.bind_wp (F := fun _ => True) (R := fun marks σ' => parseMarks records = .ok marks ∧
    σ' = Pt.begin born d false)
    (Does.inside (Yields.checked (fun _ h => ⟨h, rfl⟩) fun _ _ => trivial))
      (fun marks σ₅ _ ⟨hm, h₅⟩ => ?_) fun e σ' _ _ => hX e σ'
  subst h₅
  rw [wp_bind]
  refine atomically_in (markTx_spec rfl rfl) hB (fun _ σ' hl h => hC σ' marks hl.committed hm h)
    (fun _ σ' => ?_) hX
  exact wp_read fun _ _ _ => hQ _ _

end DreamFly
