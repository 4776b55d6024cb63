import DreamFly.Proof.Rules
import DreamFly.Shop.Enrolments

/-!
# Seats, proved

What enrolling and cancelling do to the store. `Enrolled` is one new active
enrolment, made when the course had room and the user was not in it yet: the count
that decides this can be old, but under the lock on the course an old count is never
too low (`courseSeatsTx_spec`).
-/

namespace DreamFly

open Txn Prog

variable {C : Pt Shop → Prop} {B : Option AppError → Pt Shop → Prop} {σ : Pt Shop}
  {F : AppError → Prop} {u o c : Uuid} {now : Instant} {d d' : Db}

/-- The enrolment a purchase creates. -/
def newEnrolment (u o c : Uuid) (now : Instant) : Enrolment := ⟨u, c, some o, .active, now⟩

/-- One new active enrolment, within the limit and the only one of its user. -/
def Enrolled (u o : Uuid) (now : Instant) (c : Uuid) (d d' : Db) : Prop :=
  ∃ course id, d.get .courses c = some course ∧
    (d.count .enrolments (activeIn c) : ℤ) < course.maxStudents ∧
    existsActive u c d = false ∧ d.get .enrolments id = none ∧
    d' = d.apply (.add .enrolments id (newEnrolment u o c now))

theorem Enrolled.only (h : Enrolled u o now c d d') : Only (S := Shop) [.enrolments] d d' := by
  obtain ⟨course, id, -, -, -, -, rfl⟩ := h
  exact Only.write d (by simp [Write.tbl])

/-! ## Enrolling -/

theorem existsActive_eq_false :
    existsActive u c d = false ↔
      ∀ k e, d.get .enrolments k = some e → e.userId = u → e.courseId = c → e.status ≠ .active := by
  simp only [existsActive, Bool.not_eq_false', List.isEmpty_iff, List.eq_nil_iff_forall_not_mem]
  constructor
  · intro h k e hk hu hc hs
    exact h (k, e) (Store.mem_sel.2 ⟨hk, by simp [hu, hc, hs]⟩)
  · rintro h ⟨k, e⟩ hm
    obtain ⟨hk, hp⟩ := Store.mem_sel.1 hm
    simp only [decide_eq_true_eq] at hp
    exact h k e hk hp.1 hp.2.1 hp.2.2

/-- The locked courses are there, each locked. -/
theorem lockCoursesTx_spec {ids : List Uuid} :
    Does C B σ (lockCoursesTx ids) F fun locks σ' => σ'.db = σ.db ∧
      (∀ c ∈ locks, Holds σ'.held (.row (S := Shop) .courses c) .update) ∧
      ∀ c ∈ ids, (σ.db.get .courses c).isSome → c ∈ locks := by
  refine Yields.bind (Yields.selectAllFor (by decide) fun _ _ => trivial)
    fun rs σ₁ _ ⟨hd, ⟨v, _, hv, hrs⟩, hall⟩ =>
    .pure ⟨hd, fun c hc => ?_, fun c hc hs => ?_⟩
  · obtain ⟨e, he, rfl⟩ := List.mem_map.1 hc
    exact (hall e he).2.2
  · obtain ⟨row, hr⟩ := Option.isSome_iff_exists.1 hs
    rw [← rel_courses hv] at hs
    obtain ⟨row', hr'⟩ := Option.isSome_iff_exists.1 hs
    refine List.mem_map.2 ⟨(c, row), ?_, rfl⟩
    rw [hrs, mem_found]
    refine ⟨List.mem_map.2 ⟨(c, row'), ?_, rfl⟩, hr, by simpa using hc⟩
    exact (List.perm_insertionSort _ _).mem_iff.2 (Store.mem_sel.2 ⟨hr', by simpa using hc⟩)

/-- Under the course lock, the users enrolled at the end were enrolled in any
earlier snapshot. -/
theorem existsActive_stable {L : Locks (Res Shop)} {v : Db} (hv : shopRules.rel L v d)
    (hh : Holds L (.row (S := Shop) .courses c) .update) (h : existsActive u c v = false) :
    existsActive u c d = false := by
  rw [existsActive_eq_false] at h ⊢
  intro k e hk hu hc hs
  obtain ⟨e', hk', hc', hs'⟩ := rel_active hv hh hk hc hs
  obtain ⟨e'', hk'', hup⟩ := rel_enrolment hv hk'
  rw [hk] at hk''
  cases hk''
  exact h k e' hk' (hup.user.symm.trans hu) hc' hs'

/-- **Under the course lock the limit is current and the count at most too high.** -/
theorem courseSeatsTx_spec {locks : CourseLocks}
    (hl : ∀ c ∈ locks, Holds σ.held (.row (S := Shop) .courses c) .update) :
    Does C B σ (courseSeatsTx locks c) (fun _ => True) fun seats σ' => σ' = σ ∧ c ∈ locks ∧
      ∀ s, seats = some s → ∃ course, σ.db.get .courses c = some course ∧
        s.maxStudents = course.maxStudents ∧
        σ.db.count .enrolments (activeIn c) ≤ s.activeCount := by
  unfold courseSeatsTx
  by_cases hc : c ∈ locks
  · have hh := hl c hc
    have hin : (!locks.contains c) = false := by simp [hc]
    simp only [hin, Bool.false_eq_true, if_false]
    refine Yields.bind (R := fun r σ' => σ' = σ ∧ r = σ.db.get .courses c)
      (Yields.read fun v _ hv => ⟨rfl, rel_same hv (hh.weaken (by decide))⟩)
        fun r σ₂ _ ⟨hσ, hr⟩ => ?_
    subst hσ
    cases r with
    | none => exact .pure ⟨rfl, hc, fun _ h => (nomatch h)⟩
    | some course =>
      -- under the lock of the course nobody enrols, so the count is no less than now
      refine Yields.bind (R := fun n σ' => σ' = σ₂ ∧ σ₂.db.count .enrolments (activeIn c) ≤ n)
        (Yields.read fun v _ hv => ⟨rfl, Store.count_le fun k e hk hp => ?_⟩)
          fun n σ₃ _ ⟨hσ, hn⟩ => ?_
      · simp only [activeIn, decide_eq_true_eq] at hp
        obtain ⟨e', hk', hc', hs'⟩ := rel_active hv hh hk hp.1 hp.2
        exact ⟨e', hk', by simp [activeIn, hc', hs']⟩
      · subst hσ
        refine .pure ⟨rfl, hc, fun s hs => ?_⟩
        cases hs
        exact ⟨course, hr.symm, rfl, hn⟩
  · have hin : (!locks.contains c) = true := by simp [hc]
    simp only [hin, if_true]
    exact Yields.bind (R := fun _ _ => False) (.throw trivial) fun _ _ _ h => h.elim

theorem insertEnrolmentTx_spec (hh : Holds σ.held (.row (S := Shop) .courses c) .update) :
    Does C B σ (insertEnrolmentTx u c o now) (fun _ => True) fun _ σ' =>
      existsActive u c σ.db = false ∧
      ∃ id, σ.db.get .enrolments id = none ∧
        σ'.db = σ.db.apply (.add .enrolments id (newEnrolment u o c now)) := by
  refine Yields.bind (Yields.claim trivial) fun b σ₁ hl₁ ⟨h₁, v, _, hv, hb⟩ => ?_
  cases b with
  | true => exact .throw trivial
  | false =>
  have he : existsActive u c σ.db = false := existsActive_stable hv (hl₁.holds hh) hb.symm
  refine Yields.bind (Yields.references trivial trivial) fun _ σ₂ hl₂ h₂ => ?_
  refine Yields.bind (Yields.references trivial trivial) fun _ σ₃ hl₃ h₃ => ?_
  refine Yields.bind (Yields.references trivial trivial) fun _ σ₄ hl₄ h₄ => ?_
  have hd : σ₄.db = σ.db := by rw [h₄, h₃, h₂, h₁]; rfl
  have hl := ((hl₁.trans hl₂).trans hl₃).trans hl₄
  refine Yields.imp (Yields.insert fun n => ⟨holds_acquire _ _ _, fun _ => ?_⟩)
    (fun n σ₅ _ h => ⟨he, n, ?_, ?_⟩)
    fun _ h => h
  · exact (hl.holds hh).mono (subset_acquire _ _ _)
  · rw [← hd]; exact h.2.1
  · rw [h.2.2.2, ← hd]; rfl

theorem enrolOneTx_spec {locks : CourseLocks}
    (hl : ∀ c ∈ locks, Holds σ.held (.row (S := Shop) .courses c) .update) :
    Does C B σ (enrolOneTx locks u c o now) (fun _ => True) fun _ σ' =>
      Enrolled u o now c σ.db σ'.db := by
  refine Yields.bind (courseSeatsTx_spec hl) fun seats σ₁ _ ⟨hσ, hc, hs⟩ => ?_
  subst hσ
  refine Yields.bind (R := fun s σ' => seats = some s ∧ σ' = σ₁)
    (Yields.orFail (fun _ h => ⟨h, rfl⟩) trivial)
    fun s σ₂ _ ⟨hse, hσ⟩ => ?_
  subst hσ
  obtain ⟨course, hcourse, hmax, hcount⟩ := hs s hse
  refine Yields.bind (R := fun _ σ' => s.isFull = false ∧ σ' = σ₂)
    (Yields.ensure (fun h => ⟨by simpa using h, rfl⟩) trivial) fun _ σ₃ _ ⟨hfull, hσ⟩ => ?_
  subst hσ
  refine Yields.bind (R := fun _ σ' => σ' = σ₃) (Yields.read fun _ _ _ => rfl) fun b σ₄ _ h => ?_
  subst h
  refine Yields.bind (R := fun _ σ' => σ' = σ₄) (Yields.ensure (fun _ => rfl) trivial)
    fun _ σ₅ _ h => ?_
  subst h
  refine (insertEnrolmentTx_spec (hl c hc)).imp (fun _ σ₆ _ ⟨he, id, hid, hd⟩ => ?_) fun _ h => h
  simp only [CourseSeats.isFull, decide_eq_false_iff_not] at hfull
  exact ⟨course, id, hcourse, by omega, he, hid, hd⟩

theorem CourseLocks.inLockOrder_ok {locks : CourseLocks} {items l : List Uuid}
    (h : locks.inLockOrder items = .ok l) : l.Perm items := by
  unfold CourseLocks.inLockOrder at h
  split at h
  · cases h
  · cases h; exact List.perm_insertionSort _ _

/-- **A purchase enrols into each of its courses**, one at a time. -/
theorem enrolBatch_spec {locks : CourseLocks} {buyer : BalanceLock} {courseIds : List Uuid}
    (hl : ∀ c ∈ locks, Holds σ.held (.row (S := Shop) .courses c) .update) :
    Does C B σ (enrolBatchFromPurchaseTx locks buyer courseIds o now) (fun _ => True) fun _ σ' =>
      ∃ ordered : List Uuid, ordered.Perm courseIds ∧
        Chain (Enrolled buyer.userId o now) ordered σ.db σ'.db := by
  refine Yields.bind (R := fun l σ' => σ' = σ ∧ l.Perm courseIds)
    (Yields.checked (fun l h => ⟨rfl, CourseLocks.inLockOrder_ok h⟩) fun _ _ => trivial)
      fun l σ₁ _ ⟨hσ, hp⟩ => ?_
  subst hσ
  exact (Yields.each_unit fun c _ σ' h => enrolOneTx_spec fun c hc => h.holds (hl c hc)).imp
    (fun _ _ _ h => ⟨l, hp, h⟩) fun _ h => h

/-! ## Cancelling -/

/-- Enrolments went from not cancelled to cancelled, pending requests to cancelled,
and nothing else happened. -/
structure Cancelled (d d' : Db) : Prop where
  only : Only (S := Shop) [.enrolments, .leaveRequests] d d'
  enrolment : ∀ k, d'.get .enrolments k = d.get .enrolments k ∨
    ∃ e, d.get .enrolments k = some e ∧ e.status ≠ .cancelled ∧ d'.get .enrolments k = some e.cancel
  leave : ∀ k, d'.get .leaveRequests k = d.get .leaveRequests k ∨
    ∃ r, d.get .leaveRequests k = some r ∧ r.status = .pending ∧
      d'.get .leaveRequests k = some r.cancel

theorem Enrolment.upto_cancel (e : Enrolment) : e.Upto e.cancel :=
  ⟨rfl, rfl, rfl, fun h => by simp [Enrolment.cancel] at h⟩

theorem Enrolment.Upto.refl (e : Enrolment) : e.Upto e := ⟨rfl, rfl, rfl, id⟩

theorem LeaveRequest.Upto.refl (r : LeaveRequest) : r.Upto r :=
    ⟨rfl, rfl, fun _ => rfl, fun _ h => h⟩

theorem LeaveRequest.upto_cancel {r : LeaveRequest} (h : r.status = .pending) : r.Upto r.cancel :=
  ⟨rfl, rfl, fun hn => absurd h hn, fun _ h => h⟩

/-- Cancelling pending requests keeps to the rules. -/
theorem allowed_cancelLeave {L : Locks (Res Shop)} {p : LeaveRequest → Bool}
    (hp : ∀ r, p r = true → r.status = .pending)
    (k : Uuid) : Allowed L (.mod .leaveRequests k (onlyIf p LeaveRequest.cancel)) :=
  onlyIf_ind (P := LeaveRequest.Change L) (fun r h =>
    ⟨LeaveRequest.upto_cancel (hp r h), fun _ h => .inl h⟩)
    fun r => ⟨.refl r, fun _ h => .inl h⟩

/-- So does cancelling enrolments. -/
theorem allowed_cancel {L : Locks (Res Shop)} (p : Enrolment → Bool) (k : Uuid) :
    Allowed L (.mod .enrolments k (onlyIf p Enrolment.cancel)) :=
  onlyIf_ind (P := Enrolment.Upto) (fun e _ => e.upto_cancel) .refl

/-- Cancelling the pending requests of enrolments: none of those committed when the
transaction began is pending at the end. -/
theorem cancelPending_spec {ids : List Uuid} :
    Does C B σ (cancelPendingForEnrolmentsTx ids) F fun _ σ' => Edited (S := Shop) .leaveRequests
      (fun _ r => ids.contains r.enrolmentId ∧ r.status = .pending) LeaveRequest.cancel σ.db σ'.db ∧
      ∀ k r, σ.start.get .leaveRequests k = some r → ids.contains r.enrolmentId = true →
        ∃ r', σ'.db.get .leaveRequests k = some r' ∧ r'.status ≠ .pending := by
  refine Yields.bind (Yields.updateAll (fun _ _ => trivial) fun σ' k _ hh => ⟨hh,
    allowed_cancelLeave (fun r h => ?_) k⟩)
    fun _ σ₁ _ ⟨hed, _, v, hs, hv, hall⟩ => .pure ⟨hed, fun k r hr hi => ?_⟩
  · simpa using And.right (by simpa using h)
  · obtain ⟨r₁, h₁, hu₁⟩ := rel_leave hs hr
    obtain ⟨r₂, h₂, hu₂⟩ := rel_leave hv h₁
    by_cases hp : r₂.status = .pending
    · -- still pending, so it was when the statement began
      have hp₁ : r₁.status = .pending := by
        by_contra hn
        exact hn (hu₂.decided hn ▸ hp)
      have hi₁ : ids.contains r₁.enrolmentId = true := by rw [hu₁.enrolment]; exact hi
      refine ⟨_, hall k r₁ r₂ h₁ (by simpa [hp₁] using hi₁) h₂ ?_, by simp [LeaveRequest.cancel]⟩
      simpa [hp, hu₂.enrolment] using hi₁
    · rcases hed.row k with he | ⟨r, h, hpr, -⟩
      · exact ⟨r₂, he.trans h₂, hp⟩
      · rw [h₂] at h
        cases h
        exact absurd (And.right (by simpa using hpr)) hp

theorem cancelled_of_edits {d₁ : Db} {p : Uuid → Enrolment → Bool} {q : Uuid → LeaveRequest → Bool}
    (he : Edited (S := Shop) .enrolments p Enrolment.cancel d d₁) (hp : ∀ k e, p k e = true →
      e.status ≠ .cancelled)
    (hr : Edited (S := Shop) .leaveRequests q LeaveRequest.cancel d₁ d')
    (hq : ∀ k r, q k r = true → r.status = .pending) : Cancelled d d' where
  only := (he.only.mono (by simp)).trans (hr.only.mono (by simp))
  enrolment k := by
    rw [hr.only.get (t := ShopTbl.enrolments) (by simp)]
    refine (he.row k).imp id fun ⟨e, h1, h2, h3⟩ => ⟨e, h1, hp k e h2, h3⟩
  leave k := by
    rw [← he.only.get (t := ShopTbl.leaveRequests) (by simp)]
    exact (hr.row k).imp id fun ⟨r, h1, h2, h3⟩ => ⟨r, h1, hq k r h2, h3⟩

theorem cancelEnrolmentsByOrder_spec :
    Does C B σ (cancelEnrolmentsByOrderTx o) F fun _ σ' => Cancelled σ.db σ'.db := by
  refine Yields.bind (Yields.updateAll (fun _ _ => trivial) fun σ' k _ hh => ⟨hh,
    allowed_cancel _ k⟩)
    fun flipped σ₁ _ ⟨he, _, _⟩ => ?_
  have hp : ∀ (k : Uuid) (e : Enrolment), decide (e.orderId = some o ∧
      e.status ≠ .cancelled) = true →
      e.status ≠ .cancelled := fun k e h => by simpa using And.right (by simpa using h)
  split
  · refine Yields.bind cancelPending_spec fun _ σ₂ _ ⟨hr, _⟩ => .pure ?_
    exact cancelled_of_edits he hp hr fun k r h => by simpa using And.right (by simpa using h)
  · exact .pure (cancelled_of_edits he hp (Edited.refl _ (fun _ _ => false) _ _) (by simp))

/-- The subscriptions of order `o` that a refund cancels. -/
def cancelsWith (o : Uuid) (_ : Uuid) (s : Subscription) : Bool := s.orderId = some o ∧
    s.status ≠ .cancelled

theorem cancelSubscriptionsByOrder_spec :
    Does C B σ (cancelSubscriptionsByOrderTx o) F fun _ σ' =>
      Edited (S := Shop) .subscriptions (cancelsWith o) Subscription.cancel σ.db σ'.db := by
  refine Yields.bind (Yields.updateAll (fun _ _ => trivial) fun σ' k _ hh => ⟨hh, ?_⟩)
    fun _ _ _ h => .pure h.1
  exact onlyIf_ind (P := fun r r' : Subscription => r'.orderId = r.orderId)
    (fun _ _ => rfl) fun _ => rfl

/-- A subscription as it is granted: active, with all its sessions left, for a product
there is. -/
structure Subscription.Granted (s : Subscription) (d : Db) : Prop where
  active : s.status = .active
  full : s.remainingSessions = s.totalSessions
  nonneg : ∀ n, s.remainingSessions = some n → 0 ≤ n
  product : (d.get .products s.productId).isSome

/-- Subscriptions are granted, and the others stay. -/
structure SubsGranted (d d' : Db) : Prop where
  only : Only (S := Shop) [.subscriptions] d d'
  row : ∀ k, d'.get .subscriptions k = d.get .subscriptions k ∨
    (d.get .subscriptions k = none ∧ ∃ s, d'.get .subscriptions k = some s ∧ s.Granted d)

theorem SubsGranted.refl (d : Db) : SubsGranted d d := ⟨Only.refl _ _, fun _ => .inl rfl⟩

theorem SubsGranted.trans {d d₁ d' : Db} (h : SubsGranted d d₁) (h' : SubsGranted d₁ d') :
    SubsGranted d d' where
  only := h.only.trans h'.only
  row k := by
    rcases h'.row k with hsame | ⟨hnone, s, hs, hg⟩
    · rw [hsame]
      exact h.row k
    · have hp : (d.get .products s.productId).isSome := by
        rw [← h.only.get (t := ShopTbl.products) (by simp)]
        exact hg.product
      rcases h.row k with hsame | ⟨hnone', -⟩
      · exact .inr ⟨hsame ▸ hnone, s, hs, ⟨hg.active, hg.full, hg.nonneg, hp⟩⟩
      · exact .inr ⟨hnone', s, hs, ⟨hg.active, hg.full, hg.nonneg, hp⟩⟩

end DreamFly
