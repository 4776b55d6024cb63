import DreamFly.Txn.Sound
import DreamFly.Txn.Yields
import DreamFly.Shop.Db

/-!
# The shop's locking discipline

Which locks the services take before they write, and what other calls cannot
change for that reason (`shopFacts`).

* The ledger, order lines, idempotency keys and redemptions are only added to;
  ledger rows and lines of an order only under a lock on the order.
* Cart lines are added under the `FOR KEY SHARE` of the foreign key to `users`.
* An enrolment becomes active, and a makeup is booked into a session, under
  `FOR UPDATE` of the course and of the session; a leave request is opened under
  its entry of the unique index.
* Enrolments are only cancelled, leave requests decided or cancelled once; owner
  columns are never updated; products and courses are neither added nor removed,
  sessions not changed.

`covers_…` say for each table which locks a write to it needs.
-/

namespace DreamFly

open Txn

/-- A ledger row is added under a lock on its order. -/
def ledgerOfOrder : Protect Shop :=
  .noNew .pointLedger (fun (o : Uuid) _ row => row.orderId = some o) (fun o => .row .orders o)
    .noKeyUpdate .noKeyUpdate rfl

/-- An order line is added under a lock on its order. -/
def itemsOfOrder : Protect Shop :=
  .noNew .orderItems (fun (o : Uuid) _ row => row.orderId = o) (fun o => .row .orders o)
    .noKeyUpdate .noKeyUpdate rfl

/-- A cart line is added under the share lock on its owner. -/
def cartOfUser : Protect Shop :=
  .noNew .cartItems (fun (i : Uuid × LineTarget) k row => k.1 = i.1 ∧ row.target = i.2)
    (fun i => .row .users i.1) .update .keyShare rfl

/-- An enrolment becomes active under the lock on its course. -/
def activeOfCourse : Protect Shop :=
  .noNew .enrolments (fun (c : Uuid) _ row => row.courseId = c ∧ row.status = .active)
    (fun c => .row .courses c) .update .update rfl

/-- A makeup is booked under the lock on its session. -/
def makeupsOfSession : Protect Shop :=
  .noNew .leaveRequests (fun (s : Uuid) _ row => row.makeupSessionId = some s)
    (fun s => .row .sessions s) .update .update rfl

/-- An enrolment goes from active to cancelled, if anywhere. -/
structure Enrolment.Upto (e e' : Enrolment) : Prop where
  user : e'.userId = e.userId
  course : e'.courseId = e.courseId
  order : e'.orderId = e.orderId
  active : e'.status = .active → e.status = .active

def enrolmentUpward : Protect Shop :=
  .upward .enrolments Enrolment.Upto (fun _ => ⟨rfl, rfl, rfl, id⟩) fun _ _ _ h h' =>
    ⟨h'.user.trans h.user, h'.course.trans h.course, h'.order.trans h.order,
      fun ha => h.active (h'.active ha)⟩

/-- A leave request is decided or cancelled once, and made up once. -/
structure LeaveRequest.Upto (r r' : LeaveRequest) : Prop where
  enrolment : r'.enrolmentId = r.enrolmentId
  session : r'.sessionId = r.sessionId
  decided : r.status ≠ .pending → r'.status = r.status
  makeup : ∀ s, r.makeupSessionId = some s → r'.makeupSessionId = some s

def leaveUpward : Protect Shop :=
  .upward .leaveRequests LeaveRequest.Upto (fun _ => ⟨rfl, rfl, fun _ => rfl, fun _ h => h⟩)
    fun _ _ _ h h' =>
    ⟨h'.enrolment.trans h.enrolment, h'.session.trans h.session,
      fun hn => (h'.decided (by rw [h.decided hn]; exact hn)).trans (h.decided hn), fun s hs =>
        h'.makeup s (h.makeup s hs)⟩

/-- A request that takes part in the unique index: pending or approved. -/
def LeaveRequest.isOpen (r : LeaveRequest) : Prop := r.status = .pending ∨ r.status = .approved

theorem LeaveRequest.Upto.isOpen {r r' : LeaveRequest} (h : r.Upto r')
    (ho : r'.isOpen) : r.isOpen := by
  by_cases hp : r.status = .pending
  · exact .inl hp
  · rw [LeaveRequest.isOpen, h.decided hp] at ho; exact ho

/-- A request for a session is opened under its entry of the unique index. -/
def leaveOfKey : Protect Shop :=
  .noNew .leaveRequests (fun (i : Uuid × Uuid) _ row => row.enrolmentId = i.1 ∧
    row.sessionId = i.2 ∧ row.isOpen)
    (fun i => .uniq (.leave i.1 i.2)) .update .update rfl

def subscriptionFixed : Protect Shop := .fixed .subscriptions fun row => row.orderId

/-- What an order was priced at, and who bought it. -/
def orderFixed : Protect Shop :=
  .fixed .orders fun row => { row with status := .pending }

def shopFacts : List (Protect Shop) :=
  [.appendOnly .pointLedger, ledgerOfOrder, .appendOnly .orderItems, itemsOfOrder,
    .appendOnly .orderIdempotency, .appendOnly .redemptions, .appendOnly .sessions, cartOfUser,
    activeOfCourse,
    makeupsOfSession, leaveOfKey, enrolmentUpward, leaveUpward, subscriptionFixed, orderFixed,
    .closed .products,
    .closed .courses]

/-- The shop's discipline. -/
def shopRules : Discipline Shop := (Protect.all shopFacts).discipline

variable {L : Locks (Res Shop)} {a b : Db}

/-! ## What is frozen -/

theorem rel_fact {P : Protect Shop} (h : shopRules.rel L a b) (hP : P ∈ shopFacts) : P.rel L a b :=
  h.2 P hP

theorem rel_same (h : shopRules.rel L a b) {t : ShopTbl} {k : t.Key}
    (hh : Holds L (.row (S := Shop) t k) .share) : a.get t k = b.get t k :=
  h.1 t k hh

theorem rel_idem (h : shopRules.rel L a b) {k : Uuid × String} {o : Uuid}
    (hk : a.get .orderIdempotency k = some o) : b.get .orderIdempotency k = some o :=
  rel_fact h (P := .appendOnly .orderIdempotency) (by simp [shopFacts]) k o hk

/-- While an order is locked, its ledger rows are the ones it has. -/
theorem rel_ledger (h : shopRules.rel L a b) {o : Uuid}
    (hh : Holds L (.row (S := Shop) .orders o) .noKeyUpdate) (k : Uuid) (row : LedgerRow)
    (ho : row.orderId = some o) : a.get .pointLedger k = some row ↔
      b.get .pointLedger k = some row := by
  have hap := rel_fact h (P := .appendOnly .pointLedger) (by simp [shopFacts]) k
  constructor
  · exact hap row
  · intro hb
    obtain ⟨row', ha, -⟩ := rel_fact h (P := ledgerOfOrder) (by simp [shopFacts]) k o hh row hb ho
    rw [hap row' ha] at hb
    cases hb
    exact ha

/-- While an order is locked, its lines are the ones it has. -/
theorem rel_items (h : shopRules.rel L a b) {o : Uuid}
    (hh : Holds L (.row (S := Shop) .orders o) .noKeyUpdate) (k : Uuid) (row : OrderItem)
    (ho : row.orderId = o) : a.get .orderItems k = some row ↔ b.get .orderItems k = some row := by
  have hap := rel_fact h (P := .appendOnly .orderItems) (by simp [shopFacts]) k
  constructor
  · exact hap row
  · intro hb
    obtain ⟨row', ha, -⟩ := rel_fact h (P := itemsOfOrder) (by simp [shopFacts]) k o hh row hb ho
    rw [hap row' ha] at hb
    cases hb
    exact ha

/-- While a user is locked, every line of the cart was in it before. -/
theorem rel_cart (h : shopRules.rel L a b) {u : Uuid}
    (hh : Holds L (.row (S := Shop) .users u) .update) {k : Uuid × Uuid} {row : CartItem}
    (hk : k.1 = u)
    (hb : b.get .cartItems k = some row) :
    ∃ row', a.get .cartItems k = some row' ∧ row'.target = row.target := by
  obtain ⟨row', ha, -, ht⟩ :=
    rel_fact h (P := cartOfUser) (by simp [shopFacts]) k (u, row.target) hh row hb ⟨hk, rfl⟩
  exact ⟨row', ha, ht⟩

/-- While a course is locked, every active enrolment in it was active before. -/
theorem rel_active (h : shopRules.rel L a b) {c : Uuid}
    (hh : Holds L (.row (S := Shop) .courses c) .update) {k : Uuid} {row : Enrolment}
    (hb : b.get .enrolments k = some row) (hc : row.courseId = c) (hs : row.status = .active) :
    ∃ row', a.get .enrolments k = some row' ∧ row'.courseId = c ∧ row'.status = .active :=
  rel_fact h (P := activeOfCourse) (by simp [shopFacts]) k c hh row hb ⟨hc, hs⟩

theorem rel_enrolment (h : shopRules.rel L a b) {k : Uuid} {row : Enrolment}
    (ha : a.get .enrolments k = some row) : ∃ row', b.get .enrolments k = some row' ∧
      row.Upto row' :=
  rel_fact h (P := enrolmentUpward) (by simp [shopFacts]) k row ha

theorem rel_leave (h : shopRules.rel L a b) {k : Uuid} {row : LeaveRequest}
    (ha : a.get .leaveRequests k = some row) : ∃ row', b.get .leaveRequests k = some row' ∧
      row.Upto row' :=
  rel_fact h (P := leaveUpward) (by simp [shopFacts]) k row ha

/-- While an entry of the unique index is locked, the open request for it was open
before. -/
theorem rel_leaveKey (h : shopRules.rel L a b) {e s : Uuid}
    (hh : Holds L (.uniq (S := Shop) (.leave e s)) .update) {k : Uuid} {row : LeaveRequest}
    (hb : b.get .leaveRequests k = some row) (he : row.enrolmentId = e) (hs : row.sessionId = s)
      (ho : row.isOpen) :
    ∃ row', a.get .leaveRequests k = some row' ∧ row'.enrolmentId = e ∧ row'.sessionId = s ∧
      row'.isOpen :=
  rel_fact h (P := leaveOfKey) (by simp [shopFacts]) k (e, s) hh row hb ⟨he, hs, ho⟩

theorem rel_session (h : shopRules.rel L a b) {k : Uuid} {row : Session}
    (ha : a.get .sessions k = some row) :
    b.get .sessions k = some row :=
  rel_fact h (P := .appendOnly .sessions) (by simp [shopFacts]) k row ha

theorem rel_order (h : shopRules.rel L a b) {k : Uuid} {row : Order}
    (ha : a.get .orders k = some row) : ∃ row', b.get .orders k = some row' ∧
      { row' with status := .pending } = { row with status := .pending } :=
  rel_fact h (P := orderFixed) (by simp [shopFacts]) k row ha

theorem rel_products (h : shopRules.rel L a b) (k : Uuid) :
    (a.get .products k).isSome = (b.get .products k).isSome :=
  rel_fact h (P := .closed .products) (by simp [shopFacts]) k

theorem rel_courses (h : shopRules.rel L a b) (k : Uuid) :
    (a.get .courses k).isSome = (b.get .courses k).isSome :=
  rel_fact h (P := .closed .courses) (by simp [shopFacts]) k

/-! ## Which locks writes need -/

/-- What an UPDATE does to a leave request: a makeup is booked under the session's
lock. -/
def LeaveRequest.Change (L : Locks (Res Shop)) (r r' : LeaveRequest) : Prop :=
  r.Upto r' ∧ ∀ s, r'.makeupSessionId = some s →
    r.makeupSessionId = some s ∨ Holds L (.row (S := Shop) .sessions s) .update

/-- What a write needs beside the lock on its own row, table by table. -/
def Allowed (L : Locks (Res Shop)) : Write Shop → Prop
  | .add .pointLedger _ row =>
    ∀ o, row.orderId = some o → Holds L (.row (S := Shop) .orders o) .noKeyUpdate
  | .add .orderItems _ row => Holds L (.row (S := Shop) .orders row.orderId) .noKeyUpdate
  | .add .cartItems k _ => Holds L (.row (S := Shop) .users k.1) .keyShare
  | .add .enrolments _ row =>
    row.status = .active → Holds L (.row (S := Shop) .courses row.courseId) .update
  | .add .leaveRequests _ row =>
    (∀ s, row.makeupSessionId = some s → Holds L (.row (S := Shop) .sessions s) .update) ∧
      (row.isOpen → Holds L (.uniq (S := Shop) (.leave row.enrolmentId row.sessionId)) .update)
  | .add .products _ _ | .add .courses _ _ => False
  | .add _ _ _ => True
  | .mod .cartItems _ f => ∀ row, (f row).target = row.target
  | .mod .enrolments _ f => ∀ row : Enrolment, row.Upto (f row)
  | .mod .leaveRequests _ f => ∀ row : LeaveRequest, row.Change L (f row)
  | .mod .subscriptions _ f => ∀ row, (f row).orderId = row.orderId
  | .mod .orders _ f => ∀ row, { f row with status := .pending } = { row with status := .pending }
  | .mod .pointLedger _ _ | .mod .orderItems _ _ | .mod .orderIdempotency _ _ | .mod
    .redemptions _ _
  | .mod .sessions _ _ => False
  | .mod _ _ _ => True
  | .del .cartItems _ | .del .coupons _ | .del .users _ | .del .rewards _
  | .del .attendance _ | .del .coaches _ | .del .outbox _ => True
  | .del _ _ => False

/-- **A write with its locks keeps to the discipline.** -/
theorem covers_of {w : Write Shop} (h : Holds L w.res .noKeyUpdate) (ha : Allowed L w) :
    shopRules.Covers L w := by
  refine ⟨h, fun P hP => ?_⟩
  simp only [shopFacts, List.mem_cons, List.not_mem_nil, or_false] at hP
  -- one case for each fact that the shop relies on
  rcases hP with rfl | rfl | rfl | rfl | rfl | rfl | rfl | rfl | rfl | rfl | rfl | rfl | rfl | rfl |
      rfl | rfl | rfl
  · exact Protect.appendOnly_guard (by rintro k f rfl; exact ha) (by rintro k rfl; exact ha)
  · exact ⟨by rintro k row rfl o ho; exact ha o ho, by rintro k f rfl; exact ha.elim⟩
  · exact Protect.appendOnly_guard (by rintro k f rfl; exact ha) (by rintro k rfl; exact ha)
  · exact ⟨by rintro k row rfl o rfl; exact ha, by rintro k f rfl; exact ha.elim⟩
  · exact Protect.appendOnly_guard (by rintro k f rfl; exact ha) (by rintro k rfl; exact ha)
  · exact Protect.appendOnly_guard (by rintro k f rfl; exact ha) (by rintro k rfl; exact ha)
  · exact Protect.appendOnly_guard (by rintro k f rfl; exact ha) (by rintro k rfl; exact ha)
  · refine ⟨by rintro k row rfl ⟨u, tg⟩ ⟨rfl, -⟩; exact ha, ?_⟩
    rintro k f rfl ⟨u, tg⟩ row ⟨hu, ht⟩
    exact .inl ⟨hu, (ha row).symm.trans ht⟩
  · refine ⟨by rintro k row rfl c ⟨rfl, hs⟩; exact ha hs, ?_⟩
    rintro k f rfl c row ⟨hc, hs⟩
    exact .inl ⟨(ha row).course.symm.trans hc, (ha row).active hs⟩
  · refine ⟨by rintro k row rfl s hs; exact ha.1 s hs, ?_⟩
    rintro k f rfl s row hs
    exact (ha row).2 s hs
  · refine ⟨by rintro k row rfl ⟨e, s⟩ ⟨rfl, rfl, ho⟩; exact ha.2 ho, ?_⟩
    rintro k f rfl ⟨e, s⟩ row ⟨he, hs, ho⟩
    obtain ⟨hu, -⟩ := ha row
    exact .inl ⟨hu.enrolment.symm.trans he, hu.session.symm.trans hs, hu.isOpen ho⟩
  · exact ⟨by rintro k rfl; exact ha, by rintro k f rfl row; exact ha row⟩
  · exact ⟨by rintro k rfl; exact ha, by rintro k f rfl row; exact (ha row).1⟩
  · exact ⟨by rintro k rfl; exact ha, by rintro k f rfl row; exact ha row⟩
  · exact ⟨by rintro k rfl; exact ha, by rintro k f rfl row; exact ha row⟩
  · exact Protect.closed_guard (by rintro k row rfl; exact ha) (by rintro k rfl; exact ha)
  · exact Protect.closed_guard (by rintro k row rfl; exact ha) (by rintro k rfl; exact ha)

/-! ## Obligations -/

/-- Every write keeps to the rules; `C` where the transaction commits, `B` where it
rolls back. -/
def writing (C : Pt Shop → Prop) (B : Option AppError → Pt Shop → Prop) : Oblig Shop AppError where
  write σ w := Holds σ.held w.res .noKeyUpdate ∧ Allowed σ.held w
  lock _ _ _ := True
  commit := C
  rollback := B

/-- The specification of a piece of a shop transaction. -/
abbrev Does {α : Type} (C : Pt Shop → Prop) (B : Option AppError → Pt Shop → Prop) (σ : Pt Shop)
    (p : Tx α) (F : AppError → Prop) (R : α → Pt Shop → Prop) : Prop :=
  Yields shopRules (writing C B) σ p F R

/-- Any error but a 409. -/
def NotConflict (e : AppError) : Prop := ∀ m, e ≠ .conflict m

/-- Neither a 409 nor a number that does not fit its column. -/
def Routine (e : AppError) : Prop := NotConflict e ∧ e ≠ .database .outOfRange

/-- A foreign key to a table whose rows stay: the row is there. -/
theorem references_spec {C : Pt Shop → Prop} {B : Option AppError → Pt Shop → Prop} {σ : Pt Shop}
    {F : AppError → Prop}
    {t : ShopTbl} {k : t.Key} {e : AppError} (hv : ∀ v, shopRules.rel σ.held v σ.db →
      (v.get t k).isSome = (σ.db.get t k).isSome)
    (hF : F e) : Does C B σ (Prog.references (S := Shop) t k e) F fun _ σ' => σ'.db = σ.db ∧
    (σ.db.get t k).isSome := by
  refine Yields.bind (R := fun r σ' => σ' = σ ∧ r.isSome = (σ.db.get t k).isSome)
    (Yields.read fun v _ h => ⟨rfl, hv v h⟩) fun r σ₁ _ ⟨h₁, hr⟩ => ?_
  subst h₁
  cases r with
  | none => exact .throw hF
  | some r =>
    exact (Yields.lockRes trivial).imp (fun _ _ _ h => ⟨by rw [h]; rfl, hr.symm⟩) fun _ h => h

end DreamFly
