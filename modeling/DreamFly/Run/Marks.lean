import DreamFly.Lists.Groups
import DreamFly.Run.Leaves
import DreamFly.Txn.Waits
import Mathlib.Algebra.Order.Monoid.Unbundled.WithTop

/-!
# Whether marking batches wait for each other in a circle

A batch locks the attendance rows of its session in the order in which the client lists
them, a decision its leave request and then one attendance row.

* `marks_acyclic`: as long as the batches under way list their enrolments in one order,
  batches and decisions do not wait for each other in a circle.
-/

namespace DreamFly

open Txn Prog

variable {rank : Uuid → Uuid → ℕ} {σ : Pt Shop} {d d' : Db} {q : Req} {s s' : ShopSys}
  {e sess id u : Uuid} {t : ℕ}
  {c : Call Shop AppError Reply Req} {ok : ShopSys → Event Req → ShopSys → Prop}
    {own : List (Res Shop)}

/-! ## The order of the locks -/

/-- A leave request comes before the attendance rows, these as `rank` says; the rest is
only referred to. -/
def markRank (rank : Uuid → Uuid → ℕ) : Res Shop → WithTop ℕ
  | .row .leaveRequests _ => (0 : ℕ)
  | .row .attendance k => (rank k.1 k.2 + 1 : ℕ)
  | _ => ⊤

/-- Whatever comes for the first time ranks above all before it. -/
def Ascends (rank : Uuid → ℕ) (ids : List Uuid) : Prop :=
  ∀ pre e suf, ids = pre ++ e :: suf → e ∉ pre → ∀ y ∈ pre, rank y < rank e

/-- A batch lists its enrolments in the order of `rank`; a decision has only one. -/
def Req.InOrder (rank : Uuid → Uuid → ℕ) : Req → Prop
  | .bulkUpsertAttendance _ _ sess records =>
    Ascends (rank sess) (records.map AttendanceRecordEntry.enrolmentId)
  | .decideLeaveRequest _ _ _ => True
  | _ => False

/-- Marking batches and decisions on leaves. -/
def Req.marking : Req → Bool
  | .bulkUpsertAttendance _ _ _ _ | .decideLeaveRequest _ _ _ => true
  | _ => false

/-- A piece of a batch or a decision: it asks in order and ends as `R` says. -/
abbrev Asking {α : Type} (rank : Uuid → Uuid → ℕ) (σ : Pt Shop) (p : Tx α)
    (R : α → Pt Shop → Prop) : Prop :=
  Yields shopRules (asking (Climbs (markRank rank))) σ p (fun _ => True) R

/-! ## What is held at each lock -/

theorem references_asks {t : ShopTbl} {k : Shop.Key t} {x : AppError}
    (h : Owns (markRank rank) own σ.held)
    (hr : markRank rank (.row t k) = ⊤) :
    Asking rank σ (references (S := Shop) t k x) fun _ σ' => Owns (markRank rank) own σ'.held :=
  (Yields.references (h.climbs_refer hr) trivial).imp (fun _ _ _ h' => by rw [h']; exact h.refer hr)
    fun _ h => h

/-- A write of one attendance row. -/
theorem upsertAttendance_asks {status : AttendanceStatus} (h : Owns (markRank rank) own σ.held)
    (hb : ¬ Holds σ.held (.row (S := Shop) .attendance (sess, e)) .update →
      ∀ o ∈ own, markRank rank o < markRank rank (.row .attendance (sess, e))) :
    Asking rank σ (upsertAttendanceTx sess e status u) fun _ σ' =>
      Holds σ'.held (.row (S := Shop) .attendance (sess, e)) .update ∧
      Owns (markRank rank) (own ++ [.row .attendance (sess, e)]) σ'.held := by
  have htop : markRank rank (.row .attendance (sess, e)) ≠ ⊤ := WithTop.coe_ne_top
  refine Yields.bind (R := fun _ σ' => σ' = σ.grant (.row .attendance (sess, e)) .update)
    (wp_lockRes (fun hn => h.climbs htop (hb hn)) ⟨σ.later_grant _ _, rfl⟩) fun _ σ₁ _ h₁ => ?_
  have hh : Holds σ₁.held (.row (S := Shop) .attendance (sess, e)) .update := by
    rw [h₁]; exact holds_acquire _ _ _
  have ho : Owns (markRank rank) (own ++ [.row .attendance (sess, e)]) σ₁.held := by
    rw [h₁]; exact h.take htop
  refine Yields.bind (R := fun _ σ' => σ' = σ₁) (Yields.read fun _ _ _ => rfl) fun r σ₂ _ h₂ => ?_
  -- after the row only references are asked for, which rank above all else
  subst h₂
  obtain ⟨old, d⟩ := r
  cases old with
  | some old =>
    simp only
    split
    · refine Yields.bind (references_asks ho rfl) fun _ σ₃ hl₃ h₃ => ?_
      refine Yields.bind (Yields.put trivial) fun _ σ₄ hl₄ h₄ =>
        .pure ⟨(hl₃.trans hl₄).holds hh, ?_⟩
      rw [h₄]
      exact h₃
    · exact .pure ⟨hh, ho⟩
  | none =>
    refine Yields.bind (references_asks ho rfl) fun _ σ₃ hl₃ h₃ => ?_
    refine Yields.bind (references_asks h₃ rfl) fun _ σ₄ hl₄ h₄ => ?_
    refine Yields.bind (references_asks h₄ rfl) fun _ σ₅ hl₅ h₅ => ?_
    refine Yields.bind (Yields.put trivial) fun _ σ₆ hl₆ h₆ =>
      .pure ⟨(((hl₃.trans hl₄).trans hl₅).trans hl₆).holds hh, ?_⟩
    rw [h₆]
    exact h₅

/-! ## A batch -/

/-- Some enrolments of the session are marked, and nothing else is locked. -/
structure MarkedFirst (rank : Uuid → Uuid → ℕ) (sess : Uuid) (done : List Uuid)
    (σ : Pt Shop) : Prop where
  held : ∀ e ∈ done, Holds σ.held (.row (S := Shop) .attendance (sess, e)) .update
  owns : Owns (markRank rank) (done.map fun e => .row .attendance (sess, e)) σ.held

theorem markOne_asks {done : List Uuid} {m : Uuid × AttendanceStatus}
    (h : MarkedFirst rank sess done σ)
    (hm : m.1 ∉ done → ∀ y ∈ done, rank sess y < rank sess m.1) :
    Asking rank σ (markOneTx sess u m) fun _ σ' => MarkedFirst rank sess (done ++ [m.1]) σ' := by
  refine Yields.bind (upsertAttendance_asks h.owns fun hn o ho => ?_) fun n σ₁ hl ⟨hh, hown⟩ =>
    Yields.ensure (fun _ => ?_) trivial
  · obtain ⟨y, hy, rfl⟩ := List.mem_map.1 ho
    have hlt : rank sess y < rank sess m.1 := hm (fun hd => hn (h.held _ hd)) y hy
    exact WithTop.coe_lt_coe.2 (Nat.succ_lt_succ hlt)
  · refine ⟨fun y hy => ?_, by rw [List.map_append]; exact hown⟩
    rcases List.mem_append.1 hy with hy | hy
    · exact hl.holds (h.held y hy)
    · rw [List.mem_singleton.1 hy]
      exact hh

theorem markTx_asks {co : Uuid} {parsed : Marks} (h : Ascends (rank sess) (parsed.map Prod.fst))
    (hσ : σ.held = []) :
    Asking rank σ (markTx sess co parsed u) fun _ _ => True := by
  have hset : Asking rank σ (if parsed.isEmpty then return ([], []) else do
      let valid ← read (S := Shop) (findActiveEnrolmentIdsIn co (parsed.map Prod.fst))
      let approved ← read (S := Shop) (findApprovedLeaveEnrolmentIdsTx sess (parsed.map Prod.fst))
      return (valid, approved)) fun _ σ' => σ' = σ := by
    split
    · exact .pure rfl
    · refine Yields.bind (R := fun _ σ' => σ' = σ)
        (Yields.read fun _ _ _ => rfl) fun _ σ₁ _ h₁ => ?_
      refine Yields.bind (R := fun _ σ' => σ' = σ₁)
        (Yields.read fun _ _ _ => rfl) fun _ σ₂ _ h₂ => ?_
      exact .pure (h₂.trans h₁)
  refine Yields.bind hset fun sets σ₁ _ h₁ => ?_
  subst h₁
  refine Yields.bind (R := fun entries σ' => entries = parsed ∧ σ' = σ₁)
    (Yields.checked (fun _ h => ⟨planMarks_ok h, rfl⟩) fun _ _ => trivial)
    fun entries σ₂ _ ⟨he, h₂⟩ => ?_
  subst he
  subst h₂
  refine Yields.bind (R := fun _ _ => True) (wp_each (fun _ rest σ' => σ₂.Later σ' ∧
    ∃ done, entries = done ++ rest ∧
    MarkedFirst rank sess (done.map Prod.fst) σ') ?_ ?_ ?_) fun _ _ _ _ => .pure trivial
  · rintro _ m rest σ' ⟨hl, done, hdone, hm⟩
    refine (markOne_asks hm fun hnew => h (done.map Prod.fst) m.1 (rest.map Prod.fst)
      (by simp [hdone]) hnew).wp
      (fun _ σ'' hl' h' => ⟨hl.trans hl', done ++ [m], by simp [hdone], ?_⟩) fun _ _ hl' _ =>
        ⟨hl.trans hl', trivial⟩
    rw [List.map_append]
    exact h'
  · exact ⟨.refl σ₂, [], rfl, fun _ he => (nomatch he), by rw [hσ]; exact owns_nil⟩
  · rintro _ σ' ⟨hl, -⟩
    exact ⟨hl, trivial⟩

theorem requireCourseCoach_asks {auth : AuthUser} {coachId : Option Uuid} {msg : String} :
    Asking rank σ (requireCourseCoach auth coachId msg) fun _ σ' => σ' = σ := by
  unfold requireCourseCoach
  split
  · exact .pure rfl
  · refine Yields.bind (R := fun _ σ' => σ' = σ) (Yields.read fun _ _ _ => rfl) fun _ σ₁ _ h₁ => ?_
    subst h₁
    exact Yields.ensure (fun _ => rfl) trivial

/-- Parsing keeps the order. -/
theorem parseMarks_ids {records : List AttendanceRecordEntry} {parsed : Marks}
    (h : parseMarks records = .ok parsed) :
    parsed.map Prod.fst = records.map AttendanceRecordEntry.enrolmentId := by
  rw [parseMarks, Lists.mapM_ok] at h
  induction h with
  | nil => rfl
  | @cons record mark records parsed hr _ ih =>
    rw [List.map_cons, List.map_cons, ih]
    congr 1
    split at hr
    · cases hr
      rfl
    · cases hr

theorem bulkUpsertAttendance_asks {at' : StudioNow} {auth : AuthUser}
    {records : List AttendanceRecordEntry} {born : Db}
    (h : Ascends (rank sess) (records.map AttendanceRecordEntry.enrolmentId)) :
    Asks shopRules (Climbs (markRank rank)) (bulkUpsertAttendance at' auth sess records)
    (.begin born d false) := by
  refine Yields.bind_wp (F := fun _ => True) (R := fun _ σ' => σ' = Pt.begin born d false)
    (Yields.read fun _ _ _ => rfl)
    (fun _ σ₁ _ h₁ => ?_) fun _ _ _ _ => trivial
  subst h₁
  refine Yields.bind_wp (F := fun _ => True) (R := fun _ σ' => σ' = Pt.begin born d false)
    (Yields.orFail (fun _ _ => rfl) trivial)
    (fun sc σ₂ _ h₂ => ?_) fun _ _ _ _ => trivial
  subst h₂
  refine Yields.bind_wp requireCourseCoach_asks (fun _ σ₃ _ h₃ => ?_) fun _ _ _ _ => trivial
  subst h₃
  refine Yields.bind_wp (F := fun _ => True) (R := fun _ σ' => σ' = Pt.begin born d false)
    (Yields.checked (fun _ _ => rfl) fun _ _ => trivial)
      (fun _ σ₄ _ h₄ => ?_) fun _ _ _ _ => trivial
  subst h₄
  refine Yields.bind_wp (F := fun _ => True) (R := fun marks σ' => parseMarks records = .ok marks ∧
    σ' = Pt.begin born d false)
    (Yields.checked (fun _ h => ⟨h, rfl⟩) fun _ _ => trivial)
      (fun marks σ₅ _ ⟨hm, h₅⟩ => ?_) fun _ _ _ _ => trivial
  subst h₅
  refine (wp_bind _ _ _).2 ((wp_atomically _ _).2
    ((markTx_asks (by rw [parseMarks_ids hm]; exact h) rfl).wp
    (fun _ _ _ _ => ⟨trivial, fun _ _ => wp_read fun _ _ _ => trivial⟩) fun _ _ _ _ =>
      ⟨trivial, fun _ _ => trivial⟩))

/-! ## A decision -/

theorem decideTx_asks {status : LeaveStatus} (hσ : σ.held = []) :
    Asking rank σ (decideTx id status u) fun _ _ => True := by
  have htop : markRank rank (.row .leaveRequests id) ≠ ⊤ := WithTop.coe_ne_top
  have h0 : Owns (markRank rank) [] σ.held := by rw [hσ]; exact owns_nil
  have hrow : Owns (markRank rank) [.row .leaveRequests id]
      (acquire σ.held (.row (S := Shop) .leaveRequests id) .noKeyUpdate) :=
    h0.take htop
  have hnone : Owns (markRank rank) [.row .leaveRequests id] σ.held := by
    rw [hσ]
    exact fun _ hx => nomatch hx
  have hleave : Asking rank σ (decideLeaveTx id status u) fun _ σ' => Owns (markRank rank)
      [.row .leaveRequests id] σ'.held := by
    refine Yields.bind (R := fun _ σ' => Owns (markRank rank) [.row .leaveRequests id] σ'.held)
      (wp_updateRow (fun _ _ _ _ _ _ _ => h0.climbs htop fun _ ho => (nomatch ho))
        (fun _ _ _ _ => ⟨.refl σ, hnone⟩)
        (fun _ => ⟨σ.later_grant _ _, hrow⟩) fun _ _ _ =>
          ⟨trivial, (σ.later_grant _ _).trans (Pt.later_write _ _), hrow⟩)
      fun updated σ₁ _ h₁ => ?_
    dsimp only
    split
    · exact Yields.bind (references_asks h₁ rfl) fun _ _ _ h => .pure h
    · exact .pure h₁
  refine Yields.bind hleave fun updated σ₁ _ h₁ => ?_
  cases updated with
  | none => exact .pure trivial
  | some updated =>
    dsimp only
    split
    · refine Yields.bind (R := fun _ σ' => σ' = σ₁)
        (Yields.read fun _ _ _ => rfl) fun r σ₂ _ h₂ => ?_
      subst h₂
      refine Yields.bind (R := fun _ σ' => σ' = σ₂) (Yields.orFail (fun _ _ => rfl) trivial)
        fun x σ₃ _ h₃ => ?_
      subst h₃
      -- the attendance row comes above the request
      refine Yields.bind (R := fun _ _ => True)
        (Yields.bind (upsertAttendance_asks h₁ fun _ o ho => ?_) fun _ _ _ _ => .pure trivial)
        fun _ _ _ _ => .pure trivial
      rw [List.mem_singleton.1 ho]
      exact WithTop.coe_lt_coe.2 (Nat.succ_pos _)
    · exact .pure trivial

theorem decideLeaveRequest_asks {auth : AuthUser} {newStatus : String} {born : Db} :
    Asks shopRules (Climbs (markRank rank)) (decideLeaveRequest auth id newStatus)
    (.begin born d false) := by
  refine Yields.bind_wp (F := fun _ => True) (R := fun _ σ' => σ' = Pt.begin born d false)
    (Yields.checked (fun _ _ => rfl) fun _ _ => trivial)
      (fun st σ₁ _ h₁ => ?_) fun _ _ _ _ => trivial
  subst h₁
  refine Yields.bind_wp (F := fun _ => True) (R := fun _ σ' => σ' = Pt.begin born d false)
    (Yields.read fun _ _ _ => rfl)
    (fun ctx σ₂ _ h₂ => ?_) fun _ _ _ _ => trivial
  subst h₂
  refine Yields.bind_wp (F := fun _ => True) (R := fun _ σ' => σ' = Pt.begin born d false)
    (Yields.orFail (fun _ _ => rfl) trivial)
    (fun ctx σ₃ _ h₃ => ?_) fun _ _ _ _ => trivial
  subst h₃
  refine Yields.bind_wp requireCourseCoach_asks (fun _ σ₄ _ h₄ => ?_) fun _ _ _ _ => trivial
  subst h₄
  refine Yields.bind_wp (F := fun _ => True) (R := fun _ σ' => σ' = Pt.begin born d false)
    (Yields.checked (fun _ _ => rfl) fun _ _ => trivial)
      (fun _ σ₅ _ h₅ => ?_) fun _ _ _ _ => trivial
  subst h₅
  refine asks_atomically ((wp_bind _ _ _).2 ((decideTx_asks rfl).wp (fun r σ₆ _ _ => ?_)
    fun _ _ _ _ => trivial))
  exact wp_orFail (fun _ _ => trivial) fun _ => trivial

/-! ## The waits-for graph -/

/-- Batches and decisions ask in order, if `rank` is theirs. -/
theorem Req.asks (rank : Uuid → Uuid → ℕ) (q : Req) (d d' : Db) :
    Asks (shopRules.under (.free Shop)) (fun h r m => q.InOrder rank → Climbs (markRank rank) h r m)
    (shop.prog q) (.begin d d' false) := by
  by_cases hq : q.InOrder rank
  · have hasks : Asks shopRules (Climbs (markRank rank)) (shop.prog q) (.begin d d' false) := by
      cases q with
      | bulkUpsertAttendance at' auth sess records => exact wp_reply (bulkUpsertAttendance_asks hq)
      | decideLeaveRequest auth id newStatus => exact wp_reply decideLeaveRequest_asks
      | _ => exact hq.elim
    exact wp_under (fun _ _ _ => trivial) _ _ (hasks.imp fun _ _ _ h _ => h)
  · exact asks_any (fun _ _ _ h => absurd h hq) _ _

/-- The shop's contract, with what batches and decisions hold where they ask. -/
def marksContract (rank : Uuid → Uuid → ℕ) : Contract shop (shopRules.under (.free Shop)) :=
  (shopContract (.free Shop)).also _ (Req.asks rank)

theorem marks_ok (h : shop.Reach ok (Sys.init d) s) : s.OK (marksContract rank) :=
  reach_ok (fun _ _ _ _ _ _ _ _ _ _ => trivial) (ok_init d) h

/-- **Batches and decisions do not wait for each other in a circle**, as long as the
batches under way list their enrolments in one order. -/
theorem marks_acyclic (h : shop.Reach ok (Sys.init d) s) (rank : Uuid → Uuid → ℕ)
    (hr : ∀ t c, s.call t = some c → c.finished = false → c.req.marking = true →
      c.req.InOrder rank) (t : ℕ) :
    ¬ Relation.TransGen (WaitsAmong (fun q => Req.marking q = true) s) t t :=
  waits_acyclic (marks_ok h) (fun t c hc hopen hq _ _ _ hL => hL (hr t c hc hopen hq)) t

/-- Ascending ids are such an order. -/
def Req.ascending : Req → Bool
  | .bulkUpsertAttendance _ _ _ records =>
    (records.map AttendanceRecordEntry.enrolmentId).Pairwise (· < ·)
  | .decideLeaveRequest _ _ _ => true
  | _ => false

theorem Req.inOrder_of (h : q.ascending = true) : q.InOrder fun _ e => e := by
  cases q with
  | bulkUpsertAttendance at' auth sess records =>
    intro pre e suf heq _ y hy
    have hp := of_decide_eq_true h
    rw [heq] at hp
    exact (List.pairwise_append.1 hp).2.2 y hy e List.mem_cons_self
  | decideLeaveRequest => trivial
  | _ => cases h

/-- Two take part in course 4. -/
def sampleClass : Db := sampleShop.apply (.add .enrolments 10 ⟨1, 4, none, .active, 0⟩)

/-- An admin marks session 5 after it has started. -/
def sampleMarks (ids : List Uuid) : Req :=
  .bulkUpsertAttendance ⟨fun date time => some (100 * date + time), 5000⟩
    ⟨9, ["admin"]⟩ 5 (ids.map fun e => ⟨e, "present"⟩)

/-- Two batches, each up to its second row or to its first. -/
def sampleBatches (ids ids' : List Uuid) (k : ℕ) : List (Event Req) :=
  [.start 0 (sampleMarks ids), .start 1 (sampleMarks ids')] ++
  (Event.steps 0 100 12 ++ Event.steps 1 200 k)

theorem marks_acyclic_sample :
    let s := shop.after (sampleBatches [7, 10] [7, 10] 3) (.init sampleClass)
    (s.call 1).isSome = true ∧
      ¬ Relation.TransGen (WaitsAmong (fun q => Req.marking q = true) s) 1 1 := by
  refine ⟨by decide +kernel, marks_acyclic (Service.reachable_after _)
    (fun _ e => e) (fun t c hc _ _ => Req.inOrder_of ?_) 1⟩
  have hall : (shop.after (sampleBatches [7, 10] [7, 10] 3) (.init sampleClass)).calls.rows.all
      (fun e => e.2.req.ascending) = true := by
    decide +kernel
  exact List.all_eq_true.1 hall (t, c) (Table.mem_rows.2 hc)

/-- **Two batches over the same two students**, in the one order and the other. -/
theorem marks_circle : let s := shop.after (sampleBatches [7, 10] [10, 7] 12) (.init sampleClass)
    shop.Reachable (Sys.init sampleClass) s ∧
      Relation.TransGen (WaitsAmong (fun q => Req.marking q = true) s) 0 0 := by
  intro s
  -- each has one row and asks for the other's
  have hcall : ∀ t r r', (s.call t).any (fun c => c.req.marking && c.prog.wanted =
      some (r, .update) && (r', Mode.update) ∈ c.held) = true →
      ∃ c, s.call t = some c ∧ c.req.marking = true ∧ c.prog.wanted = some (r, .update) ∧
        (r', Mode.update) ∈ c.held := by
    intro t r r' h
    obtain ⟨c, hc, h⟩ := Option.any_eq_true _ _ |>.1 h
    simp only [Bool.and_eq_true, decide_eq_true_eq] at h
    exact ⟨c, hc, h.1.1, h.1.2, h.2⟩
  obtain ⟨c, hc, hq, hw, hh⟩ := hcall 0 (.row .attendance (5, 10)) (.row .attendance (5, 7))
    (by decide +kernel)
  obtain ⟨c', hc', hq', hw', hh'⟩ := hcall 1 (.row .attendance (5, 7)) (.row .attendance (5, 10))
    (by decide +kernel)
  have h01 : WaitsAmong (fun q => Req.marking q = true) s 0 1 :=
    waitsAmong_of hc hc' (by decide) hw hh' rfl hq hq'
  have h10 : WaitsAmong (fun q => Req.marking q = true) s 1 0 :=
    waitsAmong_of hc' hc (by decide) hw' hh rfl hq' hq
  exact ⟨Service.reachable_after _, .tail (.single h01) h10⟩

end DreamFly
