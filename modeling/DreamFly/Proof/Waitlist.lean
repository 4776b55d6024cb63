import DreamFly.Courses.Waitlist
import DreamFly.Txn.Exclusion

/-!
# What waitlist requests commit

A join adds one waiting entry, which nobody else of the same user and course shares, and a
cancellation takes one entry off the list. Nothing else changes an entry.

* `WaitReq.does`: what each request commits.
-/

namespace DreamFly.Waitlist

open Txn Prog Plain

variable {K : Rely Waiting} {C : Pt Waiting → Prop} {σ : Pt Waiting} {d d' : Store Waiting}
  {H : Locks (Res Waiting)} {w : Write Waiting}

/-! ## Rules -/

def waitingKeys : Exclusion Waiting .waitlistEntries (Uuid × Uuid) where
  has r x := r.status = .waiting ∧ (r.userId, r.courseId) = x
  entry x := .waiting x.1 x.2

/-- What an entry may become: it stays who waits for what since when, and a cancelled one stays so.
-/
structure WaitlistEntry.GoesTo (r r' : WaitlistEntry) : Prop where
  user : r'.userId = r.userId
  course : r'.courseId = r.courseId
  since : r'.createdAt = r.createdAt
  cancelled : r.status = .cancelled → r'.status = .cancelled

theorem WaitlistEntry.GoesTo.refl (r : WaitlistEntry) : r.GoesTo r := ⟨rfl, rfl, rfl, fun h => h⟩

theorem WaitlistEntry.GoesTo.trans {r r₁ r' : WaitlistEntry} (h : r.GoesTo r₁) (h' : r₁.GoesTo r') :
    r.GoesTo r' :=
  ⟨h'.user.trans h.user, h'.course.trans h.course, h'.since.trans h.since,
    fun hc => h'.cancelled (h.cancelled hc)⟩

/-- The UPDATE of a cancellation. -/
def cancelling : WaitlistEntry → WaitlistEntry :=
  onlyIf WaitlistEntry.isWaiting WaitlistEntry.cancel

theorem cancelling_of (r : WaitlistEntry) : cancelling r = r.cancel ∧ r.status = .waiting ∨
    cancelling r = r ∧ r.status = .cancelled := by
  unfold cancelling onlyIf WaitlistEntry.isWaiting
  cases h : r.status with
  | waiting => exact .inl ⟨if_pos rfl, rfl⟩
  | cancelled => exact .inr ⟨if_neg (by decide), rfl⟩

theorem cancelling_goesTo (r : WaitlistEntry) : r.GoesTo (cancelling r) := by
  rcases cancelling_of r with ⟨he, -⟩ | ⟨he, -⟩
  · rw [he]
    exact ⟨rfl, rfl, rfl, fun _ => rfl⟩
  · rw [he]
    exact .refl r

/-- Nobody waits afterwards who did not before. -/
theorem cancelling_waits {r : WaitlistEntry} {x : Uuid × Uuid}
    (h : waitingKeys.has (cancelling r) x) : waitingKeys.has r x := by
  rcases cancelling_of r with ⟨he, -⟩ | ⟨he, -⟩
  · rw [he] at h
    cases h.1
  · rw [he] at h
    exact h

def entryRows : Protect Waiting := .upward .waitlistEntries WaitlistEntry.GoesTo .refl
    fun _ _ _ h h' => h.trans h'

/-- The rules everybody keeps; `K` is what the runs at hand keep besides. -/
def waitRules (K : Rely Waiting) : Discipline Waiting :=
  (Protect.all [waitingKeys.protect, entryRows, .noDelete .courses]).discipline.under K

theorem wait_covers (hh : Holds H w.res .noKeyUpdate) (h₁ : waitingKeys.protect.guard H w)
    (h₂ : entryRows.guard H w)
    (h₃ : ∀ k, w ≠ .del .courses k) : (waitRules K).Covers H w := by
  refine ⟨hh, fun P hP => ?_⟩
  simp only [List.mem_cons, List.not_mem_nil, or_false] at hP
  rcases hP with rfl | rfl | rfl
  · exact h₁
  · exact h₂
  · exact h₃

theorem rel_waiting {v : Store Waiting} (h : (waitRules K).rel H v d) :
    waitingKeys.protect.rel H v d := h.2 _ (by simp)

theorem rel_courses {v : Store Waiting} (h : (waitRules K).rel H v d) {k : Uuid}
    (hk : (v.get .courses k).isSome = true) :
    (d.get .courses k).isSome = true := by
  have hr : (Protect.noDelete (S := Waiting) .courses).rel H v d := h.2 _ (by simp)
  exact hr k hk

/-- A write to another table than the waitlist. -/
theorem covers_elsewhere (hh : Holds H w.res .noKeyUpdate) (hw : w.tbl ≠ .waitlistEntries)
    (hc : ∀ k, w ≠ .del .courses k) :
    (waitRules K).Covers H w := by
  refine wait_covers hh (Exclusion.guard_other hw) ⟨fun k hk => ?_, fun k f hk => ?_⟩ hc
  · exact absurd (by rw [hk]; rfl) hw
  · exact absurd (by rw [hk]; rfl) hw

/-! ## Joining -/

/-- A new waiting entry for a course that there is, and nobody of the same user and course had
waited. -/
def Joined (userId courseId : Uuid) (a d' : Store Waiting) : Prop :=
  (a.get .courses courseId).isSome = true ∧ ∃ k t, a.get .waitlistEntries k = none ∧
    waitingKeys.Free ⟨userId, courseId, .waiting, t⟩ a ∧
    d' = a.apply (.add WaitTbl.waitlistEntries k ⟨userId, courseId, .waiting, t⟩)

/-- What a join has read of the course: a store on which it was on offer, one with its limit, and
one on which as many were enrolled. `K` relates them to the store of the commit. -/
structure FoundFull (K : Rely Waiting) (courseId : Uuid) (a : Store Waiting) : Prop where
  offered : ∃ v c, K.rel [] v a ∧ v.get .courses courseId = some c ∧ c.isActive = true
  full : ∃ v v' c, K.rel [] v a ∧ K.rel [] v' a ∧ v.get .courses courseId = some c ∧
    c.maxStudents ≤ v'.count .enrolments (activeIn courseId)

theorem takeWaiting_free {userId courseId : Uuid} :
    Plain (waitRules K) C σ (takeWaiting userId courseId) fun _ σ' => σ'.db = σ.db ∧
      Holds σ'.held (.uniq (.waiting userId courseId)) .update ∧
      ∀ k r, σ'.db.get .waitlistEntries k = some r → ¬ waitingKeys.has r (userId, courseId) := by
  refine (Exclusion.take (X := waitingKeys) (x := (userId, courseId))
    (P := fun _ => True) rel_waiting (fun v hv k r hk _ hx => ?_)
    trivial trivial).imp (fun _ σ' _ h => ?_) fun _ h => h
  · unfold existsWaiting at hv
    rw [Bool.not_eq_false', List.isEmpty_iff] at hv
    have hm : (k, r) ∈ v.sel .waitlistEntries fun _ w => w.status = .waiting ∧
        (w.userId, w.courseId) = (userId, courseId) :=
      Store.mem_sel.2 ⟨hk, decide_eq_true hx⟩
    rw [hv] at hm
    cases hm
  · obtain ⟨hs, hh, hfree⟩ := h
    exact ⟨by rw [hs]; rfl, hh, fun k r hk => hfree k r hk trivial⟩

theorem insertEntry_joins {userId courseId : Uuid} (hdb : σ.db = σ.now) :
    Plain (waitRules K) C σ (insertEntry userId courseId) fun _ σ' =>
      Joined userId courseId σ.now σ'.db := by
  unfold insertEntry
  refine Yields.bind (R := fun _ σ' => σ' = σ) (fun n => ⟨.refl _, rfl⟩) fun now σ₁ _ hs => ?_
  subst hs
  refine Yields.bind takeWaiting_free fun _ σ₂ h2 hfree => ?_
  obtain ⟨hd₂, hheld, hfree⟩ := hfree
  refine Yields.bind (Quiet.references _ _ _ _) fun _ σ₃ h3 hd₃ =>
    Yields.bind (Quiet.references _ _ _ _) fun _ σ₄ h4 hd₄ => ?_
  have hd : σ₄.db = σ₁.now := by rw [hd₄, hd₃, hd₂, hdb]
  have hnow : σ₄.now = σ₁.now := by rw [h4.now, h3.now, h2.now]
  refine Yields.bind (Yields.insert fun n => ?_) fun n σ₅ _ hnew => ?_
  · refine wait_covers (holds_acquire _ _ _) (Exclusion.guard_add fun x hx => ?_)
      ⟨fun k he => (by cases he), fun k f he => by cases he⟩
      fun k he => by cases he
    obtain ⟨-, rfl⟩ := hx
    exact (h4.holds (h3.holds hheld)).mono (subset_acquire _ _ _)
  · obtain ⟨hn, -, -, rfl⟩ := hnew
    rw [hnow] at hn
    set σ₅ := (σ₄.grant (.row .waitlistEntries n) .noKeyUpdate).write
      (.add WaitTbl.waitlistEntries n ⟨userId, courseId, .waiting, now⟩) with hσ₅
    have hd₅ : σ₅.db = σ₁.now.apply (.add WaitTbl.waitlistEntries n ⟨userId, courseId, .waiting,
        now⟩) := by rw [hσ₅, Pt.write_db, Pt.grant_db, hd]
    -- the entry is answered with its course, so there is one
    have hread : Plain (E := AppError) (waitRules K) C σ₅ (read fun d =>
      view d (n, ⟨userId, courseId, .waiting, now⟩)) fun row σ' =>
        σ' = σ₅ ∧ (row.isSome = true → (σ₅.db.get .courses courseId).isSome = true) := by
      refine .read fun v _ hv => ⟨rfl, fun hsome => rel_courses hv ?_⟩
      unfold view at hsome
      rw [Option.isSome_map] at hsome
      exact hsome
    refine Yields.bind hread fun row σ₆ _ h => Yields.orFail (fun r hr => ?_) trivial
    obtain ⟨rfl, hcourse⟩ := h
    have hcourse : (σ₅.db.get .courses courseId).isSome = true := hcourse (by rw [hr]; rfl)
    have ho : Only (S := Waiting) [.waitlistEntries] σ₁.now σ₅.db := by
      rw [hd₅]
      exact Only.write (S := Waiting) (w := .add WaitTbl.waitlistEntries n ⟨userId, courseId,
        .waiting, now⟩) _ List.mem_cons_self
    rw [ho.get (by decide)] at hcourse
    refine ⟨hcourse, n, now, hn, ?_, hd₅⟩
    rintro k r hk ⟨x, hx, -, rfl⟩
    exact hfree k r (by rw [hd₂, hdb]; exact hk) hx

/-! ## Leaving -/

/-- A waiting entry of the caller, or of anybody where an admin calls, is cancelled. -/
def Left (auth : AuthUser) (id : Uuid) (a d' : Store Waiting) : Prop :=
  ∃ w, a.get .waitlistEntries id = some w ∧ w.status = .waiting ∧
    (auth.userId = w.userId ∨ auth.isAdmin = true) ∧
    d' = a.apply (.mod WaitTbl.waitlistEntries id cancelling)

theorem cancelIfWaitingTx_cancels {id : Uuid} :
    Plain (waitRules K) C σ (cancelIfWaitingTx id) fun o σ' =>
    o = none ∨ ∃ w, σ.db.get .waitlistEntries id = some w ∧ w.status = .waiting ∧
      σ'.db = σ.db.apply (.mod WaitTbl.waitlistEntries id cancelling) := by
  unfold cancelIfWaitingTx
  refine Yields.bind (Yields.selectFor (by decide) trivial) fun o σ₁ _ hsel => ?_
  obtain ⟨hd₁, -⟩ := hsel
  have hindex : Quiet (waitRules K) C (leaveIndex o) := by
    cases o with
    | none => exact Quiet.ret ()
    | some w => exact Quiet.lockRes _ _
  refine Yields.bind (hindex _) fun _ σ₂ _ hd₂ => (Yields.updateRow trivial fun σ' _ hh => ?_).imp
    (fun o σ₃ _ h => ?_) fun _ h => h
  · refine wait_covers hh (Exclusion.guard_mod fun r x hx => cancelling_waits hx)
      ⟨fun k he => (by cases he), fun k f he => ?_⟩
      fun k he => by cases he
    cases he
    exact cancelling_goesTo
  · rw [hd₂, hd₁] at h
    rcases h with ⟨ho, -⟩ | ⟨w, hw, hp, -, -, hd₃⟩
    · exact .inl ho
    · exact .inr ⟨w, hw, of_decide_eq_true hp, hd₃⟩

theorem cancel_leaves {auth : AuthUser} {id : Uuid} {b : Store Waiting} :
    Commits (waitRules K) (fun σ => Left auth id σ.now σ.db) (cancelWaitlistEntry auth id)
    (.begin b d' false) := by
  unfold cancelWaitlistEntry
  refine commits_atomically (R := fun _ σ' => Left auth id d' σ'.db) ?_ fun _ σ' hl h => ?_
  · refine Yields.bind (Yields.selectFor (m := .update) (by decide) trivial) fun o σ₁ _ hsel => ?_
    obtain ⟨hd₁, hrow⟩ := hsel
    refine Yields.bind (R := fun w σ' => σ' = σ₁ ∧ o = some w)
      (.orFail (fun w hw => ⟨rfl, hw⟩) trivial) fun w σ₂ _ hor => ?_
    obtain ⟨rfl, rfl⟩ := hor
    obtain ⟨-, hw, -⟩ := hrow w rfl
    have hauth : Plain (waitRules K) (fun σ => Left auth id σ.now σ.db) σ₂
        (checked (auth.ownsOrAdmin w.userId "you can only cancel your own waitlist entries"))
          fun _ σ' =>
          σ' = σ₂ ∧ (auth.userId = w.userId ∨ auth.isAdmin = true) := by
      unfold AuthUser.ownsOrAdmin
      split
      next hmay => exact .ret ⟨rfl, hmay⟩
      next => exact .fail trivial
    refine Yields.bind hauth fun _ σ₃ _ hmay => Yields.bind cancelIfWaitingTx_cancels
      fun o σ₄ _ hcancel => ?_
    obtain ⟨rfl, hmay⟩ := hmay
    refine Yields.bind (R := fun _ σ' => σ' = σ₄ ∧ o ≠ none)
      (.orFail (fun r hr => ⟨rfl, by rw [hr]; exact fun h => by cases h⟩) trivial)
      fun _ σ₅ _ hsome => .pure ?_
    obtain ⟨rfl, hsome⟩ := hsome
    rcases hcancel with hnone | ⟨w', hw', hwaits, hd₅⟩
    · exact absurd hnone hsome
    · rw [hd₁] at hw' hd₅
      -- the row was locked at the first read: the update meets the same one
      have hsame : w' = w := Option.some.inj (hw'.symm.trans hw)
      subst hsame
      exact ⟨w', hw, hwaits, hmay, hd₅⟩
  · have hnow : σ'.now = d' := hl.now
    rw [← hnow] at h
    exact h

/-! ## Requests -/

/-- A snapshot of a call that has written nothing. -/
theorem read_passed {β : Type} {q : Store Waiting → β} (hws : σ.ws = []) :
    Plain (E := AppError) (waitRules K) C σ (read q) fun o σ' => σ' = σ ∧ ∃ v, K.rel [] v σ.now ∧
      o = q v := by
  refine Yields.snapshot fun v₀ _ _ hmore => ⟨rfl, v₀, K.anti (List.nil_subset _) hmore, ?_⟩
  rw [hws]
  rfl

theorem courseSeats_counts {courseId : Uuid} (hws : σ.ws = []) :
    Plain (waitRules K) C σ (courseSeats courseId) fun o σ' => σ' = σ ∧ ∀ seats, o = some seats →
      ∃ v v' c, K.rel [] v σ.now ∧ K.rel [] v' σ.now ∧ v.get .courses courseId = some c ∧
        seats.maxStudents = c.maxStudents ∧
        seats.activeCount = v'.count .enrolments (activeIn courseId) := by
  unfold courseSeats
  refine Yields.bind (read_passed hws) fun o σ₁ _ h => ?_
  obtain ⟨rfl, v, hv, hc⟩ := h
  cases o with
  | none => exact .pure ⟨rfl, fun seats h => by cases h⟩
  | some c =>
    refine Yields.bind (read_passed hws) fun n σ₂ _ h => .pure ?_
    obtain ⟨rfl, v', hv', hn⟩ := h
    refine ⟨rfl, fun seats he => ?_⟩
    cases he
    exact ⟨v, v', c, hv, hv', hc.symm, rfl, hn⟩

theorem join_joins {userId courseId : Uuid} {b : Store Waiting} :
    Commits (waitRules K) (fun σ => Joined userId courseId σ.now σ.db ∧ FoundFull K courseId σ.now)
    (joinWaitlist userId courseId)
      (.begin b d' false) := by
  unfold joinWaitlist
  refine commits_bind (read_passed rfl) fun o σ₁ _ h => ?_
  obtain ⟨rfl, v, hv, hc⟩ := h
  refine commits_bind (R := fun c σ' => σ' = .begin b d' false ∧ o = some c)
    (.orFail (fun c hc => ⟨rfl, hc⟩) trivial) fun c σ₂ _ h => ?_
  obtain ⟨rfl, rfl⟩ := h
  have hoffer : Plain (waitRules K) (fun σ => Joined userId courseId σ.now σ.db ∧
      FoundFull K courseId σ.now) (.begin b d' false)
      (checked c.ensurePurchasable) fun _ σ' => σ' = .begin b d' false ∧ c.isActive = true := by
    unfold Course.ensurePurchasable
    cases hactive : c.isActive with
    | true => exact .ret ⟨rfl, rfl⟩
    | false => exact .fail trivial
  refine commits_bind hoffer fun _ σ₃ _ h => commits_bind (courseSeats_counts (by rw [h.1]; rfl))
    fun o σ₄ _ hcount => ?_
  obtain ⟨rfl, hactive⟩ := h
  obtain ⟨rfl, hcount⟩ := hcount
  refine commits_bind (R := fun seats σ' => σ' = .begin b d' false ∧ o = some seats)
    (.orFail (fun c hc => ⟨rfl, hc⟩) trivial) fun seats σ₅ _ h => ?_
  obtain ⟨rfl, hseats⟩ := h
  refine commits_bind (R := fun _ σ' => σ' = .begin b d' false ∧ seats.isFull = true)
    (.ensure (fun h => ⟨rfl, h⟩) trivial) fun _ σ₆ _ h => ?_
  obtain ⟨rfl, hfull⟩ := h
  refine commits_bind (Quiet.read _ _) fun _ σ₇ h7 hd₇ =>
    commits_bind (Quiet.ensure _ _ _) fun _ σ₈ h8 hd₈ => ?_
  have hnow : σ₈.now = d' := by rw [h8.now, h7.now]; rfl
  have hdb : σ₈.db = σ₈.now := by rw [hd₈, hd₇, hnow]; rfl
  refine commits_atomically (insertEntry_joins hdb) fun _ σ' hl hjoined => ?_
  rw [hl.now]
  refine ⟨hjoined, ?_⟩
  obtain ⟨v₁, v₂, c₁, hv₁, hv₂, hc₁, hmax, hn⟩ := hcount seats hseats
  rw [hnow]
  refine ⟨⟨v, c, hv, hc.symm, hactive⟩, v₁, v₂, c₁, hv₁, hv₂, hc₁, ?_⟩
  unfold CourseSeats.isFull at hfull
  rw [← hmax, ← hn]
  exact of_decide_eq_true hfull

/-- What others do leaves the waitlist alone, and no course goes. -/
def Beside (a d' : Store Waiting) : Prop :=
  Only (S := Waiting) [.courses, .enrolments] a d' ∧ ∀ c, (a.get .courses c).isSome = true →
    (d'.get .courses c).isSome = true

theorem beside_mod {t : WaitTbl} {id : Uuid} {f : t.Row → t.Row}
    (ht : t ∈ [WaitTbl.courses, .enrolments]) :
    Beside d (d.apply (.mod t id f)) := by
  refine ⟨Only.write (S := Waiting) (w := .mod t id f) d ht, fun c hc => ?_⟩
  cases t with
  | courses =>
    rw [Store.get_mod]
    split
    next he =>
      rw [Option.isSome_map, ← he]
      exact hc
    next => exact hc
  | enrolments =>
    have ho : Only (S := Waiting) [.enrolments] d (d.apply (.mod WaitTbl.enrolments id f)) :=
      Only.write (S := Waiting) (w := .mod WaitTbl.enrolments id f) d List.mem_cons_self
    rw [ho.get (by decide)]
    exact hc
  | users => simp at ht
  | waitlistEntries => simp at ht

theorem elsewhere_beside (q : Elsewhere) : Plain (waitRules K) C σ q.prog fun _ σ' =>
    Beside σ.db σ'.db := by
  have hupdate : ∀ (t : WaitTbl) (id : Uuid) (f : t.Row → t.Row), t ∈ [WaitTbl.courses,
      .enrolments] → t ≠ .waitlistEntries →
      Plain (E := AppError) (waitRules K) C σ (updateRow (S := Waiting) t id (fun _ => true) f)
        fun _ σ' => Beside σ.db σ'.db := by
    intro t id f ht hne
    refine (Yields.updateRow trivial fun _ _ hh =>
      covers_elsewhere (w := .mod t id (onlyIf (fun _ => true) f)) hh hne fun k he =>
        by cases he).imp (fun _ σ' _ h => ?_) fun _ h => h
    rcases h with ⟨-, h⟩ | ⟨_, -, -, -, -, h⟩
    · rw [h]
      exact ⟨.refl _ _, fun _ hc => hc⟩
    · rw [h]
      exact beside_mod ht
  cases q with
  | enrol e =>
    refine Yields.bind (Yields.insert fun n => covers_elsewhere (holds_acquire _ _ _)
      (fun he => by cases he) fun k he => by cases he)
      fun n σ' _ h => .pure ?_
    have ho : Only (S := Waiting) [.enrolments] σ.db σ'.db := by
      rw [h.2.2.2]
      exact Only.write (S := Waiting) (w := .add WaitTbl.enrolments n e) σ.db List.mem_cons_self
    exact ⟨ho.mono (by decide), fun c hc => by rw [ho.get (by decide)]; exact hc⟩
  | updateEnrolment id f =>
    exact Yields.bind (hupdate .enrolments id f (by decide) (by decide)) fun _ _ _ h => .pure h
  | updateCourse id f =>
    exact Yields.bind (hupdate .courses id f (by decide) (by decide)) fun _ _ _ h => .pure h

theorem list_quiet {β : Type} (q : ℕ → Store Waiting → β) :
    Quiet (E := AppError) (waitRules K) C (choose >>= fun n => read (q n)) :=
  Quiet.bind (fun _ _ => ⟨.refl _, rfl⟩) fun n => Quiet.read (q n)

/-- What a request commits. -/
def WaitReq.Does (K : Rely Waiting) (σ : Pt Waiting) : WaitReq → Prop
  | .join userId courseId => Joined userId courseId σ.now σ.db ∧ FoundFull K courseId σ.now
  | .cancel auth id => Left auth id σ.now σ.db
  | .listMine _ | .listForCourse _ => False
  | .elsewhere _ => Beside σ.now σ.db

/-- **What each request commits.** -/
theorem WaitReq.does (K : Rely Waiting) (q : WaitReq) (b d' : Store Waiting) :
    Commits (waitRules K) (fun σ => q.Does K σ) (waitlist.prog q) (.begin b d' false) := by
  cases q with
  | join userId courseId => exact commits_map join_joins
  | cancel auth id => exact commits_map cancel_leaves
  | listMine userId => exact commits_map (list_quiet _).commits
  | listForCourse courseId => exact commits_map (list_quiet _).commits
  | elsewhere q =>
    refine commits_then (elsewhere_beside q) (fun _ σ' hl ho => ?_) fun _ _ => trivial
    have hnow : σ'.now = d' := hl.now
    rw [WaitReq.Does, hnow]
    exact ho

end DreamFly.Waitlist
