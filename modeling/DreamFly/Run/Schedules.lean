import DreamFly.Proof.Schedules

/-!
# Weekly schedules over whole runs

A replacement leaves its own list and what its DELETE has missed. Where no commit has
missed a row, the schedule of a coach is at any time the list of the last replacement that
has committed, and a call that has failed has left it alone.

* `schedules_replaced`: that, over runs of any calls for any coaches.
-/

namespace DreamFly.Coaches

open Txn Prog
open Courses (ParseTime)

abbrev CoachSys := Sys Coaching AppError (List (Uuid × CoachSchedule)) CoachReq

abbrev CoachEntry := Entry Coaching AppError (List (Uuid × CoachSchedule)) CoachReq

variable {parse : ParseTime} {d d' : Store Coaching} {s s' : CoachSys} {e : Event CoachReq}
  {x : CoachEntry} {γ : List CoachEntry}
  {id : Uuid}

def CoachReq.coachId : CoachReq → Uuid
  | .updateSchedules _ coachId _ | .getSchedules coachId | .getActiveSchedules coachId => coachId

/-- The rows that a request is to leave. -/
def CoachReq.rows (parse : ParseTime) : CoachReq → List CoachSchedule
  | .updateSchedules _ coachId entries =>
    match parseScheduleEntries parse entries with
    | .ok rows => rows.map (ScheduleRow.schedule coachId)
    | .error _ => []
  | _ => []

/-- Each row of the coach that is committed when a replacement commits is one that its DELETE
has found: nobody has committed another since. And no connection is lost after a commit. -/
def NoneMissed (s : CoachSys) (e : Event CoachReq) (s' : CoachSys) : Prop :=
  (∀ t c, CommitStep s t c s' → missed c.req.coachId c.held s.db = []) ∧ Unbroken s e s'

/-- The contract of the service. -/
def coachContract (parse : ParseTime) : Contract (coaches parse) coachRules :=
  plainContract (C := CoachReq.Does parse) fun q _ _ _ => q.commits parse

variable {ok : CoachSys → Event CoachReq → CoachSys → Prop}

theorem coaches_ok (hr : (coaches parse).Reach ok (Sys.init d) s) : s.OK (coachContract parse) :=
  plain_ok (fun _ _ _ => trivial) hr

/-- A committed replacement: its rows are there, beside rows that were there before. -/
structure Adds (parse : ParseTime) (x : CoachEntry) : Prop where
  schedule : ∃ left : List CoachSchedule, left.Subperm (scheduleOf x.req.coachId x.before) ∧
    (scheduleOf x.req.coachId x.after).Perm (left ++ x.req.rows parse)
  others : ∀ id, id ≠ x.req.coachId → (scheduleOf id x.after).Perm (scheduleOf id x.before)

/-- A committed replacement that has missed nothing. -/
structure Exact (parse : ParseTime) (x : CoachEntry) : Prop where
  schedule : (scheduleOf x.req.coachId x.after).Perm (x.req.rows parse)
  others : ∀ id, id ≠ x.req.coachId → (scheduleOf id x.after).Perm (scheduleOf id x.before)

/-- **What a commit leaves of a schedule**: the rows of its request, and the ones it has missed. -/
theorem commit_schedule {t : ℕ} {c : Call Coaching AppError (List (Uuid × CoachSchedule)) CoachReq}
    (hs : s.OK (coachContract parse))
    (hcs : CommitStep s t c s') :
    (scheduleOf c.req.coachId s'.db).Perm ((missed c.req.coachId c.held s.db).map Prod.snd ++
      c.req.rows parse) ∧
      ∀ id, id ≠ c.req.coachId → (scheduleOf id s'.db).Perm (scheduleOf id s.db) := by
  obtain ⟨σ, hnow, hdb, hheld, -, -, hdoes⟩ := plain_commit hs hcs
  cases hq : c.req with
  | updateSchedules auth coachId entries =>
    rw [hq] at hdoes
    obtain ⟨rows, hrows, hrep⟩ := hdoes
    rw [← hnow, ← hdb, ← hheld]
    refine ⟨?_, hrep.others⟩
    have hreq : (CoachReq.updateSchedules auth coachId entries).rows parse =
        rows.map (ScheduleRow.schedule coachId) := by
      rw [CoachReq.rows, hrows]
    rw [hreq]
    exact hrep.schedule
  | getSchedules coachId => rw [hq] at hdoes; exact hdoes.elim
  | getActiveSchedules coachId => rw [hq] at hdoes; exact hdoes.elim

theorem missed_subperm (id : Uuid) (L : Locks (Res Coaching)) (d : Store Coaching) :
    ((missed id L d).map Prod.snd).Subperm (scheduleOf id d) := by
  have hsub : missed id L d ⊆ d.sel .coachSchedules fun _ s => s.coachId = id := by
    rintro ⟨k, r⟩ hr
    obtain ⟨hk, hp⟩ := Store.mem_sel.1 hr
    exact Store.mem_sel.2 ⟨hk, decide_eq_true (of_decide_eq_true hp).1⟩
  obtain ⟨l, hperm, hl⟩ := List.subperm_of_subset (Store.sel_nodup d _ _) hsub
  exact ⟨l.map Prod.snd, hperm.map _, hl.map _⟩

/-- What holds of every commit holds of every entry. -/
theorem schedules_entries {P : CoachEntry → Prop} (hj : (coaches parse).Journaled ok d s γ)
    (hP : ∀ s e s' t c, ok s e s' → CommitStep s t c s' →
      (scheduleOf c.req.coachId s'.db).Perm ((missed c.req.coachId c.held s.db).map Prod.snd ++
        c.req.rows parse) →
      (∀ id, id ≠ c.req.coachId → (scheduleOf id s'.db).Perm (scheduleOf id s.db)) →
      ∀ reply, P ⟨t, c.req, c.ws, reply, s.db⟩) : ∀ x ∈ γ, P x := by
  refine journaled_induct (P := fun _ γ => ∀ x ∈ γ, P x) (fun _ hx => (nomatch hx))
    (fun s γ e s' hr he hok ih x hx => ?_) hj
  rcases List.mem_append.1 hx with hx | hx
  · exact ih x hx
  rcases entry_cases he with ⟨hn, -⟩ | ⟨t, n, c, k, -, hc, hk, hset, hn⟩
  · rw [hn] at hx; cases hx
  · rw [hn] at hx
    cases List.mem_singleton.1 hx
    have hcs : CommitStep s t c s' := ⟨hc, k, hk, hset⟩
    obtain ⟨hschedule, hothers⟩ := commit_schedule (coaches_ok hr.reach) hcs
    exact hP s e s' t c hok hcs hschedule hothers _

theorem schedules_add (hj : (coaches parse).Journaled ok d s γ) : ∀ x ∈ γ, Adds parse x := by
  refine schedules_entries hj fun s e s' t c _ hcs hschedule hothers _ => ?_
  obtain ⟨-, _, -, rfl⟩ := hcs
  exact ⟨⟨_, missed_subperm _ _ _, hschedule⟩, hothers⟩

theorem schedules_exact (hj : (coaches parse).Journaled NoneMissed d s γ) :
    ∀ x ∈ γ, Exact parse x := by
  refine schedules_entries hj fun s e s' t c hok hcs hschedule hothers _ => ?_
  rw [hok.1 t c hcs, List.map_nil, List.nil_append] at hschedule
  obtain ⟨-, _, -, rfl⟩ := hcs
  exact ⟨hschedule, hothers⟩

/-- The schedule of a coach after a list of commits. -/
theorem linked_schedule (hx : ∀ x ∈ γ, Exact parse x) (hl : Linked d γ d') (id : Uuid) :
    ((∀ x ∈ γ, x.req.coachId ≠ id) ∧ (scheduleOf id d').Perm (scheduleOf id d)) ∨
      ∃ γ₁ x γ₂, γ = γ₁ ++ x :: γ₂ ∧ x.req.coachId = id ∧ (∀ y ∈ γ₂, y.req.coachId ≠ id) ∧
        (scheduleOf id d').Perm (x.req.rows parse) := by
  refine hl.last (f := scheduleOf id) (r := List.Perm)
    (I := fun (x : CoachEntry) l => l.Perm (x.req.rows parse)) List.Perm.refl
    (fun _ _ _ h h' => h.trans h')
    (fun _ _ _ hi hr => hr.trans hi) (fun x hm hid => ?_) fun x hm hid =>
      (hx x hm).others id (Ne.symm hid)
  rw [← hid]
  exact (hx x hm).schedule

section calls
variable (hj : (coaches parse).Journaled ok d s γ) (hok : ∀ s e s', ok s e s' → Unbroken s e s')
include hj hok

theorem schedule_answered {t : ℕ}
    {c : Call Coaching AppError (List (Uuid × CoachSchedule)) CoachReq}
    {a : List (Uuid × CoachSchedule)}
    (hc : s.call t = some c) (hp : c.prog = .ret a) (hreads : ¬ c.req.Reads) : ∃ x ∈ γ, x.call = t ∧
      x.req = c.req :=
  firm_answered (CoachReq.firm parse) hok hj hc hp hreads

theorem schedule_failed {t : ℕ} {c : Call Coaching AppError (List (Uuid × CoachSchedule)) CoachReq}
    {e : AppError}
    (hc : s.call t = some c) (hp : c.prog = .fail e) : ∀ x ∈ γ, x.call ≠ t :=
  firm_failed (CoachReq.firm parse) hok hj hc hp

end calls

/-- Rows of a coach never overlap. -/
theorem schedules_sound (h0 : Sound d) (h : (coaches parse).Reach ok (Sys.init d) s) :
    Sound s.db := by
  refine plain_inv (W := fun _ => True) (fun _ _ _ => trivial)
    (fun q _ _ _ => q.commits parse) h0 (fun q σ _ _ hdoes hs => ?_)
    (h.mono fun _ _ _ _ _ _ _ => trivial)
  cases q with
  | updateSchedules auth coachId entries =>
    obtain ⟨rows, -, hrep⟩ := hdoes
    exact hrep.sound hs
  | getSchedules coachId => exact hdoes.elim
  | getActiveSchedules coachId => exact hdoes.elim

/-- **What replacements of a schedule do to each other.** In every run in which no connection is
lost after a commit, no two rows of a coach overlap, although each commit leaves, beside the rows
of its request, some of those that were there before; it leaves the schedules of the other
coaches alone. A replacement that has answered has committed, and a call that has failed has
not. -/
theorem schedules_add_up (parse : ParseTime) {d : Store Coaching} {s : CoachSys}
    {γ : List CoachEntry} (h0 : Sound d)
    (hj : (coaches parse).Journaled Unbroken d s γ) :
    Sound s.db ∧ Linked d γ s.db ∧ (∀ x ∈ γ, Adds parse x) ∧
    (∀ t c a, s.call t = some c → c.prog = .ret a → ¬ c.req.Reads → ∃ x ∈ γ, x.call = t ∧
      x.req = c.req) ∧
    ∀ t c e, s.call t = some c → c.prog = .fail e → ∀ x ∈ γ, x.call ≠ t :=
  ⟨schedules_sound h0 hj.reach, journal_linked hj, schedules_add hj, fun _ _ _ =>
    schedule_answered hj fun _ _ _ h => h, fun _ _ _ => schedule_failed hj fun _ _ _ h => h⟩

/-- **A weekly schedule is replaced as a whole.** In every run in which no commit has missed a
row and no connection is lost after one, a coach's schedule is the one from the start or
the list of the last replacement that has committed for that coach; a replacement that has
answered has committed, and a call that has failed has not. -/
theorem schedules_replaced (parse : ParseTime) {d : Store Coaching} {s : CoachSys}
    {γ : List CoachEntry}
    (hj : (coaches parse).Journaled NoneMissed d s γ) :
    (∀ id, ((∀ x ∈ γ, x.req.coachId ≠ id) ∧ (scheduleOf id s.db).Perm (scheduleOf id d)) ∨
      ∃ γ₁ x γ₂, γ = γ₁ ++ x :: γ₂ ∧ x.req.coachId = id ∧ (∀ y ∈ γ₂, y.req.coachId ≠ id) ∧
        (scheduleOf id s.db).Perm (x.req.rows parse)) ∧
    (∀ t c a, s.call t = some c → c.prog = .ret a → ¬ c.req.Reads → ∃ x ∈ γ, x.call = t ∧
      x.req = c.req) ∧
    ∀ t c e, s.call t = some c → c.prog = .fail e → ∀ x ∈ γ, x.call ≠ t :=
  ⟨fun id => linked_schedule (schedules_exact hj) (journal_linked hj) id,
    fun _ _ _ => schedule_answered hj fun _ _ _ h => h.2,
    fun _ _ _ => schedule_failed hj fun _ _ _ h => h.2⟩

/-! ## Samples -/

/-- The times of day that the samples use. -/
def sampleTimes : ParseTime := fun s =>
  match s with
  | "09:00:00" => some 32400
  | "09:00:01" => some 32401
  | "10:00:00" => some 36000
  | "10:00:01" => some 36001
  | _ => none

/-- One coach without a schedule. -/
def oneCoach : Store Coaching
  | .coaches => AList.singleton 1 ⟨1, true⟩
  | .coachSchedules => ∅

def nineRequest : CoachReq := .updateSchedules ⟨1, []⟩ 1 [⟨1, "09:00:00", "09:00:01", true⟩]
def tenRequest : CoachReq := .updateSchedules ⟨1, []⟩ 1 [⟨1, "10:00:00", "10:00:01", true⟩]

/-- A replacement by a stranger, one by the coach, and another one over it. -/
def sampleReplacements : List (Event CoachReq) :=
  .start 0 (.updateSchedules ⟨7, []⟩ 1 []) :: Event.steps 0 0 1 ++ .start 1 nineRequest ::
  Event.steps 1 5 11 ++
    .start 2 tenRequest :: Event.steps 2 20 15

/-- Two replacements, the second of which commits between the DELETE and the INSERT of the first. -/
def sampleOverlap : List (Event CoachReq) :=
  .start 0 nineRequest :: Event.steps 0 5 3 ++ .start 1 tenRequest :: Event.steps 1 20 11 ++
  Event.steps 0 8 8

/-- No connection is lost. -/
def connected (_ : CoachSys) (e : Event CoachReq) (_ : CoachSys) : Bool :=
  match e with
  | .abort _ => false
  | _ => true

theorem connected_unbroken (h : connected s e s' = true) : Unbroken s e s' := by
  rintro t c rfl
  cases h

/-- Who is about to commit has missed nothing. -/
def missesNothing (s : CoachSys) (e : Event CoachReq) (s' : CoachSys) : Bool :=
  connected s e s' && s.calls.rows.all fun p =>
    !p.2.prog.isCommit || (missed p.2.req.coachId p.2.held s.db).isEmpty

theorem missesNothing_noneMissed (h : missesNothing s e s' = true) : NoneMissed s e s' := by
  rw [missesNothing, Bool.and_eq_true] at h
  refine ⟨fun t c ⟨hc, k, hk, _⟩ => ?_, connected_unbroken h.1⟩
  have hp := List.all_eq_true.1 h.2 (t, c) (Table.mem_rows.2 hc)
  rw [hk, Prog.isCommit, Bool.not_true, Bool.false_or] at hp
  exact List.isEmpty_iff.1 hp

theorem schedules_add_up_overlap :
    let y := (coaches sampleTimes).journalAfter sampleOverlap oneCoach
    y.2.map Entry.call = [1, 0] ∧ scheduleOf 1 y.1.db = [⟨1, 1, 32400, 32401, true⟩,
      ⟨1, 1, 36000, 36001, true⟩] ∧
      Sound y.1.db ∧ ∀ x ∈ y.2, Adds sampleTimes x := by
  have hrun : ∀ y, y = (coaches sampleTimes).journalAfter sampleOverlap oneCoach →
      y.2.map Entry.call = [1, 0] ∧ scheduleOf 1 y.1.db = [⟨1, 1, 32400, 32401, true⟩,
        ⟨1, 1, 36000, 36001, true⟩] := by
    rintro _ rfl
    decide +kernel
  obtain ⟨hcalls, hboth⟩ := hrun _ rfl
  have hchecks : (coaches sampleTimes).checks connected sampleOverlap (Sys.init oneCoach) =
      true := by decide +kernel
  have hj := (journaled_checks hchecks).mono fun _ _ _ h => connected_unbroken h
  have h0 : Sound oneCoach := ⟨fun k s hk => (by cases hk), fun k k' s s' hk => by cases hk⟩
  obtain ⟨hsound, -, hadds, -⟩ := schedules_add_up sampleTimes h0 hj
  exact ⟨hcalls, hboth, hsound, hadds⟩

theorem schedules_replaced_twice :
    let y := (coaches sampleTimes).journalAfter sampleReplacements oneCoach
    y.2.map Entry.call = [1, 2] ∧ scheduleOf 1 y.1.db = [⟨1, 1, 36000, 36001, true⟩] ∧
      ∃ γ₁ x γ₂, y.2 = γ₁ ++ x :: γ₂ ∧
      (∀ z ∈ γ₂, z.req.coachId ≠ 1) ∧ (scheduleOf 1 y.1.db).Perm (x.req.rows sampleTimes) := by
  have hrun : ∀ y, y = (coaches sampleTimes).journalAfter sampleReplacements oneCoach →
      y.2.map Entry.call = [1, 2] ∧ scheduleOf 1 y.1.db = [⟨1, 1, 36000, 36001, true⟩] := by
    rintro _ rfl
    decide +kernel
  obtain ⟨hcalls, hone⟩ := hrun _ rfl
  have hchecks : (coaches sampleTimes).checks missesNothing sampleReplacements (Sys.init oneCoach) =
      true := by
    decide +kernel
  have hj := (journaled_checks hchecks).mono fun _ _ _ h => missesNothing_noneMissed h
  refine ⟨hcalls, hone, ?_⟩
  rcases (schedules_replaced sampleTimes hj).1 1 with ⟨-, hp⟩ | ⟨γ₁, x, γ₂, hγ, -, hlast, hp⟩
  · rw [hone] at hp
    exact absurd hp.length_eq (by decide)
  · exact ⟨γ₁, x, γ₂, hγ, hlast, hp⟩

end DreamFly.Coaches
