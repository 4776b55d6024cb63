import DreamFly.Coaches.Schedules
import DreamFly.Txn.Exclusion
import DreamFly.Txn.Firm
import DreamFly.Txn.Plain

/-!
# What a new weekly schedule commits

A DELETE locks the rows that its snapshot shows. At the commit these are gone, the new
ones are there, and so is each row of the coach that it has not seen (`missed`).
-/

namespace DreamFly.Coaches

open Txn Prog
open Courses (ParseTime)

variable {C : Pt Coaching → Prop} {σ : Pt Coaching} {coachId : Uuid} {d d' : Store Coaching}
  {L : Locks (Res Coaching)}

/-! ## Rules -/

/-- The moments of the rows of coaches. -/
def coachMoments : Exclusion Coaching CoachTbl.coachSchedules (Uuid × ℤ × ℤ) where
  has s x := s.coachId = x.1 ∧ s.dayOfWeek = x.2.1 ∧ s.startTime ≤ x.2.2 ∧ x.2.2 < s.endTime
  entry x := .moment x.1 x.2.1 x.2.2

def coachRules : Discipline Coaching := coachMoments.protect.discipline

/-- A moment in common is an overlap. -/
theorem overlaps_of_clash {s r : CoachSchedule} (h : coachMoments.Clash s r) :
    s.overlaps r = true := by
  obtain ⟨⟨coach, day, x⟩, ⟨rfl, rfl, hs, he⟩, hc, hd, hs', he'⟩ := h
  simp only at hc hd hs he hs' he'
  simp only [CoachSchedule.overlaps, decide_eq_true_eq]
  refine ⟨hc.symm, hd.symm, ?_, ?_⟩
  · omega
  · omega

/-- Two rows that are not empty and overlap have the later start in common. -/
theorem clash_of_overlaps {s r : CoachSchedule} (hs : s.startTime < s.endTime)
    (hr : r.startTime < r.endTime) (h : s.overlaps r = true) :
    coachMoments.Clash s r := by
  simp only [CoachSchedule.overlaps, decide_eq_true_eq] at h
  obtain ⟨hc, hd, h1, h2⟩ := h
  have hmax : s.startTime ≤ max s.startTime r.startTime ∧
      r.startTime ≤ max s.startTime r.startTime ∧
      max s.startTime r.startTime < s.endTime ∧ max s.startTime r.startTime < r.endTime := by omega
  exact ⟨(s.coachId, s.dayOfWeek, max s.startTime r.startTime), ⟨rfl, rfl, hmax.1, hmax.2.2.1⟩,
    hc.symm, hd.symm, hmax.2.1, hmax.2.2.2⟩

/-- No two rows of a coach overlap, and no row is empty. -/
structure Sound (d : Store Coaching) : Prop where
  checks : ∀ k s, d.get .coachSchedules k = some s → s.checks = true
  apart : ∀ k k' s s', d.get .coachSchedules k = some s → d.get .coachSchedules k' = some s' →
    s.overlaps s' = true → k = k'

theorem window_of_checks {s : CoachSchedule} (h : s.checks = true) : s.startTime < s.endTime := by
  simp only [CoachSchedule.checks, decide_eq_true_eq] at h
  exact h.2.2

theorem sound_iff : Sound d ↔ (∀ k s, d.get .coachSchedules k = some s → s.checks = true) ∧
    coachMoments.Apart d := by
  constructor
  · intro h
    exact ⟨h.checks, fun k k' s s' hk hk' hc => h.apart k k' s s' hk hk' (overlaps_of_clash hc)⟩
  · rintro ⟨hchecks, hapart⟩
    refine ⟨hchecks, fun k k' s s' hk hk' ho => hapart k k' s s' hk hk' ?_⟩
    exact clash_of_overlaps (window_of_checks (hchecks k s hk))
      (window_of_checks (hchecks k' s' hk')) ho

/-! ## What is committed -/

/-- The rows of a coach. -/
def scheduleOf (coachId : Uuid) (d : Store Coaching) : List CoachSchedule :=
  (d.sel .coachSchedules fun _ s => s.coachId = coachId).map Prod.snd

/-- The rows of a coach that no DELETE under the locks `L` has found. -/
def missed (coachId : Uuid) (L : Locks (Res Coaching)) (d : Store Coaching) :
    List (Uuid × CoachSchedule) :=
  d.sel .coachSchedules fun k s => s.coachId = coachId ∧ ¬ Holds L (.row .coachSchedules k) .update

/-- A committed replacement of a schedule by `rows`. -/
structure Replaced (coachId : Uuid) (rows : List ScheduleRow) (σ : Pt Coaching) : Prop where
  schedule : (scheduleOf coachId σ.db).Perm ((missed coachId σ.held σ.now).map Prod.snd ++
    rows.map (ScheduleRow.schedule coachId))
  others : ∀ id, id ≠ coachId → (scheduleOf id σ.db).Perm (scheduleOf id σ.now)
  only : Only (S := Coaching) [.coachSchedules] σ.now σ.db
  sound : Sound σ.now → Sound σ.db

def CoachReq.Does (parse : ParseTime) : CoachReq → Pt Coaching → Prop
  | .updateSchedules _ coachId entries, σ =>
    ∃ rows, parseScheduleEntries parse entries = .ok rows ∧ Replaced coachId rows σ
  | _, _ => False

/-! ## Locks on rows -/

/-- The same rows are locked for deletion. -/
def SameRows (σ σ' : Pt Coaching) : Prop :=
  ∀ k, Holds σ'.held (.row .coachSchedules k) .update ↔
    Holds σ.held (.row .coachSchedules k) .update

theorem SameRows.refl (σ : Pt Coaching) : SameRows σ σ := fun _ => Iff.rfl

theorem SameRows.trans {σ₁ σ₂ : Pt Coaching} (h : SameRows σ σ₁) (h' : SameRows σ₁ σ₂) :
    SameRows σ σ₂ :=
  fun k => (h' k).trans (h k)

theorem sameRows_grant {r : Res Coaching} {m : Mode} (h : ∀ k, r = .row .coachSchedules k →
    m ≠ .update) : SameRows σ (σ.grant r m) := by
  refine fun k => ⟨fun ⟨m', hm, hle⟩ => ?_, fun hh => hh.mono (subset_acquire _ _ _)⟩
  rcases mem_acquire hm with he | hm
  · cases he
    refine absurd ?_ (h k rfl)
    cases m with
    | update => rfl
    | _ => exact absurd hle (by decide)
  · exact ⟨m', hm, hle⟩

theorem lockMoments_plain (s : CoachSchedule) : Plain coachRules C σ (lockMoments s) fun _ σ' =>
    σ'.db = σ.db ∧ SameRows σ σ' ∧
    coachMoments.Locked σ'.held s := by
  refine Yields.bind (Yields.each_inv (fun (done : List ℕ) σ' => σ'.db = σ.db ∧ SameRows σ σ' ∧
    ∀ n ∈ done, Holds σ'.held (.uniq (S := Coaching)
      (.moment s.coachId s.dayOfWeek (s.startTime + (n : ℤ)))) .update)
    ⟨rfl, .refl σ, by simp⟩ fun done n _ σ₁ _ _ ⟨hd₁, hs₁, hh₁⟩ => ?_) fun _ σ₁ _ ⟨hd₁, hs₁, hh₁⟩ =>
      .pure ⟨hd₁, hs₁, ?_⟩
  · refine (Yields.lockRes trivial).imp (fun _ σ₂ hl₂ h₂ => ?_) fun _ h => h
    refine ⟨by rw [h₂]; exact hd₁, ?_, fun n' hn' => ?_⟩
    · rw [h₂]
      exact hs₁.trans (sameRows_grant fun _ he => by cases he)
    · rcases List.mem_append.1 hn' with hn' | hn'
      · exact hl₂.holds (hh₁ n' hn')
      · rw [List.mem_singleton.1 hn', h₂]
        exact holds_acquire _ _ _
  · rintro ⟨coach, day, x⟩ ⟨rfl, rfl, hs, he⟩
    simp only at hs he
    have hmem : (x - s.startTime).toNat ∈ List.range (s.endTime - s.startTime).toNat := by
      rw [List.mem_range]
      omega
    have hlock := hh₁ _ hmem
    have hxe : s.startTime + ((x - s.startTime).toNat : ℤ) = x := by omega
    rw [hxe] at hlock
    exact hlock

/-! ## DELETE and INSERT -/

/-- What a DELETE leaves: all but the rows it has locked. -/
structure Deleted (coachId : Uuid) (σ σ' : Pt Coaching) : Prop where
  only : Only (S := Coaching) [.coachSchedules] σ.db σ'.db
  rows : ∀ k s, σ'.db.get .coachSchedules k = some s ↔
    σ.db.get .coachSchedules k = some s ∧ ¬ (s.coachId = coachId ∧
      Holds σ'.held (.row .coachSchedules k) .update)

/-- The DELETE itself, which begins without a lock on a row. -/
theorem deleteRows_plain (hfree : ∀ k m, (.row .coachSchedules k, m) ∉ σ.held) :
    Plain (E := AppError) coachRules C σ
      (deleteAll (S := Coaching) .coachSchedules fun _ s => s.coachId = coachId)
      fun _ σ' => Deleted coachId σ σ' := by
  refine wp_deleteAll fun v₀ _ _ _ ks _ => ⟨fun _ _ _ _ _ _ _ _ => trivial, fun k r σ' _ _ hh _ _ =>
    ⟨hh.weaken (by decide), Exclusion.guard_del⟩,
    (Pt.later_grants _ _ _ _).trans (Pt.later_writes _ _), ?_, fun k s => ?_⟩
  · rw [Pt.writes_db, Pt.grants_db]
    refine Only.writes (fun w hw => ?_) _
    obtain ⟨e, -, rfl⟩ := List.mem_map.1 hw
    simp [Write.tbl]
  · have hheld : Holds (σ.grants .coachSchedules .update ks).held (.row .coachSchedules k) .update ↔
        k ∈ ks := by
      refine ⟨?_, fun hk => Pt.holds_grants hk σ⟩
      rintro ⟨m, hm, -⟩
      rcases Pt.mem_grants hm with hm | ⟨k', hk, he⟩
      · exact absurd hm (hfree k m)
      · cases he
        exact hk
    have hdels : (σ.db.found .coachSchedules (fun _ s => decide (s.coachId = coachId)) ks).map
        (fun e => Write.del (S := Coaching) .coachSchedules e.1) =
        ((σ.db.found .coachSchedules (fun _ s => decide (s.coachId = coachId)) ks).map Prod.fst).map
          fun k => .del .coachSchedules k := by
      rw [List.map_map]; rfl
    rw [Pt.writes_db, Pt.grants_db, Pt.writes_held, hheld, hdels, get_dels]
    split
    next hm =>
      -- a row that the DELETE has found
      obtain ⟨⟨k', r⟩, hf, rfl⟩ := List.mem_map.1 hm
      obtain ⟨hk, hr, hcoach⟩ := mem_found.1 hf
      rw [hr]
      constructor
      · rintro ⟨⟩
      rintro ⟨he, hn⟩
      cases he
      exact absurd ⟨of_decide_eq_true hcoach, hk⟩ hn
    next hm =>
      refine ⟨fun hs => ⟨hs, fun h => hm ?_⟩, fun h => h.1⟩
      exact List.mem_map.2 ⟨(k, s), mem_found.2 ⟨h.2, hs, decide_eq_true h.1⟩, rfl⟩

theorem deleteSchedules_plain (hfree : ∀ k m, (.row .coachSchedules k, m) ∉ σ.held) :
    Plain coachRules C σ (deleteSchedules coachId) fun _ σ' => Deleted coachId σ σ' := by
  refine Yields.bind (deleteRows_plain hfree) fun gone σ₁ _ h₁ => ?_
  refine Yields.bind (Yields.each_inv (fun _ σ' => σ'.db = σ₁.db ∧ SameRows σ₁ σ')
    ⟨rfl, .refl σ₁⟩ fun _ e _ σ₂ _ _ ⟨hd₂, hs₂⟩ => ?_)
    fun _ σ₂ _ ⟨hd₂, hs₂⟩ => .pure ⟨hd₂ ▸ h₁.only, fun k s => ?_⟩
  · exact (lockMoments_plain e.2).imp (fun _ σ₃ _ ⟨hd₃, hs₃, _⟩ => ⟨hd₃.trans hd₂, hs₂.trans hs₃⟩)
      fun _ h => h
  · rw [hd₂, hs₂ k]
    exact h₁.rows k s

/-- An INSERT adds its row under a new key, which it has not locked for deletion. -/
theorem insertSchedule_plain {overlapping : AppError} {row : ScheduleRow} :
    Plain coachRules C σ (insertSchedule coachId overlapping row) fun _ σ' => SameRows σ σ' ∧
      (row.schedule coachId).checks = true ∧ ∃ n, σ.db.get .coachSchedules n = none ∧
        coachMoments.Free (row.schedule coachId) σ.db ∧
        σ'.db = σ.db.apply (.add .coachSchedules n (row.schedule coachId)) := by
  refine Yields.bind (R := fun _ σ' => (row.schedule coachId).checks = true ∧ σ' = σ)
    (.ensure (fun h => ⟨h, rfl⟩) trivial)
    fun _ σ₁ _ ⟨hc, h₁⟩ => ?_
  subst h₁
  refine Yields.bind (lockMoments_plain _) fun _ σ₂ _ ⟨hd₂, hs₂, hm₂⟩ => ?_
  refine Yields.bind (R := fun free σ' => σ' = σ₂ ∧
    (free = true → coachMoments.Free (row.schedule coachId) σ₂.db))
    (.read fun v _ hv => ⟨rfl, fun hempty => ?_⟩) fun free σ₃ _ ⟨h₃, hfree⟩ => ?_
  · refine Exclusion.Free.later (fun k r hk hclash => ?_) hm₂ hv.2
    have hm : (k, r) ∈ v.sel .coachSchedules fun _ r => r.overlaps (row.schedule coachId) :=
      Store.mem_sel.2 ⟨hk, overlaps_of_clash hclash⟩
    rw [List.isEmpty_iff.1 hempty] at hm
    cases hm
  subst h₃
  refine Yields.bind (R := fun _ σ' => free = true ∧ σ' = σ₃)
    (.ensure (fun h => ⟨h, rfl⟩) trivial) fun _ σ₄ _ ⟨hf, h₄⟩ => ?_
  subst h₄
  refine Yields.bind (Yields.references trivial trivial) fun _ σ₅ hl₅ h₅ => ?_
  have hm₅ : coachMoments.Locked σ₅.held (row.schedule coachId) := hm₂.mono hl₅.held
  have hcovers : ∀ n, coachRules.Covers (σ₅.grant (.row .coachSchedules n) .noKeyUpdate).held
      (.add .coachSchedules n (row.schedule coachId)) :=
    fun n => ⟨holds_acquire _ _ _, Exclusion.guard_add (hm₅.mono (subset_acquire _ _ _))⟩
  refine Yields.bind (Yields.insert hcovers) fun n σ₆ _ ⟨_, hn, _, h₆⟩ => .pure ?_
  have hs₅ : SameRows σ₄ σ₅ := by rw [h₅]; exact sameRows_grant fun _ he => nomatch he
  have hs₆ : SameRows σ₅ σ₆ := by rw [h₆]; exact sameRows_grant (σ := σ₅) fun _ _ => by decide
  have hd₅ : σ₅.db = σ₁.db := by rw [h₅]; exact hd₂
  exact ⟨(hs₂.trans hs₅).trans hs₆, hc, n, hd₅ ▸ hn, hd₂ ▸ hfree hf, by rw [h₆, ← hd₅]; rfl⟩

/-! ## The whole transaction -/

theorem SameRows.missed {σ' : Pt Coaching} (h : SameRows σ σ') (coachId : Uuid)
    (d : Store Coaching) :
    missed coachId σ'.held d = missed coachId σ.held d := by
  unfold Coaches.missed
  simp only [h _]

/-- What a DELETE leaves of a coach's rows is what it has missed. -/
theorem Deleted.schedule {σ' : Pt Coaching} (h : Deleted coachId σ σ') :
    (scheduleOf coachId σ'.db).Perm ((missed coachId σ'.held σ.db).map Prod.snd) := by
  refine List.Perm.map _ ((List.perm_ext_iff_of_nodup (Store.sel_nodup _ _ _)
    (Store.sel_nodup _ _ _)).2 fun ⟨k, s⟩ => ?_)
  rw [Store.mem_sel, Store.mem_sel, h.rows, decide_eq_true_iff, decide_eq_true_iff]
  constructor
  · rintro ⟨⟨hs, hn⟩, hcoach⟩
    exact ⟨hs, hcoach, fun hk => hn ⟨hcoach, hk⟩⟩
  · rintro ⟨hs, hcoach, hk⟩
    exact ⟨⟨hs, fun hn => hk hn.2⟩, hcoach⟩

theorem Deleted.others {σ' : Pt Coaching} (h : Deleted coachId σ σ') {id : Uuid}
    (hid : id ≠ coachId) :
    (scheduleOf id σ'.db).Perm (scheduleOf id σ.db) := by
  refine List.Perm.map _ (Store.sel_perm fun k s hs => ?_)
  have hcoach : s.coachId = id := of_decide_eq_true hs
  rw [h.rows]
  exact and_iff_left fun hn => hid (hcoach.symm.trans hn.1)

/-- An INSERT adds its row to the rows of its coach. -/
theorem scheduleOf_add {n : Uuid} {row : ScheduleRow} (hn : d.get .coachSchedules n = none)
    (id : Uuid) :
    (scheduleOf id (d.apply (.add .coachSchedules n (row.schedule coachId)))).Perm
      (scheduleOf id d ++ if id = coachId then [row.schedule coachId] else []) := by
  by_cases hid : id = coachId
  · rw [if_pos hid]
    refine ((Store.sel_add_new hn (decide_eq_true hid.symm)).map Prod.snd).trans ?_
    exact (List.perm_append_singleton (row.schedule coachId) (scheduleOf id d)).symm
  · rw [if_neg hid, List.append_nil]
    exact (Store.sel_add_skip hn (decide_eq_false fun he => hid he.symm)).map Prod.snd

theorem replaceSchedulesTx_plain {rows : List ScheduleRow} {overlapping : AppError}
    (hdb : σ.db = σ.now) (hheld : σ.held = []) :
    Plain coachRules C σ (replaceSchedulesTx coachId rows overlapping) fun _ σ' =>
      Replaced coachId rows σ' := by
  refine Yields.bind (deleteSchedules_plain fun k m hm => by rw [hheld] at hm; cases hm)
    fun _ σ₁ hl₁ h₁ => ?_
  -- after each row: the weeks of others as they were, this one's with what is done
  refine Yields.bind (Yields.each_inv (fun done σ' => SameRows σ₁ σ' ∧
    (coachMoments.Inserted (done.map (ScheduleRow.schedule coachId)) σ₁.db σ'.db ∧
      ∀ row ∈ done, (row.schedule coachId).checks = true) ∧
    ∀ id, (scheduleOf id σ'.db).Perm (scheduleOf id σ₁.db ++ if id = coachId then
      done.map (ScheduleRow.schedule coachId) else []))
    ⟨.refl σ₁, ⟨rfl, by simp⟩, fun id => by simp⟩ fun done row _ σ₂ _ _ ⟨hs₂, ⟨hi₂, hc₂⟩, hp₂⟩ =>
      ?_) fun _ σ₂ hl₂ ⟨hs₂, ⟨hi₂, hc₂⟩, hp₂⟩ => .pure ?_
  · refine insertSchedule_plain.imp (fun _ σ₃ _ ⟨hs₃, hc, n, hn, hf, hd₃⟩ => ⟨hs₂.trans hs₃,
      ⟨?_, ?_⟩, fun id => ?_⟩) fun _ h => h
    · rw [List.map_append]
      exact hi₂.snoc ⟨n, hn, hf, hd₃⟩
    · intro row' hrow'
      rcases List.mem_append.1 hrow' with hrow' | hrow'
      · exact hc₂ row' hrow'
      · rw [List.mem_singleton.1 hrow']
        exact hc
    · rw [hd₃]
      refine (scheduleOf_add hn id).trans (((hp₂ id).append_right _).trans ?_)
      by_cases hid : id = coachId
      · simp [hid]
      · simp [hid]
  · have hnow : σ₂.now = σ.db := (hl₂.now.trans hl₁.now).trans hdb.symm
    refine ⟨?_, fun id hid => ?_, hnow ▸ h₁.only.trans hi₂.only, ?_⟩
    · rw [hs₂.missed, hnow]
      have hp := hp₂ coachId
      rw [if_pos rfl] at hp
      exact hp.trans (h₁.schedule.append_right _)
    · have hp := hp₂ id
      rw [if_neg hid, List.append_nil] at hp
      rw [hnow]
      exact hp.trans (h₁.others hid)
    · rw [hnow, sound_iff, sound_iff]
      rintro ⟨hchecks, hapart⟩
      have hsub : ∀ k s, σ₁.db.get .coachSchedules k = some s →
          σ.db.get .coachSchedules k = some s := fun k s hk => ((h₁.rows k s).1 hk).1
      refine ⟨fun k s hk => ?_, hi₂.apart (hapart.sub hsub)⟩
      rcases hi₂.get.2 k s hk with hold | ⟨-, hm⟩
      · exact hchecks k s (hsub k s hold)
      · obtain ⟨row, hrow, rfl⟩ := List.mem_map.1 hm
        exact hc₂ row hrow

theorem requireOwnCoachProfile_same {auth : AuthUser} :
    Plain coachRules C σ (requireOwnCoachProfile auth coachId) fun _ σ' => σ' = σ := by
  refine Yields.bind (R := fun _ σ' => σ' = σ) (.read fun _ _ _ => rfl) fun coach σ₁ _ h₁ => ?_
  subst h₁
  refine Yields.bind (R := fun _ σ' => σ' = σ₁) (.orFail (fun _ _ => rfl) trivial)
    fun coach σ₂ _ h₂ => ?_
  subst h₂
  exact Yields.bind plain_checked_same fun _ σ₃ _ ⟨h₃, _⟩ => .pure h₃

/-- **Every request commits what `Does` says.** -/
theorem CoachReq.commits (parse : ParseTime) (q : CoachReq) :
    Commits coachRules (q.Does parse) ((coaches parse).prog q) (.begin d d' false) := by
  cases q with
  | updateSchedules auth coachId entries =>
    refine commits_bind requireOwnCoachProfile_same fun _ σ₁ _ h₁ => ?_
    refine commits_bind plain_checked_same fun rows σ₂ _ ⟨h₂, hrows⟩ => ?_
    subst h₁
    subst h₂
    exact commits_then (replaceSchedulesTx_plain rfl rfl)
      (fun _ _ _ h => ⟨rows, hrows, h⟩) fun _ σ₃ => wp_read fun _ _ _ => trivial
  | getSchedules coachId =>
    refine Plain.Quiet.commits ((Plain.Quiet.read _).bind fun coach =>
      (Plain.Quiet.orFail _ _).bind fun _ => Plain.Quiet.read _)
  | getActiveSchedules coachId =>
    refine Plain.Quiet.commits ((Plain.Quiet.read _).bind fun coach =>
      (Plain.Quiet.orFail _ _).bind fun _ => Plain.Quiet.read _)

/-! ## Answers -/

/-- Whether a request may answer without a commit. -/
def CoachReq.Reads : CoachReq → Prop
  | .updateSchedules _ _ _ => False
  | _ => True

theorem lockMoments_uncommitting (s : CoachSchedule) : (lockMoments s).Uncommitting :=
  (Uncommitting.each (fun _ => .lockRes _ _) _).bind fun _ => .ret _

theorem insertSchedule_uncommitting (overlapping : AppError) (row : ScheduleRow) :
    (insertSchedule coachId overlapping row).Uncommitting := by
  refine (Uncommitting.ensure _ _).bind fun _ => (lockMoments_uncommitting _).bind fun _ =>
    (Uncommitting.read _).bind fun free => ?_
  exact (Uncommitting.ensure _ _).bind fun _ => (Uncommitting.references _ _ _).bind fun _ =>
    (Uncommitting.insert _ _).bind fun _ => .ret _

theorem replaceSchedulesTx_uncommitting (rows : List ScheduleRow) (overlapping : AppError) :
    (replaceSchedulesTx coachId rows overlapping).Uncommitting := by
  have hdel : (deleteSchedules coachId).Uncommitting :=
    (Uncommitting.deleteAll _).bind fun gone =>
      (Uncommitting.each (fun e => lockMoments_uncommitting e.2) gone).bind fun _ => .ret _
  exact hdel.bind fun _ => (Uncommitting.each (insertSchedule_uncommitting overlapping) rows).bind
    fun _ => .ret _

theorem requireOwnCoachProfile_uncommitting (auth : AuthUser) :
    (requireOwnCoachProfile auth coachId).Uncommitting :=
  (Uncommitting.read _).bind fun _ => (Uncommitting.orFail _ _).bind fun _ =>
    (Uncommitting.checked _).bind fun _ => .ret _

/-- **A replacement that has committed can only answer.** -/
theorem CoachReq.firm (parse : ParseTime) (q : CoachReq) : ((coaches parse).prog q).Firm fun _ =>
    q.Reads := by
  cases q with
  | updateSchedules auth coachId entries =>
    refine (requireOwnCoachProfile_uncommitting auth).firm fun _ =>
      (Uncommitting.checked _).firm fun rows => ?_
    exact (replaceSchedulesTx_uncommitting rows _).atomically fun _ _ => trivial
  | getSchedules coachId =>
    exact (Uncommitting.read _).firm fun _ => (Uncommitting.orFail _ _).firm fun _ _ => trivial
  | getActiveSchedules coachId =>
    exact (Uncommitting.read _).firm fun _ => (Uncommitting.orFail _ _).firm fun _ _ => trivial

end DreamFly.Coaches
