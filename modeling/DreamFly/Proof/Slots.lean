import DreamFly.Schedule.Slots
import DreamFly.Lists.Groups
import DreamFly.Txn.Exclusion
import DreamFly.Txn.Firm

/-!
# What requests for time slots commit

A new slot is inserted under its moments, so that no slot at the venue that overlaps it can
be there at the commit.
-/

namespace DreamFly.Schedule

open Txn Prog
open Courses (validateTimeWindow)

/-! ## Rules -/

/-- The moments of the slots at venues. -/
def slotMoments : Exclusion Slots SlotTbl.timeSlots (Uuid × ℤ × ℤ) where
  has s x := s.venueId = some x.1 ∧ s.date = x.2.1 ∧ s.startTime ≤ x.2.2 ∧ x.2.2 < s.endTime
  entry x := .moment x.1 x.2.1 x.2.2

def slotRules : Discipline Slots := slotMoments.protect.discipline

/-- A moment in common is an overlap. -/
theorem overlaps_of_clash {s r : TimeSlot} (h : slotMoments.Clash s r) : s.overlaps r = true := by
  obtain ⟨⟨v, date, x⟩, ⟨hv, hd, hs, he⟩, hv', hd', hs', he'⟩ := h
  simp only at hv hd hs he hv' hd' hs' he'
  simp only [TimeSlot.overlaps, decide_eq_true_eq]
  refine ⟨?_, ?_, ?_, ?_, ?_⟩
  · rw [hv]
    rfl
  · rw [hv, hv']
  · rw [hd, hd']
  · omega
  · omega

/-- Two slots that are not empty and overlap have the later start in common. -/
theorem clash_of_overlaps {s r : TimeSlot} (hs : s.startTime < s.endTime)
    (hr : r.startTime < r.endTime) (h : s.overlaps r = true) :
    slotMoments.Clash s r := by
  simp only [TimeSlot.overlaps, decide_eq_true_eq] at h
  obtain ⟨hsome, hv, hd, h1, h2⟩ := h
  obtain ⟨v, hsv⟩ := Option.isSome_iff_exists.1 hsome
  have hmax : s.startTime ≤ max s.startTime r.startTime ∧
      r.startTime ≤ max s.startTime r.startTime ∧
      max s.startTime r.startTime < s.endTime ∧ max s.startTime r.startTime < r.endTime := by omega
  exact ⟨(v, s.date, max s.startTime r.startTime), ⟨hsv, rfl, hmax.1, hmax.2.2.1⟩, hv ▸ hsv,
    hd.symm, hmax.2.1, hmax.2.2.2⟩

variable {P : Parsers} {at' : StudioNow} {C : Pt Slots → Prop} {σ : Pt Slots} {d d' : Db}
  {id : Uuid} {entries : List SlotEntry}
  {overlapping : AppError} {F : AppError → Prop}

/-! ## Valid slots -/

/-- What a new slot is, seen from the time of its request. -/
structure Valid (at' : StudioNow) (s : TimeSlot) : Prop where
  window : s.startTime < s.endTime
  capacity : 1 ≤ s.capacity ∧ s.capacity ≤ 10000
  price : 0 ≤ s.priceCents ∧ s.priceCents ≤ 100000000
  isOpen : s.isClosed = false
  ahead : ∃ t, at'.tz s.date s.startTime = some t ∧ at'.now < t

theorem requireNotStarted_ahead {date time : ℤ} {noun : String} {e : AppError}
    (h : requireNotStarted at'.tz at'.now date time noun e = .ok ()) : ∃ t, at'.tz date time =
      some t ∧ at'.now < t := by
  unfold requireNotStarted toUtcChecked at h
  cases ht : at'.tz date time with
  | none => rw [ht] at h; cases h
  | some t =>
    rw [ht] at h
    refine ⟨t, rfl, ?_⟩
    by_contra hn
    have hle : t ≤ at'.now := not_lt.1 hn
    have he : (if t ≤ at'.now then throw e else pure () : Except AppError Unit) = .ok () := h
    rw [if_pos hle] at he
    cases he

/-- An entry that has passed the checks of the body and of the service. -/
theorem parseSlot_valid {e : SlotEntry} {s : TimeSlot} (hv : e.validate = [])
    (h : parseSlot P at' e = .ok s) : Valid at' s := by
  have hprice : 0 ≤ e.priceCents.getD 0 ∧ e.priceCents.getD 0 ≤ 100000000 := by
    unfold SlotEntry.validate at hv
    have hp := (List.append_eq_nil_iff.1 hv).2
    cases hc : e.priceCents with
    | none => exact ⟨by decide, by decide⟩
    | some p =>
      rw [hc] at hp
      simp only [Option.map_some, Option.getD_some, Courses.rangeCheck] at hp ⊢
      by_contra hn
      rw [if_neg hn] at hp
      cases hp
  unfold parseSlot at h
  obtain ⟨date, -, h⟩ := bind_eq_ok h
  obtain ⟨start, -, h⟩ := bind_eq_ok h
  obtain ⟨stop, -, h⟩ := bind_eq_ok h
  obtain ⟨⟨⟩, hw, h⟩ := bind_eq_ok h
  obtain ⟨⟨⟩, hc, h⟩ := bind_eq_ok h
  obtain ⟨⟨⟩, hn, h⟩ := bind_eq_ok h
  cases h
  have hwindow : start < stop := by
    by_contra hle
    rw [validateTimeWindow, if_pos (by omega)] at hw
    cases hw
  have hcap : ¬ (e.capacity ≤ 0 ∨ maxSlotCapacity < e.capacity) := by
    intro hbad
    rw [checkCapacity, if_pos hbad] at hc
    cases hc
  unfold maxSlotCapacity at hcap
  refine ⟨hwindow, ?_, hprice, rfl, requireNotStarted_ahead hn⟩
  constructor
  all_goals
    simp only
    omega

theorem Valid.checks {s : TimeSlot} (h : Valid at' s) : s.checks = true := by
  have hcap := h.capacity
  simp only [TimeSlot.checks, decide_eq_true_eq]
  exact ⟨h.window, by omega, h.price.1⟩

theorem validateSlots_nil (h : validateSlots entries = .ok ()) :
    ∀ e ∈ entries, e.validate = [] := by
  intro e he
  unfold validateSlots at h
  by_contra hne
  have hnot : ¬ (entries.flatMap SlotEntry.validate).isEmpty = true := by
    rw [List.isEmpty_iff, List.flatMap_eq_nil_iff]
    exact fun hall => hne (hall e he)
  rw [Courses.validatedNested, if_neg fun hc => hnot hc.2] at h
  cases h

/-! ## Commits -/

/-- A committed list of new slots: all of the request, and none overlapped what was there. -/
structure Created (P : Parsers) (at' : StudioNow) (entries : List SlotEntry)
    (d d' : Db) : Prop where
  body : validateSlots entries = .ok ()
  inserted : ∃ slots, entries.mapM (parseSlot P at') = .ok slots ∧ slotMoments.Inserted slots d d'

/-- A slot opened or closed. -/
def SlotSet (id : Uuid) (isClosed : Bool) (d d' : Db) : Prop :=
  ∃ s, d.get .timeSlots id = some s ∧
    d' = d.apply (.mod .timeSlots id (onlyIf (fun _ => true) fun s => { s with isClosed :=
    isClosed }))

def SlotReq.Leaves (P : Parsers) : SlotReq → Db → Db → Prop
  | .createSlots at' entries, d, d' => Created P at' entries d d'
  | .updateSlot id isClosed, d, d' => SlotSet id isClosed d d'
  | _, _, _ => False

def SlotReq.Does (P : Parsers) (q : SlotReq) (σ : Pt Slots) : Prop := q.Leaves P σ.now σ.db

theorem lockMoments_spec {D : Discipline Slots} {O : Oblig Slots AppError}
    (hO : ∀ σ r m, O.lock σ r m) (s : TimeSlot) :
    Yields D O σ (lockMoments s) F fun _ σ' => σ'.db = σ.db ∧ σ'.ws = σ.ws ∧
    slotMoments.Locked σ'.held s := by
  unfold lockMoments
  split
  next hv =>
    refine .pure ⟨rfl, rfl, ?_⟩
    rintro x ⟨hx, -⟩
    rw [hv] at hx
    cases hx
  next venueId hv =>
    refine Yields.bind (Exclusion.lockAll _ _ _ fun _ _ _ _ => hO _ _ _) fun _ σ₁ _ ⟨hd, hws, hh⟩ =>
      .pure ⟨hd, hws, ?_⟩
    rintro ⟨v, date, x⟩ ⟨hx, rfl, hs, he⟩
    simp only at hx hs he
    have hvx : venueId = v := Option.some.inj (hv.symm.trans hx)
    have hmem : (x - s.startTime).toNat ∈ List.range (s.endTime - s.startTime).toNat := by
      rw [List.mem_range]
      omega
    have hlock := hh _ hmem
    have hxe : s.startTime + ((x - s.startTime).toNat : ℤ) = x := by omega
    rw [hxe, hvx] at hlock
    exact hlock

theorem insertSlot_plain {s : TimeSlot} : Plain slotRules C σ (insertSlot overlapping s) fun k σ' =>
    σ.db.get .timeSlots k = none ∧ slotMoments.Free s σ.db ∧
    σ'.db = σ.db.apply (.add .timeSlots k s) := by
  refine Yields.bind (R := fun _ σ' => σ' = σ) (.ensure (fun _ => rfl) trivial) fun _ σ₁ _ h₁ => ?_
  subst h₁
  refine Yields.bind (lockMoments_spec (fun _ _ _ => trivial) s) fun _ σ₂ _ ⟨hd₂, _, hl₂⟩ => ?_
  refine Yields.bind (R := fun free σ' => σ' = σ₂ ∧ (free = true → slotMoments.Free s σ₂.db))
    (.read fun v _ hv => ⟨rfl, ?_⟩)
    fun free σ₃ _ ⟨h₃, hfree⟩ => ?_
  · intro hempty
    refine Exclusion.Free.later (fun k r hk hc => ?_) hl₂ hv.2
    have hm : (k, r) ∈ v.sel .timeSlots fun _ r => r.overlaps s :=
      Store.mem_sel.2 ⟨hk, overlaps_of_clash hc⟩
    rw [List.isEmpty_iff.1 hempty] at hm
    cases hm
  subst h₃
  refine Yields.bind (R := fun _ σ' => free = true ∧ σ' = σ₃)
    (.ensure (fun h => ⟨h, rfl⟩) trivial) fun _ σ₄ _ ⟨hf, h₄⟩ => ?_
  subst h₄
  have hcovers : ∀ n, slotRules.Covers (σ₄.grant (.row .timeSlots n) .noKeyUpdate).held
      (.add .timeSlots n s) :=
    fun n => ⟨holds_acquire _ _ _, Exclusion.guard_add (hl₂.mono (subset_acquire _ _ _))⟩
  refine (Yields.insert hcovers).imp (fun k σ₅ _ ⟨_, hn, _, h₅⟩ => ?_) fun _ h => h
  rw [hd₂] at hn hfree
  refine ⟨hn, hfree hf, ?_⟩
  rw [h₅, ← hd₂]
  rfl

theorem slotReferences_quiet (s : TimeSlot) : Plain.Quiet slotRules C (slotReferences s) := by
  have hopt : ∀ (t : SlotTbl) (key : Option Uuid) (e : AppError), Plain.Quiet slotRules C
      (referencesOpt t key e) := by
    intro t key e
    cases key with
    | none => exact .ret _
    | some k => exact .references _ _ _
  exact (hopt _ _ _).bind fun _ => hopt _ _ _

theorem each_quiet {α β : Type} {f : α → Tx β} (h : ∀ a, Plain.Quiet slotRules C (f a))
    (l : List α) :
    Plain.Quiet slotRules C (each f l) := by
  induction l with
  | nil => exact .ret _
  | cons a l ih => exact (h a).bind fun b => ih.bind fun bs => .ret _

theorem bulkCreateTx_plain {slots : List TimeSlot} :
    Plain slotRules C σ (bulkCreateTx slots overlapping) fun _ σ' =>
      slotMoments.Inserted slots σ.db σ'.db := by
  refine Yields.bind (Yields.each_inv (fun done σ' => slotMoments.Inserted done σ.db σ'.db) rfl
    fun done s rest σ' _ _ hi => ?_)
    fun ids σ₁ _ h₁ => ?_
  · exact insertSlot_plain.imp (fun k σ'' _ ⟨hn, hf, hd⟩ => Chain.snoc hi ⟨k, hn, hf, hd⟩)
      fun _ h => h
  refine Yields.bind (each_quiet slotReferences_quiet slots σ₁) fun _ σ₂ _ h₂ => ?_
  exact .read fun _ _ _ => h₂ ▸ h₁

/-- **Every request commits what `Leaves` says.** -/
theorem SlotReq.commits (P : Parsers) (q : SlotReq) :
    Commits slotRules (q.Does P) ((slots P).prog q) (.begin d d' false) := by
  cases q with
  | createSlots at' entries =>
    refine commits_map ?_
    refine commits_bind (R := fun _ σ' => validateSlots entries = .ok () ∧ σ' = .begin d d' false)
      (plain_checked fun _ h => ⟨h, rfl⟩)
      fun _ σ₁ _ ⟨hbody, h₁⟩ => ?_
    subst h₁
    refine commits_bind (R := fun slots σ' => entries.mapM (parseSlot P at') = .ok slots ∧
      σ' = .begin d d' false)
      (plain_checked fun _ h => ⟨h, rfl⟩) fun slots σ₂ _ ⟨hslots, h₂⟩ => ?_
    subst h₂
    refine commits_atomically (bulkCreateTx_plain (C := _)) fun _ σ₃ hl₃ hi =>
      ⟨hbody, slots, hslots, ?_⟩
    rw [hl₃.now]
    exact hi
  | updateSlot id isClosed =>
    refine commits_map (commits_atomically (R := fun _ σ' => SlotSet id isClosed σ'.now σ'.db) ?_
      fun _ _ _ h => h)
    refine Yields.bind (R := fun o σ' => o.isSome = true → SlotSet id isClosed σ'.now σ'.db) ?_
      fun o σ₁ _ h₁ =>
      .orFail (fun s ho => h₁ (by rw [ho]; rfl)) trivial
    have hcovers : ∀ σ' : Pt Slots, Holds σ'.held (.row .timeSlots id) .noKeyUpdate →
        slotRules.Covers σ'.held (.mod .timeSlots id
          (onlyIf (fun _ => true) fun s => { s with isClosed := isClosed })) := by
      refine fun σ' hh => ⟨hh, Exclusion.guard_mod fun r x => ?_⟩
      rw [onlyIf_pos rfl]
      exact fun hx => hx
    refine Yields.bind (Yields.updateRow trivial fun σ' _ hh => hcovers σ' hh) fun o σ₁ hl₁ h₁ => ?_
    rcases h₁ with ⟨rfl, -⟩ | ⟨s, hs, -, rfl, -, hd⟩
    · exact .pure fun h => by cases h
    · refine Yields.bind (R := fun _ σ' => σ' = σ₁) (.read fun _ _ _ => rfl) fun a σ₂ _ h₂ =>
        .pure fun _ => ?_
      subst h₂
      refine ⟨s, ?_, ?_⟩
      · rw [hl₁.now]
        exact hs
      · rw [hd, hl₁.now]
        rfl
  | getMonthlySchedule year month =>
    refine commits_map (Plain.Quiet.commits (.bind (.ensure _ _) fun _ =>
      .bind (.ensure _ _) fun _ => .bind (.read _) fun l => ?_))
    exact Plain.Quiet.bind (fun σ => plain_checked fun _ _ => rfl) fun _ => .ret _
  | getAvailability date =>
    exact commits_map (Plain.Quiet.commits (.bind (.orFail _ _) fun _ => .read _))

/-! ## Answers -/

def SlotReq.Reads : SlotReq → Prop
  | .getMonthlySchedule _ _ | .getAvailability _ => True
  | _ => False

theorem insertSlot_uncommitting (overlapping : AppError) (s : TimeSlot) :
    (insertSlot overlapping s).Uncommitting := by
  have hlock : (lockMoments s).Uncommitting := by
    unfold lockMoments
    split
    · exact .ret _
    · exact (Uncommitting.each (fun n => .lockRes _ _) _).bind fun _ => .ret _
  exact (Uncommitting.ensure _ _).bind fun _ => hlock.bind fun _ =>
    (Uncommitting.read _).bind fun free =>
    (Uncommitting.ensure _ _).bind fun _ => .insert _ _

theorem slotReferences_uncommitting (s : TimeSlot) : (slotReferences s).Uncommitting := by
  have hopt : ∀ (t : SlotTbl) (key : Option Uuid) (e : AppError),
      (referencesOpt t key e).Uncommitting := by
    intro t key e
    cases key with
    | none => exact .ret _
    | some k => exact .references _ _ _
  exact (hopt _ _ _).bind fun _ => hopt _ _ _

/-- **A request answers with its commit**: what commits succeeds, what fails has not
committed, and only what reads answers without a commit. -/
theorem SlotReq.prompt (P : Parsers) (q : SlotReq) : ((slots P).prog q).Prompt fun _ =>
    q.Reads := by
  cases q with
  | createSlots at' entries =>
    refine Prompt.map (N := fun _ => False) ?_ fun _ h => h.elim
    refine (Uncommitting.checked _).before fun _ => (Uncommitting.checked _).before fun slots => ?_
    refine Uncommitting.prompt_atomically ?_
    exact (Uncommitting.each (insertSlot_uncommitting _) slots).bind fun _ =>
      (Uncommitting.each slotReferences_uncommitting slots).bind fun _ => .read _
  | updateSlot id isClosed =>
    refine Prompt.map (N := fun _ => False) (Uncommitting.prompt_atomically ?_) fun _ h => h.elim
    refine Uncommitting.bind (Uncommitting.bind (Uncommitting.updateRow _ _) fun o => ?_) fun _ =>
      .orFail _ _
    cases o with
    | none => exact .ret _
    | some s => exact (Uncommitting.read _).bind fun _ => .ret _
  | getMonthlySchedule year month =>
    refine Prompt.map (N := fun _ => True) (Uncommitting.prompt ?_ fun _ => trivial)
      fun _ _ => trivial
    exact (Uncommitting.ensure _ _).bind fun _ => (Uncommitting.ensure _ _).bind fun _ =>
      (Uncommitting.read _).bind fun l =>
      (Uncommitting.checked l).bind fun _ => .ret _
  | getAvailability date =>
    refine Prompt.map (N := fun _ => True) (Uncommitting.prompt ?_ fun _ => trivial)
      fun _ _ => trivial
    exact (Uncommitting.orFail _ _).bind fun _ => .read _

end DreamFly.Schedule
