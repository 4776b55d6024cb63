import DreamFly.Proof.Listings
import DreamFly.Proof.Slots
import DreamFly.Txn.Solo

/-!
# No venue is booked out twice

* `Sound`: no two slots at a venue overlap. Every commit keeps it.
* `venue_slots`: that over whole runs, and what becomes of a list of new slots: it is there
  as a whole if the request has been answered, and not at all if it has failed.
* `createSlots_alone`: with no call in flight, the list is taken just if it is valid and
  there is room for it.
-/

namespace DreamFly.Schedule

open Txn Prog

abbrev SlotSys := Sys Slots AppError SlotReply SlotReq

abbrev SlotCommit := Entry Slots AppError SlotReply SlotReq

variable {P : Parsers} {at' : StudioNow} {d d' : Db} {s s' : SlotSys} {x : SlotCommit}
  {γ : List SlotCommit} {id : Uuid}
  {entries : List SlotEntry} {σ : Pt Slots} {overlapping : AppError} {new : List TimeSlot}

/-- No two slots at a venue overlap, and no slot is empty. -/
structure Sound (d : Db) : Prop where
  checks : ∀ k r, d.get .timeSlots k = some r → r.checks = true
  apart : ∀ k k' r r', d.get .timeSlots k = some r → d.get .timeSlots k' = some r' →
    r.overlaps r' = true → k = k'

/-- A slot stays as it is, but that it is opened and closed. -/
def Kept (d d' : Db) : Prop := ∀ k r, d.get .timeSlots k = some r →
    ∃ b, d'.get .timeSlots k = some { r with isClosed := b }

theorem Kept.refl (d : Db) : Kept d d := fun _ r h => ⟨r.isClosed, h⟩

theorem Kept.trans {a b c : Db} (h : Kept a b) (h' : Kept b c) : Kept a c := by
  intro k r hk
  obtain ⟨b₁, h₁⟩ := h k r hk
  obtain ⟨b₂, h₂⟩ := h' k _ h₁
  exact ⟨b₂, h₂⟩

theorem window_of_checks {r : TimeSlot} (h : r.checks = true) : r.startTime < r.endTime := by
  simp only [TimeSlot.checks, decide_eq_true_eq] at h
  exact h.1

theorem sound_iff : Sound d ↔ (∀ k r, d.get .timeSlots k = some r → r.checks = true) ∧
    slotMoments.Apart d := by
  constructor
  · intro h
    exact ⟨h.checks, fun k k' r r' hk hk' hc => h.apart k k' r r' hk hk' (overlaps_of_clash hc)⟩
  · rintro ⟨hchecks, hapart⟩
    refine ⟨hchecks, fun k k' r r' hk hk' ho => hapart k k' r r' hk hk' ?_⟩
    exact clash_of_overlaps (window_of_checks (hchecks k r hk))
      (window_of_checks (hchecks k' r' hk')) ho

/-! ## One commit -/

/-- The slots that a request asks for are valid. -/
theorem valid_of_body (hb : validateSlots entries = .ok ())
    (h : entries.mapM (parseSlot P at') = .ok new) : ∀ r ∈ new, Valid at' r := by
  intro r hr
  obtain ⟨e, he, hp⟩ := (Lists.mem_mapM h).1 hr
  exact parseSlot_valid (validateSlots_nil hb e he) hp

theorem SlotSet.get {b : Bool} (h : SlotSet id b d d') (k : Uuid) :
    d'.get .timeSlots k = if k = id then (d.get .timeSlots id).map
      (fun r => { r with isClosed := b }) else d.get .timeSlots k := by
  obtain ⟨-, -, rfl⟩ := h
  rw [Store.get_mod]
  split
  · congr 1
  · rfl

theorem SlotReq.Leaves.sound {q : SlotReq} (h : q.Leaves P d d') (hs : Sound d) : Sound d' := by
  rw [sound_iff] at hs ⊢
  cases q with
  | createSlots at' entries =>
    obtain ⟨hbody, new, hnew, hi⟩ := h
    refine ⟨fun k r hk => ?_, hi.apart hs.2⟩
    rcases hi.get.2 k r hk with hold | ⟨-, hm⟩
    · exact hs.1 k r hold
    · exact (valid_of_body hbody hnew r hm).checks
  | updateSlot id b =>
    have hset : SlotSet id b d d' := h
    refine ⟨fun k r hk => ?_, ?_⟩
    · rw [hset.get] at hk
      split at hk
      next he =>
        obtain ⟨r₀, hr₀, rfl⟩ := Option.map_eq_some_iff.1 hk
        exact hs.1 id r₀ hr₀
      next => exact hs.1 k r hk
    · obtain ⟨-, -, rfl⟩ := hset
      refine hs.2.mod fun r y => ?_
      rw [onlyIf_pos rfl]
      exact fun hy => hy
  | getMonthlySchedule year month => exact h.elim
  | getAvailability date => exact h.elim

theorem SlotReq.Leaves.kept {q : SlotReq} (h : q.Leaves P d d') : Kept d d' := by
  intro k r hk
  cases q with
  | createSlots at' entries =>
    obtain ⟨-, new, -, hi⟩ := h
    exact ⟨r.isClosed, hi.get.1 k r hk⟩
  | updateSlot id b =>
    have hset : SlotSet id b d d' := h
    rw [hset.get]
    split
    next he =>
      rw [he] at hk
      rw [hk]
      exact ⟨b, rfl⟩
    next => exact ⟨r.isClosed, hk⟩
  | getMonthlySchedule year month => exact h.elim
  | getAvailability date => exact h.elim

/-! ## Runs -/

variable {ok : SlotSys → Event SlotReq → SlotSys → Prop}

theorem slots_ok (h : (slots P).Reach ok (Sys.init d) s) :
    s.OK (plainContract fun q _ _ _ => SlotReq.commits P q) :=
  plain_ok (fun _ _ _ => trivial) h

/-- Every entry of the journal is as its request says. -/
theorem slots_leave (hj : (slots P).Journaled ok d s γ) :
    ∀ x ∈ γ, x.req.Leaves P x.before x.after := by
  intro x hx
  obtain ⟨σ, hnow, hdb, -, hdoes⟩ := journal_meets (fun _ hr => slots_ok hr) hj x hx
  rw [← hnow, ← hdb]
  exact hdoes

theorem linked_kept (hl : Linked d γ d') (hx : ∀ x ∈ γ, x.req.Leaves P x.before x.after) :
    Kept d d' := by
  induction γ generalizing d with
  | nil =>
    cases hl
    exact Kept.refl _
  | cons x γ ih =>
    obtain ⟨rfl, hrest⟩ := hl
    exact (hx x List.mem_cons_self).kept.trans (ih hrest fun y hy => hx y
      (List.mem_cons_of_mem x hy))

/-- A slot that was not there from the start has been asked for. -/
theorem slot_origin (hl : Linked d γ d') (hx : ∀ x ∈ γ, x.req.Leaves P x.before x.after) {k : Uuid}
    {r : TimeSlot}
    (hn : d.get .timeSlots k = none) (hk : d'.get .timeSlots k = some r) :
    ∃ x ∈ γ, ∃ at' entries new, x.req = .createSlots at' entries ∧
      entries.mapM (parseSlot P at') = .ok new ∧
      (∀ r' ∈ new, Valid at' r') ∧ { r with isClosed := false } ∈ new := by
  -- the entry of the journal that has brought the slot
  obtain ⟨γ₁, x, γ₂, rfl, hbefore, hafter⟩ :=
    hl.since (P := fun d : Db => d.get .timeSlots k ≠ none)
    (fun h => h hn) (by rw [hk]; simp)
  have hmem : x ∈ γ₁ ++ x :: γ₂ := by simp
  obtain ⟨r₁, hr₁⟩ := Option.ne_none_iff_exists'.1 hafter
  have hlater : Linked x.after γ₂ d' := (hl.at_entry).2
  obtain ⟨b, hb⟩ := linked_kept hlater (fun y hy => hx y (by simp [hy])) k r₁ hr₁
  have hr : r = { r₁ with isClosed := b } := Option.some.inj (hk.symm.trans hb)
  have hleaves := hx x hmem
  refine ⟨x, hmem, ?_⟩
  cases hq : x.req with
  | createSlots at' entries =>
    rw [hq] at hleaves
    obtain ⟨hbody, new, hnew, hi⟩ := hleaves
    have hvalid := valid_of_body hbody hnew
    refine ⟨at', entries, new, rfl, hnew, hvalid, ?_⟩
    rcases hi.get.2 k r₁ hr₁ with hold | ⟨-, hm⟩
    · exact absurd (by rw [hold]; simp) hbefore
    · have hopen : r₁ = { r with isClosed := false } := by
        rw [hr, ← (hvalid r₁ hm).isOpen]
      rw [← hopen]
      exact hm
  | updateSlot id b' =>
    rw [hq] at hleaves
    have hset : SlotSet id b' x.before x.after := hleaves
    rw [hset.get] at hr₁
    obtain ⟨r₀, hr₀, -⟩ := hset
    split at hr₁
    -- an update brings no slot
    next he => exact absurd (by rw [he, hr₀]; simp) hbefore
    next => exact absurd (by rw [hr₁]; simp) hbefore
  | getMonthlySchedule year month => rw [hq] at hleaves; exact hleaves.elim
  | getAvailability date => rw [hq] at hleaves; exact hleaves.elim

/-! ## With no call in flight -/

/-- No slot overlaps `r`. -/
def Room (r : TimeSlot) (d : Db) : Prop := ∀ k r', d.get .timeSlots k = some r' →
    r'.overlaps r = false

/-- There is room for a list of slots, next to each other. -/
structure Fits (new : List TimeSlot) (d : Db) : Prop where
  checks : ∀ r ∈ new, r.checks = true
  room : ∀ r ∈ new, Room r d
  apart : new.Pairwise fun r r' => r.overlaps r' = false

/-- The venue and the course of a slot are there. -/
structure Parents (r : TimeSlot) (d : Db) : Prop where
  venue : ∀ v, r.venueId = some v → (d.get .venues v).isSome = true
  course : ∀ c, r.courseId = some c → (d.get .courses c).isSome = true

/-- A list of new slots that can be taken: valid, with room for it. -/
structure Admissible (P : Parsers) (at' : StudioNow) (entries : List SlotEntry)
    (d : Db) : Prop where
  body : validateSlots entries = .ok ()
  slots : ∃ new, entries.mapM (parseSlot P at') = .ok new ∧ Fits new d ∧ ∀ r ∈ new, Parents r d

/-- The specification of a piece of a transaction when nobody else commits. -/
abbrev Alone {α : Type} (σ : Pt Slots) (p : Tx α) (F : AppError → Prop)
    (R : α → Pt Slots → Prop) : Prop :=
  Yields (slotRules.under (.still Slots)) (plainly slotRules fun _ => True) σ p F R

theorem laid_of {σ' : Pt Slots} (h : σ.Laid) (hl : σ.Later σ') (hd : σ'.db = σ.db)
    (hw : σ'.ws = σ.ws) : σ'.Laid := by
  unfold Pt.Laid at h ⊢
  rw [hd, hw, hl.now]
  exact h

theorem fits_cons {k : Uuid} {r : TimeSlot} (hn : d.get .timeSlots k = none) :
    Fits (r :: new) d ↔ (r.checks = true ∧ Room r d) ∧
    Fits new (d.apply (.add .timeSlots k r)) := by
  have hget : ∀ k' r', (d.apply (.add .timeSlots k r)).get .timeSlots k' = some r' ↔
      k' = k ∧ r' = r ∨ d.get .timeSlots k' = some r' := by
    intro k' r'
    rw [Store.get_add, hn, Option.getD_none]
    split
    next he =>
      constructor
      · intro h
        cases h
        exact .inl ⟨he, rfl⟩
      · rintro (⟨-, rfl⟩ | h)
        · rfl
        · rw [he, hn] at h
          cases h
    next hne =>
      constructor
      · exact .inr
      · rintro (⟨h, -⟩ | h)
        · exact absurd h hne
        · exact h
  constructor
  · intro h
    have hp := List.pairwise_cons.1 h.apart
    refine ⟨⟨h.checks r List.mem_cons_self, h.room r List.mem_cons_self⟩,
      fun r' hr' => h.checks r' (List.mem_cons_of_mem _ hr'), fun r' hr' k' r'' hk' => ?_, hp.2⟩
    rcases (hget k' r'').1 hk' with ⟨-, rfl⟩ | hk'
    · exact hp.1 r' hr'
    · exact h.room r' (List.mem_cons_of_mem _ hr') k' r'' hk'
  · rintro ⟨⟨hc, hroom⟩, h⟩
    refine ⟨List.forall_mem_cons.2 ⟨hc, h.checks⟩,
      List.forall_mem_cons.2 ⟨hroom, fun r' hr' k' r'' hk' => ?_⟩,
      List.pairwise_cons.2 ⟨fun r' hr' => ?_, h.apart⟩⟩
    · exact h.room r' hr' k' r'' ((hget k' r'').2 (.inr hk'))
    · exact h.room r' hr' k r ((hget k r).2 (.inl ⟨rfl, rfl⟩))

theorem insertSlot_alone {r : TimeSlot} (hσ : σ.Laid) :
    Alone σ (insertSlot overlapping r) (fun _ => ¬ (r.checks = true ∧ Room r σ.db))
    fun k σ' => σ'.Laid ∧
      (r.checks = true ∧ Room r σ.db) ∧ σ.db.get .timeSlots k = none ∧
      σ'.db = σ.db.apply (.add .timeSlots k r) := by
  refine Yields.bind (R := fun _ σ' => r.checks = true ∧ σ' = σ) ?_ fun _ σ₁ _ ⟨hc, h₁⟩ => ?_
  · cases hc : r.checks with
    | true => exact .ret ⟨rfl, rfl⟩
    | false => exact .fail fun h => by cases h.1
  subst h₁
  refine Yields.bind (lockMoments_spec (fun _ _ _ => trivial) r) fun _ σ₂ hl₂ ⟨hd₂, hw₂, hm₂⟩ => ?_
  have hσ₂ := laid_of hσ hl₂ hd₂ hw₂
  have hroom : (σ₁.db.sel .timeSlots fun _ r' => r'.overlaps r).isEmpty = true ↔ Room r σ₁.db := by
    rw [List.isEmpty_iff, List.eq_nil_iff_forall_not_mem]
    constructor
    · intro h k r' hk
      by_contra ho
      exact h (k, r') (Store.mem_sel.2 ⟨hk, by simpa using ho⟩)
    · rintro h ⟨k, r'⟩ hm
      obtain ⟨hk, ho⟩ := Store.mem_sel.1 hm
      rw [h k r' hk] at ho
      cases ho
  refine Yields.bind (R := fun free σ' => (free = true ↔ Room r σ₁.db) ∧ σ' = σ₂)
    (Yields.read_still hσ₂ ⟨by rw [hd₂]; exact hroom, rfl⟩)
    fun free σ₃ _ ⟨hfree, h₃⟩ => ?_
  subst h₃
  refine Yields.bind (R := fun _ σ' => Room r σ₁.db ∧ σ' = σ₃) ?_ fun _ σ₄ _ ⟨hr, h₄⟩ => ?_
  · cases hf : free with
    | true => exact .ret ⟨hfree.1 hf, rfl⟩
    | false =>
      rw [hf] at hfree
      exact .fail fun h => by cases hfree.2 h.2
  subst h₄
  -- the moments of the slot are locked, so it excludes what would overlap
  have hcovers : ∀ n, slotRules.Covers (σ₄.grant (.row .timeSlots n) .noKeyUpdate).held
      (.add .timeSlots n r) :=
    fun n => ⟨holds_acquire _ _ _, Exclusion.guard_add (hm₂.mono (subset_acquire _ _ _))⟩
  refine (Yields.insert hcovers).imp (fun k σ₅ _ ⟨_, hn, _, h₅⟩ => ?_) fun _ h => h
  rw [hd₂] at hn
  refine ⟨?_, ⟨hc, hr⟩, hn, ?_⟩
  · rw [h₅]
    exact (hσ₂.grant _ _).write _
  · rw [h₅, ← hd₂]
    rfl

theorem insertSlots_alone (hσ : σ.Laid) : Alone σ (each (insertSlot overlapping) new)
    (fun _ => ¬ Fits new σ.db) fun _ σ' =>
    σ'.Laid ∧ Fits new σ.db ∧ slotMoments.Inserted new σ.db σ'.db := by
  induction new generalizing σ with
  | nil => exact .ret ⟨hσ, ⟨by simp, by simp, .nil⟩, rfl⟩
  | cons r new ih =>
    have hfirst : Alone σ (insertSlot overlapping r)
        (fun _ => ¬ Fits (r :: new) σ.db) fun k σ' => σ'.Laid ∧
        (r.checks = true ∧ Room r σ.db) ∧ σ.db.get .timeSlots k = none ∧
        σ'.db = σ.db.apply (.add .timeSlots k r) :=
      (insertSlot_alone hσ).imp (fun k σ' _ h => h) fun e h hf =>
        h ⟨hf.checks r List.mem_cons_self, hf.room r List.mem_cons_self⟩
    refine Yields.bind hfirst fun k σ₁ _ ⟨hσ₁, hroom, hn, hd₁⟩ => ?_
    have hrest : Alone σ₁ (each (insertSlot overlapping) new)
        (fun _ => ¬ Fits (r :: new) σ.db) fun _ σ' =>
        σ'.Laid ∧ Fits new σ₁.db ∧ slotMoments.Inserted new σ₁.db σ'.db :=
      (ih hσ₁).imp (fun _ σ' _ h => h) fun e h hf => by
        rw [hd₁] at h
        exact h ((fits_cons hn).1 hf).2
    refine Yields.bind hrest fun ks σ₂ _ ⟨hσ₂, hfits, hi⟩ => .pure ⟨hσ₂, ?_, ?_⟩
    · rw [hd₁] at hfits
      exact (fits_cons hn).2 ⟨hroom, hfits⟩
    · refine ⟨σ₁.db, ⟨k, hn, fun k' r' hk' hc => ?_, hd₁⟩, hi⟩
      have ho := overlaps_of_clash hc
      rw [hroom.2 k' r' hk'] at ho
      cases ho

theorem references_alone {t : SlotTbl} {k : Uuid} {e : AppError} (hσ : σ.Laid) :
    Alone σ (references (S := Slots) t k e) (fun _ => σ.db.get t k = none) fun _ σ' =>
      σ'.Laid ∧ (σ.db.get t k).isSome = true ∧ σ'.db = σ.db := by
  refine Yields.bind (R := fun o σ' => o = σ.db.get t k ∧ σ' = σ)
    (Yields.read_still hσ ⟨rfl, rfl⟩) fun o σ₁ _ ⟨ho, h₁⟩ => ?_
  subst h₁
  subst ho
  cases hk : σ₁.db.get t k with
  | none => exact .fail rfl
  | some r =>
    refine Yields.imp (F := fun _ => False) (Yields.lockRes trivial)
      (fun _ σ₂ _ h₂ => ?_) fun _ h => h.elim
    rw [h₂]
    exact ⟨hσ.grant _ _, rfl, rfl⟩

theorem referencesOpt_alone {t : SlotTbl} {key : Option Uuid} {e : AppError} (hσ : σ.Laid) :
    Alone σ (referencesOpt t key e) (fun _ => ¬ ∀ k, key = some k → (σ.db.get t k).isSome = true)
    fun _ σ' =>
      σ'.Laid ∧ (∀ k, key = some k → (σ.db.get t k).isSome = true) ∧ σ'.db = σ.db := by
  cases key with
  | none => exact .ret ⟨hσ, fun k hk => (by cases hk), rfl⟩
  | some k =>
    refine (references_alone hσ).imp (fun _ σ' _ ⟨hσ', hk, hd⟩ => ⟨hσ', ?_, hd⟩) fun _ hk h => ?_
    · rintro k' hk'
      cases hk'
      exact hk
    · have hsome := h k rfl
      rw [hk] at hsome
      cases hsome

theorem slotReferences_alone {r : TimeSlot} (hσ : σ.Laid) :
    Alone σ (slotReferences r) (fun _ => ¬ Parents r σ.db) fun _ σ' =>
    σ'.Laid ∧ Parents r σ.db ∧ σ'.db = σ.db := by
  refine Yields.bind ((referencesOpt_alone hσ).imp (fun _ _ _ h => h) fun _ h hp => h hp.venue)
    fun _ σ₁ _ ⟨hσ₁, hv, hd₁⟩ => ?_
  refine (referencesOpt_alone hσ₁).imp (fun _ σ₂ _ ⟨hσ₂, hc, hd₂⟩ => ?_) fun _ h hp => ?_
  · rw [hd₁] at hc
    exact ⟨hσ₂, ⟨hv, hc⟩, hd₂.trans hd₁⟩
  · rw [hd₁] at h
    exact h hp.course

/-- **A list of new slots, with nobody else about**: it is taken if there is room for it, and
refused if not. -/
theorem bulkCreateTx_alone (hσ : σ.Laid) : Alone σ (bulkCreateTx new overlapping)
    (fun _ => ¬ (Fits new σ.db ∧ ∀ r ∈ new, Parents r σ.db)) fun _ σ' =>
      (Fits new σ.db ∧ ∀ r ∈ new, Parents r σ.db) ∧ slotMoments.Inserted new σ.db σ'.db := by
  refine Yields.bind ((insertSlots_alone hσ).imp (fun _ _ _ h => h) fun _ h hp => h hp.1)
    fun ids σ₁ _ ⟨hσ₁, hfits, hi⟩ => ?_
  have hparents : ∀ r, Parents r σ₁.db ↔ Parents r σ.db := by
    intro r
    have hv := fun v : Uuid => hi.only.get (t := SlotTbl.venues) (by simp) v
    have hc := fun c : Uuid => hi.only.get (t := SlotTbl.courses) (by simp) c
    constructor
    · intro h
      exact ⟨fun v hrv => hv v ▸ h.venue v hrv, fun c hrc => hc c ▸ h.course c hrc⟩
    · intro h
      exact ⟨fun v hrv => (hv v).symm ▸ h.venue v hrv, fun c hrc => (hc c).symm ▸ h.course c hrc⟩
  refine Yields.bind (Yields.each_inv (fun done σ' => σ'.Laid ∧ σ'.db = σ₁.db ∧
    ∀ r ∈ done, Parents r σ.db)
    ⟨hσ₁, rfl, by simp⟩ fun done r rest σ' he _ ⟨hσ', hd', hdone⟩ =>
      ?_) fun _ σ₂ _ ⟨hσ₂, hd₂, hall⟩ => ?_
  · refine (slotReferences_alone hσ').imp (fun _ σ'' _ ⟨hσ'', hr, hd''⟩ => ⟨hσ'', hd''.trans hd',
      ?_⟩) fun _ h hp => ?_
    · rw [hd', hparents] at hr
      intro r' hr'
      rcases List.mem_append.1 hr' with hr' | hr'
      · exact hdone r' hr'
      · rw [List.mem_singleton.1 hr']
        exact hr
    · rw [hd', hparents] at h
      exact h (hp.2 r (by simp [he]))
  · exact Yields.read_still hσ₂ ⟨⟨hfits, hall⟩, hd₂ ▸ hi⟩

/-- **A request for new slots that runs alone** is granted if it is admissible, and otherwise
changes nothing. -/
theorem createSlots_alone (P : Parsers) (at' : StudioNow) (entries : List SlotEntry) (d : Db) :
    wp (slotRules.under (.still Slots)) (plainly slotRules fun _ => True)
      (fun _ σ' => Admissible P at' entries d ∧ Created P at' entries d σ'.start)
      (fun _ σ' => ¬ Admissible P at' entries d ∧ σ'.start = d)
      ((slots P).prog (.createSlots at' entries)) (.begin d d false) := by
  show wp _ _ _ _ (createSlots P at' entries >>= fun l => pure (SlotReply.slots l)) _
  rw [wp_bind]
  unfold createSlots
  cases hbody : validateSlots entries with
  | error e =>
    refine ⟨fun h => ?_, rfl⟩
    have hok := h.body
    rw [hbody] at hok
    cases hok
  | ok u =>
    cases hnew : entries.mapM (parseSlot P at') with
    | error e =>
      refine ⟨fun h => ?_, rfl⟩
      obtain ⟨new, hn, -⟩ := h.slots
      rw [hnew] at hn
      cases hn
    | ok new =>
      -- the body is fine and parses: what is left is whether it fits
      have hadm : Admissible P at' entries d ↔ Fits new d ∧ ∀ r ∈ new, Parents r d := by
        constructor
        · intro h
          obtain ⟨new', hn, h⟩ := h.slots
          rw [hnew] at hn
          cases hn
          exact h
        · exact fun h => ⟨hbody, new, hnew, h⟩
      refine (wp_atomically _ _).2 ((bulkCreateTx_alone (Pt.laid_begin d false)).wp
        (fun a σ' hl ⟨hfits, hi⟩ => ⟨trivial, fun _ _ => ?_⟩)
        fun e σ' hl hf => ⟨trivial, fun _ _ => ⟨fun h => hf (hadm.1 h), hl.now⟩⟩)
      exact ⟨hadm.2 hfits, hbody, new, hnew, hi⟩

theorem draws_createSlots (P : Parsers) (at' : StudioNow) (entries : List SlotEntry) :
    ((slots P).prog (.createSlots at' entries)).Draws := by
  have hlock : ∀ r, (lockMoments r).Draws := by
    intro r
    unfold lockMoments
    split
    · trivial
    · exact (Draws.each (f := fun n : ℕ => lockRes (S := Slots) (E := AppError) _ .update)
        (fun n => trivial) _).bind fun _ => trivial
  have hinsert : ∀ r, (insertSlot (.conflict "場地時段與既有時段重疊") r).Draws := by
    intro r
    refine (draws_ensure _ _).bind fun _ => (hlock r).bind fun _ => Draws.bind (p := read _)
      (fun _ => trivial) fun free => ?_
    exact (draws_ensure _ _).bind fun _ => ⟨fun _ _ h => h, fun _ => trivial⟩
  have hopt : ∀ (t : SlotTbl) (key : Option Uuid) (e : AppError),
      (referencesOpt t key e).Draws := by
    intro t key e
    cases key with
    | none => trivial
    | some k => exact draws_references
  have hrefs : ∀ r, (slotReferences r).Draws := fun r => (hopt _ _ _).bind fun _ => hopt _ _ _
  refine Draws.bind ((draws_checked _).bind fun _ =>
    (draws_checked _).bind fun new => Draws.atomically ?_) fun _ => trivial
  exact (Draws.each hinsert new).bind fun _ => (Draws.each hrefs new).bind fun _ => fun _ => trivial

theorem slots_tidy (P : Parsers) (q : SlotReq) : ((slots P).prog q).Tidy false := by
  cases q with
  | createSlots at' entries =>
    exact (Tidy.bind (Tidy.checked _) fun _ =>
      Tidy.bind (Tidy.checked _) fun _ => Tidy.atomically).bind fun _ => rfl
  | updateSlot id b => exact Tidy.atomically.bind fun _ => rfl
  | getMonthlySchedule year month =>
    have hensure : ∀ (b : Bool) (e : AppError), (ensure b e : Tx Unit).Tidy false := by
      intro b e
      cases b <;> exact rfl
    refine Tidy.bind (Tidy.bind (hensure _ _) fun _ => Tidy.bind (hensure _ _) fun _ =>
      Tidy.bind (p := read _) (fun _ => rfl) fun l => ?_)
      fun _ => rfl
    exact (Tidy.checked _).bind fun _ => rfl
  | getAvailability date =>
    refine Tidy.bind (Tidy.bind ?_ fun _ => ?_) fun _ => rfl
    · cases P.date date <;> exact rfl
    · exact fun _ => rfl

/-! ## Results -/

/-- **No venue is booked out twice.** In every run of requests for slots, whatever they are and
however they interleave, no two slots at a venue overlap. A slot that was there stays, and only
its flag changes; a new one was valid when it was asked for. Each commit is what its request
asks for, with a list of new slots as a whole; who has answered has committed, and who has
failed has not. -/
theorem venue_slots (P : Parsers) {d : Db} {s : SlotSys} {γ : List SlotCommit} (h0 : Sound d)
    (hj : (slots P).Journaled (fun _ _ _ => True) d s γ) :
    Sound s.db ∧ Kept d s.db ∧
    (∀ k r, d.get .timeSlots k = none → s.db.get .timeSlots k = some r →
      ∃ x ∈ γ, ∃ at' entries new, x.req = .createSlots at' entries ∧
        entries.mapM (parseSlot P at') = .ok new ∧
        (∀ r' ∈ new, Valid at' r') ∧ { r with isClosed := false } ∈ new) ∧
    Linked d γ s.db ∧ (∀ x ∈ γ, x.req.Leaves P x.before x.after) ∧
    (∀ t c a, s.call t = some c → c.prog = .ret a → ¬ c.req.Reads → ∃ x ∈ γ, x.call = t ∧
      x.req = c.req ∧ x.reply = some (.ok a)) ∧
    ∀ t c e, s.call t = some c → c.prog = .fail e → ∀ x ∈ γ, x.call ≠ t := by
  have hl := journal_linked hj
  have hx := slots_leave hj
  refine ⟨hl.inv (P := Sound) (fun x hm hs => (hx x hm).sound hs) h0, linked_kept hl hx,
    fun k r hn hk => slot_origin hl hx hn hk, hl, hx, ?_, ?_⟩
  · intro t c a hc hp hr
    exact prompt_answered (N := fun q _ => SlotReq.Reads q) (SlotReq.prompt P) hj hc hp hr
  · intro t c e hc hp
    exact prompt_failed (N := fun q _ => SlotReq.Reads q) (SlotReq.prompt P) hj hc hp

/-- **A list of new slots is taken just if there is room for it**: with no call in flight a
request for new slots finishes; it has added them all if they are valid, do not overlap each
other or a slot at their venue, and name venues and courses that exist, and otherwise it has
changed nothing. -/
theorem slots_admitted (P : Parsers) {d : Db} {s : SlotSys} {t : ℕ}
    (h : (slots P).Reachable (Sys.init d) s) (hq : s.Quiescent)
    (hnew : s.call t = none) (at' : StudioNow) (entries : List SlotEntry) :
    let alone := (slots P).Reach (fun _ e _ => e = .start t (.createSlots at' entries) ∨
      e.IsStep t) s
    (∃ s' c', alone s' ∧ s'.call t = some c' ∧ c'.finished = true) ∧
    ∀ s' c', alone s' → s'.call t = some c' → c'.finished = true →
      (Admissible P at' entries s.db → Created P at' entries s.db s'.db) ∧
      (¬ Admissible P at' entries s.db → s'.db = s.db) := by
  refine ⟨solo_ends (hq.free (slots_tidy P) h t) hnew (draws_createSlots P at' entries),
    fun s' c' hr hc' hf => ?_⟩
  have hcov : ∀ (σ : Pt Slots) w, (plainly (E := AppError) slotRules fun _ => True).write σ w →
    slotRules.Covers σ.held w :=
    fun _ _ h => h
  rcases solo_outcome hnew hcov (createSlots_alone P at' entries s.db) hr hc' hf with ⟨a, σ, -,
      ⟨hadm, hb⟩, hs⟩ | ⟨e, σ, -, ⟨hadm, hd⟩, hs⟩
  · rw [← hs]
    exact ⟨fun _ => hb, fun hn => absurd hadm hn⟩
  · rw [← hs]
    exact ⟨fun ha => absurd ha hadm, fun _ => hd⟩

/-! ## Samples -/

/-- One date, and a few times of day. -/
def sampleParsers : Parsers where
  date s := if s = "2026-03-02" then some 20514 else none
  time s :=
    match s with
    | "09:00:00" => some 32400
    | "09:00:01" => some 32401
    | "09:00:02" => some 32402
    | "09:00:03" => some 32403
    | _ => none

/-- A studio in UTC, on the day before. -/
def sampleClock : StudioNow := ⟨fun date time => some (date * 86400 + time), 20513 * 86400⟩

/-- One venue without a slot. -/
def oneVenue : Db
  | .venues => AList.singleton 1 ()
  | .courses => ∅
  | .timeSlots => ∅
  | .bookings => ∅

def sampleEntry (startTime endTime : String) : SlotEntry :=
  ⟨"2026-03-02", startTime, endTime, some 1, none, 10, none⟩

/-- Two requests whose slots overlap, the second of which waits for the first. -/
def sampleRequests : List (Event SlotReq) :=
  .start 0 (.createSlots sampleClock [sampleEntry "09:00:00" "09:00:02"]) :: Event.steps 0 5 2 ++
    .start 1 (.createSlots sampleClock [sampleEntry "09:00:01" "09:00:03"]) :: Event.steps 0 7 7 ++
    Event.steps 1 20 4

theorem sound_oneVenue : Sound oneVenue := ⟨fun k r hk => (by cases hk),
    fun k k' r r' hk => by cases hk⟩

theorem venue_slots_overlap :
    let y := (slots sampleParsers).journalAfter sampleRequests oneVenue
    y.2.map Entry.call = [0] ∧ (y.1.db.count .timeSlots fun _ _ => true) = 1 ∧ Sound y.1.db := by
  have hrun : ∀ y, y = (slots sampleParsers).journalAfter sampleRequests oneVenue →
      y.2.map Entry.call = [0] ∧ (y.1.db.count .timeSlots fun _ _ => true) = 1 := by
    rintro _ rfl
    decide +kernel
  obtain ⟨hcalls, hone⟩ := hrun _ rfl
  exact ⟨hcalls, hone, (venue_slots sampleParsers sound_oneVenue
    (journaled_after (fun _ _ _ => trivial) _ _)).1⟩

theorem slots_admitted_first :
    ∃ s' : SlotSys, Created sampleParsers sampleClock
      [sampleEntry "09:00:00" "09:00:02"] oneVenue s'.db := by
  have hquiet : (Sys.init oneVenue : SlotSys).Quiescent := fun t c hc => by
    rw [Sys.call_init] at hc; cases hc
  have hadm : Admissible sampleParsers sampleClock
      [sampleEntry "09:00:00" "09:00:02"] oneVenue := by
    refine ⟨by decide, [⟨20514, 32400, 32402, some 1, none, 10, false, 0⟩], rfl,
      ⟨by decide, fun r _ k r' hk => (by cases hk), by simp⟩, ?_⟩
    intro r hr
    rw [List.mem_singleton.1 hr]
    refine ⟨fun v hv => ?_, fun c hc => by cases hc⟩
    cases hv
    decide
  obtain ⟨⟨s', c', hr, hc', hf⟩, hall⟩ :=
    slots_admitted sampleParsers (s := .init oneVenue)
      (t := 0) .refl hquiet (Sys.call_init ..) sampleClock [sampleEntry "09:00:00" "09:00:02"]
  exact ⟨s', (hall s' c' hr hc' hf).1 hadm⟩

end DreamFly.Schedule
