import DreamFly.Proof.Rental
import DreamFly.Txn.Solo

/-!
# Slots are never overbooked

* `Sound`: no slot has more occupying bookings than seats, no user two bookings of one
  slot. Every commit keeps it.
* `Kept`: a booking stays as it is, or it was pending or confirmed and is cancelled. So a
  cancelled booking is never cancelled again (`cancelled_once`).
* With no call in flight, a new booking is let in exactly if the slot shows a free seat
  and has not started (`createBooking_alone`).
-/

namespace DreamFly.Rental

open Txn Prog

abbrev RentalSys := Sys Rentals AppError RentalReply RentalReq

/-- Within capacity, and one booking for each user and slot. -/
structure Sound (d : Db) : Prop where
  seats : ∀ slot row, d.get .timeSlots slot = some row → (booked slot d : ℤ) ≤ row.capacity
  one : ∀ k k' b b' u slot, d.get .bookings k = some b → d.get .bookings k' = some b' →
    active u slot b = true →
    active u slot b' = true → k = k'

/-- Nothing happens to a booking but that a pending or confirmed one is cancelled. -/
def Kept (d d' : Db) : Prop :=
  ∀ k b, d.get .bookings k = some b →
    d'.get .bookings k = some b ∨ b.status.isCancellable = true ∧
    d'.get .bookings k = some (cancel b)

theorem Kept.refl (d : Db) : Kept d d := fun _ _ h => .inl h

theorem Kept.trans {a b c : Db} (h : Kept a b) (h' : Kept b c) : Kept a c := by
  intro k r hk
  rcases h k r hk with h1 | ⟨hc, h1⟩
  · exact h' k r h1
  · rcases h' k _ h1 with h2 | ⟨hc', -⟩
    · exact .inr ⟨hc, h2⟩
    · cases hc'

variable {d d' : Db} {s s' : RentalSys} {σ : Pt Rentals} {t : ℕ}
  {c : Call Rentals AppError RentalReply RentalReq} {u slot id : Uuid}

/-! ## One commit -/

theorem Booked.get_booking (h : Booked u slot d d') : ∃ k b, d.get .bookings k = none ∧
    b.userId = u ∧ b.timeSlotId = slot ∧
    b.status = .confirmed ∧ Only (S := Rentals) [.bookings, .outbox] d d' ∧
    ∀ k', d'.get .bookings k' = if k' = k then some b else d.get .bookings k' := by
  obtain ⟨k, b, m, e, hk, hu, hs, hst, rfl⟩ := h.added
  refine ⟨k, b, hk, hu, hs, hst, (Only.write _ (by simp [Write.tbl])).trans
    (Only.write _ (by simp [Write.tbl])), fun k' => ?_⟩
  rw [Store.get_apply_other _ (by simp [Write.tbl]), Store.get_add, hk]
  rfl

theorem Cancelled.get_booking (h : Cancelled id d d') : ∃ b, d.get .bookings id = some b ∧
    b.status.isCancellable = true ∧
    Only (S := Rentals) [.bookings, .outbox] d d' ∧
    ∀ k', d'.get .bookings k' = if k' = id then some (cancel b) else d.get .bookings k' := by
  obtain ⟨b, m, e, hb, hc, rfl⟩ := h.was
  refine ⟨b, hb, hc, (Only.write _ (by simp [Write.tbl])).trans
    (Only.write _ (by simp [Write.tbl])), fun k' => ?_⟩
  have hn : b.status ≠ .cancelled := by rintro he; rw [he] at hc; cases hc
  rw [Store.get_apply_other _ (by simp [Write.tbl]), Store.get_mod, hb, Option.map_some,
    onlyIf_pos (by simpa using hn)]

theorem SlotSet.only {b : Bool} (h : SlotSet id b d d') :
    Only (S := Rentals) [.timeSlots] d d' := by
  rw [h]; exact Only.write _ (by simp [Write.tbl])

/-- A slot's capacity is never changed. -/
theorem RentalReq.Leaves.capacity {q : RentalReq} (h : q.Leaves σ) {row' : TimeSlot}
    (hr : σ.db.get .timeSlots slot = some row') :
    ∃ row, σ.now.get .timeSlots slot = some row ∧ row.capacity = row'.capacity := by
  cases q with
  | createBooking at' u sl note =>
    obtain ⟨_, _, _, _, _, _, honly, -⟩ := Booked.get_booking h
    rw [honly.get (t := RentalTbl.timeSlots) (by simp)] at hr
    exact ⟨row', hr, rfl⟩
  | cancelBooking at' auth id =>
    obtain ⟨_, _, _, honly, -⟩ := Cancelled.get_booking h
    rw [honly.get (t := RentalTbl.timeSlots) (by simp)] at hr
    exact ⟨row', hr, rfl⟩
  | updateSlot id isClosed =>
    have h : SlotSet id isClosed σ.now σ.db := h
    rw [h, Store.get_mod] at hr
    split at hr
    next hk =>
      obtain ⟨row, hrow, rfl⟩ := Option.map_eq_some_iff.1 hr
      exact ⟨row, hk ▸ hrow, rfl⟩
    · exact ⟨row', hr, rfl⟩

theorem RentalReq.Leaves.kept {q : RentalReq} (h : q.Leaves σ) : Kept σ.now σ.db := by
  intro k b hk
  cases q with
  | createBooking at' u sl note =>
    obtain ⟨k', _, hnew, _, _, _, -, hget⟩ := Booked.get_booking h
    rw [hget]
    split
    next he => rw [he, hnew] at hk; cases hk
    · exact .inl hk
  | cancelBooking at' auth id =>
    obtain ⟨b', hb', hc, -, hget⟩ := Cancelled.get_booking h
    rw [hget]
    split
    next he =>
      rw [he, hb'] at hk
      cases hk
      exact .inr ⟨hc, rfl⟩
    · exact .inl hk
  | updateSlot id isClosed =>
    exact .inl (by rw [(SlotSet.only h).get (t := RentalTbl.bookings) (by simp)]; exact hk)

/-- No commit but a new booking of the slot takes a seat of it. -/
theorem booked_le_of {sl : Uuid} (h : ∀ k b, d'.get .bookings k = some b → occupying sl b = true →
    ∃ b', d.get .bookings k = some b' ∧ occupying sl b' = true) : booked sl d' ≤ booked sl d :=
  Store.count_le h

/-- A new booking takes one seat of its own slot. -/
theorem Booked.booked_le (h : Booked u slot d d') (sl : Uuid) :
    (booked sl d' : ℤ) ≤ booked sl d + if sl = slot then 1 else 0 := by
  obtain ⟨k, b, m, e, hk, hu, hs, hst, rfl⟩ := h.added
  have hcount : booked sl ((d.apply (.add .bookings k b)).apply (.add .outbox m e)) =
      booked sl (d.apply (.add .bookings k b)) := by
    unfold booked Store.count
    rw [Store.apply_other _ (by simp [Write.tbl])]
  rw [hcount]
  unfold booked
  rw [Store.count_eq_total, Store.count_eq_total, Store.total_add_new hk]
  by_cases hsl : sl = slot
  · rw [if_pos hsl]
    split <;> omega
  · have hne : occupying sl b = false := by
      simp only [occupying, decide_eq_false_iff_not, not_and]
      exact fun he => absurd (he.symm.trans hs) hsl
    simp [hne, hsl]

theorem RentalReq.Leaves.sound {q : RentalReq} (h : q.Leaves σ) (hs : Sound σ.now) :
    Sound σ.db := by
  have hkept := h.kept
  refine ⟨fun sl row' hr => ?_, fun k k' b b' u₁ sl hk hk' ha ha' => ?_⟩
  · obtain ⟨row, hrow, hcap⟩ := h.capacity hr
    have hle := hs.seats sl row hrow
    rw [← hcap]
    cases q with
    | createBooking at' u₁ sl₁ note =>
      have hb := Booked.booked_le h sl
      split at hb
      next he =>
        -- the seat was free
        obtain ⟨row₁, hrow₁, hroom⟩ := Booked.room h
        rw [he] at hrow hb ⊢
        rw [hrow] at hrow₁
        cases hrow₁
        omega
      · omega
    | cancelBooking at' auth id =>
      obtain ⟨b', hb', hc, -, hget⟩ := Cancelled.get_booking h
      have hb : booked sl σ.db ≤ booked sl σ.now := booked_le_of fun k b hk ho => by
        rw [hget] at hk
        split at hk
        · cases hk; simp [occupying, cancel, occupyingStatuses, BookingStatus.asStr] at ho
        · exact ⟨b, hk, ho⟩
      omega
    | updateSlot id isClosed =>
      have hb : booked sl σ.db = booked sl σ.now := by
        unfold booked
        exact (SlotSet.only h).count (t := RentalTbl.bookings) (by simp) _
      omega
  · -- an active booking was there before, unless it is the new one
    cases q with
    | createBooking at' u₂ sl₂ note =>
      obtain ⟨kn, bn, hnew, hu, hsl, -, -, hget⟩ := Booked.get_booking h
      have hold := Booked.alone h
      simp only [active, decide_eq_true_eq] at ha ha'
      have hother : ∀ k b, σ.now.get .bookings k = some b → b.userId = u₁ → b.timeSlotId = sl →
          b.status ≠ .cancelled →
          bn.userId = u₁ → bn.timeSlotId = sl → False := by
        intro k b hb h1 h2 h3 h4 h5
        have hf := hold k b hb
        simp [active, h1, h2, h3, hu.symm.trans h4, hsl.symm.trans h5] at hf
      rw [hget] at hk hk'
      split at hk <;> split at hk'
      next h1 h2 => exact h1.trans h2.symm
      · cases hk; exact (hother k' b' hk' ha'.1 ha'.2.1 ha'.2.2 ha.1 ha.2.1).elim
      · cases hk'; exact (hother k b hk ha.1 ha.2.1 ha.2.2 ha'.1 ha'.2.1).elim
      · exact hs.one k k' b b' u₁ sl hk hk' (by simpa [active] using ha)
          (by simpa [active] using ha')
    | cancelBooking at' auth id =>
      obtain ⟨bc, hbc, hc, -, hget⟩ := Cancelled.get_booking h
      rw [hget] at hk hk'
      split at hk
      · cases hk; simp [active, cancel] at ha
      · split at hk'
        · cases hk'; simp [active, cancel] at ha'
        · exact hs.one k k' b b' u₁ sl hk hk' ha ha'
    | updateSlot id isClosed =>
      rw [(SlotSet.only h).get (t := RentalTbl.bookings) (by simp)] at hk hk'
      exact hs.one k k' b b' u₁ sl hk hk' ha ha'

/-! ## Runs -/

theorem rentals_ok {ok : RentalSys → Event RentalReq → RentalSys → Prop}
    (h : rentals.Reach ok (Sys.init d) s) :
    s.OK (plainContract fun q _ _ _ => RentalReq.commits q) :=
  plain_ok (fun _ _ _ => trivial) h

/-- Every step of a run keeps what happens to bookings within `Kept`. -/
theorem reach_kept (h0 : rentals.Reachable (Sys.init d) s) (h : rentals.Reachable s s') :
    Kept s.db s'.db := by
  induction h with
  | refl => exact Kept.refl _
  | tail hr hst ih =>
    obtain ⟨e, he, -⟩ := hst
    refine ih.trans ?_
    rcases step_db he with hd | ⟨t, c, hcs⟩
    · rw [hd]; exact Kept.refl _
    · obtain ⟨σ, hnow, hdb, -, -, -, hl⟩ := plain_commit (rentals_ok (h0.trans hr)) hcs
      rw [← hnow, ← hdb]
      exact hl.kept

theorem reach_sound (h0 : Sound d) (h : rentals.Reachable (Sys.init d) s) : Sound s.db :=
  plain_inv (W := fun _ => True) (fun _ _ _ => trivial)
    (fun q _ _ _ => q.commits) h0 (fun _ _ _ _ hl hs => hl.sound hs)
    (h.mono fun _ _ _ _ _ _ _ => trivial)

/-- A cancel that commits finds a pending or confirmed booking and leaves it cancelled. -/
theorem cancel_commit (h : rentals.Reachable (Sys.init d) s) (hcs : CommitStep s t c s')
    {at' : StudioNow} {auth : AuthUser}
    (hq : c.req = .cancelBooking at' auth id) :
    ∃ b, s.db.get .bookings id = some b ∧ b.status.isCancellable = true ∧
      s'.db.get .bookings id = some (cancel b) := by
  obtain ⟨σ, hnow, hdb, -, -, -, hl⟩ := plain_commit (rentals_ok h) hcs
  rw [hq] at hl
  obtain ⟨b, hb, hc, -, hget⟩ := Cancelled.get_booking hl
  rw [← hnow, ← hdb]
  exact ⟨b, hb, hc, by rw [hget, if_pos rfl]⟩

/-- **No booking is cancelled twice.** -/
theorem cancelled_once {s₁ s₂ : RentalSys} {t₁ : ℕ}
    {c₁ : Call Rentals AppError RentalReply RentalReq}
    (h : rentals.Reachable (Sys.init d) s) (hc : ∃ b, s.db.get .bookings id = some b ∧
      b.status.isCancellable = false)
    (h₁ : rentals.Reachable s s₁) (hcs : CommitStep s₁ t₁ c₁ s₂) (at' : StudioNow)
    (auth : AuthUser) :
    c₁.req ≠ .cancelBooking at' auth id := by
  intro hq
  obtain ⟨b, hb, hnot⟩ := hc
  obtain ⟨b', hb', hcan, -⟩ := cancel_commit (h.trans h₁) hcs hq
  rcases reach_kept h h₁ id b hb with hk | ⟨hcan', -⟩
  · rw [hk] at hb'
    cases hb'
    rw [hnot] at hcan
    cases hcan
  · rw [hnot] at hcan'
    cases hcan'

/-! ## With no call in flight -/

/-- The slot begins after now, by the studio's clock. -/
def NotStarted (at' : StudioNow) (row : TimeSlot) : Prop :=
  ∃ t, at'.tz row.date row.startTime = some t ∧ at'.now < t

/-- The slot shows a free seat and has not started. -/
def Admissible (at' : StudioNow) (slot : Uuid) (d : Db) : Prop :=
  ∃ row, d.get .timeSlots slot = some row ∧ (slotStatus slot row d = .available ∨
    slotStatus slot row d = .limited) ∧
    NotStarted at' row

/-- A confirmed booking of the slot for `u` that was not there. -/
def NewBooking (u slot : Uuid) (d d' : Db) : Prop :=
  ∃ k b, d.get .bookings k = none ∧ d'.get .bookings k = some b ∧ b.userId = u ∧
    b.timeSlotId = slot ∧ b.status = .confirmed

theorem slotStatus_free_iff (slot : Uuid) (row : TimeSlot) (d : Db) :
    slotStatus slot row d = .available ∨ slotStatus slot row d = .limited ↔
      row.isClosed = false ∧ (booked slot d : ℤ) < row.capacity := by
  unfold slotStatus SlotStatus.derive
  cases row.isClosed with
  | true => simp
  | false =>
    simp only [Bool.false_eq_true, if_false, true_and]
    by_cases hfull : (booked slot d : ℤ) ≥ row.capacity
    · simp [hfull]
    · have hlt : (booked slot d : ℤ) < row.capacity := not_le.1 hfull
      rw [if_neg hfull]
      split
      · exact ⟨fun _ => hlt, fun _ => .inr rfl⟩
      · exact ⟨fun _ => hlt, fun _ => .inl rfl⟩

theorem requireNotStarted_iff {at' : StudioNow} {row : TimeSlot} {noun : String} {e : AppError} :
    requireNotStarted at'.tz at'.now row.date row.startTime noun e = .ok () ↔
    NotStarted at' row := by
  unfold requireNotStarted toUtcChecked NotStarted
  cases at'.tz row.date row.startTime with
  | none => exact ⟨fun h => (nomatch h), fun ⟨_, h, _⟩ => (nomatch h)⟩
  | some t =>
    show (if t ≤ at'.now then throw e else pure () : Except AppError Unit) = .ok () ↔ _
    by_cases hle : t ≤ at'.now
    · rw [if_pos hle]
      exact ⟨fun h => (nomatch h), fun ⟨t', h, hlt⟩ => by cases h; exact absurd hle (not_le.2 hlt)⟩
    · rw [if_neg hle]
      exact ⟨fun _ => ⟨t, rfl, not_le.1 hle⟩, fun _ => rfl⟩

section alone
variable {at' : StudioNow} {note : Option String} {F : AppError → Prop} {σ : Pt Rentals}

/-- The specification of a piece of a transaction when nobody else commits. -/
abbrev Alone {α : Type} (σ : Pt Rentals) (p : Tx α) (F : AppError → Prop)
    (R : α → Pt Rentals → Prop) : Prop :=
  Yields (rentalRules.under (.still Rentals)) (plainly rentalRules fun _ => True) σ p F R

theorem occupySlotTx_alone (hσ : σ.Laid) : Alone σ (occupySlotTx slot) F fun o σ' => σ'.Laid ∧
    σ'.db = σ.db ∧
    ((o = none ∧ ∀ row, σ.db.get .timeSlots slot = some row →
      ¬ (row.isClosed = false ∧ (booked slot σ.db : ℤ) < row.capacity)) ∨
      ∃ row, o = some (slot, row) ∧ σ.db.get .timeSlots slot = some row ∧ row.isClosed = false ∧
        (booked slot σ.db : ℤ) < row.capacity ∧
        Holds σ'.held (.row (S := Rentals) .timeSlots slot) .noKeyUpdate) := by
  refine Yields.bind (Yields.selectFor_still hσ trivial) fun r σ₁ _ ⟨hr, hσ₁, hd₁, hh⟩ => ?_
  cases r with
  | none =>
    refine .pure ⟨hσ₁, hd₁, .inl ⟨rfl, fun row hrow ⟨hopen, _⟩ => ?_⟩⟩
    rw [hrow, Option.filter_some, if_pos (by simpa using hopen)] at hr
    cases hr
  | some row =>
    obtain ⟨hrow, hopen⟩ := Option.filter_eq_some_iff.1 hr.symm
    refine Yields.bind (R := fun n σ' => n = booked slot σ.db ∧ σ' = σ₁)
      (Yields.read_still hσ₁ ⟨by rw [hd₁], rfl⟩)
      fun n σ₂ _ ⟨hn, h₂⟩ => ?_
    subst h₂
    subst hn
    split
    next hfull =>
      refine .pure ⟨hσ₁, hd₁, .inl ⟨rfl, fun row' hrow' ⟨_, hlt⟩ => ?_⟩⟩
      rw [hrow] at hrow'
      cases hrow'
      omega
    next hroom => exact .pure ⟨hσ₁, hd₁, .inr ⟨row, rfl,
      hrow, by simpa using hopen, by omega, hh rfl⟩⟩

theorem insertOccupyingBookingTx_alone {row : TimeSlot} {taken : AppError} (hσ : σ.Laid)
    (hh : Holds σ.held (.row (S := Rentals) .timeSlots slot) .noKeyUpdate)
    (hu : (σ.db.get .users u).isSome = true)
    (hn : ∀ k b, σ.db.get .bookings k = some b → active u slot b = false) :
    Alone σ (insertOccupyingBookingTx (slot, row) u note taken) F fun r σ' =>
      σ.db.get .bookings r.1 = none ∧
      r.2.userId = u ∧ r.2.timeSlotId = slot ∧ r.2.status = .confirmed ∧
      σ'.db = σ.db.apply (.add .bookings r.1 r.2) := by
  refine Yields.bind (Yields.claim_still hσ trivial) fun b σ₁ hl₁ ⟨h₁, hb⟩ => ?_
  have hfree : b = false := by
    rw [hb, Bool.not_eq_false', List.isEmpty_iff, List.eq_nil_iff_forall_not_mem]
    rintro ⟨k, r⟩ hm
    obtain ⟨hk, hp⟩ := Store.mem_sel.1 hm
    rw [hn k r hk] at hp
    cases hp
  subst hfree
  refine Yields.bind (R := fun _ σ' => σ' = σ₁) (.ret rfl) fun _ σ₂ _ h₂ => ?_
  subst h₂
  have hd : σ₂.db = σ.db := by rw [h₁]; rfl
  refine Yields.bind (Yields.references_still (by rw [h₁]; exact hσ.grant _ _) (hd ▸ hu) trivial)
    fun _ σ₃ hl₃ h₃ => ?_
  have hd₃ : σ₃.db = σ.db := by rw [h₃, ← hd]; rfl
  have hentry : Holds σ₂.held (.uniq (S := Rentals) (.userSlot u slot)) .update := by
    rw [h₁]; exact holds_acquire _ _ _
  refine Yields.bind (Yields.insert fun n => covers_booking (holds_acquire _ _ _) rfl rfl
    (((hl₁.trans hl₃).holds hh).mono (subset_acquire _ _ _))
      ((hl₃.holds hentry).mono (subset_acquire _ _ _)))
    fun n σ₄ _ ⟨_, hnew, _, h₄⟩ => .pure ⟨?_, rfl, rfl, rfl, ?_⟩
  · rw [← hd₃]; exact hnew
  · rw [h₄, ← hd₃]; rfl

/-- **A booking that runs alone** is admitted if it is admissible, and otherwise changes
nothing. -/
theorem createBooking_alone (hu : (d.get .users u).isSome = true)
    (hn : ∀ k b, d.get .bookings k = some b → active u slot b = false) :
    wp (rentalRules.under (.still Rentals)) (plainly rentalRules fun _ => True)
      (fun _ σ' => Admissible at' slot d ∧ NewBooking u slot d σ'.start)
      (fun _ σ' => ¬ Admissible at' slot d ∧ σ'.start = d)
      (rentals.prog (.createBooking at' u slot note)) (.begin d d false) := by
  show wp _ _ _ _ (createBooking at' u slot note >>= fun r => pure (RentalReply.booked r.1 r.2)) _
  rw [wp_bind]
  suffices h : Alone (.begin d d false) (do
      let hold ← occupySlotTx slot
      let hold ← orFail hold (.badRequest "time slot is full or closed")
      checked (requireNotStarted at'.tz at'.now hold.2.date hold.2.startTime "time slot"
        (.badRequest "cannot book a time slot that has already started"))
      let booking ← insertOccupyingBookingTx hold u note
          (.conflict "you already have a booking for this time slot")
      insertDomainEventTx (.bookingCreated booking.1 u slot)
      return booking) (fun _ => ¬ Admissible at' slot d) fun _ σ' => Admissible at' slot d ∧
        NewBooking u slot d σ'.db by
    exact (wp_atomically _ _).2 (h.wp (fun a σ' _ hr => ⟨trivial, fun _ _ => hr⟩) fun e σ' hl hf =>
      ⟨trivial, fun _ _ => ⟨hf, hl.now⟩⟩)
  refine Yields.bind (occupySlotTx_alone (Pt.laid_begin d false)) fun o σ₁ hl₁ ⟨hσ₁, hd₁, ho⟩ => ?_
  rcases ho with ⟨rfl, hfull⟩ | ⟨row, rfl, hrow, hopen, hroom, hh⟩
  · refine Yields.bind (R := fun _ _ => False) (.fail fun ⟨row, hrow, hst, _⟩ => ?_)
      fun _ _ _ h => h.elim
    exact hfull row hrow ((slotStatus_free_iff slot row d).1 hst)
  refine Yields.bind (R := fun hold σ' => hold = (slot, row) ∧ σ' = σ₁)
    (.ret ⟨rfl, rfl⟩) fun hold σ₂ _ ⟨he, h₂⟩ => ?_
  subst he
  subst h₂
  -- the slot is free, so only its start is left to be checked
  have hadm : NotStarted at' row ↔ Admissible at' slot d := by
    refine ⟨fun hs => ⟨row, hrow, (slotStatus_free_iff slot row d).2 ⟨hopen, hroom⟩, hs⟩,
      fun ⟨row', hrow', _, hs⟩ => ?_⟩
    have heq : row' = row := Option.some.inj (hrow'.symm.trans hrow)
    exact heq ▸ hs
  refine Yields.bind (R := fun _ σ' => Admissible at' slot d ∧ σ' = σ₂) ?_ fun _ σ₃ _ ⟨ha, h₃⟩ => ?_
  · cases hc : requireNotStarted at'.tz at'.now row.date row.startTime "time slot"
      (.badRequest "cannot book a time slot that has already started") with
    | ok _ => exact .ret ⟨hadm.1 (requireNotStarted_iff.1 hc), rfl⟩
    | error e =>
      refine .fail fun ha => ?_
      rw [requireNotStarted_iff.2 (hadm.2 ha)] at hc
      cases hc
  subst h₃
  have hd₃ : σ₃.db = d := hd₁
  refine Yields.bind (insertOccupyingBookingTx_alone hσ₁ hh (by rw [hd₃]; exact hu)
    (by rw [hd₃]; exact hn))
    fun r σ₄ _ ⟨hnew, hru, hrs, hst, hd₄⟩ => ?_
  refine Yields.bind (insertDomainEventTx_spec (.still Rentals) _) fun _ σ₅ _ ⟨m, hd₅⟩ =>
    .pure ⟨ha, ?_⟩
  rw [hd₃] at hnew
  refine ⟨r.1, r.2, hnew, ?_, hru, hrs, hst⟩
  rw [hd₅, Store.get_apply_other _ (by simp [Write.tbl]), hd₄, Store.get_add, if_pos rfl, hd₃, hnew]
  rfl

end alone

theorem draws_createBooking {at' : StudioNow} {note : Option String} :
    (rentals.prog (.createBooking at' u slot note)).Draws := by
  refine Draws.bind (Draws.atomically (Draws.bind (Draws.bind (draws_selectFor _ _ _ _) fun o => ?_)
    fun hold => ?_)) fun _ => trivial
  · cases o with
    | none => trivial
    | some row => exact Draws.bind (p := read _) (fun _ => trivial) fun n => .ite trivial trivial
  · refine (draws_orFail _ _).bind fun hold => (draws_checked _).bind fun _ =>
      Draws.bind ?_ fun r => Draws.bind ?_ fun _ => trivial
    · refine Draws.bind (p := claim _ _) (fun _ => trivial) fun b =>
        (draws_ensure _ _).bind fun _ => draws_references.bind fun _ =>
        Draws.bind (p := insert _ _ _) ⟨fun _ _ h => h, fun _ => trivial⟩ fun _ => trivial
    · exact Draws.bind (p := insert _ _ _) ⟨fun _ _ h => h, fun _ => trivial⟩ fun _ => trivial

theorem rentals_tidy (q : RentalReq) : (rentals.prog q).Tidy false := by
  cases q with
  | createBooking | cancelBooking | updateSlot => exact Tidy.atomically.bind fun _ => rfl

/-- **Slots are never overbooked**, however bookings, cancellations and closings interleave.
No slot has more occupying bookings than seats, and no user two bookings of one slot. A
booking only changes by being cancelled, which happens to a pending or confirmed one and
once. With no call in flight, a booking by a user who has none is admitted if and only if
the slot shows a free seat and has not started; it does finish, and where it is not
admitted it leaves the store as it was. -/
theorem slots_never_overbooked (h0 : Sound d) (h : rentals.Reachable (Sys.init d) s) :
    Sound s.db ∧ (∀ s', rentals.Reachable s s' → Kept s.db s'.db) ∧
    (∀ t c s' at' auth id, CommitStep s t c s' → c.req = .cancelBooking at' auth id →
      (∃ b, s.db.get .bookings id = some b ∧ b.status.isCancellable = true ∧
        s'.db.get .bookings id = some (cancel b)) ∧
      ∀ s₁ t₁ c₁ s₂ at₁ auth₁, rentals.Reachable s' s₁ → CommitStep s₁ t₁ c₁ s₂ →
        c₁.req ≠ .cancelBooking at₁ auth₁ id) ∧
    (s.Quiescent → ∀ t at' u slot note, s.call t = none → (s.db.get .users u).isSome = true →
      (∀ k b, s.db.get .bookings k = some b → active u slot b = false) →
      let alone := rentals.Reach (fun _ e _ => e = .start t (.createBooking at' u slot note) ∨
        e.IsStep t) s
      (∃ s' c', alone s' ∧ s'.call t = some c' ∧ c'.finished = true) ∧
      ∀ s' c', alone s' → s'.call t = some c' → c'.finished = true →
        (NewBooking u slot s.db s'.db ↔ Admissible at' slot s.db) ∧
        (¬ Admissible at' slot s.db → s'.db = s.db)) := by
  refine ⟨reach_sound h0 h, fun s' hs' => reach_kept h hs', fun t c s' at' auth id hcs hq => ?_,
    fun hquiet t at' u slot note hnew hu hn => ?_⟩
  · obtain ⟨b, hb, hc, hb'⟩ := cancel_commit h hcs hq
    refine ⟨⟨b, hb, hc, hb'⟩, fun s₁ t₁ c₁ s₂ at₁ auth₁ h₁ hcs₁ => ?_⟩
    -- the commit itself is a step of the run
    have hr : rentals.Reachable s s' := by
      obtain ⟨hct, k, hk, rfl⟩ := hcs
      refine .single ⟨.step t 0, ?_, trivial⟩
      simp only [Service.step, hct, Call.advance, hk, Option.map_some]
    exact cancelled_once (h.trans hr) ⟨_, hb', rfl⟩ h₁ hcs₁ at₁ auth₁
  · refine ⟨solo_ends (hquiet.free rentals_tidy h t) hnew draws_createBooking,
      fun s' c' hr hc' hf => ?_⟩
    have hcov : ∀ (σ : Pt Rentals) w, (plainly (E := AppError) rentalRules
      fun _ => True).write σ w → rentalRules.Covers σ.held w :=
      fun _ _ h => h
    -- alone the call is answered where the slot admits it and fails where not
    rcases solo_outcome hnew hcov (createBooking_alone hu hn) hr hc' hf with ⟨a, σ, -, ⟨hadm, hb⟩,
        hs⟩ | ⟨e, σ, -, ⟨hadm, hd⟩, hs⟩
    · rw [← hs]
      exact ⟨⟨fun _ => hadm, fun _ => hb⟩, fun hnot => absurd hadm hnot⟩
    · rw [← hs, hd]
      refine ⟨⟨?_, fun ha => absurd ha hadm⟩, fun _ => rfl⟩
      rintro ⟨k, b, hk, hk', -⟩
      rw [hk] at hk'
      cases hk'

/-- Two users and a slot with one seat, ten days ahead. -/
def sampleRentals : Db :=
  Store.overlay [.add .users 1 (), .add .users 2 (), .add .timeSlots 5 ⟨10, 36000, 1, false, 50000⟩]
    fun _ => ∅

/-- A studio in UTC, on day 0. -/
def sampleClock : StudioNow := ⟨fun date time => some (date * 86400 + time), 0⟩

/-- User 1 books the slot. -/
def sampleBooking : List (Event RentalReq) := .start 0 (.createBooking sampleClock 1 5 none) ::
    Event.steps 0 100 13

theorem slots_never_overbooked_sample :
    let s := rentals.after sampleBooking (.init sampleRentals)
    Sound s.db ∧ booked 5 s.db = 1 := by
  have h0 : Sound sampleRentals := by
    refine ⟨fun slot row hk => ?_, fun k k' b b' u slot hk => ?_⟩
    · have hcap : row.capacity = 1 := Store.get_all (d := sampleRentals) (t := RentalTbl.timeSlots)
        (P := fun _ r => r.capacity = 1)
        (by decide) hk
      rw [hcap]
      exact Int.zero_le_ofNat 1
    · cases hk
  exact ⟨(slots_never_overbooked h0 (Service.reachable_after _)).1, by decide +kernel⟩

end DreamFly.Rental
