import DreamFly.Rental.Bookings
import DreamFly.Txn.Plain

/-!
# What rental requests commit

The locking rules of venue rental: a booking that occupies a seat is added under the
`FOR NO KEY UPDATE` of its slot and under its entry of the partial unique index, and a
booking is never changed otherwise than to `cancelled`. So whoever holds the slot has
counted right (`Booked`).
-/

namespace DreamFly.Rental

open Txn Prog

/-! ## Rules -/

/-- Nobody else takes a seat of a locked slot. -/
def seatsOfSlot : Protect Rentals :=
  .noNew .bookings (fun (slot : Uuid) _ b => occupying slot b = true)
    (fun slot => .row .timeSlots slot) .noKeyUpdate
    .noKeyUpdate (by decide)

/-- Nobody else books for a user whose entry of the index is locked. -/
def entryOfUser : Protect Rentals :=
  .noNew .bookings (fun (x : Uuid × Uuid) _ b => active x.1 x.2 b = true)
    (fun x => .uniq (.userSlot x.1 x.2)) .update
    .update Mode.conflicts_update

def rentalRules : Discipline Rentals := (Protect.all [seatsOfSlot, entryOfUser]).discipline

variable {L : Locks (Res Rentals)} {C : Pt Rentals → Prop} {σ : Pt Rentals} {a b d d' : Db}

theorem covers_booking {k u slot : Uuid} {row : Booking}
    (hk : Holds L (.row (S := Rentals) .bookings k) .noKeyUpdate)
    (hu : row.userId = u) (hs : row.timeSlotId = slot)
      (hslot : Holds L (.row (S := Rentals) .timeSlots slot) .noKeyUpdate)
    (hentry : Holds L (.uniq (S := Rentals) (.userSlot u slot)) .update) :
    rentalRules.Covers L (.add .bookings k row) := by
  subst hu
  subst hs
  refine ⟨hk, fun P hP => ?_⟩
  simp only [List.mem_cons, List.not_mem_nil, or_false] at hP
  rcases hP with rfl | rfl
  · refine ⟨?_, fun k' f he => (nomatch he)⟩
    rintro k' row' he slot ho
    cases he
    simp only [occupying, decide_eq_true_eq] at ho
    exact ho.1 ▸ hslot
  · refine ⟨?_, fun k' f he => (nomatch he)⟩
    rintro k' row' he ⟨u, slot⟩ ho
    cases he
    simp only [active, decide_eq_true_eq] at ho
    obtain ⟨rfl, rfl, -⟩ := ho
    exact hentry

/-- An edit that can only cancel. -/
theorem covers_cancel {k : Uuid} (hk : Holds L (.row (S := Rentals) .bookings k) .noKeyUpdate) :
    rentalRules.Covers L (.mod .bookings k (onlyIf (fun b => b.status ≠ .cancelled) cancel)) := by
  have hfree : ∀ (r : Booking) u slot,
      (occupying slot (onlyIf (fun b => b.status ≠ .cancelled) cancel r) = true →
      occupying slot r = true) ∧
      (active u slot (onlyIf (fun b => b.status ≠ .cancelled) cancel r) = true →
        active u slot r = true) := by
    intro r u slot
    refine onlyIf_ind (P := fun r r' => (occupying slot r' = true → occupying slot r = true) ∧
      (active u slot r' = true → active u slot r = true)) (fun r _ => ?_) (fun r => ⟨id, id⟩) r
    simp [occupying, active, cancel, occupyingStatuses, BookingStatus.asStr]
  refine ⟨hk, fun P hP => ?_⟩
  simp only [List.mem_cons, List.not_mem_nil, or_false] at hP
  rcases hP with rfl | rfl
  · refine ⟨fun k' row he => (by cases he), ?_⟩
    rintro k' f he slot row ho
    cases he
    exact .inl ((hfree row 0 slot).1 ho)
  · refine ⟨fun k' row he => (by cases he), ?_⟩
    rintro k' f he ⟨u, slot⟩ row ho
    cases he
    exact .inl ((hfree row u slot).2 ho)

theorem covers_other {w : Write Rentals} (h : Holds L w.res .noKeyUpdate) (ht : w.tbl ≠ .bookings) :
    rentalRules.Covers L w := by
  refine ⟨h, fun P hP => ?_⟩
  simp only [List.mem_cons, List.not_mem_nil, or_false] at hP
  rcases hP with rfl | rfl
  all_goals
    refine ⟨?_, ?_⟩
    · rintro k row rfl; exact absurd rfl ht
    · rintro k f rfl; exact absurd rfl ht

/-- What was counted under the lock of the slot still bounds the count. -/
theorem booked_le {slot : Uuid} (h : rentalRules.rel L a b)
    (hh : Holds L (.row (S := Rentals) .timeSlots slot) .noKeyUpdate) :
    booked slot b ≤ booked slot a := by
  refine Store.count_le fun k r hk hp => ?_
  exact h.2 seatsOfSlot (by simp) k slot hh r hk hp

/-- An entry of the index that was free under its lock is still free. -/
theorem entry_free {u slot : Uuid} (h : rentalRules.rel L a b)
    (hh : Holds L (.uniq (S := Rentals) (.userSlot u slot)) .update)
    (ha : ∀ k r, a.get .bookings k = some r → active u slot r = false) {k : Uuid} {r : Booking}
    (hk : b.get .bookings k = some r) : active u slot r = false := by
  by_contra hp
  rw [Bool.not_eq_false] at hp
  obtain ⟨r', hr', hp'⟩ := h.2 entryOfUser (by simp) k (u, slot) hh r hk hp
  rw [ha k r' hr'] at hp'
  cases hp'

/-! ## Commits -/

/-- A committed booking: it went to a free seat, and the user had no other. -/
structure Booked (u slot : Uuid) (d d' : Db) : Prop where
  room : ∃ row, d.get .timeSlots slot = some row ∧ (booked slot d : ℤ) < row.capacity
  alone : ∀ k b, d.get .bookings k = some b → active u slot b = false
  added : ∃ k b m e, d.get .bookings k = none ∧ b.userId = u ∧ b.timeSlotId = slot ∧
    b.status = .confirmed ∧
    d' = (d.apply (.add .bookings k b)).apply (.add .outbox m e)

/-- A committed cancellation. -/
structure Cancelled (id : Uuid) (d d' : Db) : Prop where
  was : ∃ b m e, d.get .bookings id = some b ∧ b.status.isCancellable = true ∧
    d' = (d.apply (.mod .bookings id (onlyIf (fun b => b.status ≠ .cancelled) cancel))).apply
      (.add .outbox m e)

/-- A slot opened or closed. -/
def SlotSet (id : Uuid) (isClosed : Bool) (d d' : Db) : Prop :=
  d' = d.apply (.mod .timeSlots id (onlyIf (fun _ => true) fun s => { s with isClosed :=
    isClosed }))

def RentalReq.Leaves : RentalReq → Pt Rentals → Prop
  | .createBooking _ u slot _, σ => Booked u slot σ.now σ.db
  | .cancelBooking _ _ id, σ => Cancelled id σ.now σ.db
  | .updateSlot id isClosed, σ => SlotSet id isClosed σ.now σ.db

theorem insertDomainEventTx_spec (K : Rely Rentals) {F : AppError → Prop} (e : BookingEvent) :
    Yields (rentalRules.under K) (plainly rentalRules C) σ (insertDomainEventTx e) F fun _ σ' =>
      ∃ m, σ'.db = σ.db.apply (.add .outbox m e) := by
  refine Yields.bind (Yields.insert fun n => covers_other (holds_acquire _ _ _)
    (by simp [Write.tbl])) fun n σ₁ _ ⟨_, _, _, h₁⟩ =>
    .pure ⟨n, by rw [h₁]; rfl⟩

theorem occupySlotTx_plain {slot : Uuid} : Plain rentalRules C σ (occupySlotTx slot) fun o σ' =>
    σ'.db = σ.db ∧
    ∀ hold, o = some hold → hold.1 = slot ∧
      Holds σ'.held (.row (S := Rentals) .timeSlots slot) .noKeyUpdate ∧
      σ.db.get .timeSlots slot = some hold.2 ∧ (booked slot σ.db : ℤ) < hold.2.capacity := by
  refine Yields.bind (Yields.selectFor (m := .noKeyUpdate) (by decide) trivial)
    fun r σ₁ _ ⟨hd₁, hr⟩ => ?_
  cases r with
  | none => exact .pure ⟨hd₁, fun _ h => (nomatch h)⟩
  | some row =>
    obtain ⟨hh, hg, -⟩ := hr row rfl
    refine Yields.bind (R := fun n σ' => σ' = σ₁ ∧ booked slot σ.db ≤ n)
      (.read fun v _ hv => ⟨rfl, hd₁ ▸ booked_le hv hh⟩)
      fun n σ₂ _ ⟨h₂, hn⟩ => ?_
    subst h₂
    split
    · exact .pure ⟨hd₁, fun _ h => (nomatch h)⟩
    next hfull =>
      refine .pure ⟨hd₁, fun hold he => ?_⟩
      cases he
      simp only [ge_iff_le, not_le] at hfull
      exact ⟨rfl, hh, hg, lt_of_le_of_lt (by exact_mod_cast hn) hfull⟩

theorem insertOccupyingBookingTx_plain {hold : Uuid × TimeSlot} {u : Uuid} {note : Option String}
    {taken : AppError}
    (hh : Holds σ.held (.row (S := Rentals) .timeSlots hold.1) .noKeyUpdate) :
    Plain rentalRules C σ (insertOccupyingBookingTx hold u note taken) fun r σ' =>
      (∀ k b, σ.db.get .bookings k = some b → active u hold.1 b = false) ∧
        σ.now.get .bookings r.1 = none ∧
      r.2.userId = u ∧ r.2.timeSlotId = hold.1 ∧ r.2.status = .confirmed ∧
      σ'.db = σ.db.apply (.add .bookings r.1 r.2) := by
  refine Yields.bind (Yields.claim trivial) fun taken σ₁ hl₁ ⟨h₁, v, _, hv, ht⟩ => ?_
  have hentry : Holds σ₁.held (.uniq (S := Rentals) (.userSlot u hold.1)) .update := by
    rw [h₁]; exact holds_acquire _ _ _
  have hd₁ : σ₁.db = σ.db := by rw [h₁]; rfl
  refine Yields.bind (R := fun _ σ' => taken = false ∧ σ' = σ₁)
    (.ensure (fun h => ⟨by simpa using h, rfl⟩) trivial)
    fun _ σ₂ _ ⟨hfree, h₂⟩ => ?_
  subst h₂
  have halone : ∀ k b, σ.db.get .bookings k = some b → active u hold.1 b = false := by
    refine fun k b hk => entry_free hv hentry (fun k r hr => ?_) hk
    rw [ht] at hfree
    by_contra hp
    have hm : (k, r) ∈ v.sel .bookings fun _ b => active u hold.1 b :=
      Store.mem_sel.2 ⟨hr, by simpa using hp⟩
    simp [List.isEmpty_iff, List.ne_nil_of_mem hm] at hfree
  refine Yields.bind (Yields.references trivial trivial) fun _ σ₃ hl₃ h₃ => ?_
  have hd₃ : σ₃.db = σ.db := by rw [h₃, ← hd₁]; rfl
  refine Yields.bind (Yields.insert fun n => covers_booking (holds_acquire _ _ _) rfl rfl
    (((hl₁.trans hl₃).holds hh).mono (subset_acquire _ _ _))
      ((hl₃.holds hentry).mono (subset_acquire _ _ _)))
    fun n σ₄ hl₄ ⟨hn, _, _, h₄⟩ => .pure ⟨halone, ?_, rfl, rfl, rfl, ?_⟩
  · rw [hl₃.now, hl₁.now] at hn; exact hn
  · rw [h₄, ← hd₃]; rfl

theorem cancelOccupyingBookingTx_plain {id : Uuid} :
    Plain rentalRules C σ (cancelOccupyingBookingTx id) fun o σ' =>
    o.isSome = true → σ'.db = σ.db.apply (.mod .bookings id
      (onlyIf (fun b => b.status ≠ .cancelled) cancel)) := by
  refine Yields.bind (Yields.selectFor (m := .noKeyUpdate) (by decide) trivial)
    fun r σ₁ _ ⟨hd₁, hr⟩ => ?_
  cases r with
  | none => exact .pure fun h => (nomatch h)
  | some b =>
    obtain ⟨hh, -, -⟩ := hr b rfl
    refine Yields.bind (Yields.lockRes trivial) fun _ σ₂ hl₂ h₂ => ?_
    refine Yields.bind (Yields.put (covers_cancel (hl₂.holds hh))) fun _ σ₃ _ h₃ =>
      .pure fun _ => ?_
    rw [h₃, h₂, ← hd₁]; rfl

theorem checkDayAheadTx_quiet {at' : StudioNow} {auth : AuthUser} {slot : Uuid} :
    Plain.Quiet rentalRules C (checkDayAheadTx at' auth slot) := by
  intro σ
  unfold checkDayAheadTx
  split
  · exact .pure rfl
  · refine Yields.bind (Yields.selectFor (m := .share) (by decide) trivial)
      fun r σ₁ _ ⟨hd₁, _⟩ => ?_
    refine Yields.bind (Plain.Quiet.orFail _ _ _) fun row σ₂ _ hd₂ => ?_
    exact plain_checked fun _ _ => hd₂.trans hd₁

/-- **Every rental request commits what `Leaves` says.** -/
theorem RentalReq.commits (q : RentalReq) : Commits rentalRules q.Leaves (rentals.prog q)
    (.begin d d' false) := by
  cases q with
  | createBooking at' u slot note =>
    refine commits_map (commits_atomically (R := fun _ σ' => Booked u slot σ'.now σ'.db) ?_
      fun _ _ _ h => h)
    refine Yields.bind occupySlotTx_plain fun o σ₁ hl₁ ⟨hd₁, ho⟩ => ?_
    refine Yields.bind (R := fun hold σ' => o = some hold ∧ σ' = σ₁)
      (.orFail (fun _ h => ⟨h, rfl⟩) trivial)
      fun hold σ₂ _ ⟨he, h₂⟩ => ?_
    subst h₂
    -- the hold is the locked slot, open and with room
    obtain ⟨hslot, hh, hg, hroom⟩ := ho hold he
    refine Yields.bind (R := fun _ σ' => σ' = σ₂) (plain_checked fun _ _ => rfl) fun _ σ₃ _ h₃ => ?_
    subst h₃
    have hσ : σ₃.db = σ₃.now := by rw [hd₁, hl₁.now]; rfl
    refine Yields.bind (insertOccupyingBookingTx_plain (hslot ▸ hh))
      fun r σ₄ hl₄ ⟨halone, hnew, hu, hs, hst, hd₄⟩ => ?_
    refine Yields.bind (insertDomainEventTx_spec (.free Rentals) _)
      fun _ σ₅ hl₅ ⟨m, hd₅⟩ => .pure ?_
    have hnow : σ₅.now = σ₃.db := by rw [hl₅.now, hl₄.now, hσ]
    rw [hnow]
    rw [hslot] at halone hs
    rw [← hσ] at hnew
    rw [← hd₁] at hg hroom
    exact ⟨⟨hold.2, hg, hroom⟩, halone, r.1, r.2, m, _, hnew, hu, hs, hst, by rw [hd₅, hd₄]⟩
  | cancelBooking at' auth id =>
    refine commits_map (commits_atomically (R := fun _ σ' => Cancelled id σ'.now σ'.db) ?_
      fun _ _ _ h => h)
    refine Yields.bind (Yields.selectFor (m := .update) (by decide) trivial)
      fun r σ₁ hl₁ ⟨hd₁, hr⟩ => ?_
    refine Yields.bind (R := fun b σ' => r = some b ∧ σ' = σ₁)
      (.orFail (fun _ h => ⟨h, rfl⟩) trivial) fun b σ₂ _ ⟨he, h₂⟩ => ?_
    subst h₂
    obtain ⟨-, hg, -⟩ := hr b he
    refine Yields.bind (R := fun _ σ' => σ' = σ₂) (plain_checked fun _ _ => rfl) fun _ σ₃ _ h₃ => ?_
    subst h₃
    refine Yields.bind (R := fun _ σ' => b.status.isCancellable = true ∧ σ' = σ₃)
      (.ensure (fun h => ⟨h, rfl⟩) trivial)
      fun _ σ₄ _ ⟨hcan, h₄⟩ => ?_
    subst h₄
    refine Yields.bind (checkDayAheadTx_quiet _) fun _ σ₅ hl₅ hd₅ => ?_
    refine Yields.bind cancelOccupyingBookingTx_plain fun o σ₆ hl₆ ho => ?_
    refine Yields.bind (R := fun _ σ' => o.isSome = true ∧ σ' = σ₆)
      (.orFail (fun _ h => ⟨by rw [h]; rfl, rfl⟩) trivial)
      fun updated σ₇ _ ⟨hsome, h₇⟩ => ?_
    subst h₇
    refine Yields.bind (insertDomainEventTx_spec (.free Rentals) _) fun _ σ₈ hl₈ ⟨m, hd₈⟩ =>
      .pure ⟨b, m, .bookingCancelled id updated.userId updated.timeSlotId, ?_, hcan, ?_⟩
    · rw [hl₈.now, hl₆.now, hl₅.now, hl₁.now]; exact hg
    · rw [hd₈, ho hsome, hd₅, hd₁, hl₈.now, hl₆.now, hl₅.now, hl₁.now]; rfl
  | updateSlot id isClosed =>
    refine commits_map (commits_atomically (R := fun _ σ' => SlotSet id isClosed σ'.now σ'.db) ?_
      fun _ _ _ h => h)
    refine Yields.bind (Yields.updateRow trivial fun σ' _ hh => covers_other hh
      (by simp [Write.tbl])) fun o σ₁ hl₁ h₁ => ?_
    refine .orFail (fun slot ho => ?_) trivial
    rcases h₁ with ⟨hn, -⟩ | ⟨row, -, -, -, -, hd₁⟩
    · rw [hn] at ho; cases ho
    · unfold SlotSet
      rw [hd₁, hl₁.now]; rfl

end DreamFly.Rental
