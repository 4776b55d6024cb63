import DreamFly.Shop.Calendar
import DreamFly.Shop.Catalogue
import Mathlib.Order.Bounds.Defs

/-!
# Calendar arithmetic

* `sessions_window`: a listing of sessions is refused or has a valid window, just where the
  default end does not fall behind the last day of the calendar.
* `entitlement_exact`: the grant of a purchase is computed exactly, just where the session
  count times the quantity is an `i32` and the expiry falls in the calendar.
-/

namespace DreamFly

open Txn

variable {parseDate : String → Option Date} {today start stop : Date} {query : SessionsRangeQuery}
  {courseId : Uuid} {d : Db}

/-! ## The window of a listing -/

/-- The 4xx answers of the listing. -/
inductive Refusal : AppError → Prop
  | course : Refusal (.notFound "course not found")
  | date (s : String) : Refusal (.badRequest s!"invalid date format, expected YYYY-MM-DD: {s}")
  | order : Refusal (.validation "to must not be before from")
  | length : Refusal (.validation s!"date range must not exceed {maxRangeDays} days")

/-- A listing as it should end: refused, or with a window in order and of at most 60 days.
It does not panic. -/
def ValidListing (courseId : Uuid) : Option (Except AppError MaterializedRange) → Prop
  | none => False
  | some (.error e) => Refusal e
  | some (.ok range) =>
    range.courseIds = [courseId] ∧ range.fromDate.day ≤ range.toDate.day ∧
    range.toDate.daysSince range.fromDate ≤ maxRangeDays

/-- The date that the window starts from. -/
def startOf (parseDate : String → Option Date) (today : Date) (query : SessionsRangeQuery) : Date :=
  (query.fromDate.bind parseDate).getD today

/-- The two checks leave the valid windows. -/
theorem check_valid : ValidListing courseId
    ((do OrPanic.check (checkWindow start stop); return ⟨[courseId], start, stop⟩ :
      OrPanic MaterializedRange)).run := by
  unfold checkWindow
  split
  · exact .order
  · split
    · exact .length
    · rename_i horder hlength
      exact ⟨rfl, by simp only; omega, by simp only; omega⟩

/-- A string for `from` that is no date. -/
def BadStart (parseDate : String → Option Date) (query : SessionsRangeQuery) : Prop :=
  ∃ s, query.fromDate = some s ∧ parseDate s = none

theorem start_cases (parseDate : String → Option Date) (today : Date) (query : SessionsRangeQuery) :
    (¬ BadStart parseDate query ∧ windowStart parseDate today query =
      pure (startOf parseDate today query)) ∨
    (BadStart parseDate query ∧ ∃ e, Refusal e ∧ windowStart parseDate today query = throw e) := by
  unfold windowStart startOf BadStart
  cases hq : query.fromDate with
  | none => exact .inl ⟨by simp, rfl⟩
  | some s =>
    unfold parseQueryDate
    cases hs : parseDate s with
    | some date => exact .inl ⟨by simp [hs], by simp [hs]⟩
    | none => exact .inr ⟨⟨s, rfl, hs⟩, _, .date s, by simp only [hs]⟩

/-- The end of the window is a date, is refused, or falls behind the calendar. -/
theorem stop_cases (parseDate : String → Option Date) (start : Date) (query : SessionsRangeQuery) :
    (query.toDate ≠ none ∧ ((∃ stop, windowStop parseDate start query = pure stop) ∨
      ∃ e, Refusal e ∧ windowStop parseDate start query = throw e)) ∨
    (query.toDate = none ∧ start.day + defaultRangeDays ≤ maxDay ∧
      ∃ stop, windowStop parseDate start query = pure stop) ∨
    (query.toDate = none ∧ maxDay < start.day + defaultRangeDays ∧
      (windowStop parseDate start query).run = none) := by
  unfold windowStop
  cases query.toDate with
  | some s =>
    refine .inl ⟨by simp, ?_⟩
    unfold parseQueryDate
    simp only
    cases parseDate s with
    | some date => exact .inl ⟨date, rfl⟩
    | none => exact .inr ⟨_, .date s, rfl⟩
  | none =>
    have hfirst := start.first
    have hdays : defaultRangeDays = 28 := rfl
    by_cases h : start.day + defaultRangeDays ≤ maxDay
    · refine .inr (.inl ⟨rfl, h, ⟨start.day + defaultRangeDays, by omega, h⟩, ?_⟩)
      unfold Date.addDays
      rw [dif_pos ⟨by omega, h⟩]
      rfl
    · refine .inr (.inr ⟨rfl, by omega, ?_⟩)
      unfold Date.addDays
      rw [dif_neg fun hr => h hr.2]
      rfl

/-- **Listing windows are valid, as far as the default end is a date.** For every pair of
optional strings and every today, a listing of sessions is refused, or uses a window in
order and of at most 60 days, and does not panic, just where the course does not exist,
`from` is no date, `to` is named, or the start is at least 28 days before the calendar's
last day. -/
theorem sessions_window :
    ValidListing courseId (listCourseSessions parseDate today courseId query d).run ↔
      d.get .courses courseId = none ∨ BadStart parseDate query ∨ query.toDate ≠ none ∨
        (startOf parseDate today query).day + defaultRangeDays ≤ maxDay := by
  unfold listCourseSessions
  cases hc : d.get .courses courseId with
  | none => exact iff_of_true .course (.inl rfl)
  | some course =>
    rcases start_cases parseDate today query with ⟨hgood, hstart⟩ | ⟨hbad, e, he, hstart⟩
    swap
    · rw [hstart]
      exact iff_of_true he (.inr (.inl hbad))
    rw [hstart]
    change ValidListing courseId (do
      let stop ← windowStop parseDate (startOf parseDate today query) query
      OrPanic.check (checkWindow (startOf parseDate today query) stop)
      return ⟨[courseId], startOf parseDate today query, stop⟩ : OrPanic MaterializedRange).run ↔ _
    rcases stop_cases parseDate (startOf parseDate today query) query with
      ⟨hto, ⟨stop, hstop⟩ | ⟨e, he, hstop⟩⟩ | ⟨-, hfits, stop, hstop⟩ | ⟨hto, hpast, hstop⟩
    · rw [hstop]
      exact iff_of_true check_valid (.inr (.inr (.inl hto)))
    · rw [hstop]
      exact iff_of_true he (.inr (.inr (.inl hto)))
    · rw [hstop]
      exact iff_of_true check_valid (.inr (.inr (.inr hfits)))
    · -- the addition panics, and so does the request
      refine iff_of_false (fun hvalid => ?_) ?_
      · rw [ExceptT.run_bind, hstop] at hvalid
        exact hvalid
      · rintro (hnone | hbad | hsome | hfits)
        · cases hnone
        · exact hgood hbad
        · exact hsome hto
        · omega

/-- **The last day of the calendar as the start**, and no end: the request panics. -/
theorem window_panics :
    let parseDate := fun s => if s = "+262142-12-31" then
      some (⟨maxDay, by decide, Int.le_refl _⟩ : Date) else none
    let d : Db := Store.overlay [.add .courses 4 ⟨"yoga", 10000, 2, none, none, true, none⟩]
      fun _ => ∅
    (listCourseSessions parseDate ⟨20454, by decide, by decide⟩ 4 ⟨some "+262142-12-31",
      none⟩ d).run = none := by
  decide

/-! ## Entitlements -/

section Entitlement

variable {p p' : Product} {quantity now n days : ℤ} {grant : EntitlementGrant}

/-- A product whose purchase grants something. -/
abbrev Product.Entitles (p : Product) : Prop := p.productType = .membership ∨
    p.productType = .ticket

theorem Product.stored_ok (h : p.stored = .ok p') : p'.checks = true := by
  unfold Product.stored at h
  split at h
  · cases h
    assumption
  · cases h

/-- The rows that the endpoints admit pass the CHECKs of the table. -/
theorem Product.Admitted.checks (h : p.Admitted) : p.checks = true := by
  induction h with
  | created hv h =>
    obtain ⟨productType, -, h⟩ := bind_eq_ok h
    exact Product.stored_ok h
  | updated hp hv h ih =>
    obtain ⟨productType, -, h⟩ := bind_eq_ok h
    exact Product.stored_ok h
  | stocked hp stock h ih =>
    simp only [Product.checks, decide_eq_true_eq] at ih ⊢
    refine ⟨ih.1, ?_, ih.2.2⟩
    cases stock with
    | none => rfl
    | some n => exact decide_eq_true (of_decide_eq_true h).1

theorem Product.Admitted.count_pos (h : p.Admitted) (hn : p.sessionCount = some n) : 0 < n := by
  have hc := h.checks
  rw [Product.checks, decide_eq_true_eq, hn] at hc
  exact of_decide_eq_true hc.2.2.2

theorem Product.Admitted.days_pos (h : p.Admitted) (hn : p.validDays = some n) : 0 < n := by
  have hc := h.checks
  rw [Product.checks, decide_eq_true_eq, hn] at hc
  exact of_decide_eq_true hc.2.2.1

theorem quantity_range (h : p.ensureLineQuantity quantity = .ok ()) : 1 ≤ quantity ∧
    quantity ≤ maxLineQuantity := by
  obtain ⟨⟨⟩, hq, -⟩ := bind_eq_ok h
  unfold ensureQuantityInRange at hq
  split at hq
  · assumption
  · cases hq

/-- The total of a grant is an `i32` just where the count is at most the largest `i32`
divided by the quantity. -/
theorem total_fits (hn : 0 < n) (hq : 1 ≤ quantity) : fitsI32 (n * quantity) = true ↔
    n ≤ i32Max / quantity := by
  have hpos : 0 < n * quantity := Int.mul_pos hn (by omega)
  rw [Int.le_ediv_iff_mul_le (by omega), fitsI32, decide_eq_true_eq]
  have hmax : 0 ≤ i32Max := by decide
  omega

/-- The expiry is in the calendar just where the days left in it reach. -/
theorem expiry_fits (hnow : InCalendar now) (hn : 0 < days) : InCalendar (now + days * day) ↔
    days ≤ maxDay - dayOf now := by
  have hday : dayOf (now + days * day) = dayOf now + days := Int.add_mul_ediv_right _ _ (by decide)
  have hfirst := hnow.1
  unfold InCalendar
  rw [hday]
  omega

theorem wrapI32_eq (h : fitsI32 n = true) : wrapI32 n = n := by
  rw [fitsI32, decide_eq_true_eq] at h
  unfold wrapI32
  rw [i32Max] at h ⊢
  omega

/-- A grant as it should be: computed without a wrap or a panic, the total the exact
product and positive, the expiry `valid_days` after the purchase and in the calendar. -/
structure Grants (p : Product) (quantity now : ℤ) : Prop where
  checked : entitlementPlanChecked p quantity now = some (entitlementPlan p quantity now)
  total : ∀ grant, entitlementPlan p quantity now = some grant → ∀ n, p.sessionCount = some n →
    grant.totalSessions = some (n * quantity) ∧ grant.remainingSessions = some (n * quantity) ∧
    0 < n * quantity
  expiry : ∀ grant, entitlementPlan p quantity now = some grant → ∀ days, p.validDays = some days →
    grant.expiresAt = some (now + days * day) ∧ InCalendar (now + days * day)

/-- The bounds under which a grant is exact. -/
structure GrantFits (p : Product) (quantity now : ℤ) : Prop where
  total : ∀ n, p.sessionCount = some n → n ≤ i32Max / quantity
  expiry : ∀ days, p.validDays = some days → days ≤ maxDay - dayOf now

theorem checkedMul_fits (h : fitsI32 (n * quantity) = true) :
    checkedMulI32 n quantity = some (wrapI32 (n * quantity)) := by
  rw [checkedMulI32, if_pos h, wrapI32_eq h]

theorem addDays_some (h : InCalendar (now + days * day)) :
    addDays now days = some (now + days * day) := if_pos h

theorem addDays_none (h : ¬ InCalendar (now + days * day)) : addDays now days = none := if_neg h

theorem mapM_addDays {validDays : Option ℤ} (h : ∀ n, validDays = some n →
    addDays now n = some (now + n * day)) :
    validDays.mapM (addDays now) = some (validDays.map fun n => now + n * day) := by
  cases validDays with
  | none => rfl
  | some n => simp [Option.mapM_some, h n rfl]

theorem mapM_past (h : ¬ InCalendar (now + days * day)) :
    (some days).mapM (addDays now) = none := by
  simp [Option.mapM_some, addDays_none h]

/-- Within the bounds no operation wraps or panics. -/
theorem checked_of_fits (hp : p.Admitted) (hq : 1 ≤ quantity) (hnow : InCalendar now)
    (h : p.Entitles → GrantFits p quantity now) :
    entitlementPlanChecked p quantity now = some (entitlementPlan p quantity now) := by
  unfold entitlementPlanChecked entitlementPlan
  by_cases he : p.Entitles
  swap
  · rw [if_neg he, if_neg he]
  rw [if_pos he, if_pos he]
  have hcount : ∀ n, p.sessionCount = some n → checkedMulI32 n quantity =
      some (wrapI32 (n * quantity)) := fun n hn =>
    checkedMul_fits ((total_fits (hp.count_pos hn) hq).2 ((h he).total n hn))
  have hdays : ∀ n, p.validDays = some n → addDays now n = some (now + n * day) := fun n hn =>
    addDays_some ((expiry_fits hnow (hp.days_pos hn)).2 ((h he).expiry n hn))
  cases hs : p.sessionCount with
  | none =>
    cases hv : p.validDays with
    | none => rfl
    | some days =>
      simp only [hdays days hv]
      rfl
  | some n =>
    simp only [hcount n hs, mapM_addDays hdays]
    rfl

/-- Outside them one does. -/
theorem fits_of_checked (hp : p.Admitted) (hq : 1 ≤ quantity) (hnow : InCalendar now)
    (he : p.Entitles)
    (h : entitlementPlanChecked p quantity now = some (entitlementPlan p quantity now)) :
    GrantFits p quantity now := by
  unfold entitlementPlanChecked at h
  rw [if_pos he] at h
  refine ⟨fun n hn => ?_, fun days hd => ?_⟩
  · refine (total_fits (hp.count_pos hn) hq).1 ?_
    -- a product beyond `i32` has no checked result
    by_contra hwrap
    have hnone : checkedMulI32 n quantity = none := if_neg hwrap
    rw [hn] at h
    simp only [hnone] at h
    cases h
  · refine (expiry_fits hnow (hp.days_pos hd)).1 ?_
    -- a day beyond the calendar has none either
    by_contra hpast
    rw [hd] at h
    cases hs : p.sessionCount with
    | none =>
      rw [hs] at h
      simp only [addDays_none hpast] at h
      cases h
    | some n =>
      rw [hs] at h
      simp only [mapM_past hpast] at h
      cases hm : checkedMulI32 n quantity with
      | none =>
        rw [hm] at h
        cases h
      | some total =>
        rw [hm] at h
        cases h

/-- **A purchase grants exactly, as far as its product is within bounds.** For every product
row that creations and edits admit, every quantity of a line and every instant of the
calendar, the plan of the entitlement neither wraps nor panics, its total is the exact
product and positive and its expiry is in the calendar, just where, if the product entitles
to anything, the session count is at most the largest `i32` divided by the quantity, and
the valid days are at most the days left in the calendar. -/
theorem entitlement_exact (hp : p.Admitted) (hq : p.ensureLineQuantity quantity = .ok ())
    (hnow : InCalendar now) :
    Grants p quantity now ↔ (p.Entitles → GrantFits p quantity now) := by
  obtain ⟨hone, -⟩ := quantity_range hq
  refine ⟨fun h he => fits_of_checked hp hone hnow he h.checked,
    fun h => ⟨checked_of_fits hp hone hnow h, ?_, ?_⟩⟩
  · intro grant hgrant n hn
    unfold entitlementPlan at hgrant
    by_cases he : p.Entitles
    swap
    · rw [if_neg he] at hgrant
      cases hgrant
    rw [if_pos he, hn] at hgrant
    cases hgrant
    have hpos := hp.count_pos hn
    have hfits := (total_fits hpos hone).2 ((h he).total n hn)
    rw [wrapI32_eq hfits]
    exact ⟨rfl, rfl, Int.mul_pos hpos (by omega)⟩
  · intro grant hgrant days hd
    unfold entitlementPlan at hgrant
    by_cases he : p.Entitles
    swap
    · rw [if_neg he] at hgrant
      cases hgrant
    rw [if_pos he, hd] at hgrant
    have hin := (expiry_fits hnow (hp.days_pos hd)).2 ((h he).expiry days hd)
    cases hs : p.sessionCount with
    | none =>
      rw [hs] at hgrant
      cases hgrant
      exact ⟨rfl, hin⟩
    | some n =>
      rw [hs] at hgrant
      cases hgrant
      exact ⟨rfl, hin⟩

/-- Rows within the ranges of `POST /products` are within bounds, up to ten years before
the end of the calendar. -/
theorem GrantFits.of_ranges (hq : p.ensureLineQuantity quantity = .ok ())
    (hnow : dayOf now ≤ maxDay - 3650)
    (hcount : ∀ n, p.sessionCount = some n → n ≤ 1000) (hdays : ∀ n, p.validDays = some n →
      n ≤ 3650) :
    GrantFits p quantity now := by
  obtain ⟨hone, hmost⟩ := quantity_range hq
  refine ⟨fun n hn => ?_, fun days hd => ?_⟩
  · have hn1000 := hcount n hn
    rw [Int.le_ediv_iff_mul_le (by omega)]
    calc n * quantity ≤ 1000 * quantity := Int.mul_le_mul_of_nonneg_right hn1000 (by omega)
      _ ≤ 1000 * maxLineQuantity := by omega
      _ ≤ i32Max := by decide
  · have := hdays days hd
    omega

/-- A ticket of ten sessions, bought three times. -/
theorem entitlement_exact_ticket : Grants ⟨"ticket", .ticket, 30000, none, some 90, some 10,
    true⟩ 3 0 := by
  have hcreated : Product.Admitted ⟨"ticket", .ticket, 30000, none, some 90, some 10, true⟩ :=
    @Product.Admitted.created ⟨"ticket", "ticket", 30000, none, some 90, some 10⟩ _ (by decide) rfl
  refine (entitlement_exact hcreated rfl (by decide)).2 fun _ => ⟨fun n hn => ?_, fun days hd => ?_⟩
  · cases hn
    decide
  · cases hd
    decide

/-- **A ticket edited to the largest session count, bought twice**: the edit is admitted,
and the total wraps to `-2`. -/
theorem entitlement_wraps :
    ∃ p : Product, p.Admitted ∧ p.ensureLineQuantity 2 = .ok () ∧
      entitlementPlanChecked p 2 0 = none ∧
      entitlementPlan p 2 0 = some ⟨some (-2), some (-2), none⟩ := by
  have hcreated : Product.Admitted ⟨"ticket", .ticket, 30000, none, none, some 10, true⟩ :=
    @Product.Admitted.created ⟨"ticket", "ticket", 30000, none, none, some 10⟩ _ (by decide) rfl
  have hedited : Product.Admitted ⟨"ticket", .ticket, 30000, none, none, some 2147483647, true⟩ :=
    @Product.Admitted.updated ⟨none, none, none, none, none, some (some 2147483647),
      none⟩ _ _ hcreated (by decide) rfl
  exact ⟨_, hedited, rfl, by decide, by decide⟩

end Entitlement

end DreamFly
