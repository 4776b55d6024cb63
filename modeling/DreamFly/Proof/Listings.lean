import DreamFly.Schedule.Slots
import DreamFly.Lists.Stretches
import DreamFly.Txn.Answer
import Mathlib.Algebra.Order.Group.Basic
import Mathlib.Tactic.IntervalCases

/-!
# Listings of time slots

A month is listed day by day, a day by its slots. The two listings show the same, and no
slot is missing from the listings of the months or in two of them.

* `monthFirst`: the first days of the months, in one row; they increase.
* `groupByDate_stretches`: the days of a listing are the stretches of one date.
* `monthly_schedule`: all of it.
-/

namespace DreamFly.Schedule

open Txn Prog

/-! ## The first days of the months -/

/-- The first day of a month, counted from the year 0. -/
def monthFirst (i : ℤ) : ℤ := yearStart (i / 12) + daysBefore (isLeap (i / 12)) (i % 12 + 1)

theorem yearStart_succ (y : ℤ) : yearStart (y + 1) = yearStart y + if isLeap y then
    366 else 365 := by
  have h4 : (y + 1 - 1) / 4 = (y - 1) / 4 + if y % 4 = 0 then 1 else 0 := by omega
  have h100 : (y + 1 - 1) / 100 = (y - 1) / 100 + if y % 100 = 0 then 1 else 0 := by omega
  have h400 : (y + 1 - 1) / 400 = (y - 1) / 400 + if y % 400 = 0 then 1 else 0 := by omega
  have hleap : isLeap y = true ↔ y % 4 = 0 ∧ (y % 100 ≠ 0 ∨ y % 400 = 0) := by simp [isLeap]
  unfold yearStart
  rw [h4, h100, h400]
  by_cases hl : isLeap y = true
  · rw [if_pos hl]
    rw [hleap] at hl
    omega
  · rw [if_neg hl]
    rw [hleap] at hl
    omega

/-- The days before a month of the same year increase from month to month. -/
theorem daysBefore_lt (leap : Bool) {m : ℤ} (h1 : 1 ≤ m) (h2 : m < 12) :
    daysBefore leap m < daysBefore leap (m + 1) := by
  cases leap
  all_goals
    interval_cases m <;> decide

theorem daysBefore_last (leap : Bool) : daysBefore leap 12 = if leap then 335 else 334 := by
  cases leap <;> rfl

theorem monthFirst_lt (i : ℤ) : monthFirst i < monthFirst (i + 1) := by
  unfold monthFirst
  by_cases h : i % 12 = 11
  · -- from December to January
    have hq : (i + 1) / 12 = i / 12 + 1 := by omega
    have hr : (i + 1) % 12 + 1 = 1 := by omega
    have hd : i % 12 + 1 = 12 := by omega
    have hfirst : daysBefore (isLeap (i / 12 + 1)) 1 = 0 := by cases isLeap (i / 12 + 1) <;> rfl
    rw [hq, hr, hd, yearStart_succ, daysBefore_last, hfirst]
    split <;> omega
  · have hq : (i + 1) / 12 = i / 12 := by omega
    have hr : (i + 1) % 12 + 1 = i % 12 + 1 + 1 := by omega
    rw [hq, hr]
    have hlt := daysBefore_lt (isLeap (i / 12)) (m := i % 12 + 1) (by omega) (by omega)
    omega

theorem monthFirst_le {i j : ℤ} (h : i ≤ j) : monthFirst i ≤ monthFirst j := by
  obtain ⟨n, hn⟩ := Int.eq_ofNat_of_zero_le (by omega : 0 ≤ j - i)
  have hj : j = i + n := by omega
  subst hj
  clear h hn
  induction n with
  | zero => simp
  | succ n ih =>
    have hstep := monthFirst_lt (i + n)
    have hs : i + ((n + 1 : ℕ) : ℤ) = i + n + 1 := by omega
    rw [hs]
    omega

/-- The days of a month are those from its first day up to the first of the next one. -/
theorem monthBounds_eq {year month : ℤ} (hy : -262143 ≤ year ∧ year < 262142) (hm : 1 ≤ month ∧
    month ≤ 12) :
    monthBounds year month = some (monthFirst (12 * year + (month - 1)),
      monthFirst (12 * year + (month - 1) + 1) - 1) := by
  have hfirst : ∀ y m : ℤ, -262143 ≤ y → y ≤ 262142 → 1 ≤ m → m ≤ 12 →
      firstOfMonth y m = some (monthFirst (12 * y + (m - 1))) := by
    intro y m h1 h2 h3 h4
    have hq : (12 * y + (m - 1)) / 12 = y := by omega
    have hr : (12 * y + (m - 1)) % 12 + 1 = m := by omega
    rw [firstOfMonth, if_pos ⟨h1, h2, h3, h4⟩, monthFirst, hq, hr]
  unfold monthBounds
  rw [hfirst year month hy.1 (by omega) hm.1 hm.2]
  by_cases h : month = 12
  · have hnext : 12 * year + (month - 1) + 1 = 12 * (year + 1) + (1 - 1) := by omega
    rw [nextMonthFirst, if_pos h, hfirst (year + 1) 1 (by omega) (by omega) (by omega)
      (by omega), hnext]
    rfl
  · have hnext : 12 * year + (month - 1) + 1 = 12 * year + (month + 1 - 1) := by omega
    rw [nextMonthFirst, if_neg h, hfirst year (month + 1) (by omega) (by omega) (by omega)
      (by omega), hnext]
    rfl

/-- Steps upward leave no gap. -/
theorem exists_step {f : ℤ → ℤ} {a x : ℤ} (n : ℕ) (ha : f a ≤ x) (hx : x < f (a + n)) : ∃ i, a ≤ i ∧
    i < a + n ∧ f i ≤ x ∧ x < f (i + 1) := by
  induction n with
  | zero =>
    rw [Nat.cast_zero, add_zero] at hx
    omega
  | succ n ih =>
    by_cases hn : x < f (a + n)
    · obtain ⟨i, h1, h2, h3⟩ := ih hn
      exact ⟨i, h1, by omega, h3⟩
    · refine ⟨a + n, by omega, by omega, by omega, ?_⟩
      rw [add_assoc]
      exact_mod_cast hx

/-- Every day of the years from 1970 to 2100 is in one month of them. -/
theorem exists_month {x : ℤ} (h1 : yearStart 1970 ≤ x) (h2 : x < yearStart 2101) :
    ∃ year month, 1970 ≤ year ∧ year ≤ 2100 ∧ 1 ≤ month ∧ month ≤ 12 ∧
      monthFirst (12 * year + (month - 1)) ≤ x ∧ x < monthFirst (12 * year + (month - 1) + 1) := by
  have hlow : monthFirst 23640 = yearStart 1970 := by decide
  have hhigh : monthFirst (23640 + (1572 : ℕ)) = yearStart 2101 := by decide
  obtain ⟨i, hi1, hi2, hi3, hi4⟩ := exists_step (f := monthFirst) (a := 23640) 1572 (hlow ▸ h1)
    (hhigh ▸ h2)
  have hi : 12 * (i / 12) + (i % 12 + 1 - 1) = i := by omega
  refine ⟨i / 12, i % 12 + 1, by omega, by omega, by omega, by omega, ?_⟩
  rw [hi]
  exact ⟨hi3, hi4⟩

/-- No day is in two months. -/
theorem month_unique {x i j : ℤ} (h1 : monthFirst i ≤ x ∧ x < monthFirst (i + 1))
    (h2 : monthFirst j ≤ x ∧ x < monthFirst (j + 1)) : i = j := by
  by_contra hne
  have hle : i + 1 ≤ j ∨ j + 1 ≤ i := by omega
  rcases hle with hij | hji
  · have hm := monthFirst_le hij
    omega
  · have hm := monthFirst_le hji
    omega

/-! ## The days of a listing -/

variable {d : Db} {year month : ℤ} {days : List DaySchedule} {slots : List TimeSlotResponse}

/-- A day is a stretch of slots of one date. -/
theorem groupByDate_stretches (slots : List TimeSlotResponse) :
    groupByDate slots = (Lists.stretches TimeSlotResponse.date slots).map fun g => ⟨g.1, g.2⟩ := by
  have hpush : ∀ (groups : List (ℤ × List TimeSlotResponse)) (slot : TimeSlotResponse),
      pushSlot (groups.map fun g => ⟨g.1, g.2⟩) slot =
      (Lists.push TimeSlotResponse.date groups slot).map fun g => ⟨g.1, g.2⟩ := by
    intro groups slot
    rcases List.eq_nil_or_concat groups with rfl | ⟨init, g, rfl⟩
    · rfl
    · rw [List.concat_eq_append]
      by_cases hg : g.1 = slot.date
      · simp [pushSlot, Lists.push, List.getLast?_append, Option.filter, hg]
      · simp [pushSlot, Lists.push, List.getLast?_append, Option.filter, hg]
  have hfold : ∀ (groups : List (ℤ × List TimeSlotResponse)),
      slots.foldl pushSlot (groups.map fun g => ⟨g.1, g.2⟩) =
        (slots.foldl (Lists.push TimeSlotResponse.date) groups).map fun g => ⟨g.1, g.2⟩ := by
    induction slots with
    | nil => exact fun _ => rfl
    | cons slot slots ih =>
      intro groups
      rw [List.foldl_cons, List.foldl_cons, hpush, ih]
  exact hfold []

/-- The order of a month's listing. -/
def byDateAndStart (a b : Uuid × TimeSlot) : Prop := a.2.date < b.2.date ∨ a.2.date = b.2.date ∧
    a.2.startTime ≤ b.2.startTime

instance : DecidableRel byDateAndStart := fun _ _ => inferInstanceAs (Decidable (_ ∨ _ ∧ _))

instance : Std.Total byDateAndStart where
  total a b := by
    unfold byDateAndStart
    omega

instance : IsTrans (Uuid × TimeSlot) byDateAndStart where
  trans a b c hab hbc := by
    unfold byDateAndStart at *
    omega

theorem slotsBetween_perm (first last : ℤ) (d : Db) :
    (slotsBetween first last d).Perm (d.sel .timeSlots fun _ s => first ≤ s.date ∧ s.date ≤ last) :=
  List.perm_insertionSort _ _

theorem slotsBetween_sorted (first last : ℤ) (d : Db) :
    (slotsBetween first last d).Pairwise byDateAndStart :=
  List.pairwise_insertionSort byDateAndStart _

/-- The slots of one month, as they are listed. -/
def listed (i : ℤ) (d : Db) : List TimeSlotResponse :=
  (slotsBetween (monthFirst i) (monthFirst (i + 1) - 1) d).map (TimeSlotResponse.from d)

theorem answered_ensure (b : Bool) (e : AppError) : (ensure b e : Tx Unit).answered d = if b then
    some () else none := by
  cases b <;> rfl

/-- A month's listing, and when there is one. -/
theorem monthly_answered : (getMonthlySchedule year month).answered d = some days ↔
    (1 ≤ month ∧ month ≤ 12) ∧ (1970 ≤ year ∧ year ≤ 2100) ∧
    days = groupByDate (listed (12 * year + (month - 1)) d) := by
  unfold getMonthlySchedule
  rw [answered_bind, answered_ensure]
  by_cases hm : 1 ≤ month ∧ month ≤ 12
  · rw [if_pos (by simpa using hm), Option.bind_some, answered_bind, answered_ensure]
    by_cases hy : 1970 ≤ year ∧ year ≤ 2100
    · have hwide : -262143 ≤ year ∧ year < 262142 := by omega
      have hb := monthBounds_eq hwide hm
      have hfind : findByMonth year month d = .ok (listed (12 * year + (month - 1)) d) := by
        rw [findByMonth, hb]
        rfl
      rw [if_pos (by simpa using hy), Option.bind_some, answered_bind, answered_read,
        Option.bind_some, hfind]
      constructor
      · intro h
        cases h
        exact ⟨hm, hy, rfl⟩
      · rintro ⟨-, -, rfl⟩
        rfl
    · rw [if_neg (by simpa using hy)]
      constructor
      · intro h
        cases h
      · rintro ⟨-, hy', -⟩
        exact absurd hy' hy
  · rw [if_neg (by simpa using hm)]
    constructor
    · intro h
      cases h
    · rintro ⟨hm', -⟩
      exact absurd hm' hm

theorem mem_listed {i : ℤ} {r : TimeSlotResponse} : r ∈ listed i d ↔
    ∃ k s, d.get .timeSlots k = some s ∧ (monthFirst i ≤ s.date ∧ s.date < monthFirst (i + 1)) ∧
      r = TimeSlotResponse.from d (k, s) := by
  unfold listed
  rw [List.mem_map]
  constructor
  · rintro ⟨⟨k, s⟩, hm, rfl⟩
    obtain ⟨hk, hp⟩ := Store.mem_sel.1 ((slotsBetween_perm _ _ d).mem_iff.1 hm)
    simp only [decide_eq_true_eq] at hp
    exact ⟨k, s, hk, by omega, rfl⟩
  · rintro ⟨k, s, hk, hp, rfl⟩
    refine ⟨(k, s), (slotsBetween_perm _ _ d).mem_iff.2 (Store.mem_sel.2 ⟨hk, ?_⟩), rfl⟩
    simp only [decide_eq_true_eq]
    omega

theorem listed_sorted (i : ℤ) (d : Db) :
    (listed i d).Pairwise fun a b => a.date < b.date ∨ a.date = b.date ∧
    a.startTime ≤ b.startTime :=
  List.pairwise_map.2 (slotsBetween_sorted _ _ d)

/-- The listed slots of one date of the month are the slots of that date. -/
theorem listed_date {i date : ℤ} (hd : monthFirst i ≤ date ∧ date < monthFirst (i + 1)) :
    ((listed i d).filter fun r => r.date = date).Perm (findByDate date d) := by
  unfold listed findByDate
  rw [List.filter_map]
  refine List.Perm.map _ (((slotsBetween_perm _ _ d).filter _).trans ?_)
  refine List.Perm.trans ?_ (List.perm_insertionSort _ _).symm
  have hsel := fun p => Store.sel_nodup d SlotTbl.timeSlots p
  refine (List.perm_ext_iff_of_nodup ((hsel _).filter _) (hsel _)).2 ?_
  rintro ⟨k, s⟩
  rw [List.mem_filter, Store.mem_sel, Store.mem_sel]
  simp only [Function.comp_apply, TimeSlotResponse.from, decide_eq_true_eq]
  constructor
  · rintro ⟨⟨hk, -⟩, hs⟩
    exact ⟨hk, of_decide_eq_true hs⟩
  · rintro ⟨hk, hs⟩
    exact ⟨⟨hk, by omega⟩, decide_eq_true hs⟩

theorem date_of_mem {r : TimeSlotResponse} {date : ℤ} (h : r ∈ findByDate date d) :
    r.date = date := by
  unfold findByDate at h
  obtain ⟨⟨k, s⟩, hm, rfl⟩ := List.mem_map.1 h
  have hp := (Store.mem_sel.1 ((List.perm_insertionSort _ _).mem_iff.1 hm)).2
  exact of_decide_eq_true hp

/-- **The days of a month's listing**, in order, each with the slots of its date. -/
theorem days_of_listed (i : ℤ) (d : Db) :
    (groupByDate (listed i d)).Pairwise (fun a b => a.date < b.date) ∧
    (∀ day ∈ groupByDate (listed i d), (monthFirst i ≤ day.date ∧ day.date < monthFirst (i + 1)) ∧
      day.slots ≠ [] ∧
      day.slots.Pairwise (fun a b => a.startTime ≤ b.startTime) ∧
      day.slots.Perm (findByDate day.date d)) ∧
    (groupByDate (listed i d)).flatMap DaySchedule.slots = listed i d := by
  have hcut := Lists.stretches_cut TimeSlotResponse.date (listed i d)
  have hsorted : (listed i d).Pairwise fun a b => a.date ≤ b.date :=
    (listed_sorted i d).imp fun h => by omega
  -- the list is sorted by date, so each date is one stretch
  have hkeys := Lists.stretches_sorted hsorted
  rw [groupByDate_stretches]
  refine ⟨List.pairwise_map.2 hkeys, ?_, ?_⟩
  · intro day hday
    obtain ⟨g, hg, rfl⟩ := List.mem_map.1 hday
    have hgroup := hcut.group hkeys hg
    obtain ⟨a, ha⟩ := List.exists_mem_of_ne_nil _ (hcut.full g hg)
    have hdate := hcut.keyed g hg a ha
    have hmem : a ∈ listed i d := by
      rw [hgroup] at ha
      exact (List.mem_filter.1 ha).1
    obtain ⟨k, s, -, hs, rfl⟩ := mem_listed.1 hmem
    have hrange : monthFirst i ≤ g.1 ∧ g.1 < monthFirst (i + 1) := by
      rw [← hdate]
      exact hs
    refine ⟨hrange, hcut.full g hg, ?_, ?_⟩
    · refine List.Pairwise.imp_of_mem (fun {a b} ha hb h => ?_)
        ((hgroup ▸ (listed_sorted i d).filter _ : g.2.Pairwise _))
      have h1 := hcut.keyed g hg a ha
      have h2 := hcut.keyed g hg b hb
      omega
    · rw [hgroup]
      exact listed_date hrange
  · rw [List.flatMap_map]
    exact hcut.flat

/-- **The listings of months and days agree.** A month's listing has its days in order and
none without a slot; a day has the slots that the listing of its date shows, by their start,
and a date that is missing has none. And a slot of the years from 1970 to 2100 is listed in
exactly one month of these. -/
theorem monthly_schedule (parseDate : ParseDate) (d : Db) :
    (∀ year month days, (getMonthlySchedule year month).answered d = some days →
      days.Pairwise (fun a b => a.date < b.date) ∧
      (∀ day ∈ days, day.slots ≠ [] ∧ day.slots.Pairwise fun a b => a.startTime ≤ b.startTime) ∧
      ∀ s date l, parseDate s = some date → (getAvailability parseDate s).answered d = some l →
        (∃ first last, monthBounds year month = some (first, last) ∧ first ≤ date ∧ date ≤ last) →
        l.Perm (((days.find? fun day => day.date = date).map DaySchedule.slots).getD [])) ∧
    ∀ k s, d.get .timeSlots k = some s → yearStart 1970 ≤ s.date → s.date < yearStart 2101 →
      ∃! p : ℤ × ℤ, ∃ days, (getMonthlySchedule p.1 p.2).answered d = some days ∧
        TimeSlotResponse.from d (k, s) ∈ days.flatMap DaySchedule.slots := by
  constructor
  · intro year month days h
    obtain ⟨hm, hy, rfl⟩ := monthly_answered.1 h
    obtain ⟨hdays, hall, hflat⟩ := days_of_listed (12 * year + (month - 1)) d
    refine ⟨hdays, fun day hday => ⟨(hall day hday).2.1, (hall day hday).2.2.1⟩, ?_⟩
    rintro s date l hs hl ⟨first, last, hb, h1, h2⟩
    have hlist : l = findByDate date d := by
      rw [getAvailability, answered_bind, answered_orFail, hs, Option.bind_some,
        answered_read] at hl
      exact (Option.some.inj hl).symm
    rw [monthBounds_eq (by omega) hm] at hb
    obtain ⟨rfl, rfl⟩ := Prod.mk.inj (Option.some.inj hb)
    rw [hlist]
    cases hf : (groupByDate (listed (12 * year + (month - 1)) d)).find? fun day =>
      day.date = date with
    | some day =>
      have hdate : day.date = date := by simpa using List.find?_some hf
      rw [Option.map_some, Option.getD_some, ← hdate]
      exact (hall day (List.mem_of_find?_eq_some hf)).2.2.2.symm
    | none =>
      -- a slot of the date would be listed
      rw [Option.map_none, Option.getD_none, List.perm_nil, List.eq_nil_iff_forall_not_mem]
      intro r hr
      have hin := (listed_date (i := 12 * year + (month - 1)) (d := d) ⟨h1, by omega⟩).mem_iff.2 hr
      obtain ⟨hr, hdate⟩ := List.mem_filter.1 hin
      rw [← hflat] at hr
      obtain ⟨day, hday, hslot⟩ := List.mem_flatMap.1 hr
      have hday' := date_of_mem ((hall day hday).2.2.2.mem_iff.1 hslot)
      have hnone := List.find?_eq_none.1 hf day hday
      rw [← hday'] at hnone
      exact hnone hdate
  · intro k s hk h1 h2
    have hmonth : ∀ i, TimeSlotResponse.from d (k, s) ∈ listed i d ↔ monthFirst i ≤ s.date ∧
        s.date < monthFirst (i + 1) := by
      intro i
      rw [mem_listed]
      constructor
      · rintro ⟨k', s', -, hs', he⟩
        have hdate : s.date = s'.date := congrArg TimeSlotResponse.date he
        rw [hdate]
        exact hs'
      · intro hs
        exact ⟨k, s, hk, hs, rfl⟩
    obtain ⟨year, month, hy1, hy2, hm1, hm2, hin⟩ := exists_month h1 h2
    refine ⟨(year, month), ⟨_, monthly_answered.2 ⟨⟨hm1, hm2⟩, ⟨hy1, hy2⟩, rfl⟩, ?_⟩, ?_⟩
    · rw [(days_of_listed _ d).2.2]
      exact (hmonth _).2 hin
    · rintro ⟨year', month'⟩ ⟨days, hdays, hmem⟩
      obtain ⟨hm', hy', rfl⟩ := monthly_answered.1 hdays
      rw [(days_of_listed _ d).2.2] at hmem
      have he := month_unique ((hmonth _).1 hmem) hin
      simp only at hm' hy' he
      rw [Prod.mk.injEq]
      omega

/-- Slots on two days of March 2026, one of them full. -/
def marchSlots : Db :=
  Store.overlay [.add .timeSlots 1 ⟨20520, 36000, 39600, none, none, 8, false, 0⟩,
    .add .timeSlots 2 ⟨20514, 50400, 54000, none, none, 8, false, 0⟩,
    .add .timeSlots 3 ⟨20514, 36000, 39600, none, none, 1, false, 0⟩,
    .add .bookings 9 ⟨7, 3, .confirmed, none, 0⟩] fun _ => ∅

theorem monthly_schedule_march : ∃ days, (getMonthlySchedule 2026 3).answered marchSlots =
    some days ∧
    days.map (fun day => (day.date, day.slots.map fun r => (r.id, r.status))) =
      [(20514, [(3, .full), (2, .available)]), (20520, [(1, .available)])] ∧
      days.Pairwise fun a b => a.date < b.date := by
  refine ⟨groupByDate (listed 24314 marchSlots), monthly_answered.2 ⟨by decide, by decide, rfl⟩,
    by decide, ?_⟩
  exact ((monthly_schedule (fun _ => none) marchSlots).1 2026 3 _
    (monthly_answered.2 ⟨by decide, by decide, rfl⟩)).1

end DreamFly.Schedule
