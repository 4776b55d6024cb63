import DreamFly.Run.Carts

/-!
# Seats over whole runs

* `never_oversold`: as long as a course's limit is not lowered it has at most that many
  active enrolments, and each user at most one.
-/

namespace DreamFly

open Txn

variable {u o co id : Uuid} {now : Instant} {d d' : Db} {q : Req} {σ : Pt Shop} {s s' : ShopSys}

/-- The active enrolments of a course. -/
def activeCount (co : Uuid) (d : Db) : ℕ := d.count .enrolments (activeIn co)

/-- The course is within its limit and each of its users is in it once. -/
structure SeatsOK (co : Uuid) (d : Db) : Prop where
  limit : ∀ course, d.get .courses co = some course → activeCount co d ≤ course.maxStudents
  once : ∀ k k' e e', d.get .enrolments k = some e → d.get .enrolments k' = some e' →
    activeIn co k e = true →
    activeIn co k' e' = true → e.userId = e'.userId → k = k'

/-- No enrolment becomes active. -/
def FewerSeats (d d' : Db) : Prop := ∀ k e, d'.get .enrolments k = some e → e.status = .active →
    d.get .enrolments k = some e

theorem FewerSeats.of_same (h : ∀ k, d'.get .enrolments k = d.get .enrolments k) :
    FewerSeats d d' :=
  fun k _ hk _ => h k ▸ hk

theorem Cancelled.fewer (h : Cancelled d d') : FewerSeats d d' := by
  intro k e hk hs
  rcases h.enrolment k with he | ⟨e', -, -, he⟩
  · rw [← he]; exact hk
  · rw [hk] at he
    cases he
    cases hs

theorem FewerSeats.count (h : FewerSeats d d') (co : Uuid) :
    activeCount co d' ≤ activeCount co d := by
  refine Store.count_le fun k e hk hp => ?_
  simp only [activeIn, decide_eq_true_eq] at hp
  exact ⟨e, h k e hk hp.2, by simp [activeIn, hp]⟩

theorem SeatsOK.fewer (h : SeatsOK co d) (hf : FewerSeats d d')
    (hmax : ∀ course', d'.get .courses co = some course' →
      ∃ course, d.get .courses co = some course ∧
      course.maxStudents ≤ course'.maxStudents) : SeatsOK co d' where
  limit course' hc := by
    obtain ⟨course, hc', hle⟩ := hmax course' hc
    have hcount := hf.count co
    have hlim := h.limit course hc'
    omega
  once k k' e e' hk hk' ha ha' hu := by
    have hs := ha
    have hs' := ha'
    simp only [activeIn, decide_eq_true_eq] at hs hs'
    exact h.once k k' e e' (hf k e hk hs.2) (hf k' e' hk' hs'.2) ha ha' hu

theorem SeatsOK.enrolled {c : Uuid} (h : SeatsOK co d) (he : Enrolled u o now c d d') :
    SeatsOK co d' := by
  obtain ⟨course, n, hc, hlt, hnone, hn, rfl⟩ := he
  have hcourses : ∀ k, (d.apply (.add .enrolments n (newEnrolment u o c now))).get .courses k =
      d.get .courses k :=
    fun k => Store.get_apply_other _ (by simp [Write.tbl]) k
  refine ⟨fun course' hc' => ?_, fun k k' e e' hk hk' ha ha' hu => ?_⟩
  · rw [hcourses] at hc'
    -- the new enrolment counts for its own course only
    have hcount : (activeCount co (d.apply (.add .enrolments n (newEnrolment u o c now))) : ℤ) =
        activeCount co d + if activeIn co n (newEnrolment u o c now) then 1 else 0 := by
      unfold activeCount
      rw [Store.count_eq_total, Store.count_eq_total, Store.total_add_new hn]
    rw [hcount]
    by_cases hco : c = co
    · subst hco
      rw [hc] at hc'
      cases hc'
      simp only [activeCount]
      split <;> omega
    · rw [if_neg (by simp [activeIn, newEnrolment, hco]), add_zero]
      exact h.limit course' hc'
  · -- one of two active enrolments of a user is the new one only if they are the same
    rw [existsActive_eq_false] at hnone
    have hother : ∀ k e, d.get .enrolments k = some e → activeIn co k e = true →
        activeIn co n (newEnrolment u o c now) = true → e.userId ≠ u := by
      intro k e hk ha hn' hu
      simp only [activeIn, newEnrolment, decide_eq_true_eq] at ha hn'
      exact hnone k e hk hu (ha.1.trans hn'.1.symm) ha.2
    rw [Store.get_add, hn] at hk hk'
    split at hk <;> split at hk'
    next h1 h2 => rw [h1, h2]
    next h1 h2 => cases hk; exact absurd hu.symm (hother k' e' hk' ha' (h1 ▸ ha))
    next h1 h2 => cases hk'; exact absurd hu (hother k e hk ha (h2 ▸ ha'))
    · exact h.once k k' e e' hk hk' ha ha' hu

theorem CheckedOut.enrolled {key : Option IdempotencyKey} (x : CheckedOut u key now d d') :
    (∀ t ∈ [ShopTbl.courses, .enrolments], x.steps.paid t = d t) ∧
    Chain (Enrolled u x.o now) x.steps.courses x.steps.paid x.steps.enrolled ∧
    ∀ t ∈ [ShopTbl.courses, .enrolments], d' t = x.steps.enrolled t := by
  have hbefore : Only (S := Shop) [.products, .orders, .orderItems, .users,
    .pointLedger] d x.steps.paid :=
    (x.steps.stock_only.mono (by simp)).trans <| (x.steps.order_only.mono (by simp)).trans <|
      (x.steps.items_only.mono (by simp)).trans (x.steps.points_only.mono (by simp))
  have hafter : Only (S := Shop) [.subscriptions, .cartItems, .orderIdempotency,
    .outbox] x.steps.enrolled d' :=
    (x.steps.grants.mono (by simp)).trans <| (x.steps.cleared.mono (by simp)).trans
      (x.tail_only.mono (by simp))
  refine ⟨fun t ht => hbefore t ?_, x.steps.enrol,
    fun t ht => hafter t ?_⟩ <;> simp at ht <;> rcases ht with rfl | rfl <;> simp

theorem StatusChanged.fewer {target : OrderStatus} (x : StatusChanged id target now d d') :
    FewerSeats d d' := by
  have htail : ∀ k, d'.get .enrolments k = x.undone.get .enrolments k := x.tail_only.get (by simp)
  cases hc : compensationRequired x.order.status target with
  | false =>
    rw [x.plain hc] at htail
    exact .of_same htail
  | true =>
    obtain ⟨y⟩ := x.refund hc
    have hbefore : Only (S := Shop) [.users, .pointLedger, .products] d y.restocked :=
      (y.points_only.mono (by simp)).trans (y.stock_only.mono (by simp))
    intro k e hk hs
    rw [htail, y.subscriptions.get (t := ShopTbl.enrolments) (by simp)] at hk
    rw [← hbefore.get (t := ShopTbl.enrolments) (by simp)]
    exact y.seats.fewer k e hk hs

theorem SeatsOK.of_same (h : SeatsOK co d) (hs : ∀ t ∈ [ShopTbl.courses, .enrolments], d' t = d t) :
    SeatsOK co d' := by
  have hc : ∀ k, d'.get .courses k = d.get .courses k := fun k => by
    unfold Store.get; rw [hs _ (by simp)]
  have he : ∀ k, d'.get .enrolments k = d.get .enrolments k := fun k => by
    unfold Store.get; rw [hs _ (by simp)]
  exact h.fewer (.of_same he) fun course hcourse => ⟨course, hc co ▸ hcourse, le_rfl⟩

/-- A request that only edits enrolments by cancelling them. -/
theorem Req.Commits.fewer {K : Rely Shop} (h : q.Commits K σ)
    (hq : ∀ u key req now, q ≠ .checkout u key req now) :
    FewerSeats σ.now σ.db := by
  cases q with
  | checkout u key req now => exact absurd rfl (hq u key req now)
  | updateOrderStatus => obtain ⟨_, -, ⟨x⟩⟩ := h; exact x.fewer
  | cancelEnrolment => exact Cancelled.fewer h
  | _ => exact .of_same (h.only.get (t := ShopTbl.enrolments) (by simp [Req.writes]))

theorem SeatsOK.commit (hr : shopRules.rel [] σ.now σ.db) (h : q.Commits (.free Shop) σ)
    (hmax : ∀ course course', σ.now.get .courses co = some course →
      σ.db.get .courses co = some course' →
      course.maxStudents ≤ course'.maxStudents) (hp : SeatsOK co σ.now) : SeatsOK co σ.db := by
  by_cases hq : ∃ u key req now, q = .checkout u key req now
  · obtain ⟨u, key, req, now, rfl⟩ := hq
    obtain ⟨x⟩ := h
    obtain ⟨hbefore, hchain, hafter⟩ := x.enrolled
    exact (hchain.inv (fun _ _ _ _ he hI => SeatsOK.enrolled hI he)
      (hp.of_same hbefore)).of_same hafter
  · push Not at hq
    refine hp.fewer (h.fewer hq) fun course' hc' => ?_
    have hs : (σ.now.get .courses co).isSome = true := by
      rw [rel_courses hr, hc']
      rfl
    obtain ⟨course, hc⟩ := Option.isSome_iff_exists.1 hs
    exact ⟨course, hc, hmax course course' hc hc'⟩

/-- The limit of course `co` is not lowered by a step. -/
def KeepsLimit (co : Uuid) (s : ShopSys) (_ : Event Req) (s' : ShopSys) : Prop :=
  ∀ course course', s.db.get .courses co = some course → s'.db.get .courses co = some course' →
    course.maxStudents ≤ course'.maxStudents

/-- In such a run a course within its limit stays within it. -/
theorem reach_seats (h0 : SeatsOK co d) (h : shop.Reach (KeepsLimit co) (Sys.init d) s) :
    SeatsOK co s.db := by
  refine reach_inv_step (P := SeatsOK co) h0 (fun s₁ t c s₂ e hr _ hok hcs hp => ?_) h
  have hs₁ := shop_ok hr
  obtain ⟨σ, hnow, hdb, -, -, -, hcommits⟩ := Sys.OK.commits rfl hs₁ hcs
  have hrel : shopRules.rel [] s₁.db s₂.db := hs₁.rel_commit hcs
  unfold KeepsLimit at hok
  rw [← hnow, ← hdb] at hok hrel
  rw [← hdb]
  exact SeatsOK.commit hrel hcommits hok (hnow ▸ hp)

/-- **Courses are never oversold.** In a run that does not lower the limit of course
`co`, from a store within it: at most that many active enrolments, and at most one of
each user. -/
theorem never_oversold (hlimit : ∀ course, d.get .courses co = some course →
    activeCount co d ≤ course.maxStudents)
    (honce : ∀ k k' e e', d.get .enrolments k = some e → d.get .enrolments k' = some e' →
      activeIn co k e = true →
      activeIn co k' e' = true → e.userId = e'.userId → k = k')
    (h : shop.Reach (KeepsLimit co) (Sys.init d) s) :
    (∀ course, s.db.get .courses co = some course → activeCount co s.db ≤ course.maxStudents) ∧
    ∀ u, s.db.count .enrolments (fun k e => activeIn co k e ∧ e.userId = u) ≤ 1 := by
  have hs : SeatsOK co s.db := reach_seats ⟨hlimit, honce⟩ h
  refine ⟨hs.limit, fun u => Store.count_le_one fun k k' e e' hk hk' ha ha' => ?_⟩
  simp only [decide_eq_true_eq] at ha ha'
  exact hs.once k k' e e' hk hk' ha.1 ha'.1 (ha.2.trans ha'.2.symm)

/-- Requests that do not write courses keep the limit. -/
theorem reach_limit (h : shop.ReachOf (fun q => .courses ∉ q.writes) (Sys.init d) s) :
    shop.Reach (KeepsLimit co) (Sys.init d) s :=
  (reach_keeps h).mono fun s _ s' hc course course' h h' => by
    unfold Store.get at h h'
    rw [hc, h] at h'
    cases h'
    exact le_rfl

/-- User 1 puts the course into the cart and checks out. -/
def sampleEnrol : List (Event Req) :=
  .start 0 (.addItem 1 "course" 4 1) :: (Event.steps 0 100 12 ++
    .start 1 (.checkout 1 none ⟨none, none, none⟩ 0) ::
    Event.steps 1 200 70)

theorem never_oversold_enrol :
    let s := shop.after sampleEnrol (.init sampleShop)
    (∀ course, s.db.get .courses 4 = some course → activeCount 4 s.db ≤ course.maxStudents) ∧
    ∀ u, s.db.count .enrolments (fun k e => activeIn 4 k e ∧ e.userId = u) ≤ 1 := by
  have hreqs : shop.ReachOf (fun q => .courses ∉ q.writes) (.init sampleShop)
      (shop.after sampleEnrol (.init sampleShop)) := by
    refine Service.reach_after fun e he _ _ t q hq => ?_
    subst hq
    simp only [sampleEnrol, Event.steps, List.mem_cons, List.mem_append, List.mem_map, reduceCtorEq,
      and_false, exists_false,
      false_or, or_false, Event.start.injEq] at he
    rcases he with ⟨-, rfl⟩ | ⟨-, rfl⟩ <;> simp [Req.writes]
  refine never_oversold (d := sampleShop) (fun course hc => ?_) (fun k k' e e' hk hk' _ _ _ => ?_)
    (reach_limit hreqs)
  · have h1 := Store.get_all (d := sampleShop) (t := ShopTbl.courses)
      (P := fun _ row => (activeCount 4 sampleShop : ℤ) ≤ row.maxStudents)
      (by decide) hc
    exact h1
  · have h1 : ∀ k e, sampleShop.get .enrolments k = some e → k = 7 := fun k e =>
      Store.get_all (d := sampleShop) (t := ShopTbl.enrolments) (P := fun k _ => k = 7) (by decide)
    rw [h1 k e hk, h1 k' e' hk']

/-- The course is full then. -/
example : activeCount 4 (shop.after sampleEnrol (.init sampleShop)).db = 2 := by decide +kernel

end DreamFly
