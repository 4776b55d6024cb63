import DreamFly.Proof.Grants
import DreamFly.Run.Seats
import DreamFly.Run.Sessions

/-!
# The life of an order

An order is placed once, moves along the allowed transitions, and ends cancelled or
refunded, if it ends. What it has sold stays on record; what it has granted is backed by
it and goes with it; and its events tell the way it has gone.

* `order_life_cycle`: an order and its lines from one state of a run to a later one.
* `grants_backed`: every enrolment and subscription of an order, in every reachable state.
* `events_tell`: the queued events of an order, in every reachable state.
-/

namespace DreamFly

open Txn

variable {u id o : Uuid} {now : Instant} {d d' d'' : Db} {σ : Pt Shop} {q : DeskReq} {K : Rely Shop}
  {key : Option IdempotencyKey}
  {target : OrderStatus} {ok : DeskSys → Event DeskReq → DeskSys → Prop} {s s' : DeskSys} {t : ℕ}
  {c : Call Shop AppError DeskReply DeskReq}

/-! ## Ways along the transitions -/

/-- The path leads from one status to the other along allowed transitions. -/
def OrderStatus.Leads (b : OrderStatus) : OrderStatus → List OrderStatus → Prop
  | a, [] => a = b
  | a, m :: path => a.canTransitionTo m = true ∧ b.Leads m path

namespace OrderStatus

variable {a b m : OrderStatus} {path path' : List OrderStatus}

theorem Leads.append (h : m.Leads a path) (h' : b.Leads m path') : b.Leads a (path ++ path') := by
  induction path generalizing a with
  | nil => cases h; exact h'
  | cons x path ih => exact ⟨h.1, ih h.2⟩

/-- Nothing leads back to pending. -/
theorem Leads.placed (h : b.Leads a path) (ha : a ≠ .pending) : b ≠ .pending := by
  induction path generalizing a with
  | nil => cases h; exact ha
  | cons x path ih => exact ih h.2 (canTransitionTo_revenue h.1 ha).2.2

theorem Leads.snoc (h : m.Leads a path) (hm : m.canTransitionTo b = true) :
    b.Leads a (path ++ [b]) :=
  h.append (m := m) ⟨hm, rfl⟩

/-- Nothing leads on from a reversal. -/
theorem Leads.reversal (h : b.Leads a path) (ha : a.isReversal = true) : path = [] ∧ a = b := by
  cases path with
  | nil => exact ⟨rfl, h⟩
  | cons x path =>
    obtain ⟨hx, -⟩ := h
    cases a <;> cases ha <;> cases x <;> cases hx

/-- How far a status is along the way. -/
def rank : OrderStatus → ℕ
  | .pending => 0
  | .paid => 1
  | .processing => 2
  | .completed => 3
  | .cancelled | .refunded => 4

theorem rank_lt (h : a.canTransitionTo b = true) : a.rank < b.rank := by
  cases a <;> cases b <;> revert h <;> decide

/-- A path enters each status at most once. -/
theorem Leads.nodup (h : b.Leads a path) : (a :: path).Nodup := by
  have hup : ∀ {a path}, b.Leads a path → ∀ x ∈ path, a.rank < x.rank := by
    intro a path h x hx
    induction path generalizing a with
    | nil => cases hx
    | cons y path ih =>
      have hlt := rank_lt h.1
      rcases List.mem_cons.1 hx with rfl | hx
      · exact hlt
      · exact hlt.trans (ih h.2 hx)
  induction path generalizing a with
  | nil => exact List.nodup_singleton a
  | cons y path ih =>
    refine List.nodup_cons.2 ⟨fun hin => ?_, ih h.2⟩
    exact absurd (hup h a hin) (lt_irrefl _)

end OrderStatus

/-! ## Grants, commit by commit -/

/-- Owner, product and order stay, and so does a cancellation. -/
structure Subscription.Upto (s s' : Subscription) : Prop where
  user : s'.userId = s.userId
  product : s'.productId = s.productId
  order : s'.orderId = s.orderId
  cancelled : s.status = .cancelled → s'.status = .cancelled

/-- Nothing new is granted. -/
structure GrantsKept (d d' : Db) : Prop where
  enrolments : ∀ k e', d'.get .enrolments k = some e' →
    ∃ e, d.get .enrolments k = some e ∧ e.Upto e'
  subscriptions : ∀ k s', d'.get .subscriptions k = some s' →
    ∃ s, d.get .subscriptions k = some s ∧ s.Upto s'

/-- All that is new has been granted with order `o` to its buyer, for one of its lines. -/
structure GrantsIssued (u o : Uuid) (d d' : Db) : Prop where
  fresh : d.get .orders o = none
  enrolments : ∀ k e', d'.get .enrolments k = some e' → d.get .enrolments k = some e' ∨
    (e'.userId = u ∧ e'.orderId = some o ∧
    ∃ i item, d'.get .orderItems i = some item ∧ item.orderId = o ∧
      item.target = .course e'.courseId)
  subscriptions : ∀ k s', d'.get .subscriptions k = some s' → d.get .subscriptions k = some s' ∨
    (s'.userId = u ∧ s'.orderId = some o ∧
    ∃ i item, d'.get .orderItems i = some item ∧ item.orderId = o ∧
      item.target = .product s'.productId)

theorem Subscription.Upto.refl (s : Subscription) : s.Upto s := ⟨rfl, rfl, rfl, id⟩

theorem Cancelled.row (h : Cancelled d d') {k : Uuid} {e' : Enrolment}
    (hk : d'.get .enrolments k = some e') :
    ∃ e, d.get .enrolments k = some e ∧ e.Upto e' := by
  rcases h.enrolment k with hsame | ⟨e, he, -, he'⟩
  · exact ⟨e', hsame ▸ hk, .refl _⟩
  · rw [hk] at he'
    cases he'
    exact ⟨e, he, e.upto_cancel⟩

theorem GrantsKept.of_only {T : List ShopTbl} (h : Only (S := Shop) T d d')
    (he : ShopTbl.enrolments ∉ T)
    (hs : ShopTbl.subscriptions ∉ T) : GrantsKept d d' where
  enrolments k e' hk := ⟨e', h.get he k ▸ hk, .refl _⟩
  subscriptions k s' hk := ⟨s', h.get hs k ▸ hk, .refl _⟩

theorem StatusChanged.grantsKept (x : StatusChanged id target now d d') : GrantsKept d d' := by
  have htail : ∀ {t : ShopTbl}, t ∈ [ShopTbl.enrolments, .subscriptions] →
      ∀ k, d'.get t k = x.undone.get t k := by
    intro t ht k
    rcases List.mem_cons.1 ht with rfl | ht
    · exact x.tail_only.get (t := ShopTbl.enrolments) (by simp) k
    · cases List.mem_singleton.1 ht
      exact x.tail_only.get (t := ShopTbl.subscriptions) (by simp) k
  cases hc : compensationRequired x.order.status target with
  | false =>
    rw [x.plain hc] at htail
    exact ⟨fun k e' hk => ⟨e', htail (by simp) k ▸ hk, .refl _⟩,
      fun k s' hk => ⟨s', htail (by simp) k ▸ hk, .refl _⟩⟩
  | true =>
    obtain ⟨y⟩ := x.refund hc
    have hbefore : Only (S := Shop) [.users, .pointLedger, .products] d y.restocked :=
      (y.points_only.mono (by simp)).trans (y.stock_only.mono (by simp))
    have hseats : Only (S := Shop) [.users, .pointLedger, .products, .enrolments,
      .leaveRequests] d y.vacated :=
      (hbefore.mono (by simp)).trans (y.seats.only.mono (by simp))
    refine ⟨fun k e' hk => ?_, fun k s' hk => ?_⟩
    · rw [htail (by simp), y.subscriptions.get (t := ShopTbl.enrolments) (by simp)] at hk
      rw [← hbefore.get (t := ShopTbl.enrolments) (by simp)]
      exact y.seats.row hk
    · rw [htail (by simp)] at hk
      rw [← hseats.get (t := ShopTbl.subscriptions) (by simp)]
      rcases y.unsubscribed.row k with hsame | ⟨r, hr, -, hr'⟩
      · exact ⟨s', hsame ▸ hk, .refl _⟩
      · rw [hk] at hr'
        cases hr'
        exact ⟨r, hr, rfl, rfl, rfl, fun _ => rfl⟩

/-- An enrolment of a checkout is new, for one of its courses. -/
theorem Enrolled.new {courses : List Uuid} (h : Chain (Enrolled u o now) courses d d') {k : Uuid}
    {e' : Enrolment}
    (hk : d'.get .enrolments k = some e') :
    d.get .enrolments k = some e' ∨ (e'.userId = u ∧ e'.orderId = some o ∧
      e'.courseId ∈ courses) := by
  refine h.inv (I := fun b : Db => ∀ e', b.get .enrolments k = some e' →
    d.get .enrolments k = some e' ∨
    (e'.userId = u ∧ e'.orderId = some o ∧ e'.courseId ∈ courses))
      (fun co hco a b hstep ih e' hk => ?_) (fun _ h => .inl h) e' hk
  obtain ⟨course, i, -, -, -, hnone, rfl⟩ := hstep
  rw [Store.get_add] at hk
  split at hk
  · next he =>
    rw [← he] at hnone
    rw [← he, hnone] at hk
    cases hk
    exact .inr ⟨rfl, rfl, hco⟩
  · exact ih e' hk

theorem CheckedOut.grantsIssued (x : CheckedOut u key now d d') (h : Issued u x.o d d') :
    GrantsIssued u x.o d d' where
  fresh := h.fresh
  enrolments k e' hk := by
    obtain ⟨hbefore, henrol, hafter⟩ := x.enrolled
    have hget : ∀ {a b : Db}, a .enrolments = b .enrolments →
        ∀ k, a.get .enrolments k = b.get .enrolments k := by
      intro a b hab k
      unfold Store.get
      rw [hab]
    rw [hget (hafter _ (by simp))] at hk
    rcases Enrolled.new henrol hk with hold | ⟨hu, ho, hin⟩
    · exact .inl (hget (hbefore _ (by simp)) k ▸ hold)
    · refine .inr ⟨hu, ho, ?_⟩
      -- the course is one of the cart's, and so of the order's lines
      obtain ⟨line, hline, hcourse⟩ := List.mem_filterMap.1 (x.steps.courses_perm.mem_iff.1 hin)
      have ht : line.target = .course e'.courseId := by
        cases hl : line.target with
        | product p => rw [hl] at hcourse; cases hcourse
        | course co => rw [hl] at hcourse; cases hcourse; rfl
      obtain ⟨i, item, hi, hio, hit⟩ := Lined.all x.steps.items (orderLine x.steps.reserved line)
        (List.mem_map.2 ⟨line, hline, rfl⟩)
      refine ⟨i, item, ?_, hio, hit.trans ht⟩
      unfold Store.get at hi ⊢
      rw [x.items_only]
      exact hi
  subscriptions k s' hk := by
    rcases h.subscriptions k with hsame | ⟨-, s, hs, hrest⟩
    · exact .inl (hsame ▸ hk)
    · rw [hk] at hs
      cases hs
      exact .inr hrest

/-! ## Orders, commit by commit -/

/-- What a commit of the desk does to the orders and to what names them. -/
inductive OrderStep (d d' : Db) : Prop
  | idle (kept : GrantsKept d d') (orders : ∀ k, d'.get .orders k = d.get .orders k)
      (items : ∀ i, d'.get .orderItems i = d.get .orderItems i) (outbox : d' .outbox = d .outbox)
  | placed (u o : Uuid) (row : Order) (issued : GrantsIssued u o d d') (user : row.userId = u)
  (paid : row.status = .paid)
      (orders : ∀ k, d'.get .orders k = if k = o then some row else d.get .orders k)
      (items : ∀ i item, d'.get .orderItems i = some item → d.get .orderItems i = some item ∨
        item.orderId = o)
      (told : Told (orderCreated o row) d d')
  | moved (id : Uuid) (order : Order) (target : OrderStatus) (kept : GrantsKept d d')
  (order_eq : d.get .orders id = some order)
      (allowed : order.status.canTransitionTo target = true)
      (orders : ∀ k, d'.get .orders k = if k = id then some { order with status := target } else
        d.get .orders k)
      (items : ∀ i, d'.get .orderItems i = d.get .orderItems i)
      (told : Told (.orderStatusChanged id order.userId target.asStr) d d')
      (withdrawn : order.status ≠ .pending → target.isReversal = true → Withdrawn id d')

theorem CheckedOut.orderStep (x : CheckedOut u key now d d') (h : Issued u o d d') :
    OrderStep d d' := by
  obtain ⟨row, hrow, htold⟩ := h.order
  have ho : o = x.o := by
    by_contra hne
    rw [x.orders, if_neg hne, h.fresh] at hrow
    cases hrow
  subst ho
  rw [x.orders, if_pos rfl] at hrow
  cases hrow
  refine .placed u x.o _ (x.grantsIssued h) rfl rfl x.orders (fun i item hi => ?_) htold
  rcases x.item hi with ⟨line, -, rfl, -⟩ | hold
  · exact .inr rfl
  · exact .inl hold

theorem compensationRequired_of {a b : OrderStatus} (h : a.canTransitionTo b = true)
    (hp : a ≠ .pending) (hb : b.isReversal = true) :
    compensationRequired a b = true := by
  obtain ⟨hrev, -, -⟩ := canTransitionTo_revenue h hp
  rw [compensationRequired, hrev, hb]
  rfl

theorem StatusChanged.orderStep (x : StatusChanged id target now d d')
    (h : Announced id target d d') : OrderStep d d' := by
  obtain ⟨order, horder, htold, hgone⟩ := h.order
  cases x.order_eq.symm.trans horder
  refine .moved id x.order target x.grantsKept x.order_eq x.allowed x.orders (fun i => ?_) htold
    fun hp hr =>
    hgone (compensationRequired_of x.allowed hp hr)
  exact x.only.get (t := ShopTbl.orderItems) (by simp) i

theorem OrderStep.of_only {T : List ShopTbl} (h : Only (S := Shop) T d d')
    (hts : ∀ t ∈ [ShopTbl.enrolments, .subscriptions, .orders, .orderItems, .outbox], t ∉ T) :
      OrderStep d d' :=
  .idle (.of_only h (hts _ (by simp)) (hts _ (by simp)))
    (h.get (t := ShopTbl.orders) (hts _ (by simp)))
    (h.get (t := ShopTbl.orderItems) (hts _ (by simp))) (h _ (hts _ (by simp)))

/-- **What a commit does to the orders.** -/
theorem DeskReq.Commits.orderStep (h : q.Commits K σ) (ht : q.Tells σ) : OrderStep σ.now σ.db := by
  cases q with
  | shop q =>
    obtain ⟨hq, -⟩ := h
    cases q with
    | checkout =>
      obtain ⟨x⟩ := hq
      obtain ⟨o, ho⟩ := ht
      exact x.orderStep ho
    | updateOrderStatus =>
      obtain ⟨target, htarget, ⟨x⟩⟩ := hq
      obtain ⟨target', htarget', hannounced⟩ := ht
      rw [htarget] at htarget'
      cases htarget'
      exact x.orderStep hannounced
    -- of the other requests of the shop only a cancellation touches what was issued
    | cancelEnrolment =>
      have hc : Cancelled σ.now σ.db := hq
      refine .idle ⟨fun k e' hk => hc.row hk, fun k s' hk => ⟨s', ?_, .refl _⟩⟩
        (hc.only.get (t := ShopTbl.orders) (by simp))
        (hc.only.get (t := ShopTbl.orderItems) (by simp)) (hc.only _ (by simp))
      rw [← hc.only.get (t := ShopTbl.subscriptions) (by simp)]
      exact hk
    | _ => exact .of_only hq.only (by simp [Req.writes])
  | redeemSession id now =>
    -- a session that is spent leaves order and status of its subscription
    have hspent : SessionSpent id now σ.now σ.db := h
    obtain ⟨s, hs, -, hget⟩ := hspent.get
    refine .idle ⟨fun k e' hk => ⟨e', ?_, .refl _⟩, fun k s' hk => ?_⟩
      (hspent.only.get (t := ShopTbl.orders) (by simp))
      (hspent.only.get (t := ShopTbl.orderItems) (by simp)) (hspent.only _ (by simp))
    · rw [← hspent.only.get (t := ShopTbl.enrolments) (by simp)]
      exact hk
    · rw [hget] at hk
      split at hk
      · next he =>
        cases hk
        exact ⟨s, he ▸ hs, rfl, rfl, rfl, fun hc => hc⟩
      · exact ⟨s', hk, .refl _⟩
  | createReward req =>
    obtain ⟨k, -, -, hd⟩ := h
    rw [hd]
    exact .of_only (T := [ShopTbl.rewards]) (Only.write _ (by simp [Write.tbl])) (by simp)
  | updateReward id req =>
    obtain ⟨row, -, -, hd⟩ := h
    rw [hd]
    exact .of_only (T := [ShopTbl.rewards]) (Only.write _ (by simp [Write.tbl])) (by simp)

namespace OrderStep

variable (h : OrderStep d d')
include h

/-- An order stays the order it is, in its status or the next. -/
theorem order {row : Order} (hr : d.get .orders o = some row) :
    ∃ status path, d'.get .orders o = some { row with status := status } ∧
    status.Leads row.status path := by
  cases h with
  | idle _ orders _ _ => exact ⟨row.status, [], (orders o).trans hr, rfl⟩
  | placed u o' row' issued _ _ orders _ _ =>
    refine ⟨row.status, [], ?_, rfl⟩
    rw [orders, if_neg]
    · exact hr
    · rintro rfl
      rw [issued.fresh] at hr
      cases hr
  | moved id order target _ order_eq allowed orders _ _ _ =>
    rw [orders]
    split
    · next he =>
      rw [he, order_eq] at hr
      cases hr
      exact ⟨target, [target], rfl, allowed, rfl⟩
    · exact ⟨row.status, [], hr, rfl⟩

/-- Where an order is reversed, what it has granted is withdrawn. -/
theorem reversed {row row' : Order} (hr : d.get .orders o = some row) (hp : row.status ≠ .pending)
    (hr' : d'.get .orders o = some row') (hrev : row'.status.isReversal = true) :
    row.status.isReversal = true ∨ Withdrawn o d' := by
  -- only a move can bring a reversal, and it withdraws what was issued
  cases h with
  | idle _ orders _ _ =>
    rw [orders, hr] at hr'
    cases hr'
    exact .inl hrev
  | placed u o' row' _ _ paid orders _ _ =>
    rw [orders] at hr'
    split at hr'
    · cases hr'
      rw [paid] at hrev
      cases hrev
    · rw [hr] at hr'
      cases hr'
      exact .inl hrev
  | moved id order target _ order_eq _ orders _ _ withdrawn =>
    rw [orders] at hr'
    split at hr'
    · next he =>
      cases hr'
      rw [he, order_eq] at hr
      cases hr
      exact .inr (he ▸ withdrawn hp hrev)
    · rw [hr] at hr'
      cases hr'
      exact .inl hrev

/-- The lines of an order are there with it. -/
theorem line {i : Uuid} {item : OrderItem} (hr : (d.get .orders item.orderId).isSome)
    (hi : d'.get .orderItems i = some item) :
    d.get .orderItems i = some item := by
  cases h with
  | idle _ _ items _ => exact items i ▸ hi
  | placed u o row issued _ _ _ items _ =>
    rcases items i item hi with hold | rfl
    · exact hold
    · rw [issued.fresh] at hr
      cases hr
  | moved _ _ _ _ _ _ _ items _ _ => exact items i ▸ hi

theorem grown : Grown d d' := by
  have horders : ∀ o, (d.get .orders o).isSome → (d'.get .orders o).isSome := fun o ho => by
    obtain ⟨row, hrow⟩ := Option.isSome_iff_exists.1 ho
    obtain ⟨status, path, hrow', -⟩ := h.order hrow
    rw [hrow']
    rfl
  have hkept : GrantsKept d d' → Grown d d' := fun hk =>
    { orders := horders
      enrolments := fun o k e _ he heo => by
        obtain ⟨e', he', hup⟩ := hk.enrolments k e he
        exact ⟨e', he', hup.order.symm.trans heo⟩
      subscriptions := fun o k s _ hs hso => by
        obtain ⟨s', hs', hup⟩ := hk.subscriptions k s hs
        exact ⟨s', hs', hup.order.symm.trans hso, hup.cancelled⟩ }
  cases h with
  | idle kept _ _ _ => exact hkept kept
  | moved _ _ _ kept _ _ _ _ _ _ => exact hkept kept
  | placed u o row issued _ _ _ _ _ =>
    refine ⟨horders, fun o' k e ho he heo => ?_, fun o' k s ho hs hso => ?_⟩
    · -- what has just been issued is for the new order, not for an old one
      rcases issued.enrolments k e he with hold | ⟨-, heo', -⟩
      · exact ⟨e, hold, heo⟩
      · rw [heo] at heo'
        cases heo'
        rw [issued.fresh] at ho
        cases ho
    · rcases issued.subscriptions k s hs with hold | ⟨-, hso', -⟩
      · exact ⟨s, hold, hso, id⟩
      · rw [hso] at hso'
        cases hso'
        rw [issued.fresh] at ho
        cases ho

end OrderStep

/-! ## What orders back -/

/-- Order `o` of user `u` has a line for `target`; as long as the grant is in force, it is
not reversed. -/
structure Backed (o u : Uuid) (target : LineTarget) (inForce : Prop) (d : Db) : Prop where
  order : ∃ row, d.get .orders o = some row ∧ row.userId = u ∧ row.status ≠ .pending ∧
    (inForce → row.status.isReversal = false)
  line : ∃ i item, d.get .orderItems i = some item ∧ item.orderId = o ∧ item.target = target

/-- Each enrolment and subscription of an order is backed by it. -/
structure GrantsBacked (d : Db) : Prop where
  enrolments : ∀ k e o, d.get .enrolments k = some e → e.orderId = some o →
    Backed o e.userId (.course e.courseId) (e.status ≠ .cancelled) d
  subscriptions : ∀ k s o, d.get .subscriptions k = some s → s.orderId = some o →
    Backed o s.userId (.product s.productId) (s.status ≠ .cancelled) d

theorem Enrolment.Upto.inForce {e e' : Enrolment} (h : e.Upto e') (hn : e'.status ≠ .cancelled) :
    e.status ≠ .cancelled := by
  cases hs : e'.status with
  | cancelled => exact absurd hs hn
  | active => rw [h.active hs]; simp

theorem Subscription.Upto.inForce {s s' : Subscription} (h : s.Upto s')
    (hn : s'.status ≠ .cancelled) : s.status ≠ .cancelled :=
  fun hc => hn (h.cancelled hc)

variable {target' : LineTarget} {inForce inForce' : Prop}

/-- A grant stays backed while it is in force. -/
theorem Backed.step (h : Backed o u target' inForce d) (hi : inForce' → inForce)
    (hgone : inForce' → ¬ Withdrawn o d')
    (hstep : OrderStep d d') (hitems : ∀ i item, d.get .orderItems i = some item →
      d'.get .orderItems i = some item) :
    Backed o u target' inForce' d' where
  order := by
    obtain ⟨row, hr, hu, hp, hforce⟩ := h.order
    obtain ⟨status, path, hr', hleads⟩ := hstep.order hr
    refine ⟨_, hr', hu, hleads.placed hp, fun hf => ?_⟩
    by_contra hne
    rcases hstep.reversed hr hp hr' (by simpa using hne) with hrev | hw
    · rw [hforce (hi hf)] at hrev
      cases hrev
    · exact hgone hf hw
  line := by
    obtain ⟨i, item, hi, hrest⟩ := h.line
    exact ⟨i, item, hitems i item hi, hrest⟩

/-- **Every commit keeps the grants backed.** -/
theorem GrantsBacked.step (h : GrantsBacked d) (hstep : OrderStep d d')
    (hitems : ∀ i item, d.get .orderItems i = some item → d'.get .orderItems i = some item) :
    GrantsBacked d' := by
  have hkept : GrantsKept d d' → GrantsBacked d' := by
    refine fun hk => ⟨fun k e' o hk' ho => ?_, fun k s' o hk' ho => ?_⟩
    · obtain ⟨e, he, hup⟩ := hk.enrolments k e' hk'
      rw [hup.user, hup.course]
      exact (h.enrolments k e o he (hup.order.symm.trans ho)).step hup.inForce
        (fun hf hw => hf (hw.enrolments k e' hk' ho)) hstep hitems
    · obtain ⟨s, hs, hup⟩ := hk.subscriptions k s' hk'
      rw [hup.user, hup.product]
      exact (h.subscriptions k s o hs (hup.order.symm.trans ho)).step hup.inForce
        (fun hf hw => hf (hw.subscriptions k s' hk' ho)) hstep
        hitems
  cases hstep with
  | idle kept _ _ _ => exact hkept kept
  | moved _ _ _ kept _ _ _ _ _ _ => exact hkept kept
  | placed u o row issued user paid orders items told =>
    have hnew : ∀ {target : LineTarget} {P : Prop}, (∃ i item, d'.get .orderItems i = some item ∧
        item.orderId = o ∧ item.target = target) →
        Backed o u target P d' := fun hline =>
      ⟨⟨row, by rw [orders, if_pos rfl], user, by rw [paid]; simp,
        fun _ => by rw [paid]; rfl⟩, hline⟩
    -- an old grant is of another order, whose row has stayed
    have hold : ∀ {o' u' : Uuid} {target : LineTarget} {P : Prop}, Backed o' u' target P d →
        Backed o' u' target P d' := by
      intro o' u' target P hb
      obtain ⟨row', hr, hrest⟩ := hb.order
      obtain ⟨i, item, hi, hline⟩ := hb.line
      refine ⟨⟨row', ?_, hrest⟩, i, item, hitems i item hi, hline⟩
      rw [orders, if_neg]
      · exact hr
      · rintro rfl
        rw [issued.fresh] at hr
        cases hr
    refine ⟨fun k e' o' hk ho => ?_, fun k s' o' hk ho => ?_⟩
    · rcases issued.enrolments k e' hk with he | ⟨hu, ho', hline⟩
      · exact hold (h.enrolments k e' o' he ho)
      · rw [ho] at ho'
        cases ho'
        rw [hu]
        exact hnew hline
    · rcases issued.subscriptions k s' hk with hs | ⟨hu, ho', hline⟩
      · exact hold (h.subscriptions k s' o' hs ho)
      · rw [ho] at ho'
        cases ho'
        rw [hu]
        exact hnew hline

/-! ## What events tell -/

/-- The events about order `o` that are in the outbox, sent or not. -/
def eventsOf (o : Uuid) (d : Db) : List DomainEvent :=
  (d.sel .outbox fun _ ev => ev.orderId = o).map Prod.snd

/-- What an order has to tell that was placed and has gone along `path`. -/
def storyOf (o : Uuid) (row : Order) (path : List OrderStatus) : List DomainEvent :=
  orderCreated o row :: path.map fun status => .orderStatusChanged o row.userId status.asStr

/-- The outbox tells of every order once that it was placed and once each status it has
entered since, and of no other order. -/
def EventsTell (d : Db) : Prop :=
  ∀ o, (d.get .orders o = none → eventsOf o d = []) ∧
    ∀ row, d.get .orders o = some row → ∃ path, row.status.Leads .paid path ∧
      (eventsOf o d).Perm (storyOf o row path)

theorem Told.events {ev : DomainEvent} (h : Told ev d d') (o : Uuid) :
    (eventsOf o d').Perm (if ev.orderId = o then ev :: eventsOf o d else eventsOf o d) := by
  obtain ⟨n, hn, hout⟩ := h
  have hsel : eventsOf o d' = eventsOf o (d.apply (.add .outbox n ev)) := by
    unfold eventsOf Store.sel
    rw [hout]
  rw [hsel]
  split
  · next ho => exact (Store.sel_add_new hn (decide_eq_true ho)).map Prod.snd
  · next ho => exact (Store.sel_add_skip hn (decide_eq_false ho)).map Prod.snd

theorem eventsOf_congr (h : d' .outbox = d .outbox) (o : Uuid) : eventsOf o d' = eventsOf o d := by
  unfold eventsOf Store.sel
  rw [h]

theorem storyOf_status {row : Order} {path : List OrderStatus} (status : OrderStatus) :
    storyOf o { row with status := status } path = storyOf o row path := rfl

theorem storyOf_snoc {row : Order} {path : List OrderStatus} (status : OrderStatus) :
    storyOf o row (path ++ [status]) = storyOf o row path ++
    [.orderStatusChanged o row.userId status.asStr] := by
  rw [storyOf, storyOf, List.map_append, List.cons_append]
  rfl

/-- What one commit makes of the story of order `o`. -/
theorem EventsTell.step (h : EventsTell d) (hstep : OrderStep d d') : EventsTell d' := by
  intro k
  -- an order that the commit is not about
  have hother : ∀ {ev : DomainEvent}, Told ev d d' → ev.orderId ≠ k →
      d'.get .orders k = d.get .orders k →
      (d'.get .orders k = none → eventsOf k d' = []) ∧
        ∀ row, d'.get .orders k = some row → ∃ path, row.status.Leads .paid path ∧
          (eventsOf k d').Perm (storyOf k row path) := by
    intro ev htold hne hsame
    have hp := htold.events k
    rw [if_neg hne] at hp
    rw [hsame]
    refine ⟨fun hn => ?_, fun row hr => ?_⟩
    · rw [(h k).1 hn] at hp
      exact hp.eq_nil
    · obtain ⟨path, hleads, hstory⟩ := (h k).2 row hr
      exact ⟨path, hleads, hp.trans hstory⟩
  cases hstep with
  | idle _ orders _ outbox =>
    rw [orders, eventsOf_congr outbox]
    exact h k
  | placed u o row issued _ paid orders _ told =>
    by_cases hk : k = o
    · subst hk
      rw [orders, if_pos rfl]
      refine ⟨fun hn => (nomatch hn), fun row' hr => ⟨[], ?_⟩⟩
      cases hr
      refine ⟨paid.symm, (told.events k).trans ?_⟩
      rw [if_pos (show (orderCreated k row).orderId = k from rfl), (h k).1 issued.fresh]
      exact .refl _
    · exact hother told (fun he => hk he.symm) (by rw [orders, if_neg hk])
  | moved id order target _ order_eq allowed orders _ told _ =>
    by_cases hk : k = id
    · subst hk
      rw [orders, if_pos rfl]
      refine ⟨fun hn => (nomatch hn), fun row' hr => ?_⟩
      cases hr
      obtain ⟨path, hleads, hstory⟩ := (h k).2 order order_eq
      refine ⟨path ++ [target], hleads.snoc allowed, (told.events k).trans ?_⟩
      rw [if_pos (show (DomainEvent.orderStatusChanged k order.userId target.asStr).orderId =
        k from rfl), storyOf_status, storyOf_snoc]
      exact (hstory.cons _).trans (List.perm_append_singleton _ _).symm
    · exact hother told (fun he => hk he.symm) (by rw [orders, if_neg hk])

/-! ## Runs -/

/-- Every reachable state keeps the contract. -/
theorem telling_ok (h : desk.Reach ok (Sys.init d) s) : s.OK tellingContract := by
  refine reach_ok (fun s e s' hs he _ => ?_) (ok_init d) h
  have hgrown : Grown s.db s'.db := by
    rcases step_db he with hsame | ⟨t, c, hcs⟩
    · rw [hsame]
      exact Grown.refl _
    · obtain ⟨σ, hnow, hdb, hcommits, htells⟩ := telling_commits hs hcs
      rw [← hnow, ← hdb]
      exact (hcommits.orderStep htells).grown
  exact fun _ _ _ _ => hgrown

/-- What every step of the orders keeps, a run keeps. -/
theorem orders_inv {P : Db → Prop} (h0 : desk.Reachable (Sys.init d) s) (hs : P s.db)
    (hP : ∀ d d', shopRules.rel [] d d' → OrderStep d d' → P d → P d') (h : desk.Reachable s s') :
    P s'.db := by
  refine reach_inv_step hs (fun s₁ t c s₂ e hr _ _ hcs hp => ?_) h
  have hok := telling_ok (h0.trans hr)
  obtain ⟨σ, hnow, hdb, hcommits, htells⟩ := telling_commits hok hcs
  have hrel := hok.rel_commit hcs
  rw [← hnow] at hp hrel
  rw [← hdb] at hrel ⊢
  exact hP _ _ hrel (hcommits.orderStep htells) hp

/-- **The life of an order.** From any state of a run to any later one an order keeps its
columns but the status, which moves along the allowed transitions; a cancelled or refunded
order is final; and the order has the lines it had. -/
theorem order_life_cycle (h : desk.Reachable (Sys.init d) s) (h' : desk.Reachable s s')
    {row : Order}
    (hr : s.db.get .orders o = some row) :
    (∃ status path, s'.db.get .orders o = some { row with status := status } ∧
      status.Leads row.status path) ∧
    (row.status.isReversal = true → s'.db.get .orders o = some row) ∧
    ∀ i item, item.orderId = o → (s'.db.get .orderItems i = some item ↔
      s.db.get .orderItems i = some item) := by
  have hlife : ∃ status path, s'.db.get .orders o = some { row with status := status } ∧
    status.Leads row.status path := by
    refine orders_inv (P := fun d => ∃ status path, d.get .orders o = some { row with status :=
      status } ∧ status.Leads row.status path)
      h ⟨row.status, [], hr, rfl⟩ (fun d d' _ hstep ⟨status, path, hd, hleads⟩ => ?_) h'
    obtain ⟨status', path', hd', hleads'⟩ := hstep.order hd
    exact ⟨status', path ++ path', hd', hleads.append hleads'⟩
  refine ⟨hlife, fun hrev => ?_, fun i item hio => ⟨fun hi => ?_, fun hi => ?_⟩⟩
  · obtain ⟨status, path, hs', hleads⟩ := hlife
    obtain ⟨-, rfl⟩ := hleads.reversal hrev
    exact hs'
  · have hkept := orders_inv (P := fun d => (d.get .orders o).isSome ∧
      (d.get .orderItems i = some item → s.db.get .orderItems i = some item))
      h ⟨by rw [hr]; rfl, fun hi => hi⟩ (fun d d' _ hstep ⟨ho, hi⟩ => ⟨hstep.grown.orders o ho,
        fun hi' => hi ?_⟩) h'
    · exact hkept.2 hi
    · exact hstep.line (by rw [hio]; exact ho) hi'
  · have hrel := reach_rel (C := tellingContract) (fun s₁ h₁ => telling_ok (h.trans h₁)) h'
    exact rel_item (L := []) hrel hi

/-- **Every grant is backed.** In every reachable state an enrolment or a subscription that
names an order has that order behind it: placed by the same user, with a line for this
course or product, and not cancelled or refunded as long as the grant is in force. -/
theorem grants_backed (h0 : GrantsBacked d) (h : desk.Reachable (Sys.init d) s) :
    GrantsBacked s.db :=
  orders_inv .refl h0 (fun _ _ hrel hstep hb => hb.step hstep fun _ _ => rel_item hrel) h

/-- **The events tell the way of each order.** In every reachable state the outbox has, of
each order, one event for its placing, with the amounts of the order, and one for each
status on its way from paid to the present one; no status is told twice, and nothing is
told of an order that is not there. -/
theorem events_tell (h0 : EventsTell d) (h : desk.Reachable (Sys.init d) s) :
    (∀ o, s.db.get .orders o = none → eventsOf o s.db = []) ∧
    ∀ o row, s.db.get .orders o = some row → ∃ path, row.status.Leads .paid path ∧
      (OrderStatus.paid :: path).Nodup ∧
      (eventsOf o s.db).Perm (storyOf o row path) := by
  have hall := orders_inv .refl h0 (fun _ _ _ hstep ht => ht.step hstep) h
  refine ⟨fun o => (hall o).1, fun o row hr => ?_⟩
  obtain ⟨path, hleads, hstory⟩ := (hall o).2 row hr
  exact ⟨path, hleads, hleads.nodup, hstory⟩

/-! ## A sale and its refund -/

/-- A ticket for ten sessions and a course, both in the cart of user 1. -/
def sampleStudio : Db :=
  Store.overlay [.add .users 1 ⟨0⟩, .add .products 3 ⟨"pass", .ticket, 30000, some 5, none,
    some 10, true⟩,
    .add .courses 4 ⟨"yoga", 10000, 2, none, none, true, none⟩,
    .add .cartItems (1, 8) ⟨.product 3, 2, 0⟩, .add .cartItems (1, 9) ⟨.course 4, 1, 1⟩] fun _ => ∅

/-- User 1 checks out; the order is 122. -/
def sampleOrder : List (Event DeskReq) :=
  .start 0 (.shop (.checkout 1 none ⟨none, none, none⟩ 0)) :: Event.steps 0 100 81

/-- It is refunded. -/
def sampleReversal : List (Event DeskReq) :=
  .start 1 (.shop (.updateOrderStatus 122 "refunded" 2)) :: Event.steps 1 300 49

theorem order_life_cycle_refund :
    let s := desk.after sampleOrder (.init sampleStudio)
    let s' := desk.after sampleReversal s
    (s'.db.get .orders 122).map Order.status = some .refunded ∧
      ∃ row, s.db.get .orders 122 = some row ∧
      ∃ status path, s'.db.get .orders 122 = some { row with status := status } ∧
        status.Leads row.status path := by
  intro s s'
  have hr : s.db.get .orders 122 = some (paidOrder 1 ⟨70000, 0, none, 0, 70000,
      35⟩ "credit_card" 0) := by decide +kernel
  exact ⟨by decide +kernel, _, hr, (order_life_cycle (Service.reachable_after sampleOrder)
    (Service.reachable_after sampleReversal) hr).1⟩

theorem grants_backed_refund :
    let s := desk.after sampleReversal (desk.after sampleOrder (.init sampleStudio))
    (s.db.get .enrolments 157).map Enrolment.status = some .cancelled ∧ GrantsBacked s.db := by
  intro s
  refine ⟨by decide +kernel, grants_backed (d := sampleStudio)
    ⟨fun k e o hk => ?_, fun k e o hk => ?_⟩
    ((Service.reachable_after sampleOrder).trans (Service.reachable_after sampleReversal))⟩
  · cases hk
  · cases hk

theorem events_tell_refund :
    let s := desk.after sampleReversal (desk.after sampleOrder (.init sampleStudio))
    ∃ row path, row.status = .refunded ∧ (OrderStatus.paid :: path).Nodup ∧
      (eventsOf 122 s.db).Perm (storyOf 122 row path) := by
  intro s
  have hr : (s.db.get .orders 122).map Order.status = some .refunded := by decide +kernel
  obtain ⟨row, hrow, hstatus⟩ := Option.map_eq_some_iff.1 hr
  have h0 : EventsTell sampleStudio := fun o => ⟨fun _ => rfl, fun row hr => by cases hr⟩
  obtain ⟨path, -, hnodup, hstory⟩ := (events_tell h0 ((Service.reachable_after sampleOrder).trans
    (Service.reachable_after sampleReversal))).2 122 row hrow
  exact ⟨row, path, hstatus, hnodup, hstory⟩

end DreamFly
