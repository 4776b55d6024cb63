import DreamFly.Run.Stock
import DreamFly.Txn.Seen

/-!
# Idempotency keys over whole runs

* `checkout_seen`: where a checkout has found what it answers.
* `answers_receipt`: the whole receipt of the order under the key.
* `one_order_per_key`: of the checkouts with one key at most one commits; each that
  succeeds answers with the receipt of the order recorded under the key; one that has not committed
  has changed nothing; and one that starts after the commit neither commits nor fails.
-/

namespace DreamFly

open Txn

variable {u : Uuid} {k : IdempotencyKey} {now : Instant} {d d' : Db} {q : Req} {s s' : ShopSys}
  {t t' : ℕ}
  {c c' : Call Shop AppError Reply Req} {ok : ShopSys → Event Req → ShopSys → Prop}

/-- A checkout of user `u` under key `k`. -/
def Req.Keyed (u : Uuid) (k : IdempotencyKey) (q : Req) : Prop :=
  ∃ req now, q = .checkout u (some k) req now

/-! ## What a receipt is made of -/

section seen
variable {K : Passage Shop} {i j : K.State} {ws : List (Write Shop)} {α β : Type}

/-- The response is read at three moments, after a commit of the call or after it has found
the order. -/
def Assembled (K : Passage Shop) (r : OrderResponse) : Prop :=
  ∃ h i j₁ j₂ j₃, K.later h i ∧ (K.done i ∨ (K.store i).get .orders r.id = some r.order) ∧
    K.later i j₁ ∧ K.later j₁ j₂ ∧ K.later j₂ j₃ ∧
    r.items = findItemsByOrder r.id (K.store j₁) ∧
    r.enrolments = findEnrolmentsByOrder r.id (K.store j₂) ∧
    r.subscriptions = findSubscriptionsByOrder r.id (K.store j₃)

theorem assembleResponse_seen {o : Uuid} {order : Order} (hj : K.later j i)
    (hi : K.done i ∨ (K.store i).get .orders o = some order) :
    Shows K (fun _ _ r => Assembled K r) i [] (assembleResponse o order) :=
  fun j₁ h₁ j₂ h₂ j₃ h₃ => ⟨j, i, j₁, j₂, j₃, hj, hi, h₁, h₂, h₃, rfl, rfl, rfl⟩

theorem replayByKey_seen : Shows K (fun _ _ r => ∀ x, r = some x → Assembled K x) i []
    (replayByKey u k) := by
  refine Shows.bind (M := fun _ ws _ => ws = []) (fun _ _ => rfl) fun i ws existing hws => ?_
  subst hws
  -- the order is looked up under the key, then by its id
  cases existing with
  | none => exact fun x hx => by cases hx
  | some o =>
    refine Shows.bind (M := fun i ws row => ws = [] ∧ (∃ j, K.later j i) ∧
      row = (K.store i).get .orders o)
      (fun j hj => ⟨rfl, ⟨_, hj⟩, rfl⟩) fun i ws row ⟨hws, ⟨j, hj⟩, hrow⟩ => ?_
    subst hws
    cases row with
    | none => exact trivial
    | some row =>
      refine Shows.bind (M := fun i' ws' a => i' = i ∧ ws' = [] ∧ a = row)
        ⟨rfl, rfl, rfl⟩ fun i' ws' a ⟨hi', hws', ha⟩ => ?_
      subst hi' hws' ha
      refine Shows.bind (assembleResponse_seen hj (.inr hrow.symm)) fun _ _ r hr x hx => ?_
      cases hx
      exact hr

theorem replay_seen {key : Option IdempotencyKey} :
    Shows K (fun _ _ r => ∀ x, r = some x → Assembled K x) i [] (replay u key) := by
  cases key with
  | none => exact fun x hx => by cases hx
  | some k => exact replayByKey_seen

theorem replayOr_seen {buyer : BalanceLock} {key : Option IdempotencyKey} {otherwise : AppError} :
    Shows K (fun _ _ r => Assembled K r) i ws (replayOr buyer key otherwise) := by
  cases key with
  | none => exact trivial
  | some k =>
    have hread : Shows K _ i [] (replayByKey buyer.userId k) := replayByKey_seen
    exact hread.bind fun _ _ _ hr => Shows.orFail hr

/-- What a checkout's transaction has come to: after its commit, or with an answer it has seen. -/
def Sale.Shown (K : Passage Shop) (i : K.State) (ws : List (Write Shop)) : Sale → Prop
  | .sold _ _ => ws = [] ∧ K.done i ∧ ∃ j, K.later j i
  | .replayed r => Assembled K r

theorem record_seen {buyer : BalanceLock} {key : Option IdempotencyKey} {o : Uuid} :
    Shows K (fun _ _ x => ∀ r, x = .twinWon r → Assembled K r) i ws (record buyer key o) := by
  cases key with
  | none => exact fun r hr => by cases hr
  | some k =>
    refine Shows.after fun i ws taken => ?_
    cases taken with
    | false => exact fun r hr => by cases hr
    | true =>
      have hread : Shows K _ i [] (replayByKey buyer.userId k) := replayByKey_seen
      refine hread.bind fun _ _ found hfound => ?_
      refine Shows.bind (M := fun _ _ r => Assembled K r)
        (Shows.orFail hfound) fun _ _ r hr x hx => ?_
      cases hx
      exact hr

theorem checkoutTx_seen {key : Option IdempotencyKey} {intent : CheckoutIntent} :
    Shows K (Sale.Shown K) i ws (checkoutTx u key intent now) := by
  refine Shows.after fun i ws locks => Shows.after fun i ws cartItems => ?_
  -- an empty cart may be one that a twin has bought
  split
  · exact Shows.bind replayOr_seen fun _ _ _ hr => hr
  refine Shows.after fun i ws cart => Shows.after fun i ws coupon => Shows.after fun i ws outcome =>
    Shows.after fun i ws x => ?_
  refine Shows.bind record_seen fun i ws recorded hrec => ?_
  cases recorded with
  | twinWon r => exact hrec r rfl
  | fresh => exact Shows.after fun i ws _ j hj hdone => ⟨rfl, hdone, _, hj⟩

/-- **A checkout answers with what it has seen of the order.** -/
theorem checkout_seen {key : Option IdempotencyKey} {req : CheckoutRequest} :
    Shows K (fun _ _ a => ∃ r, a = Reply.order r ∧ Assembled K r) i []
    ((Req.checkout u key req now).prog) := by
  refine Shows.bind (M := fun _ _ r => Assembled K r) ?_ fun _ _ r hr => ⟨r, rfl, hr⟩
  refine Shows.bind replay_seen fun i ws found hfound => ?_
  cases found with
  | some r => exact hfound r rfl
  | none =>
    refine Shows.after fun i ws intent =>
      Shows.bind (M := Sale.Shown K) ?_ fun i ws sale hsale => ?_
    · exact (seen_handle _ _ _ _ _).2 (seen_mono (fun _ _ _ h => h)
        (fun _ _ _ _ => trivial) _ _ _ checkoutTx_seen)
    · cases sale with
      | replayed r => exact hsale
      | sold o order =>
        obtain ⟨hws, hdone, j, hj⟩ := hsale
        subst hws
        exact assembleResponse_seen hj (.inl hdone)

end seen

/-- A recorded key stays recorded, with its order. -/
theorem KeyUsed.rel {L : Locks (Res Shop)} (h : KeyUsed u k d) (hr : shopRules.rel L d d') :
    KeyUsed u k d' := by
  obtain ⟨o, row, h1, h2⟩ := h
  obtain ⟨row', h2', -⟩ := rel_order hr h2
  exact ⟨o, row', rel_idem hr h1, h2'⟩

theorem CheckedOut.keyUsed (x : CheckedOut u (some k) now d d') : KeyUsed u k d' := by
  obtain ⟨hnone, hkeyed⟩ := x.recorded
  refine ⟨x.o, paidOrder u x.outcome x.method now, ?_, by rw [x.orders, if_pos rfl]⟩
  have hsold : x.sold.get .orderIdempotency (u, k) = none := by
    rw [x.steps.only.get (t := ShopTbl.orderIdempotency) (by simp)]
    exact hnone
  rw [x.queued.get (t := ShopTbl.orderIdempotency) (by simp), hkeyed, Store.get_add,
    if_pos rfl, hsold]
  rfl

/-- The commit of a keyed checkout records its key, which was free. -/
theorem commit_keyed (hs : s.OK (shopContract (.free Shop))) (h : CommitStep s t c s')
    (hq : c.req.Keyed u k) :
    ¬ KeyUsed u k s.db ∧ KeyUsed u k s'.db := by
  obtain ⟨σ, hnow, hdb, -, -, -, hcommits⟩ := Sys.OK.commits rfl hs h
  obtain ⟨req, now, hreq⟩ := hq
  rw [hreq] at hcommits
  obtain ⟨x⟩ := hcommits
  refine ⟨fun ⟨o, _, ho, _⟩ => ?_, hdb ▸ x.keyUsed⟩
  rw [← hnow, x.recorded.1] at ho
  cases ho

/-- Committed keyed checkouts: their key is recorded, and there is one for each key. -/
structure KeysOK (s : ShopSys) : Prop where
  used : ∀ t c u k, s.call t = some c → c.req.Keyed u k → c.committed = true → KeyUsed u k s.db
  once : ∀ t t' c c' u k, s.call t = some c → s.call t' = some c' → c.req.Keyed u k →
    c'.req.Keyed u k →
    c.committed = true → c'.committed = true → t = t'

theorem keysOK_step {e : Event Req} (hs : s.OK (shopContract (.free Shop)))
    (h : shop.step e s = some s') (hk : KeysOK s) :
    KeysOK s' := by
  have hrel : shopRules.rel [] s.db s'.db := step_rel hs h
  refine ⟨fun t c u k hc hq hcom => ?_, fun t t' c c' u k hc hc' hq hq' hcom hcom' => ?_⟩
  · rcases step_committed h hc hcom with ⟨c₀, h0, hcom0, hreq⟩ | ⟨c₀, hcs, hreq⟩
    · exact (hk.used t c₀ u k h0 (hreq ▸ hq) hcom0).rel hrel
    · exact (commit_keyed hs hcs (hreq ▸ hq)).2
  · rcases step_committed h hc hcom with ⟨c₁, h1, hcom1, hreq1⟩ | ⟨c₁, hcs1, hreq1⟩ <;>
      rcases step_committed h hc' hcom' with ⟨c₂, h2, hcom2, hreq2⟩ | ⟨c₂, hcs2, hreq2⟩
    · exact hk.once t t' c₁ c₂ u k h1 h2 (hreq1 ▸ hq) (hreq2 ▸ hq') hcom1 hcom2
    · exact absurd (hk.used t c₁ u k h1 (hreq1 ▸ hq) hcom1) (commit_keyed hs hcs2 (hreq2 ▸ hq')).1
    · exact absurd (hk.used t' c₂ u k h2 (hreq2 ▸ hq') hcom2) (commit_keyed hs hcs1 (hreq1 ▸ hq)).1
    · -- one event commits one call: the other one had committed before
      by_contra hne
      have hfree := (commit_keyed hs hcs1 (hreq1 ▸ hq)).1
      obtain ⟨-, k₁, -, rfl⟩ := hcs1
      obtain ⟨hc2, -⟩ := hcs2
      rw [Sys.call_set_ne _ (Ne.symm hne), hc2] at hc'
      cases hc'
      exact hfree (hk.used t' _ u k hc2 hq' hcom')

theorem keysOK_reach (h : shop.Reach ok (Sys.init d) s) : KeysOK s := by
  induction h with
  | refl =>
    refine ⟨fun t c u k hc => ?_, fun t t' c c' u k hc => ?_⟩ <;> rw [Sys.call_init]
      at hc <;> cases hc
  | tail hr hst ih =>
    obtain ⟨e, he, -⟩ := hst
    exact keysOK_step (shop_ok hr) he ih

/-! ## Receipts of a run -/

/-- A commit brings no line of an order that was there before it. -/
theorem Req.Commits.line {σ : Pt Shop} {i : Uuid} {item : OrderItem} (h : q.Commits (.free Shop) σ)
    (ho : (σ.now.get .orders item.orderId).isSome) (hi : σ.db.get .orderItems i = some item) :
    σ.now.get .orderItems i = some item := by
  by_cases hw : .orderItems ∈ q.writes
  · cases q with
    | checkout =>
      obtain ⟨x⟩ := h
      rcases x.item hi with ⟨line, -, rfl, -⟩ | hold
      · have hfresh : σ.now.get .orders x.o = none := x.steps.fresh
        rw [OrderLine.item, hfresh] at ho
        cases ho
      · exact hold
    | _ => simp [Req.writes] at hw
  · rwa [h.only.get (t := ShopTbl.orderItems) hw] at hi

/-- An order keeps exactly the lines it has. -/
theorem lines_kept (h : shop.Reachable (Sys.init d) s) (h' : shop.Reachable s s') {o : Uuid}
    (ho : (s.db.get .orders o).isSome)
    {i : Uuid} {item : OrderItem} (hio : item.orderId = o) :
    s'.db.get .orderItems i = some item ↔ s.db.get .orderItems i = some item := by
  have hOK : ∀ s₁, shop.Reachable s s₁ → s₁.OK (shopContract (.free Shop)) :=
    fun s₁ h₁ => shop_ok (h.trans h₁)
  refine ⟨fun hi => ?_, rel_item (L := []) (reach_rel hOK h')⟩
  -- once the order is there, no commit brings a line of it
  have hkept := reach_inv (P := fun e : Db => (e.get .orders o).isSome ∧
    (e.get .orderItems i = some item → s.db.get .orderItems i = some item))
    hOK ⟨ho, fun hi => hi⟩ (fun q σ hrel hcom ⟨hthere, hold⟩ => ?_) h'
  · exact hkept.2 hi
  · obtain ⟨row, hrow⟩ := Option.isSome_iff_exists.1 hthere
    obtain ⟨row', hrow', -⟩ := rel_order hrel hrow
    exact ⟨by rw [hrow']; rfl, fun hi' =>
      hold (Req.Commits.line hcom.2 (by rw [hio]; exact hthere) hi')⟩

/-- What call `t` of a run has answered: the order recorded under the key, with all its lines,
and with what it has granted, as three states of the run have shown it to the call. -/
structure FullReceipt (d : Db) (s : ShopSys) (t : ℕ) (u : Uuid) (k : IdempotencyKey)
    (r : OrderResponse) : Prop where
  recorded : Receipt u k r s.db
  items : ∀ i item, (i, item) ∈ r.items ↔ s.db.get .orderItems i = some item ∧ item.orderId = r.id
  read : ∃ s₁ s₂ s₃, shop.Reachable (Sys.init d) s₁ ∧ shop.Reachable s₁ s₂ ∧ shop.Reachable s₂ s₃ ∧
    shop.Reachable s₃ s ∧
    (s₁.call t).isSome ∧ (s₁.db.get .orders r.id).isSome ∧ r.items = findItemsByOrder r.id s₁.db ∧
    r.enrolments = findEnrolmentsByOrder r.id s₂.db ∧
    r.subscriptions = findSubscriptionsByOrder r.id s₃.db

/-- **A keyed checkout answers with the whole receipt of the order under its key.** -/
theorem answers_receipt {a : Reply} (h : shop.Reachable (Sys.init d) s) (hc : s.call t = some c)
    (hq : c.req.Keyed u k)
    (hret : c.prog = .ret a) : ∃ r, a = .order r ∧ FullReceipt d s t u k r := by
  obtain ⟨i, -, hseen⟩ := reach_seen (P := fun q => q.Keyed u k) (V := shop) (d := d)
    (R := fun _ _ a => ∃ r, a = Reply.order r ∧
      Assembled (shop.passage (fun _ _ _ => True) d t s) r)
    (fun q i ⟨req, now, hreq⟩ => by rw [hreq]; exact checkout_seen) h hc hq
  rw [hret] at hseen
  obtain ⟨r, rfl, g, i, j₁, j₂, j₃, ⟨hinit, -, hrest, -⟩, hthere, ⟨h₁, hi₁, hs₁, hcall⟩, ⟨-, h₂, -⟩,
      ⟨-, h₃, hs₃, -⟩, hitems, henr, hsubs⟩ := hseen
  have hrec : Receipt u k r s.db := by
    obtain ⟨req, now, hreq⟩ := hq
    obtain ⟨start, -, hpost⟩ := (shop_ok h).ret hc hret
    simp only [shopContract, hreq, Req.Answered] at hpost
    obtain ⟨r', hr, hans⟩ := hpost
    cases hr
    exact hans k rfl
  have hOK : ∀ s₁, shop.Reachable i s₁ → s₁.OK (shopContract (.free Shop)) :=
    fun s₁ h₁ => shop_ok (hinit.trans h₁)
  -- the order was there when the reading began
  have hfound : ∃ row, i.db.get .orders r.id = some row := by
    rcases hthere with ⟨c₁, hc₁, hcom⟩ | hrow
    · obtain ⟨c₂, hc₂, hreq, -⟩ := reach_call hrest hc₁
      rw [hc] at hc₂
      cases hc₂
      obtain ⟨o, row, hkey, hrow⟩ := (keysOK_reach hinit).used t c₁ u k hc₁ (hreq ▸ hq) hcom
      have hsame := rel_idem (reach_rel hOK hrest) hkey
      rw [hrec.key] at hsame
      cases hsame
      exact ⟨row, hrow⟩
    · exact ⟨_, hrow⟩
  obtain ⟨row, hrow⟩ := hfound
  obtain ⟨row', hrow', -⟩ := rel_order (reach_rel hOK hi₁) hrow
  have hsome : (j₁.db.get .orders r.id).isSome := by rw [hrow']; rfl
  refine ⟨r, rfl, hrec, fun x item => ?_, j₁, j₂, j₃, h₁, h₂, h₃, hs₃, hcall, hsome, hitems,
    henr, hsubs⟩
  have hlist : (x, item) ∈ r.items ↔ j₁.db.get .orderItems x = some item ∧ item.orderId = r.id := by
    rw [hitems]
    exact mem_findItemsByOrder
  rw [hlist]
  exact and_congr_left fun hx => (lines_kept h₁ hs₁ hsome hx).symm

/-- **One order for each idempotency key.** For the checkouts of user `u` under `k`,
in any run:
at most one has committed;
each that succeeds answers with the order recorded under the key, with all its lines and with
the enrolments and subscriptions of the order that it has read;
one that has not committed has changed nothing at any of its events, and one that
fails, unless its connection breaks, has not committed;
one that starts after a commit does not commit, and only a broken connection makes it
fail. -/
theorem one_order_per_key (h : shop.Reachable (Sys.init d) s) (u : Uuid) (k : IdempotencyKey) :
    (∀ t t' c c', s.call t = some c → s.call t' = some c' → c.req.Keyed u k → c'.req.Keyed u k →
      c.committed = true → c'.committed = true → t = t') ∧
    (∀ t c a, s.call t = some c → c.req.Keyed u k → c.prog = .ret a → ∃ r, a = .order r ∧
      FullReceipt d s t u k r) ∧
    (∀ t c, s.call t = some c → c.req.Keyed u k →
      (c.committed = false → shop.Reach (fun s e s' => True ∧ (e.call = t → s'.db = s.db))
        (Sys.init d) s) ∧
      ∀ e, c.prog = .fail e → e ≠ .database .connection → c.committed = false) ∧
    ∀ s₁ t₁ c₁, shop.Reachable (Sys.init d) s₁ → shop.Reachable s₁ s → s₁.call t₁ = some c₁ →
      c₁.req.Keyed u k →
      c₁.committed = true → ∀ t c, s₁.call t = none → s.call t = some c → c.req.Keyed u k →
      c.committed = false ∧ ∀ e, c.prog = .fail e → e = .database .connection := by
  have hs := shop_ok h
  have hk := keysOK_reach h
  refine ⟨fun t t' c c' hc hc' hq hq' => hk.once t t' c c' u k hc hc' hq hq', ?_, ?_, ?_⟩
  · exact fun t c a hc hq hret => answers_receipt h hc hq hret
  · rintro t c hc ⟨req, now, hreq⟩
    refine ⟨fun hf => reach_quiet h fun c' hc' => ?_, fun e he hne => ?_⟩
    · rw [hc] at hc'
      cases hc'
      exact hf
    · obtain ⟨start, -, hfail⟩ := hs.fail hc he
      simp only [shopContract, hreq, Req.Failed] at hfail
      exact (hfail hne).1
  · rintro s₁ t₁ c₁ h₁ h₂ hc₁ hq₁ hcom₁ t c hnew hc hq
    have hused : KeyUsed u k s₁.db := (keysOK_reach h₁).used t₁ c₁ u k hc₁ hq₁ hcom₁
    refine ⟨Bool.eq_false_iff.2 fun hcom => ?_, fun e he => by_contra fun hne => ?_⟩
    · -- a second commit would be the first one
      obtain ⟨c₁', hc₁', hreq, hstays⟩ := reach_call h₂ hc₁
      have heq := hk.once t₁ t c₁' c u k hc₁' hc (hreq ▸ hq₁) hq (hstays hcom₁) hcom
      rw [heq, hnew] at hc₁
      cases hc₁
    · -- the key was in use when the call began
      have hborn : KeyUsed u k c.born := reach_born (fun s₂ h' =>
        hused.rel (reach_rel (fun s₃ h3 => shop_ok (h₁.trans h3)) h'))
        (fun c' hc' => by rw [hnew] at hc'; cases hc') h₂ c hc
      obtain ⟨req, now, hreq⟩ := hq
      obtain ⟨start, -, hfail⟩ := hs.fail hc he
      simp only [shopContract, hreq, Req.Failed] at hfail
      exact (hfail hne).2 k rfl hborn

/-- Two checkouts with one key: the second waits for the first, finds an empty cart and
answers with the first one's order. -/
def sampleTwins : List (Event Req) :=
  .start 0 (.checkout 1 (some "k") ⟨none, none, none⟩ 0) :: .start 1 (.checkout 1 (some "k")
    ⟨none, none, none⟩ 0) ::
    (Event.steps 1 500 2 ++ Event.steps 0 100 52 ++ Event.steps 1 300 13)

theorem one_order_per_key_twins :
    let s := shop.after sampleTwins (.init sampleShop)
    (∀ t t' c c', s.call t = some c → s.call t' = some c' → c.req.Keyed 1 "k" → c'.req.Keyed 1 "k" →
      c.committed = true → c'.committed = true → t = t') ∧
    ∀ t c a, s.call t = some c → c.req.Keyed 1 "k" → c.prog = .ret a → ∃ r, a = .order r ∧
      FullReceipt sampleShop s t 1 "k" r :=
  have h := one_order_per_key (Service.reachable_after sampleTwins) 1 "k"
  ⟨h.1, h.2.1⟩

/-- Both calls are over and there is one order. -/
example : ((shop.after sampleTwins (.init sampleShop)).call 0).map (·.committed) = some true ∧
    ((shop.after sampleTwins (.init sampleShop)).call 1).map (·.finished) = some true ∧
    ((shop.after sampleTwins (.init sampleShop)).db.sel .orders fun _ _ => true).length = 1 := by
    decide +kernel

end DreamFly
