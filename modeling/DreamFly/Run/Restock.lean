import DreamFly.Run.Stock

/-!
# Whether a refund can give its stock back

* `RoomOK`: the stock of a product and what orders not yet compensated took of it fit an
  `int` together. Sales and refunds keep this; an edit of the stock keeps it exactly if the
  new stock leaves that room (`Req.LeavesRoom`).
* `restock_fits`: in runs whose edits leave room no refund fails for its stock, and it gives
  back exactly what the lines took.
-/

namespace DreamFly

open Txn

variable {u p id : Uuid} {now : Instant} {d d' : Db} {q : Req} {σ : Pt Shop}
  {s s' : ShopSys} {t : ℕ}
  {c : Call Shop AppError Reply Req} {ok : ShopSys → Event Req → ShopSys → Prop}

/-! ## Room for what was sold -/

/-- Stock and what is sold of a product fit an `int` together. -/
def Roomy (d : Db) : Prop := ∀ p row n, d.get .products p = some row → row.stock = some n →
    n + soldStock p d ≤ i32Max

structure RoomOK (d : Db) : Prop where
  nonneg : StockNonneg d
  order : ∀ k i, d.get .orderItems k = some i → (d.get .orders i.orderId).isSome = true
  positive : ∀ k i, d.get .orderItems k = some i → 0 < i.quantity
  room : Roomy d

theorem stockOf_limited {row : Product} {n : ℤ} (hr : d.get .products p = some row)
    (hs : row.stock = some n) :
    stockOf p d = n ∧ limited d p = some true := by
  unfold stockOf limited
  rw [hr, Option.bind_some, Option.map_some, hs]
  exact ⟨rfl, rfl⟩

/-- A product that is limited has a stock. -/
theorem stock_of_limited (h : limited d p = some true) : ∃ row n, d.get .products p = some row ∧
    row.stock = some n := by
  obtain ⟨row, hr, hs⟩ := Option.map_eq_some_iff.1 h
  obtain ⟨n, hn⟩ := Option.isSome_iff_exists.1 hs
  exact ⟨row, n, hr, hn⟩

/-- The room of a product that no step limits or frees is judged by the sum. -/
theorem Roomy.of_sum (h : Roomy d) (hlim : ∀ p, limited d' p = limited d p)
    (hsum : ∀ p, limited d p = some true → stockOf p d' + soldStock p d' = stockOf p d +
      soldStock p d) : Roomy d' := by
  intro p row' n' hr' hs'
  obtain ⟨hstock', hlim'⟩ := stockOf_limited hr' hs'
  rw [hlim] at hlim'
  obtain ⟨row, n, hr, hs⟩ := stock_of_limited hlim'
  have hroom := h p row n hr hs
  have hsame := hsum p hlim'
  rw [hstock', (stockOf_limited hr hs).1] at hsame
  omega

theorem CheckedOut.roomOK {key : Option IdempotencyKey} (x : CheckedOut u key now d d')
    (h : RoomOK d) : RoomOK d' where
  nonneg := x.nonneg h.nonneg
  order _ _ hk := x.item_order h.order hk
  positive _ _ hk := x.item_positive h.positive hk
  room := h.room.of_sum x.limited_eq fun p _ => x.stock_sum h.order p

theorem StatusChanged.roomOK {target : OrderStatus} (x : StatusChanged id target now d d')
    (h : RoomOK d) : RoomOK d' where
  nonneg := x.nonneg h.nonneg h.positive
  order _ _ hk := x.item_order h.order hk
  positive k i hk := h.positive k i (by rwa [x.only.get (t := ShopTbl.orderItems) (by simp)] at hk)
  room := by
    refine h.room.of_sum x.limited_eq fun p hlim => ?_
    obtain ⟨row, n, hr, hs⟩ := stock_of_limited hlim
    rw [← x.sold p, stockOf, x.products_eq, stockOf, hr]
    simp only [Option.map_some, Option.bind_some, Product.give, hs, Option.getD_some]
    omega

/-! ## Edits -/

/-- An edit that sets a stock leaves room for what is sold of the product. -/
def Req.LeavesRoom : Req → Db → Prop
  | .updateProduct id req, d => ∀ n, req.stock = some (some n) → n + soldStock id d ≤ i32Max
  | _, _ => True

theorem soldStock_same (hw : ∀ t ∈ [ShopTbl.orders, .orderItems], t ∉ q.writes)
    (h : q.Commits (.free Shop) σ) (p : Uuid) :
    soldStock p σ.db = soldStock p σ.now := by
  refine tookOf_congr (h.only _ (hw _ (by simp))) fun k i _ _ => ?_
  unfold revenueIn
  rw [h.only.get (t := ShopTbl.orders) (hw _ (by simp))]

theorem RoomOK.of_products (h : RoomOK σ.now)
    (hw : ∀ t ∈ [ShopTbl.orders, .orderItems], t ∉ q.writes)
    (hc : q.Commits (.free Shop) σ) (hn : StockNonneg σ.db) (hr : Roomy σ.db) : RoomOK σ.db := by
  have ho : ∀ k, σ.db.get .orders k = σ.now.get .orders k := hc.only.get (hw _ (by simp))
  have hi : ∀ k, σ.db.get .orderItems k = σ.now.get .orderItems k := hc.only.get (hw _ (by simp))
  refine ⟨hn, fun k i hk => ?_, fun k i hk => h.positive k i (hi k ▸ hk), hr⟩
  rw [ho]
  exact h.order k i (hi k ▸ hk)

theorem ProductEdited.get {req : UpdateProductRequest} (h : ProductEdited id req d d') :
    ∃ row type, d.get .products id = some row ∧
    (req.apply type row).checks = true ∧
    ∀ p, d'.get .products p = if p = id then some (req.apply type row) else d.get .products p := by
  obtain ⟨row, type, hr, hc, rfl⟩ := h
  refine ⟨row, type, hr, hc, fun p => ?_⟩
  rw [Store.get_mod, hr]
  rfl

theorem RoomOK.commit (hq : q.LeavesRoom σ.now) (hc : q.Commits (.free Shop) σ) (h : RoomOK σ.now) :
    RoomOK σ.db := by
  cases q with
  | checkout =>
    obtain ⟨x⟩ := hc
    exact x.roomOK h
  | updateOrderStatus =>
    obtain ⟨_, -, ⟨x⟩⟩ := hc
    exact x.roomOK h
  | updateProduct id req =>
    have hw : ∀ t ∈ [ShopTbl.orders, .orderItems], t ∉ (Req.updateProduct id req).writes := by
      simp [Req.writes]
    -- an edit sells nothing
    have hsold := soldStock_same hw hc
    obtain ⟨row, type, hr, hchecks, hget⟩ := ProductEdited.get hc
    refine h.of_products hw hc (fun p row' hr' => ?_) fun p row' n hr' hs => ?_
    · rw [hget] at hr'
      split at hr'
      · cases hr'
        exact (of_decide_eq_true hchecks).2.1
      · exact h.nonneg p row' hr'
    · rw [hsold]
      rw [hget] at hr'
      split at hr'
      next he =>
        cases hr'
        subst he
        have hs : req.stock.getD row.stock = some n := hs
        -- a stock that is given has room by the condition, one that is kept had it
        cases hreq : req.stock with
        | none => exact h.room p row n hr (by rw [hreq] at hs; exact hs)
        | some stock => exact hq n (by rw [hreq, ← hs, hreq]; rfl)
      · exact h.room p row' n hr' hs
  | _ =>
    have hproducts : ∀ p, σ.db.get .products p = σ.now.get .products p :=
      hc.only.get (t := ShopTbl.products) (by simp [Req.writes])
    refine h.of_products (by simp [Req.writes]) hc
      (fun p row hr => h.nonneg p row (hproducts p ▸ hr)) fun p row n hr hs => ?_
    rw [soldStock_same (by simp [Req.writes]) hc]
    exact h.room p row n (hproducts p ▸ hr) hs

/-- An edit that leaves no room for what is sold. -/
theorem not_roomy (hq : ¬ q.LeavesRoom σ.now) (hc : q.Commits (.free Shop) σ) : ¬ Roomy σ.db := by
  cases q with
  | updateProduct id req =>
    have hw : ∀ t ∈ [ShopTbl.orders, .orderItems], t ∉ (Req.updateProduct id req).writes := by
      simp [Req.writes]
    have hsold := soldStock_same hw hc id
    obtain ⟨row, type, hr, -, hget⟩ := ProductEdited.get hc
    refine fun hroom => hq fun n hn => ?_
    rw [← hsold]
    exact hroom id _ n (by rw [hget, if_pos rfl]) (by rw [UpdateProductRequest.apply, hn]; rfl)
  | _ => exact absurd trivial hq

/-! ## What a refund can give back -/

/-- Part of what order `o` took of `p`. -/
theorem givenTo_le_took {o : Uuid} (hpos : ∀ k i, d.get .orderItems k = some i → 0 < i.quantity)
    {pre suf : List (Uuid × ℤ)} {x : Uuid × ℤ} (hperm : (pre ++ x :: suf).Perm (tookStock o d)) :
    0 ≤ givenTo x.1 pre ∧ 0 ≤ x.2 ∧ givenTo x.1 pre + x.2 ≤ tookOf (fun k => k = o) x.1 d := by
  have hq : ∀ y ∈ pre ++ x :: suf, 0 ≤ y.2 := by
    intro y hy
    obtain ⟨k, i, hk, -, he⟩ := mem_tookStock (hperm.mem_iff.1 hy)
    rw [he]
    exact (hpos k i hk).le
  have hpart : ∀ l : List (Uuid × ℤ), (∀ y ∈ l, 0 ≤ y.2) → 0 ≤ givenTo x.1 l := by
    intro l hl
    refine List.sum_nonneg fun n hn => ?_
    obtain ⟨y, hy, rfl⟩ := List.mem_map.1 hn
    split
    · exact hl y hy
    · exact le_rfl
  have hall : givenTo x.1 (pre ++ x :: suf) = givenTo x.1 pre + (x.2 + givenTo x.1 suf) := by
    simp [givenTo]
  have hsum : givenTo x.1 (pre ++ x :: suf) = tookOf (fun k => k = o) x.1 d :=
    (givenTo_perm hperm x.1).trans (tookStock_sum x.1)
  have hpre := hpart pre fun y hy => hq y (List.mem_append_left _ hy)
  have hsuf := hpart suf fun y hy => hq y (List.mem_append_right _ (List.mem_cons_of_mem _ hy))
  exact ⟨hpre, hq x (by simp), by omega⟩

/-- An order is part of what is sold. -/
theorem took_le_sold {o : Uuid} (hpos : ∀ k i, d.get .orderItems k = some i → 0 < i.quantity)
    (ho : revenueIn d o = true)
    (p : Uuid) : tookOf (fun k => k = o) p d ≤ soldStock p d := by
  let rest : Uuid → Bool := fun k => if k = o then false else revenueIn d k
  have hsplit : tookOf (revenueIn d) p d = tookOf rest p d + tookOf (fun k => k = o) p d :=
    tookOf_split ho (if_pos rfl) fun k hk => if_neg hk
  rw [soldStock, hsplit]
  have hrest : 0 ≤ tookOf rest p d := tookOf_nonneg hpos p
  omega

/-- **With room for what is sold, an order's stock can be given back**, in any order of its lines.
-/
theorem RoomOK.not_overfull {o : Uuid} (h : RoomOK d) (ho : revenueIn d o = true) :
    ¬ Overfull (tookStock o d) d := by
  rintro ⟨pre, x, suf, row, n, hperm, hr, hs, hfit⟩
  obtain ⟨hpre, hx, hpart⟩ := givenTo_le_took h.positive hperm
  have hsold := took_le_sold h.positive ho x.1
  have hroom := h.room x.1 row n hr hs
  have hn : 0 ≤ n := by
    have hstock := h.nonneg x.1 row hr
    rw [hs] at hstock
    exact of_decide_eq_true hstock
  have hlow : -i32Max - 1 ≤ 0 := by decide
  refine absurd hfit ?_
  rw [Bool.not_eq_false, fitsI32, decide_eq_true_eq]
  exact ⟨by omega, by omega⟩

/-! ## The contract with the range -/

/-- A value out of range rolls a status change back only when its refund has one. -/
def Req.RollsInRange : Req → Option AppError → Pt Shop → Prop
  | .updateOrderStatus id status _, e, σ => e = some (.database .outOfRange) →
      ∃ target, OrderStatus.fromStr status = some target ∧ OutOfRange id target σ.now
  | _, _, _ => True

def restockContract : Contract shop (shopRules.under (.free Shop)) where
  oblig q := writing (fun σ => σ.committed = false ∧ q.Commits (.free Shop) σ) q.RollsInRange
  post _ _ _ _ := True
  err _ _ _ _ := True
  covers _ _ _ h := covers_of h.1 h.2
  crash _ _ _ := trivial
  meets q d d' _ := by
    cases q with
    | updateOrderStatus id status now =>
      refine wp_reply (wp_under (fun _ _ _ => trivial) _ _ (wp_mono (fun _ _ _ => trivial)
        (fun _ _ _ => trivial) _ _
        (updateOrderStatus_wp (fun _ h => ?_) (fun e σ' _ h he => ?_) fun σ' hc h => ⟨hc, h⟩)))
      · cases h
      · exact h (by simpa using he)
    | _ =>
      exact wp_mono (fun _ _ _ => trivial) (fun _ _ _ => trivial) _ _
        (Req.meets (K := .free Shop) _)

theorem restock_ok (h : shop.Reach ok (Sys.init d) s) : s.OK restockContract :=
  reach_ok (fun _ _ _ _ _ _ _ _ _ _ => trivial) (ok_init d) h

/-! ## Runs -/

/-- Every edit that commits leaves room. -/
def EditsRoom (s : ShopSys) (_ : Event Req) (s' : ShopSys) : Prop := ∀ t c, CommitStep s t c s' →
    c.req.LeavesRoom s.db

theorem reach_edits (h0 : RoomOK d) (h : shop.Reach EditsRoom (Sys.init d) s) : RoomOK s.db := by
  refine reach_inv_step (P := RoomOK) h0 (fun s₁ t c s₂ e hr _ ho hcs hi => ?_) h
  obtain ⟨σ, hnow, hdb, -, -, -, hc⟩ := Sys.OK.commits rfl (shop_ok hr) hcs
  rw [← hdb]
  rw [← hnow] at hi
  exact hi.commit (hnow ▸ ho t c hcs) hc

/-- The points are all that can keep a refund from its range. -/
theorem RoomOK.rollback {status : String} (hi : RoomOK s.db) (h : shop.Reach ok (Sys.init d) s)
    (hq : c.req = .updateOrderStatus id status now)
    (hr : RollbackStep s t c (some (.database .outOfRange)) s') :
    ∃ order row, s.db.get .orders id = some order ∧ s.db.get .users order.userId = some row ∧
      PointsOverflow row.pointsBalance (orderFlowSums s.db id) id := by
  obtain ⟨start, -, ho⟩ := (restock_ok h).rollback hr
  simp only [restockContract, writing, hq, Req.RollsInRange] at ho
  obtain ⟨target, -, order, row, horder, hcomp, hrow, hwhy⟩ := ho trivial
  refine ⟨order, row, horder, hrow, hwhy.resolve_right (hi.not_overfull ?_)⟩
  simp only [compensationRequired, Bool.and_eq_true] at hcomp
  show (s.db.get .orders id).any (fun row => row.status.isRevenue) = true
  rw [show s.db.get .orders id = some order from horder]
  exact hcomp.1

/-- A refund that commits gives back what the order's lines took. -/
theorem commit_gives {status : String} (h : shop.Reach ok (Sys.init d) s)
    (hq : c.req = .updateOrderStatus id status now)
    (hcs : CommitStep s t c s') : ∃ target order, OrderStatus.fromStr status = some target ∧
      s.db.get .orders id = some order ∧
      ∀ p, s'.db.get .products p = (s.db.get .products p).map
        (Product.give (if compensationRequired order.status target then
          tookOf (fun k => k = id) p s.db else 0)) := by
  obtain ⟨σ, hnow, hdb, -, -, -, hc⟩ := Sys.OK.commits rfl (shop_ok h) hcs
  rw [hq] at hc
  obtain ⟨target, ht, ⟨x⟩⟩ := hc
  refine ⟨target, x.order, ht, by rw [← hnow]; exact x.order_eq, fun p => ?_⟩
  rw [← hnow, ← hdb]
  exact x.products_eq p

/-- **A refund never fails for its stock, and gives back exactly what its lines took, as
long as every edit of a stock leaves room for what is sold of the product**: once an edit
does not, the stock and what is sold no longer fit. -/
theorem restock_fits (h0 : RoomOK d) :
    (∀ s, shop.Reach EditsRoom (Sys.init d) s → RoomOK s.db ∧
      (∀ o, revenueIn s.db o = true → ¬ Overfull (tookStock o s.db) s.db) ∧
      ∀ t c id status now s', c.req = .updateOrderStatus id status now →
        (RollbackStep s t c (some (.database .outOfRange)) s' →
          ∃ order row, s.db.get .orders id = some order ∧
          s.db.get .users order.userId = some row ∧
          PointsOverflow row.pointsBalance (orderFlowSums s.db id) id) ∧
        (CommitStep s t c s' → ∃ target order, OrderStatus.fromStr status = some target ∧
          s.db.get .orders id = some order ∧
          ∀ p, s'.db.get .products p = (s.db.get .products p).map
            (Product.give (if compensationRequired order.status target then
              tookOf (fun k => k = id) p s.db else 0)))) ∧
    ∀ s t c s', shop.Reachable (Sys.init d) s → CommitStep s t c s' → ¬ c.req.LeavesRoom s.db →
      ¬ Roomy s'.db := by
  refine ⟨fun s h => ?_, fun s t c s' h hcs hq => ?_⟩
  · have hi : RoomOK s.db := reach_edits h0 h
    exact ⟨hi, fun o ho => hi.not_overfull ho, fun t c id status now s' hq =>
      ⟨hi.rollback h hq, commit_gives h hq⟩⟩
  · obtain ⟨σ, hnow, hdb, -, -, -, hc⟩ := Sys.OK.commits rfl (shop_ok h) hcs
    rw [← hdb]
    exact not_roomy (hnow ▸ hq) hc

instance : Decidable (q.LeavesRoom d) :=
  match q with
  | .updateProduct id req =>
    decidable_of_iff ((req.stock.bind fun n => n).all (fun n => n + soldStock id d ≤ i32Max) =
      true) <| by
      rw [Option.all_eq_true]
      simp only [Option.bind_eq_some_iff, decide_eq_true_eq]
      exact ⟨fun h n hn => h n ⟨_, hn, rfl⟩, fun h n ⟨_, hr, hn⟩ => h n (hn ▸ hr)⟩
  | .checkout .. | .updateOrderStatus .. | .redeem .. | .adjustPoints .. | .addItem
    .. | .updateQuantity .. | .removeItem ..
  | .clearCart .. | .updateCourse .. | .setCourseActive .. | .cancelEnrolment
    .. | .createLeaveRequest ..
  | .cancelLeaveRequest .. | .decideLeaveRequest .. | .bookMakeup .. | .bulkUpsertAttendance .. =>
    inferInstanceAs (Decidable True)

/-- `EditsRoom`, over the calls there are. -/
def editsRoom (s : ShopSys) (_ : Event Req) (_ : ShopSys) : Bool :=
  s.calls.rows.all fun e => !e.2.prog.isCommit || decide (e.2.req.LeavesRoom s.db)

theorem editsRoom_of {e : Event Req} (h : editsRoom s e s' = true) : EditsRoom s e s' := by
  rintro t c ⟨hc, k, hk, -⟩
  have hmem := List.all_eq_true.1 h (t, c) (Table.mem_rows.2 hc)
  simpa [hk, Prog.isCommit] using hmem

theorem sampleShop_room : RoomOK sampleShop where
  nonneg _ _ hr := Store.get_all (d := sampleShop) (t := ShopTbl.products)
    (P := fun _ row => row.stock.all (0 ≤ ·) = true)
    (by decide) hr
  order _ _ hk := nomatch hk
  positive _ _ hk := nomatch hk
  room := by
    intro p row n hr hs
    have hsold : soldStock p sampleShop = 0 := rfl
    have hn : row.stock = some 5 := Store.get_all (d := sampleShop) (t := ShopTbl.products)
      (P := fun _ row => row.stock = some 5)
      (by decide) hr
    rw [hs] at hn
    cases hn
    rw [hsold]
    decide

/-- Two balls are sold, three are left; then the stock is set to `n`; then the order is refunded, in
`k` steps. -/
def sampleEdited (n : ℤ) (k : ℕ) : List (Event Req) :=
  sampleSale ++ .start 1 (.updateProduct 3 ⟨none, none, none, some (some n), none, none, none⟩) ::
  Event.steps 1 200 5 ++
    .start 2 (.updateOrderStatus 118 "refunded" 2) :: Event.steps 2 300 k

theorem restock_fits_edited : RoomOK (shop.after (sampleEdited 100 38) (.init sampleShop)).db :=
  ((restock_fits sampleShop_room).1 _ ((Service.reach_checks (T := editsRoom)
    (by decide +kernel)).mono fun _ _ _ => editsRoom_of)).1

/-- The two are back. -/
example : ((shop.after (sampleEdited 100 38) (.init sampleShop)).db.get .products 3).bind
    Product.stock = some 102 := by
  decide +kernel

/-- **An order that can no longer be refunded**: after its sale the stock was set to the largest
there is. -/
theorem restock_overflows : RoomOK sampleShop ∧
    let s := shop.after (sampleEdited 2147483647 27) (.init sampleShop)
    shop.Reachable (Sys.init sampleShop) s ∧ (s.call 2).bind (fun c => c.prog.failed) =
      some (.database .outOfRange) ∧
      revenueIn s.db 118 = true ∧ Overfull (tookStock 118 s.db) s.db := by
  refine ⟨sampleShop_room, Service.reachable_after _, by decide +kernel, by decide +kernel, ?_⟩
  have htook : tookStock 118 (shop.after (sampleEdited 2147483647 27) (.init sampleShop)).db =
      [(3, 2)] := by decide +kernel
  have hrow : (shop.after (sampleEdited 2147483647 27) (.init sampleShop)).db.get .products 3 =
      some ⟨"ball", .merchandise, 30000, some 2147483647, none, none, true⟩ := by decide +kernel
  rw [htook]
  exact ⟨[], (3, 2), [], _, _, .refl _, hrow, rfl, rfl⟩

end DreamFly
