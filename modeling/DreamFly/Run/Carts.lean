import DreamFly.Run.Receipts

/-!
# Carts over whole runs

* `checkout_sells_cart`: where a checkout commits, the lines of its order are the cart
  lines it deletes, with the names and prices that the committed products and courses
  have then, all of them on sale.
-/

namespace DreamFly

open Txn

variable {u o : Uuid} {key : Option IdempotencyKey} {now : Instant} {d d' : Db} {q : Req}
  {σ : Pt Shop} {s s' : ShopSys} {t : ℕ}
  {c : Call Shop AppError Reply Req} {ok : ShopSys → Event Req → ShopSys → Prop}

/-- Foreign keys of the lines: every cart line has its product or course, every order
line its order. -/
structure LinesOK (d : Db) : Prop where
  cart : ∀ k row, d.get .cartItems k = some row → (row.target.offer d).isSome
  item : ∀ k i, d.get .orderItems k = some i → (d.get .orders i.orderId).isSome

/-- Products and courses stay. -/
theorem offer_rel {L : Locks (Res Shop)} (h : shopRules.rel L d d') (t : LineTarget) :
    (t.offer d').isSome = (t.offer d).isSome := by
  cases t with
  | product id => simpa [LineTarget.offer] using (rel_products h id).symm
  | course id => simpa [LineTarget.offer] using (rel_courses h id).symm

theorem CheckedOut.cartItems (x : CheckedOut u key now d d') (k : Uuid × Uuid) :
    d'.get .cartItems k = if k.1 = u then none else d.get .cartItems k := by
  have hbefore : Only (S := Shop) [.products, .orders, .orderItems, .users, .pointLedger,
    .enrolments, .subscriptions] d
      x.steps.granted :=
    (x.steps.stock_only.mono (by simp)).trans <| (x.steps.order_only.mono (by simp)).trans <|
      (x.steps.items_only.mono (by simp)).trans <| (x.steps.points_only.mono (by simp)).trans <|
      (x.steps.enrol_only.mono (by simp)).trans (x.steps.grants.mono (by simp))
  rw [x.tail_only.get (t := ShopTbl.cartItems) (by simp), x.steps.emptied,
    hbefore.get (t := ShopTbl.cartItems) (by simp)]

theorem LinesOK.commit (hr : shopRules.rel [] σ.now σ.db) (h : q.Commits (.free Shop) σ)
    (hp : LinesOK σ.now) : LinesOK σ.db := by
  have hstay : ∀ o, (σ.now.get .orders o).isSome → (σ.db.get .orders o).isSome := by
    intro o ho
    obtain ⟨row, hrow⟩ := Option.isSome_iff_exists.1 ho
    obtain ⟨row', hrow', -⟩ := rel_order hr hrow
    rw [hrow']
    rfl
  have hold : ∀ k row, σ.now.get .cartItems k = some row → (row.target.offer σ.db).isSome := by
    intro k row hk
    rw [offer_rel hr]
    exact hp.cart k row hk
  -- what does not write a table keeps its keys
  have hcart : .cartItems ∉ q.writes → ∀ k row, σ.db.get .cartItems k = some row →
      (row.target.offer σ.db).isSome :=
    fun hw k row hk => hold k row (by rwa [h.only.get (t := ShopTbl.cartItems) hw] at hk)
  have hitem : .orderItems ∉ q.writes → ∀ k i, σ.db.get .orderItems k = some i →
      (σ.db.get .orders i.orderId).isSome :=
    fun hw k i hk => hstay _ (hp.item k i (by rwa [h.only.get (t := ShopTbl.orderItems) hw] at hk))
  have hedit : ∀ u, CartEdited u σ.now σ.db → ∀ k row, σ.db.get .cartItems k = some row →
      (row.target.offer σ.db).isSome := by
    intro u he k row hk
    rcases he.line k row hk with ⟨row', hk', ht⟩ | hnew
    · rw [← ht]; exact hold k row' hk'
    · exact hnew
  cases q with
  | checkout u key req now =>
    obtain ⟨x⟩ := h
    refine ⟨fun k row hk => ?_, fun k i hk => ?_⟩
    · rw [x.cartItems] at hk
      split at hk
      · cases hk
      · exact hold k row hk
    · rcases x.item hk with ⟨line, -, rfl, -⟩ | hk'
      · rw [x.orders, if_pos (show ((orderLine x.steps.reserved line).item x.o now).orderId =
          x.o from rfl)]; rfl
      · exact hstay _ (hp.item k i hk')
  | addItem u | updateQuantity u | removeItem u | clearCart u =>
    exact ⟨hedit u h, hitem (by simp [Req.writes])⟩
  | _ => exact ⟨hcart (by simp [Req.writes]), hitem (by simp [Req.writes])⟩

/-! ## What is sold -/

/-- The lines of an order. -/
def itemsOf (o : Uuid) (d : Db) : List (Uuid × OrderItem) := d.sel .orderItems fun _ i =>
    i.orderId = o

theorem Lined.itemsOf {line : OrderLine} (h : Lined o now line d d') :
    ((itemsOf o d').map Prod.snd).Perm (line.item o now :: (itemsOf o d).map Prod.snd) := by
  obtain ⟨k, hk, -, rfl⟩ := h
  exact (Store.sel_add_new hk (by simp [OrderLine.item])).map Prod.snd

theorem lined_itemsOf {lines : List OrderLine} (h : Chain (Lined o now) lines d d') :
    ((itemsOf o d').map Prod.snd).Perm (lines.map (·.item o now) ++
      (itemsOf o d).map Prod.snd) := by
  induction lines generalizing d with
  | nil => cases h; exact .refl _
  | cons line lines ih =>
    obtain ⟨d₁, h1, h2⟩ := h
    refine (ih h2).trans ?_
    rw [List.map_cons, List.cons_append]
    exact (h1.itemsOf.append_left _).trans List.perm_middle

/-- Target, quantity, and what was offered for it. -/
abbrev Sold := LineTarget × ℤ × Option (String × ℤ × Bool)

/-- An order line as sold: on sale under its name, at its price. -/
def OrderItem.sold (i : OrderItem) : Sold :=
  (i.target, i.quantity, some (i.name, i.unitPriceCents, true))

/-- A cart line as the products and courses of `d` offer it. -/
def CartItem.sold (d : Db) (row : CartItem) : Sold := (row.target, row.quantity, row.target.offer d)

theorem CheckedOut.itemsOf (x : CheckedOut u key now d d') (hp : LinesOK d) :
    ((itemsOf x.o d').map fun e => e.2.sold).Perm ((cartOf u d).map fun e => e.2.sold d) := by
  have hnone : DreamFly.itemsOf x.o x.steps.placed = [] := by
    have honly : Only (S := Shop) [.products, .orders] d x.steps.placed :=
      (x.steps.stock_only.mono (by simp)).trans (x.steps.order_only.mono (by simp))
    unfold DreamFly.itemsOf
    rw [honly.sel (t := ShopTbl.orderItems) (by simp)]
    refine List.eq_nil_iff_forall_not_mem.2 fun ⟨k, i⟩ hm => ?_
    obtain ⟨hk, ho⟩ := Store.mem_sel.1 hm
    have hord := hp.item k i hk
    rw [of_decide_eq_true ho, x.steps.fresh] at hord
    cases hord
  have hlined := lined_itemsOf x.steps.items
  rw [hnone, List.map_nil, List.append_nil] at hlined
  have hsame : DreamFly.itemsOf x.o d' = DreamFly.itemsOf x.o x.steps.lined := by
    unfold DreamFly.itemsOf Store.sel
    rw [x.items_only]
  -- as a cart line has been read
  let read : CheckoutLine → Sold := fun line => (line.target, line.quantity,
    some (line.name, line.priceCents, line.isActive))
  have hcart : (cartLines u d).map read = (cartOf u d).map fun e => e.2.sold d := by
    unfold cartLines
    rw [List.map_filterMap, ← List.filterMap_eq_map]
    refine List.filterMap_congr fun e he => ?_
    obtain ⟨⟨name, price, active⟩, ho⟩ := Option.isSome_iff_exists.1
      (hp.cart e.1 e.2 (Store.mem_sel.1 he).1)
    simp only [checkoutLine, ho, Option.map_some, Function.comp, CartItem.sold, read]
  have hitems : (orderLines x.cart x.steps.reserved).map (fun line => (line.item x.o now).sold) =
      x.cart.map read := by
    unfold orderLines
    rw [List.map_map]
    refine List.map_congr_left fun line hl => ?_
    simp only [Function.comp, orderLine, OrderLine.item, OrderItem.sold, read, x.active line hl]
  rw [hsame, ← hcart]
  have h := hlined.map OrderItem.sold
  rw [List.map_map, List.map_map] at h
  refine h.trans ?_
  rw [show OrderItem.sold ∘ (fun line : OrderLine => line.item x.o now) =
    fun line => (line.item x.o now).sold from rfl, hitems]
  exact x.cart_eq.map read

theorem Given.offer_eq {x : Uuid × ℤ} (h : Given x d d') (t : LineTarget) :
    t.offer d' = t.offer d := by
  cases t with
  | product id =>
    simp only [LineTarget.offer]
    rw [h.get, Option.map_map]
    congr 1
    funext row
    simp only [Function.comp]
    split <;> rfl
  | course id =>
    simp only [LineTarget.offer]
    rw [h.only.get (t := ShopTbl.courses) (by simp)]

/-- A checkout changes no offer. -/
theorem CheckedOut.offer_eq (x : CheckedOut u key now d d') (t : LineTarget) :
    t.offer d' = t.offer d := by
  have hstock : t.offer x.steps.stocked = t.offer d :=
    x.steps.given.inv (I := fun b => t.offer b = t.offer d)
      (fun _ _ _ _ h hI => (h.offer_eq t).trans hI) rfl
  rw [← hstock]
  cases t with
  | product id =>
    simp only [LineTarget.offer, Store.get]
    rw [x.products_only]
  | course id =>
    simp only [LineTarget.offer]
    rw [x.only.get (t := ShopTbl.courses) (by simp), x.steps.stock_only.get (t := ShopTbl.courses)
      (by simp)]

/-- **A checkout sells exactly the cart, at current prices.** Where it commits, the
lines of its new order are the cart lines it deletes: the same targets and quantities,
each under the name and at the price that the committed product or course has, which
is on sale. -/
theorem checkout_sells_cart {req : CheckoutRequest}
    (hcart : ∀ k row, d.get .cartItems k = some row → (row.target.offer d).isSome)
    (hitem : ∀ k i, d.get .orderItems k = some i → (d.get .orders i.orderId).isSome)
    (h : shop.Reach ok (Sys.init d) s) (hc : CommitStep s t c s')
    (hq : c.req = .checkout u key req now) :
    ∃ o row, s.db.get .orders o = none ∧ s'.db.get .orders o = some row ∧ row.userId = u ∧
      ((itemsOf o s'.db).map fun e => e.2.sold).Perm ((cartOf u s.db).map fun e => e.2.sold s'.db) ∧
      ∀ k, s'.db.get .cartItems k = if k.1 = u then none else s.db.get .cartItems k := by
  have hlines : LinesOK s.db := shop_inv ⟨hcart, hitem⟩ (fun _ _ hr hc hp => hp.commit hr hc) h
  obtain ⟨σ, hnow, hdb, -, -, -, hcommits⟩ := Sys.OK.commits rfl (shop_ok h) hc
  rw [hq] at hcommits
  rw [← hnow] at hlines ⊢
  rw [← hdb]
  obtain ⟨x⟩ := hcommits
  refine ⟨x.o, paidOrder u x.outcome x.method now, x.steps.fresh, by rw [x.orders, if_pos rfl], rfl,
    ?_, x.cartItems⟩
  have hoffer : (fun e : (Uuid × Uuid) × CartItem => e.2.sold σ.db) = fun e => e.2.sold σ.now := by
    funext e
    unfold CartItem.sold
    rw [x.offer_eq]
  rw [hoffer]
  exact x.itemsOf hlines

/-- The sample sale, one operation short of its commit. -/
theorem checkout_sells_cart_sale : ∃ c s', CommitStep (shop.after (sampleSale.take 44)
    (.init sampleShop)) 0 c s' ∧
    ∃ o, ((itemsOf o s'.db).map fun e => e.2.sold).Perm
      ((cartOf 1 (shop.after (sampleSale.take 44) (.init sampleShop)).db).map
        fun e => e.2.sold s'.db) := by
  obtain ⟨c, hc⟩ := Option.isSome_iff_exists.1
    (show ((shop.after (sampleSale.take 44) (.init sampleShop)).call 0).isSome =
      true by decide +kernel)
  have hreq : ((shop.after (sampleSale.take 44) (.init sampleShop)).call 0).map (·.req) =
      some (.checkout 1 none ⟨none, none, none⟩ 0) := by rfl
  have hcommit : ((shop.after (sampleSale.take 44) (.init sampleShop)).call 0).map
      (·.prog.isCommit) = some true := by
    decide +kernel
  rw [hc] at hreq hcommit
  obtain ⟨s', hs'⟩ := exists_commitStep hc (Option.some.inj hcommit)
  obtain ⟨o, -, -, -, -, hperm, -⟩ := checkout_sells_cart
    (fun _ _ => Store.get_all (d := sampleShop) (t := ShopTbl.cartItems)
      (P := fun _ row => (row.target.offer sampleShop).isSome)
      (by decide)) (fun k i hk => by cases hk) (Service.reachable_after _) hs'
        (Option.some.inj hreq)
  exact ⟨c, s', hs', o, hperm⟩

end DreamFly
