import DreamFly.Proof.Stock
import DreamFly.Proof.Seats
import DreamFly.Proof.Points
import DreamFly.Shop.Orders

/-!
# The cart at checkout, proved

A checkout reads the cart in four statements. Under the locks it takes they talk
about one cart, the one that is committed when it commits: `findCartItems_spec` for
what it sells, `clearCartTx_spec` for what it deletes. `Covered` is what makes the
prices current: every target in the cart is locked.
-/

namespace DreamFly

open Txn Prog

variable {C : Pt Shop → Prop} {B : Option AppError → Pt Shop → Prop} {σ : Pt Shop}
  {F : AppError → Prop} {u o : Uuid} {now : Instant} {d d' v : Db}

/-- The cart of a user, in scan order. -/
def cartOf (u : Uuid) (d : Db) : List ((Uuid × Uuid) × CartItem) :=
  d.sel .cartItems fun k _ => k.1 = u

theorem cartRows_perm (u : Uuid) (p : LineTarget → Bool) (d : Db) :
    (cartRows u p d).Perm (d.sel .cartItems fun k row => k.1 = u ∧ p row.target) :=
  List.perm_insertionSort _ _

/-- The lines a checkout of the cart sells. -/
def cartLines (u : Uuid) (d : Db) : List CheckoutLine := (cartOf u d).filterMap (checkoutLine d)

/-- The products and courses in the cart are locked. -/
structure Covered (u : Uuid) (σ : Pt Shop) : Prop where
  user : Holds σ.held (.row (S := Shop) .users u) .update
  product : ∀ k row id, σ.db.get .cartItems k = some row → k.1 = u → row.target = .product id →
    (σ.db.get .products id).isSome → Holds σ.held (.row (S := Shop) .products id) .noKeyUpdate
  course : ∀ k row id, σ.db.get .cartItems k = some row → k.1 = u → row.target = .course id →
    (σ.db.get .courses id).isSome → Holds σ.held (.row (S := Shop) .courses id) .update

theorem Covered.later {σ' : Pt Shop} (h : Covered u σ) (hl : σ.Later σ') (hd : σ'.db = σ.db) :
    Covered u σ' where
  user := hl.holds h.user
  product k row id := by rw [hd]; exact fun h1 h2 h3 h4 => hl.holds (h.product k row id h1 h2 h3 h4)
  course k row id := by rw [hd]; exact fun h1 h2 h3 h4 => hl.holds (h.course k row id h1 h2 h3 h4)

/-! ## Locks -/

theorem mem_checkoutTargets {k : Uuid × Uuid} {row : CartItem} (hk : d.get .cartItems k = some row)
    (hu : k.1 = u) :
    (∀ id, row.target = .product id → id ∈ (checkoutTargets u d).productIds) ∧
      ∀ id, row.target = .course id → id ∈ (checkoutTargets u d).courseIds := by
  have hm : row.target ∈ (d.sel .cartItems fun k _ => k.1 = u).map fun e => e.2.target :=
    List.mem_map.2 ⟨(k, row), Store.mem_sel.2 ⟨hk, by simpa using hu⟩, rfl⟩
  exact ⟨fun id h => List.mem_filterMap.2 ⟨_, hm, by rw [h]; rfl⟩,
    fun id h => List.mem_filterMap.2 ⟨_, hm, by rw [h]; rfl⟩⟩

/-- **The locks of a checkout cover its cart.** -/
theorem acquireCheckoutLocks_spec :
    Does C B σ (acquireCheckoutLocks u) (fun _ => True) fun locks σ' => σ'.db = σ.db ∧
    Covered u σ' ∧
      (∃ row, σ.db.get .users u = some row ∧ locks.balance = ⟨u, row.pointsBalance⟩) ∧
      locks.products.Good σ' ∧
      ∀ c ∈ locks.courses, Holds σ'.held (.row (S := Shop) .courses c) .update := by
  refine Yields.bind (lockBalanceTx_spec fun _ _ => trivial)
    fun lock σ₁ _ ⟨row, hd₁, hr, hlock, hu⟩ => ?_
  refine Yields.bind (R := fun targets σ' => σ' = σ₁ ∧ ∃ v, shopRules.rel σ₁.held v σ₁.db ∧
    targets = checkoutTargets u v) (Yields.read fun v _ hv => ⟨rfl, v, hv, rfl⟩)
      fun targets σ₂ _ ⟨h₂, v, hv, ht⟩ => ?_
  subst h₂
  refine Yields.bind lockProductsTx_spec fun products σ₃ hl₃ ⟨hd₃, hg₃, hp₃⟩ => ?_
  refine Yields.bind lockCoursesTx_spec fun courses σ₄ hl₄ ⟨hd₄, hg₄, hc₄⟩ =>
    .pure ⟨?_, ⟨?_, ?_, ?_⟩, ⟨row, hr, hlock⟩, ?_, hg₄⟩
  · rw [hd₄, hd₃, hd₁]
  · exact (hl₃.trans hl₄).holds hu
  · intro k line id hk hku htg hs
    rw [hd₄, hd₃] at hk
    rw [hd₄] at hs
    obtain ⟨line', hk', ht'⟩ := rel_cart hv hu hku hk
    have hid := (mem_checkoutTargets hk' hku).1 id (ht'.trans htg)
    obtain ⟨p, hp⟩ := hp₃ id (ht ▸ hid) (hd₃ ▸ hs)
    exact hl₄.holds (hg₃ _ hp).2
  · intro k line id hk hku htg hs
    rw [hd₄, hd₃] at hk
    rw [hd₄] at hs
    obtain ⟨line', hk', ht'⟩ := rel_cart hv hu hku hk
    have hid := (mem_checkoutTargets hk' hku).2 id (ht'.trans htg)
    exact hg₄ id (hc₄ id (ht ▸ hid) hs)
  · exact fun e he => ⟨by rw [hd₄]; exact (hg₃ e he).1, hl₄.holds (hg₃ e he).2⟩

/-! ## What is sold -/

theorem offer_isSome {L : Locks (Res Shop)} (hv : shopRules.rel L v d) (t : LineTarget) :
    (t.offer v).isSome = (t.offer d).isSome := by
  cases t with
  | product id => simp only [LineTarget.offer, Option.isSome_map]; exact rel_products hv id
  | course id => simp only [LineTarget.offer, Option.isSome_map]; exact rel_courses hv id

theorem offer_of_only {ts : List ShopTbl} (h : Only (S := Shop) ts d d') (hp : .products ∉ ts)
    (hc : .courses ∉ ts)
    (t : LineTarget) : t.offer d' = t.offer d := by
  cases t with
  | product id => simp only [LineTarget.offer, h.get (t := ShopTbl.products) hp]
  | course id => simp only [LineTarget.offer, h.get (t := ShopTbl.courses) hc]

/-- Name, price and active flag of a line in the cart are current in any snapshot. -/
theorem Covered.offer (h : Covered u σ) (hv : shopRules.rel σ.held v σ.db) {k : Uuid × Uuid}
    {row : CartItem}
    (hk : σ.db.get .cartItems k = some row) (hu : k.1 = u) : row.target.offer v =
    row.target.offer σ.db := by
  have hsome := offer_isSome hv row.target
  cases ht : row.target with
  | product id =>
    rw [ht] at hsome
    simp only [LineTarget.offer, Option.isSome_map] at hsome ⊢
    cases hp : σ.db.get .products id with
    | none =>
      rw [hp] at hsome; rw [Option.isSome_eq_false_iff.1 hsome |> Option.isNone_iff_eq_none.1]
    | some p =>
      rw [rel_same hv ((h.product k row id hk hu ht (by rw [hp]; rfl)).weaken (by decide)), hp]
  | course id =>
    rw [ht] at hsome
    simp only [LineTarget.offer, Option.isSome_map] at hsome ⊢
    cases hc : σ.db.get .courses id with
    | none =>
      rw [hc] at hsome; rw [Option.isSome_eq_false_iff.1 hsome |> Option.isNone_iff_eq_none.1]
    | some c =>
      rw [rel_same hv ((h.course k row id hk hu ht (by rw [hc]; rfl)).weaken (by decide)), hc]

theorem filterMap_filter_isSome {α β : Type} (f : α → Option β) (l : List α) :
    (l.filter fun a => (f a).isSome).filterMap f = l.filterMap f := by
  induction l with
  | nil => rfl
  | cons a l ih => cases h : f a <;> simp [h, ih]

theorem findLinesTx_spec {p : LineTarget → Bool} (hc : Covered u σ) :
    Does C B σ (findLinesTx u p) F fun lines σ' => σ'.db = σ.db ∧
      lines.Perm ((σ.db.sel .cartItems fun k row => k.1 = u ∧
        p row.target).filterMap (checkoutLine σ.db)) := by
  refine Yields.bind (R := fun x σ' => σ' = σ ∧ shopRules.rel σ.held x.2 σ.db ∧
    x.1 = (cartRows u p x.2).filter fun e => (checkoutLine x.2 e).isSome)
    (Yields.read fun v _ hv => ⟨rfl, hv, rfl⟩) fun x σ₁ _ ⟨h₁, hv, hx⟩ => ?_
  subst h₁
  obtain ⟨hits, v⟩ := x
  simp only at hv hx ⊢
  subst hx
  -- what was found before the locks is read once more under them
  set ks := ((cartRows u p v).filter fun e => (checkoutLine v e).isSome).map Prod.fst with hks
  have hmem : ∀ k, k ∈ ks ↔ ∃ r, v.get .cartItems k = some r ∧ (k.1 = u ∧ p r.target = true) ∧
      (r.target.offer v).isSome := by
    intro k
    rw [hks, List.mem_map]
    constructor
    · rintro ⟨⟨k', r⟩, hm, rfl⟩
      obtain ⟨hm, hs⟩ := List.mem_filter.1 hm
      obtain ⟨hg, hp⟩ := Store.mem_sel.1 ((cartRows_perm u p v).mem_iff.1 hm)
      exact ⟨r, hg, by simpa using hp, by simpa [checkoutLine] using hs⟩
    · rintro ⟨r, hg, hp, hs⟩
      have hm := (cartRows_perm u p v).mem_iff.2 (Store.mem_sel.2 ⟨hg, by simpa using hp⟩)
      refine ⟨(k, r), List.mem_filter.2 ⟨hm, ?_⟩, rfl⟩
      simpa [checkoutLine] using hs
  have hnd : ks.Nodup := by
    refine (List.Sublist.map _ List.filter_sublist).nodup ((List.Perm.nodup_iff ?_).2
      (Store.sel_keys_nodup v .cartItems fun k row => k.1 = u ∧ p row.target))
    exact (cartRows_perm u p v).map _
  refine Yields.bind (R := fun rows σ' => σ'.db = σ₁.db ∧
      rows = σ₁.db.found .cartItems (fun k row => k.1 = u ∧ p row.target) ks)
    (wp_lockEach (by decide) (fun _ _ _ _ _ => trivial) ⟨Pt.later_grants _ _ _ _, by simp, rfl⟩)
    fun rows σ₂ _ ⟨hd₂, hrows⟩ => .pure ⟨hd₂, ?_⟩
  -- the cart is the user's: the second read finds the same lines
  have hperm : rows.Perm ((σ₁.db.sel .cartItems fun k row => k.1 = u ∧ p row.target).filter
      fun e => (checkoutLine σ₁.db e).isSome) := by
    have hn : rows.Nodup := by
      rw [hrows]
      exact List.Nodup.of_map Prod.fst ((found_keys_sublist _ _ _ _).nodup hnd)
    refine (List.perm_ext_iff_of_nodup hn ((Store.sel_nodup _ _ _).filter _)).2 fun ⟨k, r⟩ => ?_
    rw [hrows, mem_found, List.mem_filter, Store.mem_sel, hmem]
    constructor
    · rintro ⟨⟨r', hr', -, hs⟩, hg, hp⟩
      refine ⟨⟨hg, hp⟩, ?_⟩
      obtain ⟨r'', hr'', ht⟩ := rel_cart hv hc.user (by simpa using And.left (by simpa using hp)) hg
      rw [hr'] at hr''
      cases hr''
      rw [ht, offer_isSome hv] at hs
      simpa [checkoutLine] using hs
    · rintro ⟨⟨hg, hp⟩, hs⟩
      have hp' : k.1 = u ∧ p r.target = true := by simpa using hp
      obtain ⟨r', hr', ht⟩ := rel_cart hv hc.user hp'.1 hg
      refine ⟨⟨r', hr', ⟨hp'.1, by rw [ht]; exact hp'.2⟩, ?_⟩, hg, hp⟩
      rw [ht, offer_isSome hv]
      simpa [checkoutLine] using hs
  have hline : rows.filterMap (checkoutLine v) = rows.filterMap (checkoutLine σ₁.db) := by
    refine List.filterMap_congr fun ⟨k, r⟩ he => ?_
    rw [hrows, mem_found] at he
    have hu : k.1 = u := And.left (by simpa using he.2.2)
    simp only [checkoutLine, hc.offer hv he.2.1 hu]
  rw [hline]
  refine (hperm.filterMap _).trans ?_
  rw [filterMap_filter_isSome]

/-- **A checkout's lines are those of the committed cart**, at current prices. -/
theorem findCartItems_spec (hc : Covered u σ) :
    Does C B σ (findCartItemsForCheckoutTx u) F fun lines σ' => σ'.db = σ.db ∧
      lines.Perm (cartLines u σ.db) := by
  refine Yields.bind (findLinesTx_spec hc) fun lines σ₁ hl₁ ⟨hd₁, hp₁⟩ => ?_
  refine Yields.bind (findLinesTx_spec (hc.later hl₁ hd₁)) fun courseLines σ₂ _ ⟨hd₂, hp₂⟩ =>
    .pure ⟨hd₂.trans hd₁, ?_⟩
  rw [hd₁] at hp₂
  refine (hp₁.append hp₂).trans ?_
  rw [← List.filterMap_append]
  refine List.Perm.filterMap _ ?_
  have hsplit := List.filter_append_perm (fun e : (Uuid × Uuid) × CartItem => e.2.target.isProduct)
    (cartOf u σ.db)
  refine List.Perm.trans (List.Perm.of_eq ?_) hsplit
  simp only [cartOf, Store.sel, Table.only, List.filter_filter]
  congr 1 <;> refine List.filter_congr fun e _ => ?_
  · simp [Bool.and_comm]
  · simp [LineTarget.isCourse, Bool.and_comm]

/-! ## What is cleared -/

/-- **The final clear deletes the whole committed cart.** -/
theorem clearCartTx_spec (hu : Holds σ.held (.row (S := Shop) .users u) .update) :
    Does C B σ (clearCartTx u) F fun _ σ' => Only (S := Shop) [.cartItems] σ.db σ'.db ∧
      ∀ k, σ'.db.get .cartItems k = if k.1 = u then none else σ.db.get .cartItems k := by
  refine Yields.bind (Yields.deleteAll (fun _ _ => trivial)
    fun σ' k _ hh => ⟨hh.weaken (by decide), trivial⟩)
    fun rs σ₁ _ ⟨honly, ⟨v, _, hv, _, hrs⟩, hget⟩ => .pure ⟨honly, fun k => ?_⟩
  rw [hget k]
  by_cases hk : k.1 = u
  · rw [if_pos hk]
    cases hg : σ.db.get .cartItems k with
    | none => split <;> rfl
    | some r =>
      obtain ⟨r', hr', -⟩ := rel_cart hv hu hk hg
      rw [if_pos]
      exact List.mem_map.2 ⟨(k, r), (hrs k r).2 ⟨hg, by simpa using hk, r',
        hr', by simpa using hk⟩, rfl⟩
  · rw [if_neg hk, if_neg]
    intro hm
    obtain ⟨⟨k', r⟩, he, rfl⟩ := List.mem_map.1 hm
    exact hk (by simpa using ((hrs k' r).1 he).2.1)

end DreamFly
