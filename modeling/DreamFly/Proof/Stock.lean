import DreamFly.Lists.Groups
import DreamFly.Proof.Rules
import DreamFly.Shop.Products

/-!
# Stock, proved

What taking and giving back stock does to the store: one `Taken` step for each
line of a checkout, one `Given` step for each line of a refund, in the order of the
locks. `reserved_find` says what the reserved rows tell about a product, and
`lockRestockForOrderTx_spec` that the lines a refund gives back are those the order
took.
-/

namespace DreamFly

open Txn Prog

variable {C : Pt Shop → Prop} {B : Option AppError → Pt Shop → Prop} {σ : Pt Shop}
  {F : AppError → Prop} {o id : Uuid} {d d' : Db}

/-- A product's row after `q` of it were sold. -/
def Product.take (q : ℤ) (p : Product) : Product := { p with stock := p.stock.map (· - q) }

/-- A product's row after `q` of it came back. -/
def Product.give (q : ℤ) (p : Product) : Product := { p with stock := p.stock.map (· + q) }

/-- One line's stock is taken; the row afterwards is the result. -/
def Taken (x : ReserveLine × (Uuid × Product)) (d d' : Db) : Prop :=
  ∃ row, d.get .products x.1.1 = some row ∧ row.stock.all (x.1.2.1 ≤ ·) = true ∧
    x.2 = (x.1.1, row.take x.1.2.1) ∧ d' = d.apply (.mod .products x.1.1 (Product.take x.1.2.1))

/-- One line's stock is given back. -/
def Given (line : Uuid × ℤ) (d d' : Db) : Prop :=
  ∃ row, d.get .products line.1 = some row ∧
    d' = d.apply (.mod .products line.1 (Product.give line.2))

theorem Taken.only {x : ReserveLine × (Uuid × Product)} (h : Taken x d d') :
    Only (S := Shop) [.products] d d' := by
  obtain ⟨row, -, -, -, rfl⟩ := h
  exact Only.write d (by simp [Write.tbl])

theorem Given.only {x : Uuid × ℤ} (h : Given x d d') : Only (S := Shop) [.products] d d' := by
  obtain ⟨row, -, rfl⟩ := h
  exact Only.write d (by simp [Write.tbl])

/-! ## Locks -/

/-- Product locks as `lockProductsTx` hands them out: current rows, locked. -/
def ProductLocks.Good (locks : ProductLocks) (σ : Pt Shop) : Prop :=
  ∀ e ∈ locks, σ.db.get .products e.1 = some e.2 ∧
    Holds σ.held (.row (S := Shop) .products e.1) .noKeyUpdate

theorem ProductLocks.row_some {locks : ProductLocks} {r : Uuid × Product}
    (h : locks.row id = some r) :
    r ∈ locks ∧ r.1 = id := by
  unfold ProductLocks.row at h
  exact ⟨List.mem_of_find?_eq_some h, by simpa using List.find?_some h⟩

theorem lockProductsTx_spec {ids : List Uuid} :
    Does C B σ (lockProductsTx ids) F fun locks σ' => σ'.db = σ.db ∧ locks.Good σ' ∧
      ∀ id ∈ ids, (σ.db.get .products id).isSome → ∃ p, (id, p) ∈ locks := by
  refine (Yields.selectAllFor (by decide) fun _ _ => trivial).imp (fun rs σ' _ h => ?_) fun _ h => h
  obtain ⟨hd, ⟨v, -, hv, hrs⟩, hall⟩ := h
  refine ⟨hd, fun e he => ?_, fun id hid hs => ?_⟩
  · obtain ⟨h1, -, h3⟩ := hall e he
    exact ⟨hd ▸ h1, h3⟩
  · obtain ⟨p, hp⟩ := Option.isSome_iff_exists.1 hs
    rw [← rel_products hv] at hs
    obtain ⟨p', hp'⟩ := Option.isSome_iff_exists.1 hs
    refine ⟨p, ?_⟩
    rw [hrs, mem_found]
    refine ⟨?_, hp, by simpa using hid⟩
    refine List.mem_map.2 ⟨(id, p'), ?_, rfl⟩
    exact (List.perm_insertionSort _ _).mem_iff.2 (Store.mem_sel.2 ⟨hp', by simpa using hid⟩)

/-- The items in lock order: all of them, each with its locked row. -/
theorem ProductLocks.rowsInLockOrder_ok {α : Type} {locks : ProductLocks} {items : List α}
    {key : α → Uuid}
    {l : List ((Uuid × Product) × α)} (h : locks.rowsInLockOrder items key = .ok l) :
    (l.map Prod.snd).Perm items ∧ ∀ e ∈ l, locks.row (key e.2) = some e.1 := by
  unfold ProductLocks.rowsInLockOrder at h
  obtain ⟨pairs, hp, h⟩ := bind_eq_ok h
  cases h
  have hall : List.Forall₂ (fun a (b : (Uuid × Product) × α) => locks.row (key a) = some b.1 ∧
      b.2 = a) items pairs := by
    refine (Lists.mapM_ok.1 hp).imp fun a b hb => ?_
    cases hr : locks.row (key a) with
    | none => rw [hr] at hb; cases hb
    | some row => rw [hr] at hb; cases hb; exact ⟨rfl, rfl⟩
  have hpairs : pairs.map Prod.snd = items ∧ ∀ e ∈ pairs, locks.row (key e.2) = some e.1 := by
    clear hp h
    induction hall with
    | nil => exact ⟨rfl, by simp⟩
    | cons hb _ ih =>
      refine ⟨by rw [List.map_cons, ih.1, hb.2], fun e he => ?_⟩
      rcases List.mem_cons.1 he with rfl | he
      · rw [hb.2]; exact hb.1
      · exact ih.2 e he
  have hperm := List.perm_insertionSort (fun a b : (Uuid × Product) × α => a.1.1 ≤ b.1.1) pairs
  exact ⟨(hperm.map Prod.snd).trans (by rw [hpairs.1]), fun e he => hpairs.2 e (hperm.mem_iff.1 he)⟩

theorem ProductLocks.rowsInLockOrder_error {α : Type} {locks : ProductLocks} {items : List α}
    {key : α → Uuid}
    {e : AppError} (h : locks.rowsInLockOrder items key = .error e) :
    ∃ x ∈ items, e = .internal s!"product {key x} is not covered by ProductLocks" := by
  unfold ProductLocks.rowsInLockOrder at h
  rcases bind_eq_error h with h | ⟨_, _, h⟩
  · obtain ⟨a, ha, he⟩ := Lists.mapM_error h
    refine ⟨a, ha, ?_⟩
    cases hr : locks.row (key a) with
    | none => rw [hr] at he; cases he; rfl
    | some row => rw [hr] at he; cases he
  · cases h

/-! ## Taking -/

theorem decrementLine_spec {line : ReserveLine}
    (hh : Holds σ.held (.row (S := Shop) .products line.1) .noKeyUpdate) :
    Does C B σ (decrementLine line) (fun _ => True) fun e σ' => Taken (line, e) σ.db σ'.db := by
  refine Yields.bind (R := fun r σ' => ∀ p, r = some p → Taken (line, (line.1, p)) σ.db σ'.db)
    (wp_updateRow_held hh (fun _ => ⟨.refl σ, fun _ h => (nomatch h)⟩)
      fun r hr hp => ⟨⟨hh, trivial⟩, σ.later_write _, fun p he => ?_⟩) fun r σ₁ _ h => ?_
  · cases he
    exact ⟨r, hr, hp, rfl, Store.apply_mod_congr hr (onlyIf_pos hp)⟩
  · refine Yields.bind (R := fun p σ' => r = some p ∧ σ' = σ₁)
      (Yields.orFail (fun _ h => ⟨h, rfl⟩) trivial)
      fun p σ₂ _ ⟨he, hσ⟩ => ?_
    subst hσ
    exact .pure (h p he)

/-- **Every line's stock is taken**, in lock order. -/
theorem reserveStockTx_spec {locks : ProductLocks} {lines : List ReserveLine} (hg : locks.Good σ) :
    Does C B σ (reserveStockTx locks lines) (fun _ => True) fun reserved σ' =>
      ∃ ordered : List ReserveLine, ordered.Perm lines ∧ reserved.length = ordered.length ∧
        Chain Taken (ordered.zip reserved) σ.db σ'.db := by
  refine Yields.bind (R := fun ordered σ' => σ' = σ ∧ (ordered.map Prod.snd).Perm lines ∧
      ∀ e ∈ ordered, locks.row e.2.1 = some e.1)
    (Yields.checked (fun l h => ⟨rfl, ProductLocks.rowsInLockOrder_ok h⟩) fun _ _ => trivial)
      fun ordered σ₁ _ h => ?_
  obtain ⟨hσ, hp, hrow⟩ := h
  subst hσ
  refine Yields.bind (R := fun _ σ' => σ' = σ₁) (Yields.checked (fun _ _ => rfl) fun _ _ => trivial)
    fun _ σ₂ _ h => ?_
  subst h
  refine (Yields.each (P := Taken) fun done a rest bs σ' he _ hl _ => ?_).imp
    (fun bs σ' _ h => ⟨_, hp, h⟩) fun _ h => h
  obtain ⟨e, hmem, rfl⟩ := List.mem_map.1 (show a ∈ ordered.map Prod.snd by rw [he]; simp)
  obtain ⟨hm, hid⟩ := ProductLocks.row_some (hrow e hmem)
  exact decrementLine_spec (hl.holds (hid ▸ (hg _ hm).2))

/-- Whether a product is limited. -/
def limited (d : Db) (id : Uuid) : Option Bool := (d.get .products id).map fun p => p.stock.isSome

theorem Taken.limited {x : ReserveLine × (Uuid × Product)} (h : Taken x d d') (id : Uuid) :
    limited d' id = limited d id := by
  obtain ⟨row, hr, -, -, rfl⟩ := h
  unfold DreamFly.limited
  rw [Store.get_mod]
  split
  · next he => rw [he, hr]; simp [Product.take]
  · rfl

/-- **The reserved rows tell which products are limited.** -/
theorem reserved_find {ordered : List ReserveLine} {reserved : Reserved}
    (hn : reserved.length = ordered.length) (hc : Chain Taken (ordered.zip reserved) d d')
    {line : ReserveLine}
    (hl : line ∈ ordered) :
    (reserved.find line.1).map (fun p => p.stock.isSome) = limited d line.1 ∧
    (limited d line.1).isSome := by
  -- every reserved row is of its line's product and tells that product's kind
  have hall : reserved.map Prod.fst = ordered.map (fun l => l.1) ∧
      ∀ e ∈ reserved, limited d e.1 = some e.2.stock.isSome := by
    clear hl
    induction ordered generalizing d reserved with
    | nil => rw [List.length_eq_zero_iff.1 hn]; exact ⟨rfl, by simp⟩
    | cons x ordered ih =>
      match reserved, hn with
      | e :: reserved, hn =>
        obtain ⟨d₁, ht, hc⟩ := hc
        obtain ⟨h1, h2⟩ := ih (by simpa using hn) hc
        have hlim := ht.limited
        obtain ⟨row, hr, -, he, -⟩ := ht
        simp only at he hr
        refine ⟨by rw [List.map_cons, List.map_cons, h1, he], fun e' he' => ?_⟩
        rcases List.mem_cons.1 he' with rfl | he'
        · simp only [he, limited, hr, Option.map_some, Product.take, Option.isSome_map]
        · rw [← hlim]; exact h2 e' he'
  obtain ⟨hfst, hkind⟩ := hall
  have hmem : line.1 ∈ reserved.map Prod.fst := by rw [hfst]; exact List.mem_map_of_mem hl
  obtain ⟨e, he, hid⟩ := List.mem_map.1 hmem
  unfold Reserved.find
  cases hf : reserved.reverse.find? fun e => e.1 = line.1 with
  | none => exact absurd hid (by simpa using List.find?_eq_none.1 hf e (by simpa using he))
  | some e' =>
    have hm : e' ∈ reserved := by simpa using List.mem_of_find?_eq_some hf
    have hid' : e'.1 = line.1 := by simpa using List.find?_some hf
    rw [← hid', hkind e' hm]
    simp

/-! ## Giving back -/

/-- What `lines` give back to product `p`. -/
def givenTo (p : Uuid) (lines : List (Uuid × ℤ)) : ℤ :=
  (lines.map fun x => if x.1 = p then x.2 else 0).sum

/-- Given back one by one in some order, `lines` take a stock out of its range. -/
def Overfull (lines : List (Uuid × ℤ)) (d : Db) : Prop :=
  ∃ pre x suf row n, (pre ++ x :: suf).Perm lines ∧ d.get .products x.1 = some row ∧
    row.stock = some n ∧
    fitsI32 (n + givenTo x.1 pre + x.2) = false

theorem givenTo_cons (p : Uuid) (x : Uuid × ℤ) (lines : List (Uuid × ℤ)) :
    givenTo p (x :: lines) = (if x.1 = p then x.2 else 0) + givenTo p lines := rfl

/-- A product after some lines were given back. -/
theorem given_get {lines : List (Uuid × ℤ)} (h : Chain Given lines d d') (p : Uuid) :
    d'.get .products p = (d.get .products p).map (Product.give (givenTo p lines)) := by
  induction lines generalizing d with
  | nil =>
    have hd : d' = d := h
    rw [hd]
    cases d.get .products p with
    | none => rfl
    | some row => simp [givenTo, Product.give]
  | cons x lines ih =>
    obtain ⟨d₁, ⟨row, hr, rfl⟩, h2⟩ := h
    rw [ih h2, Store.get_mod, givenTo_cons]
    by_cases hp : p = x.1
    · subst hp
      rw [if_pos rfl, if_pos rfl, hr]
      simp [Product.give, Function.comp_def, add_assoc]
    · rw [if_neg hp, if_neg (Ne.symm hp), zero_add]

theorem restoreLine_spec {line : Uuid × ℤ} (hF : ∀ e, Routine e → F e)
    (hO : ∀ row n, σ.db.get .products line.1 = some row → row.stock = some n →
      fitsI32 (n + line.2) = false → F (.database .outOfRange))
    (hh : Holds σ.held (.row (S := Shop) .products line.1) .noKeyUpdate) :
    Does C B σ (restoreLine line) F fun _ σ' => Given line σ.db σ'.db := by
  refine Yields.bind (R := fun r σ' => ∀ p, r = some p →
    Given line σ.db σ'.db) ?_ fun r σ₁ _ h => ?_
  · refine Yields.bind (Yields.selectFor_held (by decide) hh) fun r σ₁ _ ⟨hσ, hr⟩ => ?_
    subst hσ
    rw [filter_true] at hr
    cases r with
    | none => exact .pure fun _ h => (nomatch h)
    | some p =>
      refine Yields.bind (R := fun _ σ' => σ' = σ₁)
        (wp_ensure (fun _ => ⟨.refl σ₁, rfl⟩) fun hfit => ⟨.refl σ₁, ?_⟩)
        fun _ σ₂ _ h => ?_
      · cases hs : p.stock with
        | none => rw [hs] at hfit; cases hfit
        | some n => exact hO p n hr.symm hs (by simpa [hs] using hfit)
      subst h
      refine Yields.bind (Yields.put ⟨hh, trivial⟩) fun _ σ₃ _ h => .pure fun _ _ =>
        ⟨p, hr.symm, ?_⟩
      rw [h]; rfl
  · refine Yields.bind (R := fun p σ' => r = some p ∧ σ' = σ₁)
      (Yields.orFail (fun _ h => ⟨h, rfl⟩) (hF _ ⟨fun _ => by simp, by simp⟩))
        fun p σ₂ _ ⟨he, hσ⟩ => ?_
    subst hσ
    exact .pure (h p he)

theorem ProductLocks.inLockOrder_ok {α : Type} {locks : ProductLocks} {items l : List α}
    {key : α → Uuid}
    (h : locks.inLockOrder items key = .ok l) :
    l.Perm items ∧ ∀ x ∈ l, ∃ row, locks.row (key x) = some row := by
  unfold ProductLocks.inLockOrder at h
  cases hr : locks.rowsInLockOrder items key with
  | error e => rw [hr] at h; cases h
  | ok pairs =>
    rw [hr] at h
    cases h
    obtain ⟨h1, h2⟩ := ProductLocks.rowsInLockOrder_ok hr
    refine ⟨h1, fun x hx => ?_⟩
    obtain ⟨e, he, rfl⟩ := List.mem_map.1 hx
    exact ⟨e.1, h2 e he⟩

theorem ProductLocks.inLockOrder_error {α : Type} {locks : ProductLocks} {items : List α}
    {key : α → Uuid}
    {e : AppError} (h : locks.inLockOrder items key = .error e) : Routine e := by
  unfold ProductLocks.inLockOrder at h
  cases hr : locks.rowsInLockOrder items key with
  | ok pairs => rw [hr] at h; cases h
  | error e' =>
    rw [hr] at h
    cases h
    obtain ⟨x, -, rfl⟩ := ProductLocks.rowsInLockOrder_error hr
    exact ⟨fun _ => by simp, by simp⟩

/-- **Every line is given back**, in lock order. -/
theorem restoreForOrderTx_spec {restock : RestockLocks} (hF : ∀ e, Routine e → F e)
    (hO : Overfull restock.lines σ.db → F (.database .outOfRange))
    (hg : ∀ e ∈ restock.locks, Holds σ.held (.row (S := Shop) .products e.1) .noKeyUpdate) :
    Does C B σ (restoreForOrderTx restock) F fun _ σ' =>
      ∃ lines : List (Uuid × ℤ), lines.Perm restock.lines ∧ Chain Given lines σ.db σ'.db := by
  refine Yields.bind (R := fun lines σ' => σ' = σ ∧ lines.Perm restock.lines ∧
      ∀ x ∈ lines, ∃ row, restock.locks.row x.1 = some row)
    (Yields.checked (fun l h => ⟨rfl, ProductLocks.inLockOrder_ok h⟩) fun e h => hF e
      (ProductLocks.inLockOrder_error h))
    fun lines σ₁ _ ⟨hσ, hp, hrow⟩ => ?_
  subst hσ
  have hmap : ∀ {done : List (Uuid × ℤ)} {bs : List Unit} {d : Db}, bs.length = done.length →
      Chain (fun x : (Uuid × ℤ) × Unit => Given x.1) (done.zip bs) σ₁.db d →
      Chain Given done σ₁.db d := by
    intro done bs d hn hc
    have hm := hc.map Prod.fst
    rwa [List.map_fst_zip (by omega)] at hm
  refine Yields.bind (Yields.each (P := fun x => Given x.1) fun done x rest bs σ' he hn hl hc => ?_)
    fun bs σ₂ _ ⟨hn, hc⟩ => .pure ⟨lines, hp, hmap hn hc⟩
  obtain ⟨row, hr⟩ := hrow x (by rw [he]; simp)
  obtain ⟨hm, hid⟩ := ProductLocks.row_some hr
  refine restoreLine_spec hF (fun row' n hr' hs hfit => hO ?_) (hl.holds (hid ▸ hg _ hm))
  -- the row that does not fit, before the lines given back so far
  rw [given_get (hmap hn hc)] at hr'
  obtain ⟨row₀, hr₀, rfl⟩ := Option.map_eq_some_iff.1 hr'
  obtain ⟨n₀, hs₀, rfl⟩ := Option.map_eq_some_iff.1 hs
  exact ⟨done, x, rest, row₀, n₀, he ▸ hp, hr₀, hs₀, hfit⟩

/-- The lines an order took stock for, as its rows say. -/
def tookStock (o : Uuid) (d : Db) : List (Uuid × ℤ) := restockLines (findStockTracesByOrder o d)

/-- **Under the order's lock, the lines to give back are those of the order at the
end**, and their products are locked. -/
theorem lockRestockForOrderTx_spec (hh : Holds σ.held (.row (S := Shop) .orders o) .noKeyUpdate) :
    Does C B σ (lockRestockForOrderTx o) F fun restock σ' => σ'.db = σ.db ∧
      restock.lines.Perm (tookStock o σ.db) ∧ restock.locks.Good σ' := by
  refine Yields.bind (R := fun traces σ' => σ' = σ ∧ (restockLines traces).Perm (tookStock o σ.db))
    (Yields.read fun v _ hv => ⟨rfl, ?_⟩) fun traces σ₁ _ ⟨hσ, hp⟩ => ?_
  · have hsel : (v.sel .orderItems fun _ item => item.orderId = o ∧ item.target.isProduct).Perm
        (σ.db.sel .orderItems fun _ item => item.orderId = o ∧ item.target.isProduct) :=
      Store.sel_perm fun k r h => rel_items hv hh k r (by simpa using And.left (by simpa using h))
    have hsort := ((List.perm_insertionSort (fun a b : Uuid × OrderItem => a.2.createdAt ≤
      b.2.createdAt) _).trans hsel).trans
      (List.perm_insertionSort (fun a b : Uuid × OrderItem => a.2.createdAt ≤ b.2.createdAt) _).symm
    exact (hsort.map _).filterMap _
  · subst hσ
    refine Yields.bind lockProductsTx_spec fun locks σ₂ _ ⟨hd, hg, _⟩ => .pure ⟨hd, hp, hg⟩

end DreamFly
