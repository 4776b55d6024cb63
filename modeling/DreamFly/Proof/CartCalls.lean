import DreamFly.Proof.Contract
import DreamFly.Txn.Careful

/-!
# Cart calls, line by line

What a committed cart call did to the lines of a cart. The product is read, and judged
with the merged quantity, outside the lock on the line; the statements here are for runs
in which product `p` is not edited meanwhile and an id is never given to a second line
(`cartKeeps`).

* `LineSet`, `LineNew`, `LinesGone`: what a commit makes of the lines.
* `Req.Lines`: which of them a request commits.
* `lineContract`: every request keeps to it.
-/

namespace DreamFly

open Txn Prog

variable {C : Pt Shop → Prop} {B : Option AppError → Pt Shop → Prop} {σ : Pt Shop} {u id p : Uuid}
  {d d' v : Db}
  {τ : Uuid × Uuid → LineTarget} {t : LineTarget} {k : Uuid × Uuid} {n quantity : ℤ}
    {row : CartItem}

/-! ## Lines -/

/-- The line rule of a product. -/
def lineRule (p : Uuid) (d : Db) : Option (ℤ → Except AppError Unit) :=
  (d.get .products p).map Product.ensureLineQuantity

/-- The product accepts the quantity. -/
def Legal (p : Uuid) (n : ℤ) (d : Db) : Prop := ∃ row, d.get .products p = some row ∧
    row.ensureLineQuantity n = .ok ()

theorem legal_iff : Legal p n d ↔ ∃ rule, lineRule p d = some rule ∧ rule n = .ok () := by
  unfold Legal lineRule
  constructor
  · rintro ⟨row, hr, hn⟩
    exact ⟨_, by rw [hr]; rfl, hn⟩
  · rintro ⟨rule, hr, hn⟩
    obtain ⟨row, hrow, rfl⟩ := Option.map_eq_some_iff.1 hr
    exact ⟨row, hrow, hn⟩

theorem Legal.congr (h : Legal p n d) (hd : lineRule p d' = lineRule p d) : Legal p n d' := by
  rw [legal_iff, hd]
  exact legal_iff.1 h

theorem ensureQuantityInRange_ok (h : ensureQuantityInRange n = .ok ()) : 1 ≤ n ∧
    n ≤ maxLineQuantity := by
  unfold ensureQuantityInRange at h
  split at h
  · next hn => exact hn
  · cases h

theorem ensureLineQuantity_ok {row : Product} (h : row.ensureLineQuantity n = .ok ()) : 1 ≤ n ∧
    n ≤ maxLineQuantity := by
  unfold Product.ensureLineQuantity at h
  cases hr : ensureQuantityInRange n with
  | error e => rw [hr] at h; cases h
  | ok x => exact ensureQuantityInRange_ok hr

theorem ensurePurchasable_ok {row : Product} (h : row.ensurePurchasable n = .ok ()) :
    row.ensureLineQuantity n = .ok () := by
  unfold Product.ensurePurchasable at h
  cases ha : row.isActive with
  | false => rw [ha] at h; cases h
  | true =>
    rw [ha] at h
    cases hr : row.ensureLineQuantity n with
    | error e => simp only [hr] at h; cases h
    | ok x => rfl

/-- At most one line for each target in a cart. -/
def OneLine (d : Db) : Prop :=
  ∀ k k' row row', d.get .cartItems k = some row → d.get .cartItems k' = some row' → k.1 = k'.1 →
    row.target = row'.target →
    k = k'

/-- An id of a line stands for one target. -/
def Names (τ : Uuid × Uuid → LineTarget) (d : Db) : Prop := ∀ k row, d.get .cartItems k = some row →
    row.target = τ k

/-- No line of user `u` for `t`. -/
def NoLine (u : Uuid) (t : LineTarget) (d : Db) : Prop := ∀ k row, d.get .cartItems k = some row →
    k.1 = u → row.target ≠ t

/-- Line `k` gets quantity `n`. -/
structure LineSet (k : Uuid × Uuid) (row : CartItem) (n : ℤ) (d d' : Db) : Prop where
  row_eq : d.get .cartItems k = some row
  set : d' = d.apply (.mod .cartItems k fun row => { row with quantity := n })

/-- A new line `k` with quantity `n`. -/
structure LineNew (k : Uuid × Uuid) (t : LineTarget) (n : ℤ) (d d' : Db) : Prop where
  fresh : d.get .cartItems k = none
  none : NoLine k.1 t d
  added : ∃ row : CartItem, row.target = t ∧ row.quantity = n ∧ d' = d.apply (.add .cartItems k row)

/-- Lines of user `u` go. -/
structure LinesGone (u : Uuid) (d d' : Db) : Prop where
  only : Only (S := Shop) [.cartItems] d d'
  line : ∀ k, d'.get .cartItems k = d.get .cartItems k ∨ (k.1 = u ∧ d'.get .cartItems k = .none)

theorem LinesGone.refl (u : Uuid) (d : Db) : LinesGone u d d := ⟨Only.refl _ _, fun _ => .inl rfl⟩

theorem cartLineOf_some (h : cartLineOf u t d = some k) : k.1 = u ∧
    ∃ row, d.get .cartItems k = some row ∧ row.target = t := by
  unfold cartLineOf at h
  obtain ⟨⟨k', row⟩, he, rfl⟩ := List.mem_map.1 (List.mem_of_head? h)
  obtain ⟨hg, hp⟩ := Store.mem_sel.1 he
  simp only [decide_eq_true_eq] at hp
  exact ⟨hp.1, row, hg, hp.2⟩

theorem cartLineOf_none (h : cartLineOf u t d = none) : NoLine u t d := by
  intro k row hk hu ht
  unfold cartLineOf at h
  rw [List.head?_eq_none_iff, List.map_eq_nil_iff] at h
  have hm : (k, row) ∈ d.sel .cartItems (fun k row => k.1 = u ∧ row.target = t) :=
    Store.mem_sel.2 ⟨hk, by simp [hu, ht]⟩
  rw [h] at hm
  cases hm

/-! ## What the runs at hand leave alone -/

/-- A line is added under its entry of the unique index. -/
def lineOfKey : Protect Shop :=
  .noNew .cartItems (fun (i : Uuid × LineTarget) k row => k.1 = i.1 ∧ row.target = i.2)
    (fun i => .uniq (.cartLine i.1 i.2)) .update .update Mode.conflicts_update

/-- The carts are in order. -/
structure CartsOK (τ : Uuid × Uuid → LineTarget) (d : Db) : Prop where
  one : OneLine d
  names : Names τ d

/-- What nobody changes while a cart call runs. -/
def cartKeeps (p : Uuid) (τ : Uuid × Uuid → LineTarget) : Rely Shop :=
  ((Rely.past (CartsOK τ)).and (.same (lineRule p))).and lineOfKey.toRely

variable {L : Locks (Res Shop)}

theorem cartKeeps_past (h : (cartKeeps p τ).rel L v d) (hd : CartsOK τ d) : CartsOK τ v := h.1.1 hd

theorem cartKeeps_rule (h : (cartKeeps p τ).rel L v d) : lineRule p d = lineRule p v := h.1.2

/-- While its entry is locked, a line was there before. -/
theorem cartKeeps_line (h : (cartKeeps p τ).rel L v d)
    (hh : Holds L (.uniq (S := Shop) (.cartLine u t)) .update)
    (hk : d.get .cartItems k = some row) (hu : k.1 = u) (ht : row.target = t) :
    ∃ row', v.get .cartItems k = some row' ∧ row'.target = t := by
  obtain ⟨row', hv, -, ht'⟩ := h.2 k (u, t) hh row hk ⟨hu, ht⟩
  exact ⟨row', hv, ht'⟩

/-- A specification in runs that keep to `cartKeeps`. -/
abbrev Cart {α : Type} (p : Uuid) (τ : Uuid × Uuid → LineTarget) (C : Pt Shop → Prop)
    (B : Option AppError → Pt Shop → Prop)
    (σ : Pt Shop) (q : Tx α) (R : α → Pt Shop → Prop) : Prop :=
  Yields (shopRules.under (cartKeeps p τ)) (writing C B) σ q (fun _ => True) R

/-! ## Statements -/

/-- A new line of user `u` for `t`, under its entry of the unique index. -/
def AddedLine (u : Uuid) (t : LineTarget) (n : ℤ) (σ : Pt Shop) : Prop :=
  ∃ k, k.1 = u ∧ LineNew k t n σ.now σ.db ∧ Holds σ.held (.uniq (S := Shop) (.cartLine u t)) .update

/-- What merging `quantity` into the line of user `u` for product `id` does; `m` is the
quantity it returns. -/
def Merges (u id : Uuid) (quantity m : ℤ) (σ : Pt Shop) : Prop :=
  (∃ k row, k.1 = u ∧ row.target = .product id ∧ m = min (row.quantity + quantity) i32Max ∧
    LineSet k row m σ.now σ.db) ∨
    (m = quantity ∧ AddedLine u (.product id) m σ)

theorem insertCartItem_line (hd : σ.db = σ.now)
    (hh : Holds σ.held (.uniq (S := Shop) (.cartLine u t)) .update)
    (hno : CartsOK τ σ.now → NoLine u t σ.now) :
    Cart p τ C B σ (insertCartItem u t quantity) fun row σ' => row.quantity = quantity ∧
      (CartsOK τ σ'.now → AddedLine u t quantity σ') := by
  refine (insertCartItem_spec.under fun _ _ _ => trivial).imp (fun row σ' hl h => ?_) fun _ h => h
  obtain ⟨ht, hq, -, n, hnew, hd'⟩ := h
  rw [hd, ← hl.now] at hnew hd'
  refine ⟨hq, fun hok => ⟨(u, n), rfl, ⟨hnew, ?_, row, ht, hq, hd'⟩, hl.holds hh⟩⟩
  rw [hl.now] at hok ⊢
  exact hno hok

/-- **The upsert**: the line is set to the sum, or it is new. -/
theorem addProductItemTx_line (hws : σ.ws = []) (hd : σ.db = σ.now) :
    Cart p τ C B σ (addProductItemTx u id quantity) fun row σ' => CartsOK τ σ'.now →
    Merges u id quantity row.quantity σ' := by
  refine Yields.bind (Yields.lockRes trivial) fun _ σ₁ _ h₁ => ?_
  have hws₁ : σ₁.ws = [] := by rw [h₁]; exact hws
  have hd₁ : σ₁.db = σ₁.now := by rw [h₁]; exact hd
  have huniq : Holds σ₁.held (.uniq (S := Shop) (.cartLine u (.product id))) .update := by
    rw [h₁]; exact holds_acquire _ _ _
  refine Yields.bind (R := fun r σ' => σ' = σ₁ ∧ ∃ v, (cartKeeps p τ).rel σ₁.held v σ₁.now ∧
    r = cartLineOf u (.product id) v)
    (Yields.snapshot fun v₀ _ _ hv => ⟨rfl, v₀, hv, by rw [hws₁]; rfl⟩)
      fun r σ₂ _ ⟨h₂, v, hv, hr⟩ => ?_
  subst h₂
  -- the row the UPDATE has changed, or none: then there is no line
  let Found : Option CartItem → Pt Shop → Prop := fun row σ' => match row with
    | none => σ'.db = σ'.now ∧ (CartsOK τ σ'.now → NoLine u (.product id) σ'.now)
    | some row => CartsOK τ σ'.now → ∃ k row₀, k.1 = u ∧ row₀.target = .product id ∧
        row.quantity = min (row₀.quantity + quantity) i32Max ∧
        LineSet k row₀ row.quantity σ'.now σ'.db
  refine Yields.bind (R := Found) ?_ fun row σ₃ hl₃ hf => ?_
  · cases r with
    | none =>
      refine .pure ⟨hd₁, fun _ k row hk hu ht => ?_⟩
      obtain ⟨row', hk', ht'⟩ := cartKeeps_line hv huniq hk hu ht
      exact cartLineOf_none hr.symm k row' hk' hu ht'
    | some k =>
      obtain ⟨hku, row₁, hrow₁, htgt₁⟩ := cartLineOf_some hr.symm
      -- a line of the target is line `k`
      have honly : CartsOK τ σ₂.now → ∀ k' row, σ₂.now.get .cartItems k' = some row → k'.1 = u →
          row.target = .product id →
          k' = k := by
        intro hok k' row hk hu ht
        obtain ⟨row', hk', ht'⟩ := cartKeeps_line hv huniq hk hu ht
        exact (cartKeeps_past hv hok).one k' k row' row₁ hk' hrow₁ (hu.trans hku.symm)
          (ht'.trans htgt₁.symm)
      show Cart p τ C B σ₂ (updateRow (S := Shop) .cartItems k (fun _ => true)
        (CartItem.merge quantity)) Found
      refine wp_updateRow_snapshot (fun _ _ _ _ _ _ _ => trivial) (fun v₀ _ _ hv₀ hnone => ?_)
        (fun hnone => ?_)
        fun row₀ hrow₀ _ => ?_
      · refine ⟨.refl _, hd₁, fun hok k' row hk hu ht => ?_⟩
        have hkk := honly hok k' row hk hu ht
        subst hkk
        obtain ⟨row', hk', -⟩ := cartKeeps_line hv₀ huniq hk hu ht
        rw [hws₁, Store.overlay_nil, hk'] at hnone
        cases hnone
      · refine ⟨σ₂.later_grant _ _, hd₁, fun hok k' row hk hu ht => ?_⟩
        have hkk := honly hok k' row hk hu ht
        subst hkk
        have hk₂ : σ₂.now.get .cartItems k' = some row := hk
        rw [hd₁, hk₂] at hnone
        cases hnone
      · refine ⟨⟨holds_acquire _ _ _, fun _ => rfl⟩,
          (σ₂.later_grant _ _).trans (Pt.later_write _ _), fun hok => ?_⟩
        rw [hd₁] at hrow₀
        have htgt : row₀.target = .product id := by
          rw [hok.names k row₀ hrow₀, ← (cartKeeps_past hv hok).names k row₁ hrow₁, htgt₁]
        refine ⟨k, row₀, hku, htgt, rfl, hrow₀, ?_⟩
        rw [Pt.write_db, Pt.grant_db, hd₁]
        exact Store.apply_mod_congr (S := Shop) hrow₀ rfl
  · cases row with
    | some row =>
      refine .pure fun hok => ?_
      exact .inl (hf hok)
    | none =>
      obtain ⟨hd₃, hno⟩ := hf
      refine (insertCartItem_line hd₃ (hl₃.holds huniq) hno).imp
        (fun row σ₄ hl₄ ⟨hq, hadd⟩ hok => .inr ⟨hq, ?_⟩) fun _ h => h
      rw [hq]
      exact hadd hok

/-- A course line is added where there was none. -/
theorem addCourseItemTx_line (hws : σ.ws = []) (hd : σ.db = σ.now) :
    Cart p τ C B σ (addCourseItemTx u id) fun _ σ' => CartsOK τ σ'.now → σ'.db = σ'.now ∨
    AddedLine u (.course id) 1 σ' := by
  have hclaim : Cart p τ C B σ (claim (S := Shop) (.uniq (.cartLine u (.course id)))
      fun d => (cartLineOf u (.course id) d).isSome) fun b σ' => σ'.db = σ'.now ∧
        Holds σ'.held (.uniq (S := Shop) (.cartLine u (.course id))) .update ∧
        (b = false → NoLine u (.course id) σ'.now) := by
    refine wp_claim_snapshot (fun _ => trivial) fun v₀ _ _ hv₀ =>
      ⟨σ.later_grant _ _, hd, holds_acquire _ _ _, fun hb => ?_⟩
    intro k row hk hu ht
    rw [hws, Store.overlay_nil, Option.isSome_eq_false_iff, Option.isNone_iff_eq_none] at hb
    obtain ⟨row', hk', ht'⟩ := cartKeeps_line hv₀ (holds_acquire _ _ _) hk hu ht
    exact cartLineOf_none hb k row' hk' hu ht'
  refine Yields.bind hclaim fun b σ₁ _ ⟨hd₁, hh, hno⟩ => ?_
  cases b with
  | true => exact .pure fun _ => .inl hd₁
  | false =>
    refine Yields.bind (insertCartItem_line hd₁ hh fun _ => hno rfl) fun row σ₂ _ ⟨_, hadd⟩ =>
      .pure fun hok => ?_
    exact .inr (hadd hok)

/-- The quantity of a line is set, or there is no such line. -/
theorem updateQuantityTx_line {item : Uuid} (hd : σ.db = σ.now) :
    Cart p τ C B σ (updateQuantityTx u item quantity) fun _ σ' => σ'.db = σ'.now ∨
      ∃ row, LineSet (u, item) row quantity σ'.now σ'.db := by
  refine Yields.bind ((Yields.selectFor (m := .noKeyUpdate) (by decide) trivial))
    fun r σ₁ hl₁ ⟨hd₁, hr⟩ => ?_
  rw [hd, ← hl₁.now] at hd₁
  cases r with
  | none => exact .pure (.inl hd₁)
  | some row =>
    obtain ⟨hh, hrow, -⟩ := hr row rfl
    rw [hd, ← hl₁.now] at hrow
    refine Yields.bind (R := fun _ σ' => σ' = σ₁) (Yields.ensure (fun _ => rfl) trivial)
      fun _ σ₂ _ h₂ => ?_
    subst h₂
    refine Yields.bind (Yields.put ⟨hh, fun _ => rfl⟩) fun _ σ₃ hl₃ h₃ => .pure (.inr ⟨row, ?_, ?_⟩)
    · rw [hl₃.now]
      exact hrow
    · rw [h₃, Pt.write_db, Pt.write_now, hd₁]

theorem removeItemTx_line {item : Uuid} (hd : σ.db = σ.now) :
    Cart p τ C B σ (removeItemTx u item) fun _ σ' => LinesGone u σ'.now σ'.db := by
  refine Yields.bind (Yields.selectFor (m := .update) (by decide) trivial)
    fun r σ₁ hl₁ ⟨hd₁, hr⟩ => ?_
  rw [hd, ← hl₁.now] at hd₁
  cases r with
  | none => exact .pure (hd₁ ▸ LinesGone.refl u _)
  | some row =>
    refine Yields.bind (Yields.put ⟨(hr row rfl).1.weaken (by decide), trivial⟩)
      fun _ σ₂ _ h₂ => .pure ?_
    rw [h₂, Pt.write_db, Pt.write_now, hd₁]
    refine ⟨Only.write _ (by simp [Write.tbl]), fun k => ?_⟩
    rw [Store.get_del]
    split
    · next hk => exact .inr ⟨by rw [hk], rfl⟩
    · exact .inl rfl

theorem clearCartTx_line (hd : σ.db = σ.now) : Cart p τ C B σ (clearCartTx u) fun _ σ' =>
    LinesGone u σ'.now σ'.db := by
  refine Yields.bind (Yields.deleteAll (fun _ _ => trivial)
    fun σ' k _ hh => ⟨hh.weaken (by decide), trivial⟩)
    fun rs σ₁ hl₁ ⟨honly, ⟨v, _, _, _, hrs⟩, hget⟩ => .pure ?_
  rw [hl₁.now, ← hd]
  refine ⟨honly, fun k => ?_⟩
  rw [hget]
  split
  · next hk =>
    obtain ⟨⟨k', r⟩, he, rfl⟩ := List.mem_map.1 hk
    exact .inr ⟨by simpa using ((hrs k' r).1 he).2.1, rfl⟩
  · exact .inl rfl

/-! ## Calls -/

/-- An error that comes after the commit of a cart call: the cart that it answers with
has no total, or the connection is lost. -/
def Belated (e : AppError) : Prop :=
  e = .validation "cart subtotal overflow" ∨ e = .validation "cart total overflow" ∨
  e = .database .connection

instance : DecidablePred Belated := fun e => inferInstanceAs (Decidable (e = _ ∨ e = _ ∨ e = _))

theorem cartTotal_late {e : AppError} : ∀ {items : List CartItemJoined} {total : ℤ},
    cartTotal total items = .error e → Belated e := by
  intro items
  induction items with
  | nil => intro total h; cases h
  | cons item items ih =>
    intro total h
    unfold cartTotal at h
    split at h
    · cases h; exact .inl rfl
    split at h
    · cases h; exact .inr (.inl rfl)
    · exact ih h

/-- Answering with the cart fails late if at all. -/
theorem getCart_late : Yields (shopRules.under (cartKeeps p τ))
    (writing C B) σ (getCart u) Belated fun _ _ => True := by
  refine Yields.bind (R := fun _ _ => True) (Yields.read fun _ _ _ => trivial)
    fun items σ₁ _ _ => ?_
  refine Yields.bind (R := fun _ _ => True) ?_ fun _ _ _ _ => .pure trivial
  cases h : cartTotal 0 items with
  | ok n => exact .ret trivial
  | error e => exact .fail (cartTotal_late h)

/-- What a committed addition of `quantity` of product `id` did: the line of user `u`
has the sum, and that is in range. -/
def ProductAdded (p u id : Uuid) (quantity : ℤ) (σ : Pt Shop) : Prop :=
  ∃ m, 1 ≤ m ∧ m ≤ maxLineQuantity ∧ (id = p → Legal p m σ.now) ∧
    ((∃ k row, k.1 = u ∧ row.target = .product id ∧ m = row.quantity + quantity ∧
      LineSet k row m σ.now σ.db) ∨
      (m = quantity ∧ AddedLine u (.product id) m σ))

/-- What a request did to the lines where it commits. -/
def Req.Lines (p : Uuid) (K : Rely Shop) : Req → Pt Shop → Prop
  | .addItem u itemType id quantity, σ =>
    if itemType = "product" then ProductAdded p u id quantity σ else σ.db = σ.now ∨
    AddedLine u (.course id) 1 σ
  | .updateQuantity u item quantity, σ =>
    σ.db = σ.now ∨ ∃ row, 1 ≤ quantity ∧ quantity ≤ maxLineQuantity ∧
      (row.target = .product p → Legal p quantity σ.now) ∧ LineSet (u, item) row quantity σ.now σ.db
  | .removeItem u _, σ | .clearCart u, σ => LinesGone u σ.now σ.db
  | q, σ => q.Commits K σ

/-- A request to add a product. -/
def Req.addsProduct : Req → Prop
  | .addItem _ itemType _ _ => itemType = "product"
  | _ => False

section calls
variable {α β : Type} {Q : β → Pt Shop → Prop} {X : AppError → Pt Shop → Prop}

/-- The transaction of a cart call, then the cart as it is. -/
theorem cartCall_wp {q : Tx α} {k : α → Tx β} {R : α → Pt Shop → Prop} (h : Cart p τ C B σ q R)
    (hB : ∀ e σ, B e σ)
    (hC : ∀ a σ', σ.Later σ' → R a σ' → C σ')
    (hk : ∀ a σ', σ'.committed = true → wp (shopRules.under (cartKeeps p τ))
      (writing C B) Q X (k a) σ')
    (hX : ∀ e σ', σ'.committed = σ.committed → X e σ') :
    wp (shopRules.under (cartKeeps p τ)) (writing C B) Q X (q.atomically >>= k) σ := by
  rw [wp_bind, wp_atomically]
  refine h.wp (fun a σ' hl hr => ⟨hC a σ' hl hr, fun d _ => hk a _ rfl⟩) fun e σ' hl _ =>
    ⟨hB _ _, fun d _ => hX e _ ?_⟩
  exact hl.committed

/-- A row looked up before the transaction. -/
theorem cartFind_wp {ρ : Type} {e : AppError} {f : Db → Option ρ} {k : ρ → Tx β} (hws : σ.ws = [])
    (hk : ∀ a v, (cartKeeps p τ).rel σ.held v σ.now → f v = some a →
      wp (shopRules.under (cartKeeps p τ)) (writing C B) Q X (k a) σ) (hX : ∀ e, X e σ) :
    wp (shopRules.under (cartKeeps p τ)) (writing C B) Q X
      (read (S := Shop) f >>= fun r => orFail r e >>= k) σ := by
  rw [wp_bind]
  refine wp_snapshot fun v₀ _ _ hv₀ => ?_
  rw [wp_bind, hws]
  exact wp_orFail (fun a ha => hk a v₀ hv₀ ha) fun _ => hX e

end calls

/-- The rule of a product that has been read is its rule at the commit. -/
theorem legal_of_read {L : Locks (Res Shop)} {product : Product} (hv : (cartKeeps p τ).rel L v d)
    (hread : v.get .products id = some product) (hq : product.ensurePurchasable n = .ok ())
    (hid : id = p) : Legal p n d := by
  subst hid
  have hlegal : Legal id n v := ⟨product, hread, ensurePurchasable_ok hq⟩
  exact hlegal.congr (cartKeeps_rule hv)

section specs
variable {Q : CartResponse → Pt Shop → Prop} {X : AppError → Pt Shop → Prop} {itemType : String}
  {item : Uuid}

/-- **A product is added**: where it commits, the merged quantity is legal. -/
theorem addProductItem_lines (hws : σ.ws = []) (hd : σ.db = σ.now) (hcom : σ.committed = false)
    (hB : ∀ e σ, B e σ)
    (hC : ∀ σ', σ'.committed = false → (CartsOK τ σ'.now → ProductAdded p u id quantity σ') → C σ')
    (hQ : ∀ a σ', σ'.committed = true → Q a σ')
    (hX : ∀ e σ', (¬ Belated e → σ'.committed = false) → X e σ') :
    wp (shopRules.under (cartKeeps p τ)) (writing C B) Q X (addProductItem u id quantity) σ := by
  refine wp_checked_bind (fun _ _ => ?_) fun e _ => hX e σ fun _ => hcom
  refine cartFind_wp hws (fun product v hv hread => ?_) fun e => hX e σ fun _ => hcom
  -- the merged line, once the product as it was read accepts it
  have htx : Cart p τ C B σ (do
      let merged ← addProductItemTx u id quantity
      checked (product.ensurePurchasable merged.quantity))
      fun _ σ' => CartsOK τ σ'.now → ProductAdded p u id quantity σ' := by
    refine Yields.bind (addProductItemTx_line hws hd) fun row σ₁ hl₁ hmerge => ?_
    refine Yields.checked (fun _ hok hc => ?_) fun _ _ => trivial
    have hlegal : id = p → Legal p row.quantity σ₁.now := fun hid => by
      rw [hl₁.now]
      exact legal_of_read hv hread hok hid
    obtain ⟨h1, h999⟩ := ensureLineQuantity_ok (ensurePurchasable_ok hok)
    refine ⟨row.quantity, h1, h999, hlegal, ?_⟩
    rcases hmerge hc with ⟨k, row₀, hu, ht, hm, hset⟩ | hadd
    · have hbound : maxLineQuantity < i32Max := by decide
      exact .inl ⟨k, row₀, hu, ht, by omega, hset⟩
    · exact .inr hadd
  refine cartCall_wp htx hB (fun _ σ' hl h => hC σ' (hl.committed.trans hcom) h)
    (fun _ σ' hc => ?_) fun e σ' h =>
    hX e σ' fun _ => h.trans hcom
  exact getCart_late.wp (fun a σ'' hl _ => hQ a σ'' (hl.committed.trans hc)) fun e σ'' _ hlate =>
    hX e σ'' fun hn => absurd hlate hn

theorem addCourseItem_lines (hws : σ.ws = []) (hd : σ.db = σ.now) (hcom : σ.committed = false)
    (hB : ∀ e σ, B e σ)
    (hC : ∀ σ', σ'.committed = false → (CartsOK τ σ'.now → σ'.db = σ'.now ∨
      AddedLine u (.course id) 1 σ') → C σ')
    (hQ : ∀ a σ', Q a σ') (hX : ∀ e σ', X e σ') :
    wp (shopRules.under (cartKeeps p τ)) (writing C B) Q X (addCourseItem u id quantity) σ := by
  refine wp_checked_bind (fun _ _ => ?_) fun e _ => hX e σ
  refine cartFind_wp hws (fun course v _ _ => ?_) fun e => hX e σ
  refine wp_checked_bind (fun _ _ => ?_) fun e _ => hX e σ
  refine cartCall_wp (addCourseItemTx_line hws hd) hB
    (fun _ σ' hl h => hC σ' (hl.committed.trans hcom) h) (fun r σ' _ => ?_)
    fun e σ' _ => hX e σ'
  rw [wp_bind]
  refine wp_orFail (fun _ _ => ?_) fun _ => hX _ σ'
  exact getCart_late.wp (fun a σ'' _ _ => hQ a σ'') fun e σ'' _ _ => hX e σ''

theorem addItem_lines (hws : σ.ws = []) (hd : σ.db = σ.now) (hcom : σ.committed = false)
    (hB : ∀ e σ, B e σ) {K : Rely Shop}
    (hC : ∀ σ', σ'.committed = false → (CartsOK τ σ'.now →
      (Req.addItem u itemType id quantity).Lines p K σ') → C σ')
    (hQ : ∀ a σ', (itemType = "product" → σ'.committed = true) → Q a σ')
    (hX : ∀ e σ', (¬ Belated e → itemType = "product" → σ'.committed = false) → X e σ') :
    wp (shopRules.under (cartKeeps p τ)) (writing C B) Q X (addItem u itemType id quantity) σ := by
  unfold addItem
  split
  · next hp =>
    refine addProductItem_lines hws hd hcom hB (fun σ' hc h => hC σ' hc fun hok => ?_)
      (fun a σ' hc => hQ a σ' fun _ => hc)
      fun e σ' hc => hX e σ' fun hn _ => hc hn
    rw [Req.Lines, if_pos hp]
    exact h hok
  next hp =>
  split
  · refine addCourseItem_lines hws hd hcom hB (fun σ' hc h => hC σ' hc fun hok => ?_)
      (fun a σ' => hQ a σ' fun h => absurd h hp)
      fun e σ' => hX e σ' fun _ h => absurd h hp
    rw [Req.Lines, if_neg hp]
    exact h hok
  · exact hX _ σ fun _ h => absurd h hp

/-- **A quantity is set**: the row is still the target that was judged. -/
theorem updateQuantity_lines (hws : σ.ws = []) (hd : σ.db = σ.now) (hcom : σ.committed = false)
    (hB : ∀ e σ, B e σ) {K : Rely Shop}
    (hC : ∀ σ', σ'.committed = false →
      (CartsOK τ σ'.now → (Req.updateQuantity u item quantity).Lines p K σ') → C σ')
    (hQ : ∀ a σ', Q a σ') (hX : ∀ e σ', X e σ') :
    wp (shopRules.under (cartKeeps p τ)) (writing C B) Q X (updateQuantity u item quantity) σ := by
  refine wp_checked_bind (fun _ hrange => ?_) fun e _ => hX e σ
  obtain ⟨h1, h999⟩ := ensureQuantityInRange_ok hrange
  refine cartFind_wp hws (fun read v hv hread => ?_) fun e => hX e σ
  have hjudge : Cart p τ C B σ (judgeQuantity read.target quantity) fun _ σ' => σ' = σ ∧
      ∀ id, read.target = .product id → id = p → Legal p quantity σ.now := by
    unfold judgeQuantity
    split
    · next ht => exact Yields.checked (fun _ _ => ⟨rfl,
        fun id h => by rw [ht] at h; cases h⟩) fun _ _ => trivial
    · next productId ht =>
      refine cartFind_wp hws (fun product v' hv' hread' => ?_) fun e => ⟨.refl σ, trivial⟩
      refine Yields.checked (fun _ hok => ⟨rfl, fun id h hid => ?_⟩) fun _ _ => trivial
      rw [ht] at h
      cases h
      exact legal_of_read hv' hread' hok hid
  refine Yields.bind_wp hjudge (fun _ σ₁ _ ⟨h₁, hlegal⟩ => ?_) fun e σ' _ _ => hX e σ'
  subst h₁
  refine cartCall_wp (updateQuantityTx_line hd) hB (fun _ σ' hl h =>
    hC σ' (hl.committed.trans hcom) fun hok => ?_)
    (fun r σ' _ => ?_) fun e σ' _ => hX e σ'
  · rcases h with hnone | ⟨row, hset⟩
    · exact .inl hnone
    · refine .inr ⟨row, h1, h999, fun ht => ?_, hset⟩
      rw [hl.now] at hok ⊢
      have hrow := hset.row_eq
      rw [hl.now] at hrow
      -- the id stands for the target that was read
      refine hlegal p ?_ rfl
      rw [(cartKeeps_past hv hok).names _ read hread, ← hok.names _ row hrow, ht]
  · rw [wp_bind]
    refine wp_orFail (fun _ _ => ?_) fun _ => hX _ σ'
    exact getCart_late.wp (fun a σ'' _ _ => hQ a σ'') fun e σ'' _ _ => hX e σ''

theorem removeItem_lines (hd : σ.db = σ.now) (hcom : σ.committed = false) (hB : ∀ e σ, B e σ)
    (hC : ∀ σ', σ'.committed = false → LinesGone u σ'.now σ'.db → C σ') (hQ : ∀ a σ', Q a σ')
    (hX : ∀ e σ', X e σ') :
    wp (shopRules.under (cartKeeps p τ)) (writing C B) Q X (removeItem u item) σ := by
  refine cartCall_wp (removeItemTx_line hd) hB (fun _ σ' hl h => hC σ' (hl.committed.trans hcom) h)
    (fun removed σ' _ => ?_)
    fun e σ' _ => hX e σ'
  rw [wp_bind]
  refine wp_ensure (fun _ => ?_) fun _ => hX _ σ'
  exact getCart_late.wp (fun a σ'' _ _ => hQ a σ'') fun e σ'' _ _ => hX e σ''

end specs

theorem clear_lines {Q : Unit → Pt Shop → Prop} {X : AppError → Pt Shop → Prop} (hd : σ.db = σ.now)
    (hcom : σ.committed = false)
    (hB : ∀ e σ, B e σ) (hC : ∀ σ', σ'.committed = false → LinesGone u σ'.now σ'.db → C σ')
    (hQ : ∀ a σ', Q a σ')
    (hX : ∀ e σ', X e σ') : wp (shopRules.under (cartKeeps p τ)) (writing C B) Q X (clear u) σ := by
  refine (wp_atomically _ σ).2 ((clearCartTx_line hd).wp (fun a σ' hl h => ⟨?_, fun _ _ => hQ a _⟩)
    fun e _ _ _ => ⟨hB _ _, fun _ _ => hX e _⟩)
  exact hC σ' (hl.committed.trans hcom) h

/-! ## The contract -/

/-- **Every request keeps to its lines**, in runs that respect `cartKeeps`. -/
def lineContract (p : Uuid) (τ : Uuid × Uuid → LineTarget) :
    Contract shop (shopRules.under (cartKeeps p τ)) where
  oblig q := writing (fun σ => σ.committed = false ∧
    (CartsOK τ σ.now → q.Lines p (cartKeeps p τ) σ)) fun _ _ => True
  post q _ _ σ := q.addsProduct → σ.committed = true
  err q _ e σ := ¬ Belated e → q.addsProduct → σ.committed = false
  covers q σ w h := covers_of h.1 h.2
  crash q d σ hn := absurd (.inr (.inr rfl)) hn
  meets q d d' _ := by
    have hB : ∀ (e : Option AppError) (σ : Pt Shop), True := fun _ _ => trivial
    -- a request that is no cart call, by the shop's own contract
    have hother : (∀ σ, q.Commits (cartKeeps p τ) σ → q.Lines p (cartKeeps p τ) σ) →
        ¬ q.addsProduct →
        wp (shopRules.under (cartKeeps p τ))
          (writing (fun σ => σ.committed = false ∧ (CartsOK τ σ.now → q.Lines p (cartKeeps p τ) σ))
            fun _ _ => True)
          (fun _ σ => q.addsProduct → σ.committed = true) (fun e σ => ¬ Belated e → q.addsProduct →
            σ.committed = false)
          q.prog (.begin d d' false) := by
      intro hlines hno
      have hmeets : wp (shopRules.under (cartKeeps p τ))
          (q.oblig (cartKeeps p τ)) q.Answered (q.Failed d) q.prog
          (.begin d d' false) := q.meets
      refine wp_oblig ?_ ?_ ?_ ?_ _ _ (wp_mono (fun _ _ _ h => absurd h hno)
        (fun _ _ _ _ h => absurd h hno) _ _ hmeets)
      · exact fun _ _ h => h
      · exact fun _ _ _ h => h
      · exact fun σ h => ⟨h.1, fun _ => hlines σ h.2⟩
      · exact fun _ _ _ => trivial
    cases q with
    | addItem u itemType id quantity =>
      exact wp_reply (addItem_lines rfl rfl rfl hB (fun σ' hc h => ⟨hc, h⟩)
        (fun a σ' h => h) fun e σ' h => h)
    | updateQuantity u item quantity =>
      exact wp_reply (updateQuantity_lines rfl rfl rfl hB (fun σ' hc h => ⟨hc, h⟩)
        (fun _ _ h => h.elim) fun _ _ _ h => h.elim)
    | removeItem u item =>
      exact wp_reply (removeItem_lines rfl rfl hB (fun σ' hc h => ⟨hc, fun _ => h⟩)
        (fun _ _ h => h.elim)
        fun _ _ _ h => h.elim)
    | clearCart u =>
      exact wp_reply (f := fun _ => Reply.done)
        (clear_lines rfl rfl hB (fun σ' hc h => ⟨hc, fun _ => h⟩) (fun _ _ h => h.elim)
        fun _ _ _ h => h.elim)
    | _ => exact hother (fun _ h => h) not_false

/-! ## Calls that fail -/

section careful
variable {α : Type} {g : Trace} {late : AppError → Prop}

theorem getCart_careful : (getCart u).Careful Belated (fun _ _ => True) g := by
  refine (Careful.read _).bind fun g' items _ => ?_
  refine (Careful.checked fun e he _ => cartTotal_late he).bind fun _ _ _ => ?_
  exact trivial

theorem targetRef_careful (hg : g ≠ .changed) :
    (targetRef t).Careful late (fun g' _ => g' = g) g := by
  cases t <;> exact Careful.references _ _ fun h => absurd h hg

theorem insertCartItem_careful (hg : g ≠ .changed) :
    (insertCartItem u t quantity).Careful late (fun g' _ => g' = g.write) g := by
  refine Careful.choose.bind fun g' now hg' => ?_
  subst hg'
  refine (Careful.ensure _ fun h => absurd h hg).bind fun g' _ hg' => ?_
  subst hg'
  refine (Careful.references _ _ fun h => absurd h hg).bind fun g' _ hg' => ?_
  subst hg'
  refine (targetRef_careful hg).bind fun g' _ hg' => ?_
  subst hg'
  exact (Careful.insert _ _ _).bind fun g' _ hg' => hg'

theorem addProductItemTx_careful (hg : g ≠ .changed) :
    (addProductItemTx u id quantity).Careful late (fun g' _ => g' ≠ .changed) g := by
  refine (Careful.lockRes _ _).bind fun g' _ hg' => ?_
  subst hg'
  refine (Careful.read _).bind fun g' existing hg' => ?_
  subst hg'
  -- whether there was a line to update or not, nothing is committed
  refine Careful.bind (M := fun g' _ => g' ≠ .changed) ?_ fun g' row hg' => ?_
  · cases existing with
    | none => exact hg
    | some k =>
      refine (Careful.updateRow (S := Shop) .cartItems k (fun _ => true)
        (CartItem.merge quantity)).mono fun g'' row h => ?_
      rw [h]
      split
      · exact Trace.write_ne hg
      · exact hg
  · cases row with
    | some row => exact hg'
    | none =>
      exact (insertCartItem_careful hg').mono fun g'' _ h => by rw [h]; exact Trace.write_ne hg'

theorem addCourseItemTx_careful (hg : g ≠ .changed) :
    (addCourseItemTx u id).Careful late (fun g' r => r = none → g' = g) g := by
  refine (Careful.claim _ _).bind fun g' taken hg' => ?_
  subst hg'
  cases taken with
  | true => exact fun _ => rfl
  | false => exact (insertCartItem_careful hg).bind fun g'' row _ h => by cases h

theorem addItem_careful {itemType : String} :
    (addItem u itemType id quantity).Careful Belated (fun _ _ => True) .clean := by
  have hclean : Trace.clean ≠ .changed := by decide
  unfold addItem
  split
  · refine (Careful.checked fun _ _ h => absurd h hclean).bind fun g' _ hg' => ?_
    subst hg'
    refine (Careful.read _).bind fun g' product hg' => ?_
    subst hg'
    refine (Careful.orFail _ fun h => absurd h hclean).bind fun g' product ⟨hg', _⟩ => ?_
    subst hg'
    -- a product that is refused has not been committed
    refine Careful.bind (M := fun _ _ => True)
      (Careful.atomically (M := fun _ _ => True) ?_ fun _ _ _ => trivial)
      fun _ _ _ => getCart_careful
    refine (addProductItemTx_careful hclean).bind fun g' merged hg' => ?_
    exact (Careful.checked fun _ _ h => absurd h hg').mono fun _ _ _ => trivial
  split
  · refine (Careful.checked fun _ _ h => absurd h hclean).bind fun g' _ hg' => ?_
    subst hg'
    refine (Careful.read _).bind fun g' course hg' => ?_
    subst hg'
    refine (Careful.orFail _ fun h => absurd h hclean).bind fun g' course ⟨hg', _⟩ => ?_
    subst hg'
    refine (Careful.checked fun _ _ h => absurd h hclean).bind fun g' _ hg' => ?_
    subst hg'
    -- a course that is in the cart: the transaction has written nothing
    refine Careful.bind (M := fun g' r => r = none → g' = .clean)
      (Careful.atomically (addCourseItemTx_careful hclean) ?_)
      fun g' inserted hg' => ?_
    · exact fun g' r h hr => by rw [h hr]; rfl
    · cases inserted with
      | none => exact fun h => absurd (hg' rfl ▸ h) hclean
      | some row => exact getCart_careful
  · exact fun h => absurd h hclean

theorem judgeQuantity_careful (hg : g ≠ .changed) :
    (judgeQuantity t quantity).Careful late (fun g' _ => g' = g) g := by
  unfold judgeQuantity
  split
  · exact Careful.checked fun _ _ h => absurd h hg
  · refine (Careful.read _).bind fun g' product hg' => ?_
    subst hg'
    refine (Careful.orFail _ fun h => absurd h hg).bind fun g' product ⟨hg', _⟩ => ?_
    subst hg'
    exact Careful.checked fun _ _ h => absurd h hg

theorem updateQuantityTx_careful {item : Uuid} (hg : g ≠ .changed) :
    (updateQuantityTx u item quantity).Careful late (fun g' r => r = none → g' = g) g := by
  refine (Careful.selectFor _ _ _ _).bind fun g' row hg' => ?_
  subst hg'
  cases row with
  | none => exact fun _ => rfl
  | some row =>
    refine (Careful.ensure _ fun h => absurd h hg).bind fun g' _ hg' => ?_
    subst hg'
    exact (Careful.put _).bind fun _ _ _ h => by cases h

theorem updateQuantity_careful {item : Uuid} :
    (updateQuantity u item quantity).Careful Belated (fun _ _ => True) .clean := by
  have hclean : Trace.clean ≠ .changed := by decide
  refine (Careful.checked fun _ _ h => absurd h hclean).bind fun g' _ hg' => ?_
  subst hg'
  refine (Careful.read _).bind fun g' row hg' => ?_
  subst hg'
  refine (Careful.orFail _ fun h => absurd h hclean).bind fun g' row ⟨hg', _⟩ => ?_
  subst hg'
  refine (judgeQuantity_careful hclean).bind fun g' _ hg' => ?_
  subst hg'
  refine Careful.bind (M := fun g' r => r = none → g' = .clean)
    (Careful.atomically (updateQuantityTx_careful hclean) ?_)
    fun g' updated hg' => ?_
  · exact fun g' r h hr => by rw [h hr]; rfl
  · cases updated with
    | none => exact fun h => absurd (hg' rfl ▸ h) hclean
    | some row => exact getCart_careful

end careful

end DreamFly
