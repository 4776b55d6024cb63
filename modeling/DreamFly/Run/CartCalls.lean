import DreamFly.Proof.CartCalls
import DreamFly.Run.Carts
import DreamFly.Txn.Books
import DreamFly.Txn.Careful
import DreamFly.Txn.Stages

/-!
# Cart calls over whole runs

Runs in which product `p` is not edited and no id is given to two lines (`Settled`).

* `reach_lines`: every request keeps to its lines, the carts stay in order and the lines
  of `p` legal.
* `lines_total`: where a user only adds, the quantity is the sum of what was added.
* `cart_lines`: both, and what a call that fails leaves behind.
* `late_refusal`: an addition can be answered with an error after it has committed.
-/

namespace DreamFly

open Txn Prog

variable {u id p : Uuid} {τ : Uuid × Uuid → LineTarget} {t : LineTarget} {n : ℤ} {d d' : Db}
  {q : Req} {σ : Pt Shop}
  {s s' : ShopSys} {c : Call Shop AppError Reply Req} {K : Rely Shop}

/-- Every line of the product has a quantity that it accepts. -/
def LegalLines (p : Uuid) (d : Db) : Prop :=
  ∀ k row, d.get .cartItems k = some row → row.target = .product p → Legal p row.quantity d

/-! ## What commits do to the lines -/

/-- The requests that empty the cart of user `u` or take a line from it. -/
def Req.drops (u : Uuid) : Req → Prop
  | .removeItem v _ | .clearCart v | .checkout v _ _ _ => v = u
  | _ => False

/-- What a commit of `q` made of the lines. -/
inductive LineEffect (p : Uuid) (q : Req) (σ : Pt Shop) : Prop
  | same (hq : ¬ q.addsProduct) (h : ∀ k, σ.db.get .cartItems k = σ.now.get .cartItems k)
  | gone (u : Uuid) (hq : q.drops u) (h : ∀ k, σ.db.get .cartItems k = σ.now.get .cartItems k ∨
      (k.1 = u ∧ σ.db.get .cartItems k = none))
  | set (k : Uuid × Uuid) (row : CartItem) (n : ℤ) (hq : q = .updateQuantity k.1 k.2 n)
      (legal : row.target = .product p → Legal p n σ.now) (h : LineSet k row n σ.now σ.db)
  | merged (k : Uuid × Uuid) (row : CartItem) (id : Uuid) (n : ℤ)
  (hq : q = .addItem k.1 "product" id n)
      (target : row.target = .product id) (range : row.quantity + n ≤ maxLineQuantity)
      (legal : row.target = .product p → Legal p (row.quantity + n) σ.now)
      (h : LineSet k row (row.quantity + n) σ.now σ.db)
  | added (k : Uuid × Uuid) (id : Uuid) (n : ℤ) (hq : q = .addItem k.1 "product" id n)
  (range : n ≤ maxLineQuantity)
      (legal : id = p → Legal p n σ.now) (h : LineNew k (.product id) n σ.now σ.db)
      (held : Holds σ.held (.uniq (S := Shop) (.cartLine k.1 (.product id))) .update)
  | course (k : Uuid × Uuid) (itemType : String) (id : Uuid) (n : ℤ)
    (hq : q = .addItem k.1 itemType id n)
      (hne : itemType ≠ "product") (h : LineNew k (.course id) 1 σ.now σ.db)
      (held : Holds σ.held (.uniq (S := Shop) (.cartLine k.1 (.course id))) .update)

/-- **The lines after a commit**, request by request. -/
theorem Req.Lines.effect (h : q.Lines p K σ) : LineEffect p q σ := by
  have hother : q.Commits K σ → .cartItems ∉ q.writes → ¬ q.addsProduct → LineEffect p q σ :=
    fun hc hw hq => .same hq fun k => hc.only.get (t := ShopTbl.cartItems) hw k
  cases q with
  | addItem u itemType id n =>
    change if itemType = "product" then ProductAdded p u id n σ else σ.db = σ.now ∨
      AddedLine u (.course id) 1 σ at h
    split at h
    · next hp =>
      subst hp
      obtain ⟨m, -, hrange, hlegal, ⟨k, row, rfl, ht, rfl, hset⟩ | ⟨rfl, k, rfl, hnew, hheld⟩⟩ := h
      · refine .merged k row id n rfl ht hrange (fun hp => hlegal ?_) hset
        rw [ht] at hp
        cases hp
        rfl
      · exact .added k id m rfl hrange hlegal hnew hheld
    · next hp =>
      rcases h with hsame | ⟨k, rfl, hnew, hheld⟩
      · exact .same hp fun k => by rw [hsame]
      · exact .course k itemType id n rfl hp hnew hheld
  | updateQuantity u item n =>
    rcases h with hsame | ⟨row, -, -, hlegal, hset⟩
    · exact .same not_false fun k => by rw [hsame]
    · exact .set (u, item) row n rfl hlegal hset
  | removeItem u item => exact .gone u rfl h.line
  | clearCart u => exact .gone u rfl h.line
  | checkout u key req now =>
    obtain ⟨x⟩ := h
    refine .gone u rfl fun k => ?_
    rw [x.cartItems]
    split
    · next hk => exact .inr ⟨hk, rfl⟩
    · exact .inl rfl
  | _ => exact hother h (by simp [Req.writes]) not_false

/-- A line of the committed cart was there before for the same target, or it is new under
its entry of the unique index. -/
theorem LineEffect.line (h : LineEffect p q σ) {k : Uuid × Uuid} {row : CartItem}
    (hk : σ.db.get .cartItems k = some row) :
    (∃ row', σ.now.get .cartItems k = some row' ∧ row'.target = row.target) ∨
      (NoLine k.1 row.target σ.now ∧ Holds σ.held (.uniq (S := Shop)
        (.cartLine k.1 row.target)) .update ∧
        ∀ k', k' ≠ k → σ.db.get .cartItems k' = σ.now.get .cartItems k') := by
  -- a row that is set keeps its target, a new one was alone under its lock
  have hset : ∀ {k₀ row₀ m}, LineSet k₀ row₀ m σ.now σ.db →
      ∃ row', σ.now.get .cartItems k = some row' ∧ row'.target = row.target := by
    intro k₀ row₀ m hs
    rw [hs.set, Store.get_mod] at hk
    split at hk
    · next hkk =>
      subst hkk
      rw [hs.row_eq] at hk
      cases hk
      exact ⟨row₀, hs.row_eq, rfl⟩
    · exact ⟨row, hk, rfl⟩
  have hnew : ∀ {k₀ t m}, LineNew k₀ t m σ.now σ.db →
      Holds σ.held (.uniq (S := Shop) (.cartLine k₀.1 t)) .update →
      (∃ row', σ.now.get .cartItems k = some row' ∧ row'.target = row.target) ∨
        (NoLine k.1 row.target σ.now ∧ Holds σ.held (.uniq (S := Shop)
          (.cartLine k.1 row.target)) .update ∧
          ∀ k', k' ≠ k → σ.db.get .cartItems k' = σ.now.get .cartItems k') := by
    intro k₀ t m hs hheld
    obtain ⟨row₀, ht, -, hd⟩ := hs.added
    rw [hd, Store.get_add, hs.fresh] at hk
    split at hk
    · next hkk =>
      subst hkk
      cases hk
      rw [Option.getD_none, ht]
      refine .inr ⟨hs.none, hheld, fun k' hne => ?_⟩
      rw [hd, Store.get_add, if_neg hne]
    · exact .inl ⟨row, hk, rfl⟩
  cases h with
  | same hq h => exact .inl ⟨row, h k ▸ hk, rfl⟩
  | gone u hq h =>
    rcases h k with hsame | ⟨-, hnone⟩
    · exact .inl ⟨row, hsame ▸ hk, rfl⟩
    · rw [hnone] at hk
      cases hk
  | set k₀ row₀ n hq legal h => exact .inl (hset h)
  | merged k₀ row₀ id n hq target range legal h => exact .inl (hset h)
  | added k₀ id n hq range legal h held => exact hnew h held
  | course k₀ itemType id n hq hne h held => exact hnew h held

/-- **A cart keeps one line for each target.** -/
theorem LineEffect.oneLine (h : LineEffect p q σ) (hp : OneLine σ.now) : OneLine σ.db := by
  intro k k' row row' hk hk' hu ht
  by_contra hne
  rcases h.line hk with ⟨row₀, h0, ht0⟩ | ⟨hno, -, hsame⟩ <;> rcases h.line hk' with ⟨row₁, h1,
      ht1⟩ | ⟨hno', -, hsame'⟩
  · exact hne (hp k k' row₀ row₁ h0 h1 hu (ht0.trans (ht.trans ht1.symm)))
  · exact hno' k row₀ h0 hu (ht0.trans ht)
  · exact hno k' row₁ h1 hu.symm (ht1.trans ht.symm)
  · rw [hsame' k hne] at hk
    exact hno' k row hk hu ht

/-- The lines of the product stay legal while its rule stays. -/
theorem LineEffect.legalLines (h : LineEffect p q σ) (hrule : lineRule p σ.db = lineRule p σ.now)
    (hp : LegalLines p σ.now) :
    LegalLines p σ.db := by
  intro k row hk ht
  refine Legal.congr ?_ hrule
  have hset : ∀ {k₀ row₀ m}, LineSet k₀ row₀ m σ.now σ.db →
      (row₀.target = .product p → Legal p m σ.now) →
      Legal p row.quantity σ.now := by
    intro k₀ row₀ m hs hlegal
    rw [hs.set, Store.get_mod] at hk
    split at hk
    · next hkk =>
      subst hkk
      rw [hs.row_eq] at hk
      cases hk
      exact hlegal ht
    · exact hp k row hk ht
  have hnew : ∀ {k₀ t m}, LineNew k₀ t m σ.now σ.db → (t = .product p → Legal p m σ.now) →
      Legal p row.quantity σ.now := by
    intro k₀ t m hs hlegal
    obtain ⟨row₀, ht₀, hq₀, hd⟩ := hs.added
    rw [hd, Store.get_add, hs.fresh] at hk
    split at hk
    · cases hk
      rw [Option.getD_none] at ht ⊢
      rw [hq₀]
      exact hlegal (ht₀.symm.trans ht)
    · exact hp k row hk ht
  cases h with
  | same hq h => exact hp k row (h k ▸ hk) ht
  | gone u hq h =>
    rcases h k with hsame | ⟨-, hnone⟩
    · exact hp k row (hsame ▸ hk) ht
    · rw [hnone] at hk
      cases hk
  | set k₀ row₀ n hq legal h => exact hset h legal
  | merged k₀ row₀ id n hq target range legal h => exact hset h legal
  | added k₀ id n hq range legal h held =>
    refine hnew h fun hid => legal ?_
    cases hid
    rfl
  | course k₀ itemType id n hq hne h held => exact hnew h fun hid => (nomatch hid)

/-- How many of product `p` user `u` has in the cart. -/
def lineQuantity (u p : Uuid) (d : Db) : ℤ :=
  d.total .cartItems fun k row => if k.1 = u ∧ row.target = .product p then row.quantity else 0

/-- How many of product `p` a request adds to the cart of user `u`. -/
def Req.added (u p : Uuid) : Req → ℤ
  | .addItem v itemType id n => if v = u ∧ itemType = "product" ∧ id = p then n else 0
  | _ => 0

/-- A request that touches the cart of user `u` in another way than to add. -/
def Req.otherwise (u : Uuid) : Req → Prop
  | .updateQuantity v _ _ => v = u
  | q => q.drops u

/-- **What is added is what the line gains.** -/
theorem LineEffect.quantity (h : LineEffect p q σ) (hq : ¬ q.otherwise u) :
    lineQuantity u p σ.db = lineQuantity u p σ.now + q.added u p := by
  -- lines of other users do not count
  have hothers : (∀ k, k.1 = u → σ.db.get .cartItems k = σ.now.get .cartItems k) →
      lineQuantity u p σ.db = lineQuantity u p σ.now := by
    intro hsame
    refine Store.total_congr (p := fun k _ => k.1 = u)
      (fun k row hk => if_neg fun hc => ?_) fun k row hk => ?_
    · simp only [decide_eq_false_iff_not] at hk
      exact hk hc.1
    · rw [hsame k (of_decide_eq_true hk)]
  have hset : ∀ {k : Uuid × Uuid} {row : CartItem} {m : ℤ}, LineSet k row m σ.now σ.db →
      lineQuantity u p σ.db =
      lineQuantity u p σ.now + if k.1 = u ∧ row.target = .product p then
        m - row.quantity else 0 := by
    intro k row m hs
    unfold lineQuantity
    rw [hs.set, Store.total_mod hs.row_eq]
    simp only
    split <;> omega
  have hnew : ∀ {k : Uuid × Uuid} {t : LineTarget} {m : ℤ}, LineNew k t m σ.now σ.db →
      lineQuantity u p σ.db =
      lineQuantity u p σ.now + if k.1 = u ∧ t = .product p then m else 0 := by
    intro k t m hs
    obtain ⟨row, rfl, rfl, hd⟩ := hs.added
    unfold lineQuantity
    rw [hd, Store.total_add_new hs.fresh]
  cases h with
  | same hno h =>
    have h0 : q.added u p = 0 := by
      cases q with
      | addItem v itemType id n => exact if_neg fun hc => hno hc.2.1
      | _ => rfl
    rw [h0, add_zero]
    exact hothers fun k _ => h k
  | gone v hv h =>
    have hne : v ≠ u := by
      rintro rfl
      refine hq ?_
      cases q <;> first | exact hv | exact hv.elim
    have h0 : q.added u p = 0 := by
      cases q with
      | addItem v itemType id n => exact hv.elim
      | _ => rfl
    rw [h0, add_zero]
    refine hothers fun k hk => (h k).resolve_right fun hc => hne (hc.1.symm.trans hk)
  | set k row n hk legal h =>
    subst hk
    rw [hset h, if_neg fun hc => hq hc.1]
    rfl
  | merged k row id n hk target range legal h =>
    subst hk
    rw [hset h, target]
    simp [Req.added]
  | added k id n hk range legal h held =>
    subst hk
    rw [hnew h]
    simp [Req.added]
  | course k itemType id n hk hne h held =>
    subst hk
    rw [hnew h]
    simp [Req.added, hne]

/-! ## Whole runs -/

/-- Nobody edits the rule of the product, and an id of a line stands for one target. -/
def Settled (p : Uuid) (τ : Uuid × Uuid → LineTarget) (s : ShopSys) (_ : Event Req)
    (s' : ShopSys) : Prop :=
  lineRule p s'.db = lineRule p s.db ∧ Names τ s'.db

/-- A commit, seen by the carts. -/
theorem commit_lines (hs : s.OK (lineContract p τ)) (hok : CartsOK τ s.db) {t : ℕ}
    (h : CommitStep s t c s') :
    ∃ σ : Pt Shop, σ.now = s.db ∧ σ.db = s'.db ∧ σ.held = c.held ∧ c.committed = false ∧
      c.req.Lines p (cartKeeps p τ) σ := by
  obtain ⟨start, -, hc, hlines⟩ := hs.commit h
  obtain ⟨-, k, -, rfl⟩ := h
  exact ⟨c.pt start s.db, rfl, rfl, rfl, hc, hlines hok⟩

/-- **One step** keeps the contract, the carts in order and the lines legal. -/
theorem step_lines {e : Event Req} (hs : s.OK (lineContract p τ)) (hok : CartsOK τ s.db)
    (hlegal : LegalLines p s.db)
    (he : shop.step e s = some s') (hset : Settled p τ s e s') :
    s'.OK (lineContract p τ) ∧ CartsOK τ s'.db ∧ LegalLines p s'.db := by
  obtain ⟨hrule, hnames⟩ := hset
  -- who has locked an entry of the index finds no new line under it
  have hkeeps : Keeps (cartKeeps p τ) s s' := by
    refine keeps_of_commit he fun t c u c' hcs hu hne =>
      ⟨⟨fun _ => hok, hrule⟩, fun k i hh row hk hp => ?_⟩
    obtain ⟨σ, hnow, hdb, hheld, -, hlines⟩ := commit_lines hs hok hcs
    rw [← hdb] at hk
    rw [← hnow]
    obtain ⟨hu', ht'⟩ := hp
    rcases hlines.effect.line hk with ⟨row', hk', ht⟩ | ⟨-, hh', -⟩
    · exact ⟨row', hk', hu', ht.trans ht'⟩
    · rw [hheld, hu', ht'] at hh'
      exact absurd hh' ((hs.compat u t c' c hu hcs.1 hne).not_holds hh rfl)
  refine ⟨step_ok hs he hkeeps, ?_⟩
  rcases step_db he with hd | ⟨t, c, hcs⟩
  · rw [hd]
    exact ⟨hok, hlegal⟩
  · obtain ⟨σ, hnow, hdb, -, -, hlines⟩ := commit_lines hs hok hcs
    rw [← hnow] at hok hlegal hrule
    rw [← hdb] at hnames hrule ⊢
    exact ⟨⟨hlines.effect.oneLine hok.one, hnames⟩, hlines.effect.legalLines hrule hlegal⟩

/-- **Every reachable state.** -/
theorem reach_lines (hok : CartsOK τ d) (hlegal : LegalLines p d)
    (h : shop.Reach (Settled p τ) (Sys.init d) s) :
    s.OK (lineContract p τ) ∧ CartsOK τ s.db ∧ LegalLines p s.db := by
  induction h with
  | refl => exact ⟨ok_init d, hok, hlegal⟩
  | tail _ hst ih =>
    obtain ⟨e, he, hset⟩ := hst
    obtain ⟨hs, hok', hlegal'⟩ := ih
    exact step_lines hs hok' hlegal' he hset

/-- **What is added is what the lines have**, while a user only adds. -/
theorem lines_total (hok : CartsOK τ d) (hlegal : LegalLines p d)
    (h : shop.Reach (Settled p τ) (Sys.init d) s)
    (hu : ∀ t c, s.call t = some c → ¬ c.req.otherwise u) :
    lineQuantity u p s.db = lineQuantity u p d + s.booked (Req.added u p) := by
  refine reach_books (f := lineQuantity u p) (fun s₁ t c s₂ e _ _ hbetween hcs => ?_) h.between
  obtain ⟨⟨hr₁, hrest⟩, -⟩ := hbetween
  obtain ⟨hs, hok₁, -⟩ := reach_lines hok hlegal hr₁
  obtain ⟨σ, hnow, hdb, -, hcom, hlines⟩ := commit_lines hs hok₁ hcs
  obtain ⟨c', hc', hreq, -⟩ := reach_call hrest hcs.1
  refine ⟨hcom, ?_⟩
  rw [← hnow, ← hdb]
  exact hlines.effect.quantity fun ho => hu t c' hc' (hreq ▸ ho)

/-- A request to add to a line or to set its quantity. -/
def Req.setsLine : Req → Prop
  | .addItem _ _ _ _ | .updateQuantity _ _ _ => True
  | _ => False

theorem setsLine_careful (hq : q.setsLine) :
    (shop.prog q).Careful Belated (fun _ _ => True) .clean := by
  cases q with
  | addItem u itemType id n => exact addItem_careful.bind fun _ _ h => h
  | updateQuantity u item n => exact updateQuantity_careful.bind fun _ _ h => h
  | _ => exact hq.elim

/-- An addition that commits leaves the sum in the line. -/
theorem added_sum (hs : s.OK (lineContract p τ)) (hok : CartsOK τ s.db) {t : ℕ}
    (h : CommitStep s t c s')
    (hq : c.req = .addItem u "product" id n) : ∃ k row, k.1 = u ∧
      s'.db.get .cartItems k = some row ∧ row.target = .product id ∧
      row.quantity = ((s.db.get .cartItems k).map (·.quantity)).getD 0 + n ∧
      row.quantity ≤ maxLineQuantity := by
  obtain ⟨σ, hnow, hdb, -, -, hlines⟩ := commit_lines hs hok h
  rw [← hnow, ← hdb]
  rw [hq] at hlines
  obtain ⟨m, -, h999, -, ⟨k, row, hu, ht, hm, hset⟩ | ⟨hm, k, hu, hnew, -⟩⟩ :
      ProductAdded p u id n σ := hlines
  · refine ⟨k, { row with quantity := m }, hu, ?_, ht, ?_, h999⟩
    · rw [hset.set, Store.get_mod, if_pos rfl, hset.row_eq]
      rfl
    · rw [hset.row_eq]
      exact hm
  · obtain ⟨row, ht, hq, hd⟩ := hnew.added
    refine ⟨k, row, hu, ?_, ht, ?_, hq ▸ h999⟩
    · rw [hd, Store.get_add, if_pos rfl, hnew.fresh]
      rfl
    · rw [hnew.fresh, hq, hm]
      exact (zero_add n).symm

/-- **Cart merges lose nothing and stay legal.** In a run in which product `p` is not
edited, whatever the calls and their order:

* a cart has at most one line for each product and course;
* every line of `p` has a quantity that `p` accepts;
* of a user who only adds, the quantity is the sum of the additions that have committed;
* an addition that is answered has committed, and one that is refused has not; nothing
  that a refused addition or update did has changed the store. The errors that come
  after the commit are the exception (`Belated`);
* the sum that an addition leaves is exact, and far below the clamp. -/
theorem cart_lines (hone : OneLine d) (hnames : Names τ d) (hlegal : LegalLines p d)
    (h : shop.Reach (Settled p τ) (Sys.init d) s) :
    OneLine s.db ∧ LegalLines p s.db ∧
    (∀ u, (∀ t c, s.call t = some c → ¬ c.req.otherwise u) →
      lineQuantity u p s.db = lineQuantity u p d + s.booked (Req.added u p)) ∧
    (∀ t c, s.call t = some c → c.req.addsProduct → (∀ a, c.prog = .ret a → c.committed = true) ∧
      ∀ e, c.prog = .fail e → ¬ Belated e → c.committed = false) ∧
    (∀ t c e, s.call t = some c → c.req.setsLine → c.prog = .fail e → ¬ Belated e →
      shop.Reach (fun a e b => Settled p τ a e b ∧ (e.call = t → b.db = a.db)) (Sys.init d) s) ∧
    ∀ t c s' u id n, CommitStep s t c s' → c.req = .addItem u "product" id n →
      ∃ k row, k.1 = u ∧ s'.db.get .cartItems k = some row ∧ row.target = .product id ∧
        row.quantity = ((s.db.get .cartItems k).map (·.quantity)).getD 0 + n ∧
        row.quantity ≤ maxLineQuantity := by
  obtain ⟨hs, hok, hlegal'⟩ := reach_lines ⟨hone, hnames⟩ hlegal h
  refine ⟨hok.one, hlegal', fun u hu => lines_total ⟨hone, hnames⟩ hlegal h hu,
    fun t c hc hadds => ⟨fun a hk => ?_, fun e hk hlate => ?_⟩,
    fun t c e hc hsets hk hlate => ?_, fun t c s' u id n hcs hq => added_sum hs hok hcs hq⟩
  · obtain ⟨start, -, hpost⟩ := hs.ret hc hk
    exact hpost hadds
  · obtain ⟨start, -, herr⟩ := hs.fail hc hk
    exact herr hlate hadds
  · exact reach_traceless (setsLine_careful hsets) (.inr (.inr rfl)) h hc rfl hk hlate

/-- What a step must pass to be `Settled`. -/
def settles (p : Uuid) (τ : Uuid × Uuid → LineTarget) (s : ShopSys) (_ : Event Req)
    (s' : ShopSys) : Bool :=
  s'.db.get .products p = s.db.get .products p ∧ ∀ e ∈ (s'.db .cartItems).rows, e.2.target = τ e.1

theorem settled_of_settles {e : Event Req} (h : settles p τ s e s' = true) :
    Settled p τ s e s' := by
  obtain ⟨hp, hrows⟩ := of_decide_eq_true h
  exact ⟨congrArg (Option.map _) hp, fun k row => Store.get_all (d := s'.db)
    (t := ShopTbl.cartItems)
    (P := fun k row => row.target = τ k) hrows⟩

/-- User 1 puts two more balls into the cart. -/
def sampleAdd : List (Event Req) := .start 0 (.addItem 1 "product" 3 2) :: Event.steps 0 100 8

theorem cart_lines_add : LegalLines 3 (shop.after sampleAdd (.init sampleShop)).db ∧
    lineQuantity 1 3 (shop.after sampleAdd (.init sampleShop)).db =
      lineQuantity 1 3 sampleShop + (shop.after sampleAdd (.init sampleShop)).booked
        (Req.added 1 3) := by
  have hrows : ∀ k row, sampleShop.get .cartItems k = some row → k = (1, 8) ∧
      row = ⟨.product 3, 2, 0⟩ := fun _ _ =>
    Store.get_all (d := sampleShop) (t := ShopTbl.cartItems) (P := fun k row => k = (1, 8) ∧
      row = ⟨.product 3, 2, 0⟩) (by decide)
  have hone : OneLine sampleShop := fun k k' row row' hk hk' _ _ =>
    (hrows k row hk).1.trans (hrows k' row' hk').1.symm
  have hnames : Names (fun _ => .product 3) sampleShop := fun k row hk => by rw [(hrows k row hk).2]
  have hlegal : LegalLines 3 sampleShop := fun k row hk _ => by
    rw [(hrows k row hk).2]
    exact ⟨⟨"ball", .merchandise, 30000, some 5, none, none, true⟩, by decide, by decide⟩
  have hrun : shop.Reach (Settled 3 fun _ => .product 3) (Sys.init sampleShop)
      (shop.after sampleAdd (.init sampleShop)) :=
    (Service.reach_checks (T := settles 3 fun _ => .product 3) (by decide +kernel)).mono
      fun _ _ _ => settled_of_settles
  obtain ⟨-, hlines, htotal, -⟩ := cart_lines hone hnames hlegal hrun
  have hreq : shop.ReachOf (fun q => ¬ q.otherwise 1) (Sys.init sampleShop)
      (shop.after sampleAdd (.init sampleShop)) :=
    Service.reach_after fun e he _ _ t q hq => by
      subst hq
      simp only [sampleAdd, Event.steps, List.mem_cons, Event.start.injEq, List.mem_map,
        reduceCtorEq, and_false, exists_false,
        or_false] at he
      rw [he.2]
      exact not_false
  refine ⟨hlines, htotal 1 ?_⟩
  exact reach_req (fun t c hc => by rw [Sys.call_init] at hc; cases hc) hreq

/-- The cart has four balls. -/
example : lineQuantity 1 3 (shop.after sampleAdd (.init sampleShop)).db = 4 := by decide +kernel

/-- A product with a price that two of cannot be paid. -/
def dearShop : Db :=
  Store.overlay [.add .users 1 ⟨0⟩, .add .products 3 ⟨"ring", .merchandise, 5000000000000000000,
    none, none, none, true⟩] fun _ => ∅

/-- User 1 puts two rings into the cart. -/
def dearAdd : List (Event Req) := .start 0 (.addItem 1 "product" 3 2) :: Event.steps 0 100 12

/-- **An addition can be refused after its commit**: the cart with the new line has no
total. -/
theorem late_refusal : lineQuantity 1 3 dearShop = 0 ∧
    lineQuantity 1 3 (shop.after dearAdd (.init dearShop)).db = 2 ∧
    ((shop.after dearAdd (.init dearShop)).call 0).bind (·.prog.failed) =
    some (.validation "cart subtotal overflow") := by
  decide +kernel

end DreamFly
