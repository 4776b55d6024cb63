import DreamFly.Shop.Ledger
import DreamFly.Run.Points

/-!
# The listing of a ledger chains

`ledger_chains`: the rows of a user's listing, each with the balance after it, form one
chain from the balance at the top to the oldest row's own delta, and every page is a slice
of it; a page is refused if a balance up to its end does not fit a BIGINT.
-/

namespace DreamFly

open Txn Lists

variable {u k : Uuid} {d d' : Db} {user : User} {balance : ℤ} {limit offset : UInt32} {i n : ℕ}
  {a b e : PointLedgerEntry}
  {x y z : Uuid × LedgerRow} {r : LedgerRow}

/-! ## The order -/

instance : Std.Total newer := by
  refine ⟨fun a b => ?_⟩
  unfold newer
  rcases lt_trichotomy a.2.createdAt b.2.createdAt with h | h | h
  · exact .inr (.inl h)
  · exact (le_total b.1 a.1).imp (fun hid => .inr ⟨h, hid⟩) fun hid => .inr ⟨h.symm, hid⟩
  · exact .inl (.inl h)

instance : IsTrans (Uuid × LedgerRow) newer := by
  refine ⟨fun a b c hab hbc => ?_⟩
  rcases hab with hab | ⟨hab, hid⟩
  · rcases hbc with hbc | ⟨hbc, -⟩
    · exact .inl (hbc.trans hab)
    · exact .inl (hbc ▸ hab)
  · rcases hbc with hbc | ⟨hbc, hid'⟩
    · exact .inl (hab ▸ hbc)
    · exact .inr ⟨hab.trans hbc, hid'.trans hid⟩

/-- Two rows that come before each other have one id. -/
theorem newer_antisymm (h : newer x y) (h' : newer y x) : x.1 = y.1 := by
  rcases h with h | ⟨h, hid⟩
  · rcases h' with h' | ⟨h', -⟩
    · exact absurd (h.trans h') (lt_irrefl _)
    · exact absurd h (h' ▸ lt_irrefl _)
  · rcases h' with h' | ⟨-, hid'⟩
    · exact absurd h' (h ▸ lt_irrefl _)
    · exact le_antisymm hid' hid

/-- The account of `u` is the same in both. -/
structure SameAccount (u : Uuid) (d d' : Db) : Prop where
  user : d'.get .users u = d.get .users u
  rows : ∀ k r, r.userId = u → (d'.get .pointLedger k = some r ↔ d.get .pointLedger k = some r)

theorem ledgerRows_perm : (ledgerRows u d).Perm (d.sel .pointLedger fun _ r => r.userId = u) :=
  List.perm_insertionSort newer _

theorem mem_ledgerRows : x ∈ ledgerRows u d ↔ d.get .pointLedger x.1 = some x.2 ∧
    x.2.userId = u := by
  obtain ⟨k, r⟩ := x
  rw [ledgerRows_perm.mem_iff, Store.mem_sel, decide_eq_true_eq]

/-- **The listing depends on the account only**: ids break the ties of `created_at`. -/
theorem SameAccount.ledgerRows (h : SameAccount u d d') : ledgerRows u d' = ledgerRows u d := by
  refine sorted_perm (fun a ha b hb hab hba => ?_)
    (Store.sel_perm fun k r hr => h.rows k r (of_decide_eq_true hr))
  obtain ⟨k, r⟩ := a
  obtain ⟨k', r'⟩ := b
  obtain rfl : k = k' := newer_antisymm hab hba
  have hr := (Store.mem_sel.1 ha).1
  rw [(Store.mem_sel.1 hb).1] at hr
  cases hr
  rfl

theorem SameAccount.listing (h : SameAccount u d d') :
    ledgerListing u balance d' = ledgerListing u balance d := by
  unfold ledgerListing
  rw [h.ledgerRows]

/-! ## The listing -/

/-- The ledger row that an entry shows. -/
def PointLedgerEntry.row (e : PointLedgerEntry) : Uuid × LedgerRow :=
  (e.id, ⟨e.userId, e.delta, e.reason, e.orderId, e.createdAt⟩)

theorem listing_getElem? (h : (ledgerListing u balance d)[i]? = some e) :
    (ledgerRows u d)[i]? = some e.row ∧ e.balanceAfter =
    balance - sumDeltas ((ledgerRows u d).take i) := by
  unfold ledgerListing at h
  rw [List.getElem?_mapIdx] at h
  obtain ⟨x, hx, rfl⟩ := Option.map_eq_some_iff.1 h
  exact ⟨hx, rfl⟩

theorem listing_length : (ledgerListing u balance d).length = (ledgerRows u d).length :=
    List.length_mapIdx

theorem listing_rows : (ledgerListing u balance d).map PointLedgerEntry.row = ledgerRows u d := by
  refine List.ext_getElem? fun i => ?_
  unfold ledgerListing
  rw [List.getElem?_map, List.getElem?_mapIdx, Option.map_map]
  exact congrFun Option.map_id _

theorem sumDeltas_take_succ (rows : List (Uuid × LedgerRow)) (h : rows[i]? = some x) :
    sumDeltas (rows.take (i + 1)) = sumDeltas (rows.take i) + x.2.delta := by
  rw [List.take_add_one, h]
  simp [sumDeltas]

/-- The deltas of the whole listing are the user's ledger sum. -/
theorem sumDeltas_rows : sumDeltas (ledgerRows u d) = ledgerSum u d := by
  have hperm : (ledgerRows u d).map (fun e => e.2.delta) |>.Perm
      ((d.sel .pointLedger fun _ r => r.userId = u).map fun e => e.2.delta) :=
    ledgerRows_perm.map _
  have htotal : ledgerSum u d = ((d.sel .pointLedger fun _ r => r.userId = u).map fun e =>
      if e.2.userId = u then e.2.delta else 0).sum :=
    Store.total_eq_sum_sel fun k r hr => if_neg (of_decide_eq_false hr)
  rw [sumDeltas, hperm.sum_eq, htotal]
  refine congrArg List.sum (List.map_congr_left fun e he => ?_)
  exact (if_pos (of_decide_eq_true (Store.mem_sel.1 he).2)).symm

/-- At the top, the balance. -/
theorem listing_first (h : (ledgerListing u balance d)[0]? = some e) :
    e.balanceAfter = balance := by
  rw [(listing_getElem? h).2, List.take_zero]
  exact sub_zero balance

/-- From one row to the next, less its delta. -/
theorem listing_next (ha : (ledgerListing u balance d)[i]? = some a)
    (hb : (ledgerListing u balance d)[i + 1]? = some b) :
    b.balanceAfter = a.balanceAfter - a.delta := by
  obtain ⟨hrow, hbalance⟩ := listing_getElem? ha
  rw [(listing_getElem? hb).2, hbalance, sumDeltas_take_succ _ hrow]
  change _ - (_ + a.delta) = _
  omega

/-- At the bottom, its own delta. -/
theorem listing_last (hsum : balance = ledgerSum u d)
    (h : (ledgerListing u balance d).getLast? = some e) :
    e.balanceAfter = e.delta := by
  rw [List.getLast?_eq_getElem?, listing_length] at h
  obtain ⟨hrow, hbalance⟩ := listing_getElem? h
  have hlen : (ledgerRows u d).length - 1 < (ledgerRows u d).length :=
    (List.getElem?_eq_some_iff.1 hrow).1
  have hall := sumDeltas_take_succ _ hrow
  rw [List.take_of_length_le (by omega), sumDeltas_rows, ← hsum] at hall
  change balance = _ + e.delta at hall
  omega

/-! ## Pages -/

theorem mapM_cast (l : List PointLedgerEntry) :
    l.mapM PointLedgerEntry.cast = if l.all (fun e => fitsI64 e.balanceAfter) then .ok l else
      .error .outOfRange := by
  induction l with
  | nil => rfl
  | cons e l ih =>
    rw [List.mapM_cons, ih, List.all_cons, PointLedgerEntry.cast, toBigint]
    cases fitsI64 e.balanceAfter with
    | false => rfl
    | true =>
      cases l.all fun e => fitsI64 e.balanceAfter with
      | false => rfl
      | true => rfl

/-- How many rows of the listing a page computes. -/
def wantedRows (limit offset : UInt32) : ℕ := if limit = 0 then 0 else offset.toNat + limit.toNat

/-- Every balance up to the end of a page is a BIGINT. -/
def PageFits (limit offset : UInt32) (listing : List PointLedgerEntry) : Prop :=
  ∀ e ∈ listing.take (wantedRows limit offset), fitsI64 e.balanceAfter = true

instance (limit offset : UInt32) (listing : List PointLedgerEntry) :
    Decidable (PageFits limit offset listing) :=
  inferInstanceAs (Decidable (∀ e ∈ listing.take (wantedRows limit offset),
    fitsI64 e.balanceAfter = true))

theorem wanted_drop (listing : List PointLedgerEntry) :
    (listing.take (wantedRows limit offset)).drop offset.toNat =
    slice limit.toNat offset.toNat listing := by
  rw [List.drop_take, slice, wantedRows]
  split
  · rename_i h
    subst h
    rw [Nat.zero_sub]
    rfl
  · rw [Nat.add_sub_cancel_left]

/-- **A page is a slice of the listing**, if the balances up to its end fit. -/
theorem findLedger_eq (h : SameAccount u d d') (hu : d.get .users u = some user) :
    findLedgerByUser u limit offset d' =
      if PageFits limit offset (ledgerListing u user.pointsBalance d)
      then .ok (slice limit.toNat offset.toNat (ledgerListing u user.pointsBalance d)) else
        .error .outOfRange := by
  unfold findLedgerByUser
  rw [h.user, hu]
  simp only
  rw [h.listing, mapM_cast, ← wantedRows, ← wanted_drop]
  by_cases hfit : PageFits limit offset (ledgerListing u user.pointsBalance d)
  · rw [if_pos hfit, if_pos (List.all_eq_true.2 hfit)]
    rfl
  · rw [if_neg hfit, if_neg fun hall => hfit (List.all_eq_true.1 hall)]
    rfl

theorem wantedRows_le {i n : ℕ} (hi : i < n) (h : (n - 1) * limit.toNat < 2 ^ 32) :
    wantedRows limit (UInt32.ofNat (i * limit.toNat)) ≤ n * limit.toNat := by
  have hle : i * limit.toNat ≤ (n - 1) * limit.toNat := Nat.mul_le_mul_right _ (by omega)
  unfold wantedRows
  split
  · exact Nat.zero_le _
  · rw [UInt32.toNat_ofNat_of_lt' (hle.trans_lt h), ← Nat.succ_mul]
    exact Nat.mul_le_mul_right _ hi

/-- Consecutive pages, one after the other. -/
theorem ledger_pages (hu : d.get .users u = some user) {ds : ℕ → Db}
    (hs : ∀ i, SameAccount u d (ds i))
    (h : (n - 1) * limit.toNat < 2 ^ 32)
    (hfit : ∀ e ∈ (ledgerListing u user.pointsBalance d).take (n * limit.toNat),
      fitsI64 e.balanceAfter = true) :
    ∃ pages : ℕ → List PointLedgerEntry,
      (∀ i < n, findLedgerByUser u limit (UInt32.ofNat (i * limit.toNat)) (ds i) = .ok (pages i)) ∧
      ((List.range n).map pages).flatten = (ledgerListing u user.pointsBalance d).take
        (n * limit.toNat) := by
  refine ⟨fun i => slice limit.toNat (i * limit.toNat) (ledgerListing u user.pointsBalance d),
    fun i hi => ?_, flatten_slices _ _ _⟩
  have hle : i * limit.toNat ≤ (n - 1) * limit.toNat := Nat.mul_le_mul_right _ (by omega)
  have hoffset : (UInt32.ofNat (i * limit.toNat)).toNat = i * limit.toNat :=
    UInt32.toNat_ofNat_of_lt' (hle.trans_lt h)
  have hpage : PageFits limit (UInt32.ofNat (i * limit.toNat))
      (ledgerListing u user.pointsBalance d) := fun e he =>
    hfit e ((List.take_sublist_take_left (wantedRows_le hi h)).subset he)
  rw [findLedger_eq (hs i) hu, if_pos hpage, hoffset]

/-- `GET /points/me`: the first row of page 1 shows the balance beside it. -/
theorem getMyPoints_first {pagination : PaginationParams} {month : MonthOf} {now : Instant}
    {res : PointsMeResponse}
    (h : getMyPoints u pagination month now d = .ok res) (hpage : pagination.offset = 0)
    (he : res.ledger[0]? = some e) :
    e.balanceAfter = res.balance := by
  unfold getMyPoints at h
  obtain ⟨balance, hbalance, h⟩ := bind_eq_ok h
  obtain ⟨entries, hentries, h⟩ := bind_eq_ok h
  obtain ⟨earned, -, h⟩ := bind_eq_ok h
  cases h
  unfold findBalance at hbalance
  cases hu : d.get .users u with
  | none =>
    rw [hu] at hbalance
    cases hbalance
  | some user =>
    rw [hu] at hbalance
    cases hbalance
    rw [findLedger_eq ⟨rfl, fun _ _ _ => Iff.rfl⟩ hu] at hentries
    split at hentries
    · cases hentries
      rw [hpage, getElem?_slice] at he
      split at he
      · exact listing_first he
      · cases he
    · cases hentries

/-- **Ledger pages chain.** For every user whose balance is the sum of his ledger rows:

* the listing has each of them once;
* its first row shows the balance, every following row the balance of the row above it less
  that row's delta, and its last row its own delta, however the `created_at` fall together;
* a page is the slice of the listing that it asks for, read at any time while the account
  is the same, and is refused just when a balance up to its end does not fit a BIGINT;
* so pages that are not refused are consecutive slices, one after the other. -/
theorem ledger_chains (hu : d.get .users u = some user)
    (hsum : user.pointsBalance = ledgerSum u d) :
    let listing := ledgerListing u user.pointsBalance d
    ((listing.map PointLedgerEntry.row).Nodup ∧
      ∀ k r, (k, r) ∈ listing.map PointLedgerEntry.row ↔ d.get .pointLedger k = some r ∧
        r.userId = u) ∧
    (∀ e, listing[0]? = some e → e.balanceAfter = user.pointsBalance) ∧
    (∀ i a b, listing[i]? = some a → listing[i + 1]? = some b →
      b.balanceAfter = a.balanceAfter - a.delta) ∧
    (∀ e, listing.getLast? = some e → e.balanceAfter = e.delta) ∧
    (∀ limit offset d', SameAccount u d d' → findLedgerByUser u limit offset d' =
      if PageFits limit offset listing then .ok (slice limit.toNat offset.toNat listing) else
        .error .outOfRange) ∧
    ∀ (limit : UInt32) (n : ℕ) (ds : ℕ → Db), (∀ i, SameAccount u d (ds i)) →
      (n - 1) * limit.toNat < 2 ^ 32 →
      (∀ e ∈ listing.take (n * limit.toNat), fitsI64 e.balanceAfter = true) →
      ∃ pages : ℕ → List PointLedgerEntry,
        (∀ i < n, findLedgerByUser u limit (UInt32.ofNat (i * limit.toNat))
          (ds i) = .ok (pages i)) ∧
        ((List.range n).map pages).flatten = listing.take (n * limit.toNat) := by
  refine ⟨⟨?_, fun k r => ?_⟩, fun e => listing_first, fun i a b => listing_next,
    fun e => listing_last hsum,
    fun limit offset d' hs => findLedger_eq hs hu, fun limit n ds hs h hfit =>
      ledger_pages hu hs h hfit⟩
  · rw [listing_rows]
    exact ledgerRows_perm.nodup_iff.2 (Store.sel_nodup _ _ _)
  · rw [listing_rows]
    exact mem_ledgerRows

/-- Two rows of one checkout, and an older one. -/
def sampleLedger : Db :=
  Store.overlay [.add .users 1 ⟨12⟩, .add .pointLedger 3 ⟨1, 10, .adminAdjust, none, 0⟩,
    .add .pointLedger 5 ⟨1, -4, .checkoutRedeem, some 7, 9⟩,
    .add .pointLedger 6 ⟨1, 6, .checkoutEarn, some 7, 9⟩] fun _ => ∅

theorem ledger_chains_sample :
    findLedgerByUser 1 2 1 sampleLedger = .ok [⟨5, 1, -4, 6, .checkoutRedeem, some 7, 9⟩,
      ⟨3, 1, 10, 10, .adminAdjust, none, 0⟩] := by
  have hu : sampleLedger.get .users 1 = some ⟨12⟩ := by decide
  have hpage := (ledger_chains hu (by decide)).2.2.2.2.1 2 1 sampleLedger ⟨rfl,
    fun _ _ _ => Iff.rfl⟩
  exact hpage.trans (by decide)

/-- Three adjustments of a member's points. The third read the clock before the second and
was through after it. -/
def lateAdjustments : List (Event Req) :=
  .start 0 (.adjustPoints ⟨1, 9000000000000000000, 0⟩ 1) :: Event.steps 0 100 12 ++
    .start 1 (.adjustPoints ⟨1, -9000000000000000000, 9000000000000000000⟩ 3) ::
    Event.steps 1 200 12 ++
    .start 2 (.adjustPoints ⟨1, 9000000000000000000, 0⟩ 2) :: Event.steps 2 300 12

/-- **A ledger consistent with its balance and no listing of it**: in the order of the
listing the two credits come before the debit, and the balance between them does not fit. -/
theorem ledger_refused :
    let d := (shop.after lateAdjustments (.init (Store.overlay [.add .users 1 ⟨0⟩] fun _ => ∅))).db
    d.get .users 1 = some ⟨9000000000000000000⟩ ∧ ledgerSum 1 d = 9000000000000000000 ∧
      findLedgerByUser 1 20 0 d = .error .outOfRange := by
  decide +kernel

end DreamFly
