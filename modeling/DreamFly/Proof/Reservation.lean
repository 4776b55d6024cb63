import DreamFly.Lists.Search
import DreamFly.Lists.Slices
import DreamFly.Proof.Stock
import DreamFly.Txn.Settles

/-!
# Reserving stock, proved

`reserveStockTx` is a function of the locked rows (`reserveStockTx_settles`): each line is
judged, then each line's stock is taken, both in the order of the locks, and the first line
refused is the one with the least product id. `reserve_stock` puts together how it ends, and
that the order in which a client lists the lines does not matter.
-/

namespace DreamFly

open Txn Prog

variable {σ : Pt Shop} {locks : ProductLocks} {lines lines' : List ReserveLine} {d d' : Db}

/-! ## Locked rows -/

/-- The locked row of a product, looked up by a binary search. -/
def ProductLocks.searchRow (locks : ProductLocks) (id : Uuid) : Option (Uuid × Product) :=
  Lists.search Prod.fst id locks

/-- Locks as `lockProductsTx` hands them out: ascending, each row current and locked. -/
structure ProductLocks.Valid (locks : ProductLocks) (σ : Pt Shop) : Prop where
  ascending : locks.Pairwise fun a b => a.1 < b.1
  good : locks.Good σ

theorem ProductLocks.Valid.row_eq (h : locks.Valid σ) (id : Uuid) :
    locks.row id = locks.searchRow id :=
  (Lists.search_eq_find h.ascending).symm

/-- **The locks of a checkout are valid.** -/
theorem lockProductsTx_valid {C : Pt Shop → Prop} {B : Option AppError → Pt Shop → Prop}
    {F : AppError → Prop} {ids : List Uuid} :
    Does C B σ (lockProductsTx ids) F fun locks σ' => locks.Valid σ' := by
  refine (Yields.selectAllFor (by decide) fun _ _ => trivial).imp (fun rs σ' _ h => ?_) fun _ h => h
  obtain ⟨hdb, ⟨v, -, -, hrs⟩, hall⟩ := h
  refine ⟨?_, fun e he => ⟨hdb ▸ (hall e he).1, (hall e he).2.2⟩⟩
  -- the ids come from a sorted query, and no id comes twice
  set rows := v.sel .products fun id _ => ids.contains id
  have hasc : ((rows.insertionSort fun a b => a.1 ≤ b.1).map Prod.fst).Pairwise (· ≤ ·) := by
    have : Std.Total fun a b : Uuid × Product => a.1 ≤ b.1 := ⟨fun _ _ => Nat.le_total _ _⟩
    have : IsTrans (Uuid × Product) fun a b => a.1 ≤ b.1 := ⟨fun _ _ _ => Nat.le_trans⟩
    exact List.pairwise_map.2 (List.pairwise_insertionSort _ _)
  have hd : ((rows.insertionSort fun a b => a.1 ≤ b.1).map Prod.fst).Nodup :=
    ((List.perm_insertionSort _ _).map Prod.fst).nodup_iff.2 (Store.sel_keys_nodup _ _ _)
  have hkeys : (rs.map Prod.fst).Pairwise (· < ·) := by
    rw [hrs]
    refine List.Pairwise.sublist (found_keys_sublist _ _ _ _) ?_
    simpa using hasc.imp₂ (fun _ _ hle hne => Nat.lt_of_le_of_ne hle hne) hd
  exact List.pairwise_map.1 hkeys

/-- Every line's product is locked. -/
def AllLocked (locks : ProductLocks) (lines : List ReserveLine) : Prop :=
  ∀ line ∈ lines, (locks.searchRow line.1).isSome = true

/-! ## What becomes of a line -/

/-- The line's quantity is judged against its locked row. -/
def judgeLine (locks : ProductLocks) (line : ReserveLine) : Except AppError Unit :=
  match locks.searchRow line.1 with
  | none => .error (.internal s!"product {line.1} is not covered by ProductLocks")
  | some row => row.2.ensureLineQuantity line.2.1

/-- The line's stock is taken from its locked row. -/
def takeLine (locks : ProductLocks) (line : ReserveLine) : Except AppError (Uuid × Product) :=
  match locks.searchRow line.1 with
  | none => .error (.internal s!"product {line.1} is not covered by ProductLocks")
  | some row =>
    if row.2.stock.all (line.2.1 ≤ ·) then .ok (line.1, row.2.take line.2.1)
    else .error (.conflict s!"insufficient stock for product {line.2.2}")

/-- Of the lines that `f` refuses, `line` is the one with the least product id, and `e` is
its error. -/
structure FirstRefused {α : Type} (f : ReserveLine → Except AppError α) (lines : List ReserveLine)
    (line : ReserveLine)
    (e : AppError) : Prop where
  mem : line ∈ lines
  refused : f line = .error e
  least : ∀ l ∈ lines, ∀ e', f l = .error e' → line.1 ≤ l.1

/-- The stock of `lines` is gone from `d`, and nothing else. -/
structure Decremented (lines : List ReserveLine) (d d' : Db) : Prop where
  taken : ∀ line ∈ lines, ∀ p, d.get .products line.1 = some p →
    d'.get .products line.1 = some (p.take line.2.1)
  same : ∀ id, id ∉ lines.map Prod.fst → d'.get .products id = d.get .products id
  only : Only (S := Shop) [.products] d d'

/-- How a reservation from `σ` on ends. -/
inductive Reservation (locks : ProductLocks) (lines : List ReserveLine)
    (σ : Pt Shop) : Except AppError Reserved → Pt Shop → Prop
  /-- A product that is not locked: nothing is taken. -/
  | uncovered {line : ReserveLine} (hm : line ∈ lines) (hu : locks.searchRow line.1 = none) :
      Reservation locks lines σ
        (.error (.internal s!"product {line.1} is not covered by ProductLocks")) σ
  /-- A quantity is refused: nothing is taken. -/
  | unfit {line : ReserveLine} {e : AppError} (hc : AllLocked locks lines)
  (hf : FirstRefused (judgeLine locks) lines line e) :
      Reservation locks lines σ (.error e) σ
  /-- A stock is short: what is taken is the stock of the lines before. -/
  | short {line : ReserveLine} {e : AppError} {σ' : Pt Shop} (hc : AllLocked locks lines)
  (hq : ∀ l ∈ lines, judgeLine locks l = .ok ())
      (hf : FirstRefused (takeLine locks) lines line e)
      (hd : Decremented (lines.filter (·.1 < line.1)) σ.db σ'.db) :
      Reservation locks lines σ (.error e) σ'
  /-- Everything is taken, and the rows as they are now come back. -/
  | done {reserved : Reserved} {σ' : Pt Shop} (hc : AllLocked locks lines)
  (hq : ∀ l ∈ lines, judgeLine locks l = .ok ())
      (hs : ∀ l ∈ lines, ∃ row, takeLine locks l = .ok row) (hd : Decremented lines σ.db σ'.db)
      (hr : ∀ id p, reserved.find id = some p ↔ id ∈ lines.map Prod.fst ∧
        σ'.db.get .products id = some p) :
      Reservation locks lines σ (.ok reserved) σ'

variable {line : ReserveLine}

/-! ## The order of the locks -/

/-- The lines with their locked rows. -/
def lockedRows (locks : ProductLocks) (lines : List ReserveLine) :
    List ((Uuid × Product) × ReserveLine) :=
  lines.filterMap fun line => (locks.row line.1).map fun row => (row, line)

theorem mem_lockedRows {e : (Uuid × Product) × ReserveLine} :
    e ∈ lockedRows locks lines ↔ e.2 ∈ lines ∧ locks.row e.2.1 = some e.1 := by
  obtain ⟨row, line⟩ := e
  simp only [lockedRows, List.mem_filterMap, Option.map_eq_some_iff, Prod.mk.injEq]
  constructor
  · rintro ⟨l, hl, r, hr, rfl, rfl⟩
    exact ⟨hl, hr⟩
  · rintro ⟨hl, hr⟩
    exact ⟨line, hl, row, hr, rfl, rfl⟩

theorem lockedRows_lines (h : ∀ line ∈ lines, (locks.row line.1).isSome = true) :
    (lockedRows locks lines).map Prod.snd = lines := by
  induction lines with
  | nil => rfl
  | cons line lines ih =>
    obtain ⟨hl, h⟩ := List.forall_mem_cons.1 h
    obtain ⟨row, hrow⟩ := Option.isSome_iff_exists.1 hl
    have ih := ih h
    unfold lockedRows at ih ⊢
    rw [List.filterMap_cons, hrow, Option.map_some, List.map_cons, ih]

theorem mapM_lockedRows {f : ReserveLine → Except AppError ((Uuid × Product) × ReserveLine)}
    (hf : ∀ line row, locks.row line.1 = some row → f line = .ok (row, line))
    (h : ∀ line ∈ lines, (locks.row line.1).isSome = true) : lines.mapM f =
    .ok (lockedRows locks lines) := by
  rw [Lists.mapM_ok]
  induction lines with
  | nil => exact .nil
  | cons line lines ih =>
    obtain ⟨hl, h⟩ := List.forall_mem_cons.1 h
    obtain ⟨row, hrow⟩ := Option.isSome_iff_exists.1 hl
    have hcons : lockedRows locks (line :: lines) = (row, line) :: lockedRows locks lines := by
      simp only [lockedRows, List.filterMap_cons, hrow, Option.map_some]
    rw [hcons]
    exact .cons (hf line row hrow) (ih h)

/-- The lines with their locked rows, ascending by product. -/
def lockOrder (locks : ProductLocks) (lines : List ReserveLine) :
    List ((Uuid × Product) × ReserveLine) :=
  (lockedRows locks lines).insertionSort fun a b => a.1.1 ≤ b.1.1

/-- Where every line is covered, the lines come in lock order. -/
theorem rowsInLockOrder_covered (h : ∀ line ∈ lines, (locks.row line.1).isSome = true) :
    locks.rowsInLockOrder lines (fun line => line.1) = .ok (lockOrder locks lines) := by
  unfold ProductLocks.rowsInLockOrder
  rw [mapM_lockedRows (fun line row hrow => by simp only [hrow]) h]
  rfl

/-- A line without a locked row stops the reservation at once. -/
theorem rowsInLockOrder_uncovered (locks : ProductLocks) (lines : List ReserveLine)
    (h : ¬ ∀ line ∈ lines, (locks.row line.1).isSome = true) :
    ∃ line ∈ lines, locks.row line.1 = none ∧ locks.rowsInLockOrder lines (fun line => line.1) =
      .error (.internal s!"product {line.1} is not covered by ProductLocks") := by
  cases hr : locks.rowsInLockOrder lines (fun line => line.1) with
  | ok ordered =>
    refine absurd (fun line hl => ?_) h
    obtain ⟨hp, hrow⟩ := ProductLocks.rowsInLockOrder_ok hr
    obtain ⟨e, he, rfl⟩ := List.mem_map.1 (hp.symm.subset hl)
    rw [hrow e he]
    rfl
  | error e =>
    unfold ProductLocks.rowsInLockOrder at hr
    rcases bind_eq_error hr with hr | ⟨_, _, hr⟩
    · obtain ⟨line, hl, he⟩ := Lists.mapM_error hr
      refine ⟨line, hl, ?_⟩
      cases hrow : locks.row line.1 with
      | none => rw [hrow] at he; cases he; exact ⟨rfl, rfl⟩
      | some row => rw [hrow] at he; cases he
    · cases hr

theorem lockOrder_rows {e : (Uuid × Product) × ReserveLine} (he : e ∈ lockOrder locks lines) :
    locks.row e.2.1 = some e.1 :=
  (mem_lockedRows.1 ((List.perm_insertionSort _ _).subset he)).2

/-- All the lines are among them. -/
theorem lockOrder_lines (h : ∀ line ∈ lines, (locks.row line.1).isSome = true) :
    ((lockOrder locks lines).map Prod.snd).Perm lines := by
  have hperm : (lockOrder locks lines).Perm (lockedRows locks lines) := List.perm_insertionSort _ _
  exact (hperm.map Prod.snd).trans (by rw [lockedRows_lines h])

section order

local instance : Std.Total fun a b : (Uuid × Product) × ReserveLine => a.1.1 ≤ b.1.1 :=
  ⟨fun _ _ => Nat.le_total _ _⟩

local instance : IsTrans ((Uuid × Product) × ReserveLine) fun a b => a.1.1 ≤ b.1.1 :=
  ⟨fun _ _ _ => Nat.le_trans⟩

theorem lockOrder_ascending : ((lockOrder locks lines).map Prod.snd).Pairwise fun a b =>
    a.1 ≤ b.1 := by
  refine List.pairwise_map.2 ((List.pairwise_insertionSort _ _).imp_of_mem fun ha hb hab => ?_)
  rw [← (ProductLocks.row_some (lockOrder_rows ha)).2,
    ← (ProductLocks.row_some (lockOrder_rows hb)).2]
  exact hab

/-- The order in which a client lists the lines is gone once they are in lock order. -/
theorem lockOrder_perm (hp : lines'.Perm lines) (hd : (lines.map Prod.fst).Nodup) :
    lockOrder locks lines' = lockOrder locks lines := by
  have hperm : (lockedRows locks lines').Perm (lockedRows locks lines) := hp.filterMap _
  refine Lists.sorted_perm (fun a ha b hb hab hba => ?_) hperm
  obtain ⟨hal, har⟩ := mem_lockedRows.1 (hperm.subset ha)
  obtain ⟨hbl, hbr⟩ := mem_lockedRows.1 (hperm.subset hb)
  -- one product, so one line, so one row
  have hid : a.2.1 = b.2.1 := by
    rw [← (ProductLocks.row_some har).2, ← (ProductLocks.row_some hbr).2]
    exact Nat.le_antisymm hab hba
  have hline : a.2 = b.2 := List.inj_on_of_nodup_map hd hal hbl hid
  rw [hline, hbr] at har
  exact Prod.ext (Option.some.inj har).symm hline

end order

/-! ## What is taken -/

theorem Decremented.refl (d : Db) : Decremented [] d d where
  taken _ hl := nomatch hl
  same _ _ := rfl
  only := Only.refl _ _

/-- One more line, of a product that no line so far is of. -/
theorem Decremented.snoc (h : Decremented lines d d') (hn : line.1 ∉ lines.map Prod.fst) :
    Decremented (lines ++ [line]) d (d'.apply (.mod .products line.1 (Product.take line.2.1))) where
  taken l hl p hp := by
    rcases List.mem_append.1 hl with hl | hl
    · have hne : line.1 ≠ l.1 := fun he => hn (he ▸ List.mem_map_of_mem hl)
      rw [Store.get_mod, if_neg hne.symm, h.taken l hl p hp]
    · cases List.mem_singleton.1 hl
      rw [Store.get_mod, if_pos rfl, h.same _ hn, hp]
      rfl
  same id hid := by
    rw [List.map_append, List.mem_append, not_or] at hid
    have hne : id ≠ line.1 := fun he => hid.2 (by simp [he])
    rw [Store.get_mod, if_neg hne, h.same id hid.1]
  only := h.only.trans (Only.write _ (by simp [Write.tbl]))

/-- The same lines in another order. -/
theorem Decremented.perm (h : Decremented lines d d') (hp : lines.Perm lines') :
    Decremented lines' d d' where
  taken l hl := h.taken l (hp.symm.subset hl)
  same id hid := h.same id fun hm => hid ((hp.map Prod.fst).subset hm)
  only := h.only

/-! ## One line -/

section turns
variable (hv : locks.Valid σ) {σ' : Pt Shop} {done : List ReserveLine}

/-- What holds after the lines so far: they are taken, and the locks are still there. -/
structure After (σ : Pt Shop) (done : List ReserveLine) (σ' : Pt Shop) : Prop where
  taken : Decremented done σ.db σ'.db
  later : σ.Later σ'

include hv

/-- One turn of the loop takes the line from its locked row. -/
theorem decrementLine_settles (h : After σ done σ') (hn : line.1 ∉ done.map Prod.fst)
    (hc : (locks.searchRow line.1).isSome = true) :
    Settles shopRules σ' (decrementLine line) fun r σ'' => r = takeLine locks line ∧
      (∀ b, r = .ok b → After σ (done ++ [line]) σ'') ∧ ∀ e, r = .error e → After σ done σ'' := by
  obtain ⟨row, hrow⟩ := Option.isSome_iff_exists.1 hc
  obtain ⟨hmem, hid⟩ := Lists.search_some hrow
  obtain ⟨hget, hheld⟩ := hv.good row hmem
  -- no earlier line was for this product, so it is as it was locked
  have hnow : σ'.db.get .products line.1 = some row.2 := by
    rw [h.taken.same _ hn, ← hid]; exact hget
  have htake : takeLine locks line = if row.2.stock.all (line.2.1 ≤ ·) then
      .ok (line.1, row.2.take line.2.1)
      else .error (.conflict s!"insufficient stock for product {line.2.2}") := by
        rw [takeLine, hrow]
  unfold decrementLine
  refine Settles.bind (P := fun r σ'' => (row.2.stock.all (line.2.1 ≤ ·) = true ∧
    r = .ok (some (row.2.take line.2.1)) ∧
      After σ (done ++ [line]) σ'') ∨ row.2.stock.all (line.2.1 ≤ ·) = false ∧ r = .ok none ∧
      σ'' = σ') ?_ ?_ ?_
  · have hh : Holds σ'.held (.row (S := Shop) .products line.1) .noKeyUpdate :=
      hid ▸ h.later.holds hheld
    refine Settles.updateRow hh (covers_of hh trivial) (fun hnone => ?_) fun r hr hp => ?_
    · rw [hnow] at hnone
      exact .inr ⟨by simpa using hnone, rfl, rfl⟩
    · rw [hnow] at hr
      cases hr
      refine .inl ⟨hp, rfl, ?_, h.later.trans (Pt.later_write _ _)⟩
      rw [Pt.write_db, Store.apply_mod_congr hnow (onlyIf_pos hp)]
      exact h.taken.snoc hn
  · rintro r σ'' (⟨hs, hr, ha⟩ | ⟨hs, hr, rfl⟩)
    · cases hr
      exact Settles.ret ⟨by rw [htake, if_pos hs], fun _ _ => ha, fun _ he => (nomatch he)⟩
    · cases hr
      exact Settles.fail ⟨by rw [htake, if_neg (by simp [hs])], fun _ hb => (nomatch hb),
        fun _ _ => h⟩
  · rintro e σ'' (⟨-, hr, -⟩ | ⟨-, hr, -⟩)
    · cases hr
    · cases hr

omit hv in
/-- Judging the locked rows is judging the lines. -/
theorem judge_rows (hv : locks.Valid σ) :
    ((lockOrder locks lines).forM fun e => e.1.2.ensureLineQuantity e.2.2.1) =
    ((lockOrder locks lines).map Prod.snd).forM (judgeLine locks) := by
  have hrows : ∀ e ∈ lockOrder locks lines, locks.searchRow e.2.1 = some e.1 := fun e he => by
    rw [← hv.row_eq]
    exact lockOrder_rows he
  generalize lockOrder locks lines = ordered at hrows
  induction ordered with
  | nil => rfl
  | cons e ordered ih =>
    obtain ⟨he, hrows⟩ := List.forall_mem_cons.1 hrows
    have hjudge : judgeLine locks e.2 = e.1.2.ensureLineQuantity e.2.2.1 := by rw [judgeLine, he]
    have hcons : ((e :: ordered).map Prod.snd).forM (judgeLine locks) =
        judgeLine locks e.2 >>= fun _ => (ordered.map Prod.snd).forM (judgeLine locks) := rfl
    rw [hcons, ← ih hrows, hjudge]
    rfl

end turns

/-! ## All lines -/

/-- The first line that `f` refuses on the way through the lock order. -/
theorem firstRefused {α : Type} {f : ReserveLine → Except AppError α}
    {ordered done rest : List ReserveLine} {e : AppError}
    (hp : ordered.Perm lines) (hasc : ordered.Pairwise fun a b => a.1 ≤ b.1)
    (hl : ordered = done ++ line :: rest)
    (hd : ∀ l ∈ done, ∃ b, f l = .ok b) (he : f line = .error e) : FirstRefused f lines line e where
  mem := hp.subset (by simp [hl])
  refused := he
  least l hm e' he' := Lists.least_of_first hasc hl hd (hp.symm.subset hm) he'

/-- What comes before a line in lock order are the lines of smaller products. -/
theorem before_eq {ordered done rest : List ReserveLine}
    (hasc : ordered.Pairwise fun a b => a.1 ≤ b.1)
    (hd : (ordered.map Prod.fst).Nodup) (hl : ordered = done ++ line :: rest) :
    ordered.filter (·.1 < line.1) = done := by
  subst hl
  obtain ⟨-, hasc₂, hasc₃⟩ := List.pairwise_append.1 hasc
  have hbefore : ∀ l ∈ done, l.1 < line.1 := by
    intro l hm
    have hle : l.1 ≤ line.1 := hasc₃ l hm line (by simp)
    rw [List.map_append, List.nodup_append] at hd
    have hne : l.1 ≠ line.1 := hd.2.2 l.1 (List.mem_map_of_mem hm) line.1 (by simp)
    exact lt_of_le_of_ne hle hne
  have hafter : ∀ l ∈ line :: rest, ¬ l.1 < line.1 := by
    intro l hm
    rcases List.mem_cons.1 hm with rfl | hm
    · exact lt_irrefl _
    · exact (List.rel_of_pairwise_cons hasc₂ hm).not_gt
  rw [List.filter_append, List.filter_eq_self.2 (by simpa using hbefore),
    List.filter_eq_nil_iff.2 (by simpa using hafter), List.append_nil]

/-- The rows that come back are the rows as they are. -/
theorem reserved_rows {reserved : Reserved} {σ' : Pt Shop} (hv : locks.Valid σ)
    (hr : lines.mapM (takeLine locks) = .ok reserved)
    (hd : Decremented lines σ.db σ'.db) (id : Uuid) (p : Product) :
    reserved.find id = some p ↔ id ∈ lines.map Prod.fst ∧ σ'.db.get .products id = some p := by
  -- what a line left of its row is what the store has
  have hnow : ∀ line ∈ lines, ∀ e, takeLine locks line = .ok e → e.1 = line.1 ∧
      σ'.db.get .products line.1 = some e.2 := by
    intro line hl e he
    unfold takeLine at he
    cases hrow : locks.searchRow line.1 with
    | none => rw [hrow] at he; cases he
    | some row =>
      rw [hrow] at he
      obtain ⟨hmem, hid⟩ := Lists.search_some hrow
      have hget : σ.db.get .products line.1 = some row.2 := by
        rw [← hid]; exact (hv.good row hmem).1
      simp only at he
      split at he
      · cases he
        exact ⟨rfl, hd.taken line hl _ hget⟩
      · cases he
  have hfind : ∀ e, reserved.reverse.find? (fun e => e.1 = id) = some e → e.1 = id ∧
      id ∈ lines.map Prod.fst ∧
      σ'.db.get .products id = some e.2 := by
    intro e he
    have hid : e.1 = id := by simpa using List.find?_some he
    obtain ⟨line, hl, ht⟩ := (Lists.mem_mapM hr).1
      (List.mem_reverse.1 (List.mem_of_find?_eq_some he))
    obtain ⟨hfst, hget⟩ := hnow line hl e ht
    rw [← hid, hfst]
    exact ⟨rfl, List.mem_map_of_mem hl, hget⟩
  unfold Reserved.find
  constructor
  · intro h
    obtain ⟨e, he, rfl⟩ := Option.map_eq_some_iff.1 h
    exact (hfind e he).2
  · rintro ⟨hid, hp⟩
    obtain ⟨line, hl, rfl⟩ := List.mem_map.1 hid
    obtain ⟨e, ht⟩ := Lists.ok_of_mapM hr line hl
    have hmem : e ∈ reserved := (Lists.mem_mapM hr).2 ⟨line, hl, ht⟩
    cases hf : reserved.reverse.find? fun e => e.1 = line.1 with
    | none =>
      exact absurd (hnow line hl e ht).1
        (by simpa using List.find?_eq_none.1 hf e (by simpa using hmem))
    | some e' =>
      obtain ⟨-, -, hget⟩ := hfind e' hf
      rw [hp] at hget
      cases hget
      rfl

/-- The reservation of covered lines, in lock order. -/
theorem reserveStockTx_eq (hv : locks.Valid σ) (hc : AllLocked locks lines) :
    reserveStockTx locks lines =
    checked (((lockOrder locks lines).map Prod.snd).forM (judgeLine locks)) >>= fun _ =>
      each decrementLine ((lockOrder locks lines).map Prod.snd) := by
  have hrows : ∀ line ∈ lines, (locks.row line.1).isSome = true := fun line hl => by
    rw [hv.row_eq]; exact hc line hl
  rw [← judge_rows hv]
  unfold reserveStockTx
  rw [rowsInLockOrder_covered hrows]
  rfl

/-- What the lines in lock order come to. -/
def reserveLines (locks : ProductLocks) (ordered : List ReserveLine) : Except AppError Reserved :=
  ordered.forM (judgeLine locks) >>= fun _ => ordered.mapM (takeLine locks)

/-- All the lines of `ordered` pass their first check, or the first of them that does not
is known. -/
theorem judged (locks : ProductLocks) (ordered : List ReserveLine) :
    (ordered.forM (judgeLine locks) = .ok () ∧ ∀ l ∈ ordered, judgeLine locks l = .ok ()) ∨
      ∃ e done line rest, ordered.forM (judgeLine locks) = .error e ∧
        ordered = done ++ line :: rest ∧
        (∀ l ∈ done, ∃ b, judgeLine locks l = .ok b) ∧ judgeLine locks line = .error e := by
  rw [Lists.forM_eq_mapM]
  cases hm : ordered.mapM (judgeLine locks) with
  | ok bs => exact .inl ⟨rfl, fun l hl => (Lists.ok_of_mapM hm l hl).choose_spec⟩
  | error e =>
    obtain ⟨done, line, rest, hl, hd, he⟩ := Lists.mapM_first_error hm
    exact .inr ⟨e, done, line, rest, rfl, hl, hd, he⟩

/-- The lines in lock order: judged, then taken. -/
theorem reserve_settles {ordered : List ReserveLine} (hv : locks.Valid σ)
    (hc : AllLocked locks lines) (hp : ordered.Perm lines)
    (hasc : ordered.Pairwise fun a b => a.1 ≤ b.1) (hd : (ordered.map Prod.fst).Nodup) :
    Settles shopRules σ (checked (ordered.forM (judgeLine locks)) >>=
      fun _ => each decrementLine ordered) fun r σ' =>
      r = reserveLines locks ordered ∧ Reservation locks lines σ r σ' := by
  unfold reserveLines
  -- every line is judged before any stock is taken
  rcases judged locks ordered with ⟨hok, hq⟩ | ⟨e, done, line, rest, herr, hl, hdone, he⟩
  · have hq : ∀ l ∈ lines, judgeLine locks l = .ok () := fun l hm => hq l (hp.symm.subset hm)
    rw [hok]
    refine (Settles.each (g := takeLine locks) (I := After σ) (fun done line rest σ' hl ha => ?_)
      ⟨Decremented.refl _, .refl σ⟩).imp fun r σ' h => ?_
    · -- the line's product is none of those before it
      have hn : line.1 ∉ done.map Prod.fst := by
        rw [hl, List.map_append, List.nodup_append] at hd
        exact fun hm => hd.2.2 line.1 hm line.1 (by simp) rfl
      exact decrementLine_settles hv ha hn (hc line (hp.subset (by simp [hl])))
    · obtain ⟨hr, hok, herr⟩ := h
      refine ⟨hr, ?_⟩
      cases r with
      | ok reserved =>
        have hdec : Decremented lines σ.db σ'.db := (hok reserved rfl).taken.perm hp
        refine .done hc hq (fun l hm => Lists.ok_of_mapM hr.symm l (hp.symm.subset hm)) hdec
          fun id p => ?_
        rw [reserved_rows hv hr.symm (hok reserved rfl).taken, (hp.map Prod.fst).mem_iff]
      | error e =>
        obtain ⟨done, line, rest, hl, hdone, he, ha⟩ := herr e rfl
        refine .short hc hq (firstRefused hp hasc hl hdone he) (ha.taken.perm ?_)
        rw [← before_eq hasc hd hl]
        exact hp.filter _
  · rw [herr]
    exact Settles.fail ⟨rfl, .unfit hc (firstRefused hp hasc hl hdone he)⟩

/-- **Over covered lines the code computes a function of the locked rows**, the same for
every order of the lines. -/
theorem reserveStockTx_settles (hv : locks.Valid σ) (hd : (lines.map Prod.fst).Nodup)
    (hc : AllLocked locks lines)
    (hp : lines'.Perm lines) : Settles shopRules σ (reserveStockTx locks lines') fun r σ' =>
      r = reserveLines locks ((lockOrder locks lines).map Prod.snd) ∧
      Reservation locks lines σ r σ' := by
  have hrows : ∀ line ∈ lines, (locks.row line.1).isSome = true := fun line hl => by
    rw [hv.row_eq]; exact hc line hl
  have hperm := lockOrder_lines hrows
  rw [reserveStockTx_eq hv fun line hl => hc line (hp.subset hl), lockOrder_perm hp hd]
  exact reserve_settles hv hc hperm lockOrder_ascending ((hperm.map Prod.fst).nodup_iff.2 hd)

/-- **Stock reservation**: how it ends, and that the order of the lines does not matter. -/
theorem reserve_stock (hv : locks.Valid σ) (hd : (lines.map Prod.fst).Nodup) :
    Settles shopRules σ (reserveStockTx locks lines) (Reservation locks lines σ) ∧
      (AllLocked locks lines → ∃ r, ∀ lines', lines'.Perm lines →
        Settles shopRules σ (reserveStockTx locks lines') fun r' _ => r' = r) := by
  refine ⟨?_, fun hc => ⟨_, fun lines' hp => (reserveStockTx_settles hv hd hc hp).imp
    fun _ _ h => h.1⟩⟩
  by_cases hc : AllLocked locks lines
  · exact (reserveStockTx_settles hv hd hc (.refl lines)).imp fun _ _ h => h.2
  · obtain ⟨line, hl, hrow, hr⟩ := rowsInLockOrder_uncovered locks lines
      fun h => hc fun line hl => by rw [← hv.row_eq]; exact h line hl
    unfold reserveStockTx
    rw [hr]
    exact Settles.fail (.uncovered hl (by rw [← hv.row_eq]; exact hrow))

/-- A checkout that has locked its products: two balls are left, and tickets without limit. -/
def sampleLocked : Pt Shop :=
  let d : Db := Store.overlay [.add .products 5 ⟨"ball", .merchandise, 30000, some 2, none,
    none, true⟩,
    .add .products 7 ⟨"ticket", .ticket, 20000, none, none, some 4, true⟩] fun _ => ∅
  ⟨d, d, d, [], [(.row (S := Shop) .products 5, .noKeyUpdate),
    (.row (S := Shop) .products 7, .noKeyUpdate)], false⟩

def sampleLocks : ProductLocks :=
  [(5, ⟨"ball", .merchandise, 30000, some 2, none, none, true⟩),
    (7, ⟨"ticket", .ticket, 20000, none, none, some 4, true⟩)]

theorem reserve_stock_ball :
    Settles shopRules sampleLocked (reserveStockTx sampleLocks [(7, 3, "ticket"), (5, 2, "ball")])
      (Reservation sampleLocks [(7, 3, "ticket"), (5, 2, "ball")] sampleLocked) ∧
    ∃ r, ∀ lines, lines.Perm [(7, 3, "ticket"), (5, 2, "ball")] →
      Settles shopRules sampleLocked (reserveStockTx sampleLocks lines) fun r' _ => r' = r := by
  have hv : sampleLocks.Valid sampleLocked := by
    refine ⟨by simp [sampleLocks], fun e he => ?_⟩
    rcases List.mem_cons.1 he with rfl | he
    · exact ⟨rfl, by decide⟩
    · cases List.mem_singleton.1 he
      exact ⟨rfl, by decide⟩
  have hc : ∀ line ∈ [((7 : Uuid), (3 : ℤ), "ticket"), (5, 2, "ball")],
      (sampleLocks.row line.1).isSome = true := by decide
  obtain ⟨h, horder⟩ := @reserve_stock _ _ [(7, 3, "ticket"), (5, 2, "ball")] hv (by decide)
  exact ⟨h, horder fun line hl => by rw [← hv.row_eq]; exact hc line hl⟩

end DreamFly
