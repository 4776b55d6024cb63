import DreamFly.Txn.Logic
import Mathlib.Data.List.Permutation
import Mathlib.Data.List.Sort

/-!
# Statements

The SQL statements transactions are made of, at READ COMMITTED, and a rule of
the program logic for each. A locking statement finds rows in its snapshot,
waits for each row's lock, and looks at the row again once it has it
(`recheck`); rows that no longer qualify are skipped. The rules give the exact
state afterwards: once a row is locked, what was read of it is what it is when
the transaction ends.

* `read`, `selectFor`, `selectAllFor`: SELECT, without and with a lock.
* `updateRow`, `updateAll`, `deleteAll`: UPDATE and DELETE.
* `insert`, `claim`, `references`: INSERT, unique indexes and foreign keys.
-/

namespace Txn

open Store

variable {S : Schema} {E α β : Type}

/-! ## The statements -/

/-- The rows of `t` under the keys `ks` that satisfy `p`. -/
def Store.found (d : Store S) (t : S.Tbl) (p : S.Key t → S.Row t → Bool) (ks : List (S.Key t)) :
    List (S.Key t × S.Row t) :=
  ks.filterMap fun k => ((d.get t k).filter (p k)).map fun r => (k, r)

/-- The `n`-th order of a list: scans promise none. -/
def arrange (n : ℕ) (l : List α) : List α := l.permutations'.getD n l

namespace Prog

/-- SELECT without a lock: one snapshot. -/
def read (q : Store S → α) : Prog S E α := .view fun d => .ret (q d)

def lockRes (r : Res S) (m : Mode) : Prog S E Unit := .lock r m (.ret ())

def put (w : Write S) : Prog S E Unit := .write w (.ret ())

def choose : Prog S E ℕ := .pick .ret

/-- A row that a locking statement has found: wait for its lock, look again. -/
def recheck (t : S.Tbl) (k : S.Key t) (p : S.Row t → Bool) (m : Mode) :
    Prog S E (Option (S.Row t)) := do
  lockRes (.row t k) m
  let r ← read (·.get t k)
  return r.filter p

/-- SELECT … WHERE key = k AND p FOR m. -/
def selectFor (t : S.Tbl) (k : S.Key t) (p : S.Row t → Bool) (m : Mode) :
    Prog S E (Option (S.Row t)) := do
  match (← read (·.get t k)).filter p with
  | none => return none
  | some _ => recheck t k p m

/-- Lock rows in the given order; the ones that still satisfy `p`. -/
def lockEach (t : S.Tbl) (p : S.Key t → S.Row t → Bool) (m : Mode) :
    List (S.Key t) → Prog S E (List (S.Key t × S.Row t))
  | [] => return []
  | k :: ks => do
    let r ← recheck t k (p k) m
    let rs ← lockEach t p m ks
    return match r with
      | none => rs
      | some r => (k, r) :: rs

/-- SELECT … WHERE p ORDER BY le FOR m. -/
def selectAllFor (t : S.Tbl) (p : S.Key t → S.Row t → Bool)
    (le : S.Key t × S.Row t → S.Key t × S.Row t → Bool) (m : Mode) :
    Prog S E (List (S.Key t × S.Row t)) := do
  let hits ← read fun d => (d.sel t p).insertionSort (le · ·)
  lockEach t p m (hits.map Prod.fst)

/-- UPDATE … SET f WHERE key = k AND p RETURNING *. -/
def updateRow (t : S.Tbl) (k : S.Key t) (p : S.Row t → Bool) (f : S.Row t → S.Row t) :
    Prog S E (Option (S.Row t)) := do
  match ← selectFor t k p .noKeyUpdate with
  | none => return none
  | some r => do
    put (.mod t k (onlyIf p f))
    return some (f r)

/-- Lock and write rows one by one, each with `w`. -/
def writeEach (t : S.Tbl) (p : S.Key t → S.Row t → Bool) (m : Mode) (w : S.Key t → Write S) :
    List (S.Key t) → Prog S E (List (S.Key t × S.Row t))
  | [] => return []
  | k :: ks => do
    match ← recheck t k (p k) m with
    | none => writeEach t p m w ks
    | some r => do
      put (w k)
      let rs ← writeEach t p m w ks
      return (k, r) :: rs

/-- UPDATE … SET f WHERE p RETURNING the rows it found, in any order. -/
def updateAll (t : S.Tbl) (p : S.Key t → S.Row t → Bool) (f : S.Row t → S.Row t) :
    Prog S E (List (S.Key t × S.Row t)) := do
  let hits ← read fun d => (d.sel t p).map Prod.fst
  let n ← choose
  writeEach t p .noKeyUpdate (fun k => .mod t k (onlyIf (p k) f)) (arrange n hits)

/-- DELETE … WHERE p RETURNING the rows it found, in any order. -/
def deleteAll (t : S.Tbl) (p : S.Key t → S.Row t → Bool) : Prog S E (List (S.Key t × S.Row t)) := do
  let hits ← read fun d => (d.sel t p).map Prod.fst
  let n ← choose
  writeEach t p .update (fun k => .del t k) (arrange n hits)

/-- INSERT of a row under a new key. -/
def insert (t : S.Tbl) (key : ℕ → S.Key t) (row : ℕ → S.Row t) : Prog S E ℕ :=
  .fresh t key fun n => .write (.add t (key n) (row n)) (.ret n)

/-- An entry of a unique index: wait for whoever is inserting or removing the
same key, then tell whether it is taken. -/
def claim (r : Res S) (taken : Store S → Bool) : Prog S E Bool := do
  lockRes r .update
  read taken

/-- The foreign-key check on a parent row. It stands before the INSERT it belongs
to: the new row is nobody else's to see before the commit. -/
def references (t : S.Tbl) (k : S.Key t) (e : E) : Prog S E Unit := do
  match ← read (·.get t k) with
  | none => throw e
  | some _ => lockRes (.row t k) .keyShare

end Prog

/-! ## Points of one transaction -/

namespace Pt

variable {σ σ' σ'' : Pt S}

/-- `σ'` is further on in the same transaction. -/
structure Later (σ σ' : Pt S) : Prop where
  start : σ'.start = σ.start
  now : σ'.now = σ.now
  committed : σ'.committed = σ.committed
  held : σ.held ⊆ σ'.held

theorem Later.refl (σ : Pt S) : σ.Later σ := ⟨rfl, rfl, rfl, List.Subset.refl _⟩

theorem Later.trans (h : σ.Later σ') (h' : σ'.Later σ'') : σ.Later σ'' :=
  ⟨h'.1.trans h.1, h'.2.trans h.2, h'.3.trans h.3, List.Subset.trans h.4 h'.4⟩

theorem later_grant (σ : Pt S) (r : Res S) (m : Mode) : σ.Later (σ.grant r m) :=
  ⟨rfl, rfl, rfl, subset_acquire _ _ _⟩

theorem later_write (σ : Pt S) (w : Write S) : σ.Later (σ.write w) :=
  ⟨rfl, rfl, rfl, List.Subset.refl _⟩

theorem grant_of_holds {r : Res S} {m : Mode} (h : Holds σ.held r m) : σ.grant r m = σ := by
  simp only [grant, acquire_of_holds h]

/-- Several rows of one table, locked in order. -/
def grants (σ : Pt S) (t : S.Tbl) (m : Mode) (ks : List (S.Key t)) : Pt S :=
  ks.foldl (fun σ k => σ.grant (.row t k) m) σ

/-- Several pending writes more. -/
def writes (σ : Pt S) (ws : List (Write S)) : Pt S := ws.foldl write σ

variable (t : S.Tbl) (m : Mode) (k : S.Key t) (ks : List (S.Key t)) (w : Write S)
  (ws : List (Write S))

@[simp] theorem grants_nil : σ.grants t m [] = σ := rfl

@[simp] theorem grants_cons : σ.grants t m (k :: ks) = (σ.grant (.row t k) m).grants t m ks := rfl

@[simp] theorem writes_nil : σ.writes [] = σ := rfl

@[simp] theorem writes_cons : σ.writes (w :: ws) = (σ.write w).writes ws := rfl


theorem later_grants (σ : Pt S) : σ.Later (σ.grants t m ks) := by
  induction ks generalizing σ with
  | nil => exact .refl σ
  | cons k ks ih => exact (σ.later_grant _ _).trans (ih _)

theorem later_writes (σ : Pt S) : σ.Later (σ.writes ws) := by
  induction ws generalizing σ with
  | nil => exact .refl σ
  | cons w ws ih => exact (σ.later_write w).trans (ih _)

@[simp] theorem writes_start : (σ.writes ws).start = σ.start := (later_writes ws σ).start
@[simp] theorem writes_now : (σ.writes ws).now = σ.now := (later_writes ws σ).now
@[simp] theorem writes_committed : (σ.writes ws).committed = σ.committed :=
  (later_writes ws σ).committed

@[simp] theorem writes_db (σ : Pt S) : (σ.writes ws).db = overlay ws σ.db := by
  induction ws generalizing σ with
  | nil => rfl
  | cons w ws ih => exact ih _

@[simp] theorem writes_held (σ : Pt S) : (σ.writes ws).held = σ.held := by
  induction ws generalizing σ with
  | nil => rfl
  | cons w ws ih => exact ih _

@[simp] theorem writes_ws (σ : Pt S) : (σ.writes ws).ws = σ.ws ++ ws := by
  induction ws generalizing σ with
  | nil => exact (List.append_nil _).symm
  | cons w ws ih => exact (ih _).trans (List.append_assoc _ _ _)

@[simp] theorem grants_start : (σ.grants t m ks).start = σ.start := (later_grants t m ks σ).start
@[simp] theorem grants_now : (σ.grants t m ks).now = σ.now := (later_grants t m ks σ).now
@[simp] theorem grants_committed : (σ.grants t m ks).committed = σ.committed :=
  (later_grants t m ks σ).committed

@[simp] theorem grants_ws (σ : Pt S) : (σ.grants t m ks).ws = σ.ws := by
  induction ks generalizing σ with
  | nil => rfl
  | cons k ks ih => exact ih _

@[simp] theorem grants_db (σ : Pt S) : (σ.grants t m ks).db = σ.db := by
  induction ks generalizing σ with
  | nil => rfl
  | cons k ks ih => exact ih _

theorem grants_write (σ : Pt S) : (σ.write w).grants t m ks = (σ.grants t m ks).write w := by
  induction ks generalizing σ with
  | nil => rfl
  | cons k ks ih => exact ih (σ.grant _ _)

theorem holds_grants {t : S.Tbl} {m : Mode} {k : S.Key t} {ks : List (S.Key t)} (h : k ∈ ks)
    (σ : Pt S) : Holds (σ.grants t m ks).held (.row t k) m := by
  induction ks generalizing σ with
  | nil => cases h
  | cons k' ks ih =>
    rcases List.mem_cons.1 h with rfl | h
    · exact (holds_acquire σ.held _ _).mono (later_grants t m ks (σ.grant (.row t k) m)).held
    · exact ih h _

theorem mem_grants {t : S.Tbl} {m : Mode} {ks : List (S.Key t)} {x : Res S × Mode}
    (h : x ∈ (σ.grants t m ks).held) : x ∈ σ.held ∨ ∃ k ∈ ks, x = (.row t k, m) := by
  induction ks generalizing σ with
  | nil => exact .inl h
  | cons k ks ih =>
    rcases ih (σ := σ.grant _ _) h with h | ⟨k', hk, rfl⟩
    · rcases mem_acquire h with rfl | h
      · exact .inr ⟨k, List.mem_cons_self, rfl⟩
      · exact .inl h
    · exact .inr ⟨k', List.mem_cons_of_mem _ hk, rfl⟩

end Pt

/-! ## What statements find -/

@[simp] theorem filter_true (o : Option α) : o.filter (fun _ => true) = o := by
  cases o <;> rfl

section found
variable {d d' : Store S} {t : S.Tbl} {p : S.Key t → S.Row t → Bool} {k : S.Key t} {r : S.Row t}
  {ks : List (S.Key t)}

theorem arrange_perm (n : ℕ) (l : List α) : (arrange n l).Perm l := by
  unfold arrange
  rw [List.getD_eq_getElem?_getD]
  cases h : l.permutations'[n]? with
  | none => exact .refl l
  | some l' => exact List.mem_permutations'.1 (List.mem_of_getElem? h)

theorem mem_found : (k, r) ∈ d.found t p ks ↔ k ∈ ks ∧ d.get t k = some r ∧ p k r = true := by
  simp only [found, List.mem_filterMap, Option.map_eq_some_iff, Option.filter_eq_some_iff,
    Prod.mk.injEq]
  constructor
  · rintro ⟨k', hk, r', ⟨hg, hp⟩, rfl, rfl⟩; exact ⟨hk, hg, hp⟩
  · rintro ⟨hk, hg, hp⟩; exact ⟨k, hk, r, ⟨hg, hp⟩, rfl, rfl⟩

@[simp] theorem found_nil : d.found t p [] = [] := rfl

theorem found_cons_none (h : (d.get t k).filter (p k) = none) :
    d.found t p (k :: ks) = d.found t p ks := by
  simp [found, h]

theorem found_cons_some (h : (d.get t k).filter (p k) = some r) :
    d.found t p (k :: ks) = (k, r) :: d.found t p ks := by
  simp [found, h]

theorem found_keys_sublist (d : Store S) (t : S.Tbl) (p : S.Key t → S.Row t → Bool)
    (ks : List (S.Key t)) : ((d.found t p ks).map Prod.fst).Sublist ks := by
  induction ks with
  | nil => exact .slnil
  | cons k ks ih =>
    cases h : (d.get t k).filter (p k) with
    | none => rw [found_cons_none h]; exact ih.cons _
    | some r => rw [found_cons_some h]; exact ih.cons_cons _

theorem found_congr (h : ∀ k ∈ ks, d.get t k = d'.get t k) : d.found t p ks = d'.found t p ks := by
  unfold found
  exact List.filterMap_congr fun k hk => by rw [h k hk]

end found

/-! ## Rules -/

section rules
variable {D : Discipline S} {O : Oblig S E} {X : E → Pt S → Prop} {σ : Pt S}

theorem wp_read {Q : α → Pt S → Prop} {q : Store S → α}
    (h : ∀ v, D.rel [] σ.start v → D.rel σ.held v σ.db → Q (q v) σ) :
    wp D O Q X (Prog.read q) σ := fun v hs hv _ => h v hs hv

/-- The snapshot of a read, as the runs at hand leave it. -/
theorem wp_snapshot {Q : α → Pt S → Prop} {q : Store S → α}
    (h : ∀ v₀, D.rel [] σ.start (overlay σ.ws v₀) → D.rel σ.held (overlay σ.ws v₀) σ.db →
      D.more.rel σ.held v₀ σ.now → Q (q (overlay σ.ws v₀)) σ) :
    wp D O Q X (Prog.read q) σ := by
  rintro v hs hv ⟨v₀, rfl, hm⟩
  exact h v₀ hs hv hm

theorem wp_lockRes {Q : Unit → Pt S → Prop} {r : Res S} {m : Mode}
    (hl : ¬ Holds σ.held r m → O.lock σ r m) (h : Q () (σ.grant r m)) :
    wp D O Q X (Prog.lockRes r m) σ := ⟨hl, h⟩

theorem wp_put {Q : Unit → Pt S → Prop} {w : Write S} (hw : O.write σ w) (h : Q () (σ.write w)) :
    wp D O Q X (Prog.put w) σ := ⟨hw, h⟩

theorem wp_choose {Q : ℕ → Pt S → Prop} (h : ∀ n, Q n σ) : wp D O Q X Prog.choose σ := h

theorem wp_insert {Q : ℕ → Pt S → Prop} {t : S.Tbl} {key : ℕ → S.Key t} {row : ℕ → S.Row t}
    (h : ∀ n, σ.now.get t (key n) = none → σ.db.get t (key n) = none →
      (∀ m, (.row t (key n), m) ∉ σ.held) →
      O.write (σ.grant (.row t (key n)) .noKeyUpdate) (.add t (key n) (row n)) ∧
      Q n ((σ.grant (.row t (key n)) .noKeyUpdate).write (.add t (key n) (row n)))) :
    wp D O Q X (Prog.insert t key row) σ := h

/-- A claim, with what the runs at hand leave of its snapshot. -/
theorem wp_claim_snapshot {Q : Bool → Pt S → Prop} {r : Res S} {taken : Store S → Bool}
    (hl : ¬ Holds σ.held r .update → O.lock σ r .update)
    (h : ∀ v₀, D.rel [] σ.start (overlay σ.ws v₀) → D.rel (acquire σ.held r .update)
      (overlay σ.ws v₀) σ.db →
      D.more.rel (acquire σ.held r .update) v₀ σ.now → Q (taken (overlay σ.ws v₀))
      (σ.grant r .update)) :
    wp D O Q X (Prog.claim r taken) σ := by
  unfold Prog.claim
  rw [wp_bind]
  exact wp_lockRes hl (wp_snapshot h)

theorem wp_claim {Q : Bool → Pt S → Prop} {r : Res S} {taken : Store S → Bool}
    (hl : ¬ Holds σ.held r .update → O.lock σ r .update)
    (h : ∀ v, D.rel [] σ.start v → D.rel (acquire σ.held r .update) v σ.db →
      Q (taken v) (σ.grant r .update)) :
    wp D O Q X (Prog.claim r taken) σ :=
  wp_claim_snapshot hl fun _ hs hv _ => h _ hs hv

variable {t : S.Tbl} {m : Mode} {f : S.Row t → S.Row t}

theorem wp_references {Q : Unit → Pt S → Prop} {k : S.Key t} {e : E}
    (hl : ¬ Holds σ.held (.row t k) .keyShare → O.lock σ (.row t k) .keyShare)
    (h : Q () (σ.grant (.row t k) .keyShare)) (hx : X e σ) :
    wp D O Q X (Prog.references t k e) σ := by
  unfold Prog.references
  rw [wp_bind]
  refine wp_read fun v _ _ => ?_
  split
  · exact hx
  · exact ⟨hl, h⟩

/-- What is read of a locked row is what it is at the end. -/
theorem wp_read_locked {Q : Option (S.Row t) → Pt S → Prop} {k : S.Key t}
    (hh : Holds σ.held (.row t k) .share) (h : Q (σ.db.get t k) σ) :
    wp D O Q X (Prog.read (·.get t k)) σ := by
  refine wp_read fun v _ hv => ?_
  rw [D.same hv t k hh]
  exact h

theorem wp_recheck {Q : Option (S.Row t) → Pt S → Prop} {k : S.Key t} {p : S.Row t → Bool}
    (hm : 1 ≤ m.level) (hl : ¬ Holds σ.held (.row t k) m → O.lock σ (.row t k) m)
    (h : Q ((σ.db.get t k).filter p) (σ.grant (.row t k) m)) :
    wp D O Q X (Prog.recheck t k p m) σ := by
  unfold Prog.recheck
  rw [wp_bind]
  refine wp_lockRes hl ?_
  rw [wp_bind]
  exact wp_read_locked ((holds_acquire _ _ _).weaken hm) h

/-- SELECT … FOR, with what the runs at hand leave of its snapshot. -/
theorem wp_selectFor_snapshot {Q : Option (S.Row t) → Pt S → Prop} {k : S.Key t}
    {p : S.Row t → Bool}
    (hm : 1 ≤ m.level)
    (hl : ∀ v r, D.rel [] σ.start v → D.rel σ.held v σ.db → v.get t k = some r → p r = true →
      ¬ Holds σ.held (.row t k) m → O.lock σ (.row t k) m)
    (hn : ∀ v₀, D.rel [] σ.start (overlay σ.ws v₀) → D.rel σ.held (overlay σ.ws v₀) σ.db →
      D.more.rel σ.held v₀ σ.now →
      ((overlay σ.ws v₀).get t k).filter p = none → Q none σ)
    (h : Q ((σ.db.get t k).filter p) (σ.grant (.row t k) m)) :
    wp D O Q X (Prog.selectFor t k p m) σ := by
  unfold Prog.selectFor
  rw [wp_bind]
  refine wp_snapshot fun v₀ hs hv hk => ?_
  cases hf : ((overlay σ.ws v₀).get t k).filter p with
  | none => exact hn v₀ hs hv hk hf
  | some r =>
    obtain ⟨hg, hp⟩ := Option.filter_eq_some_iff.1 hf
    exact wp_recheck hm (hl _ r hs hv hg hp) h

theorem wp_selectFor {Q : Option (S.Row t) → Pt S → Prop} {k : S.Key t} {p : S.Row t → Bool}
    (hm : 1 ≤ m.level)
    (hl : ∀ v r, D.rel [] σ.start v → D.rel σ.held v σ.db → v.get t k = some r → p r = true →
      ¬ Holds σ.held (.row t k) m → O.lock σ (.row t k) m)
    (hn : ∀ v, D.rel [] σ.start v → D.rel σ.held v σ.db → (v.get t k).filter p = none → Q none σ)
    (h : Q ((σ.db.get t k).filter p) (σ.grant (.row t k) m)) :
    wp D O Q X (Prog.selectFor t k p m) σ :=
  wp_selectFor_snapshot hm hl (fun _ hs hv _ hf => hn _ hs hv hf) h

/-- SELECT … FOR of a row that is locked already. -/
theorem wp_selectFor_held {Q : Option (S.Row t) → Pt S → Prop} {k : S.Key t} {p : S.Row t → Bool}
    (hm : 1 ≤ m.level) (hh : Holds σ.held (.row t k) m) (h : Q ((σ.db.get t k).filter p) σ) :
    wp D O Q X (Prog.selectFor t k p m) σ := by
  refine wp_selectFor hm (fun _ _ _ _ _ _ hn => absurd hh hn) (fun v _ hv hf => ?_) ?_
  · rw [D.same hv t k (hh.weaken hm)] at hf
    rwa [hf] at h
  · rwa [Pt.grant_of_holds hh]

/-- UPDATE of one row, with what the runs at hand leave of its snapshot. -/
theorem wp_updateRow_snapshot {Q : Option (S.Row t) → Pt S → Prop} {k : S.Key t}
    {p : S.Row t → Bool}
    (hl : ∀ v r, D.rel [] σ.start v → D.rel σ.held v σ.db → v.get t k = some r → p r = true →
      ¬ Holds σ.held (.row t k) .noKeyUpdate → O.lock σ (.row t k) .noKeyUpdate)
    (hn : ∀ v₀, D.rel [] σ.start (overlay σ.ws v₀) → D.rel σ.held (overlay σ.ws v₀) σ.db →
      D.more.rel σ.held v₀ σ.now →
      ((overlay σ.ws v₀).get t k).filter p = none → Q none σ)
    (hn' : (σ.db.get t k).filter p = none → Q none (σ.grant (.row t k) .noKeyUpdate))
    (h : ∀ r, σ.db.get t k = some r → p r = true →
      O.write (σ.grant (.row t k) .noKeyUpdate) (.mod t k (onlyIf p f)) ∧
      Q (some (f r)) ((σ.grant (.row t k) .noKeyUpdate).write (.mod t k (onlyIf p f)))) :
    wp D O Q X (Prog.updateRow t k p f) σ := by
  unfold Prog.updateRow
  rw [wp_bind]
  refine wp_selectFor_snapshot (by decide) hl hn ?_
  cases hf : (σ.db.get t k).filter p with
  | none => exact hn' hf
  | some r =>
    obtain ⟨hg, hp⟩ := Option.filter_eq_some_iff.1 hf
    exact h r hg hp

theorem wp_updateRow {Q : Option (S.Row t) → Pt S → Prop} {k : S.Key t} {p : S.Row t → Bool}
    (hl : ∀ v r, D.rel [] σ.start v → D.rel σ.held v σ.db → v.get t k = some r → p r = true →
      ¬ Holds σ.held (.row t k) .noKeyUpdate → O.lock σ (.row t k) .noKeyUpdate)
    (hn : ∀ v, D.rel [] σ.start v → D.rel σ.held v σ.db → (v.get t k).filter p = none → Q none σ)
    (hn' : (σ.db.get t k).filter p = none → Q none (σ.grant (.row t k) .noKeyUpdate))
    (h : ∀ r, σ.db.get t k = some r → p r = true →
      O.write (σ.grant (.row t k) .noKeyUpdate) (.mod t k (onlyIf p f)) ∧
      Q (some (f r)) ((σ.grant (.row t k) .noKeyUpdate).write (.mod t k (onlyIf p f)))) :
    wp D O Q X (Prog.updateRow t k p f) σ :=
  wp_updateRow_snapshot hl (fun _ hs hv _ hf => hn _ hs hv hf) hn' h

/-- UPDATE of a row that is locked already. -/
theorem wp_updateRow_held {Q : Option (S.Row t) → Pt S → Prop} {k : S.Key t} {p : S.Row t → Bool}
    (hh : Holds σ.held (.row t k) .noKeyUpdate)
    (hn : (σ.db.get t k).filter p = none → Q none σ)
    (h : ∀ r, σ.db.get t k = some r → p r = true →
      O.write σ (.mod t k (onlyIf p f)) ∧ Q (some (f r)) (σ.write (.mod t k (onlyIf p f)))) :
    wp D O Q X (Prog.updateRow t k p f) σ := by
  refine wp_updateRow (fun _ _ _ _ _ _ hne => absurd hh hne) (fun v _ hv hf => hn ?_) ?_ ?_
  · rwa [D.same hv t k (hh.weaken (by decide))] at hf
  · rwa [Pt.grant_of_holds hh]
  · rwa [Pt.grant_of_holds hh]

variable {Q : List (S.Key t × S.Row t) → Pt S → Prop} {p : S.Key t → S.Row t → Bool}

theorem wp_lockEach (hm : 1 ≤ m.level) {ks : List (S.Key t)} :
    ∀ {σ : Pt S} {Q : List (S.Key t × S.Row t) → Pt S → Prop},
    (∀ done k rest, ks = done ++ k :: rest → ¬ Holds (σ.grants t m done).held (.row t k) m →
      O.lock (σ.grants t m done) (.row t k) m) →
    Q (σ.db.found t p ks) (σ.grants t m ks) → wp D O Q X (Prog.lockEach t p m ks) σ := by
  induction ks with
  | nil => exact fun _ h => h
  | cons k ks ih =>
    intro σ Q hl h
    unfold Prog.lockEach
    rw [wp_bind]
    refine wp_recheck hm (hl [] k ks rfl) ?_
    rw [wp_bind]
    refine ih (fun done k' rest he => hl (k :: done) k' rest (by rw [he]; rfl)) ?_
    cases hf : (σ.db.get t k).filter (p k) with
    | none => rw [found_cons_none hf] at h; exact h
    | some r => rw [found_cons_some hf] at h; exact h

theorem wp_selectAllFor (hm : 1 ≤ m.level) {le : S.Key t × S.Row t → S.Key t × S.Row t → Bool}
    (h : ∀ v, D.rel [] σ.start v → D.rel σ.held v σ.db →
      ∀ ks, ks = ((v.sel t p).insertionSort (le · ·)).map Prod.fst →
      (∀ done k rest, ks = done ++ k :: rest → ¬ Holds (σ.grants t m done).held (.row t k) m →
        O.lock (σ.grants t m done) (.row t k) m) ∧
      Q (σ.db.found t p ks) (σ.grants t m ks)) :
    wp D O Q X (Prog.selectAllFor t p le m) σ := by
  unfold Prog.selectAllFor
  rw [wp_bind]
  refine wp_read fun v hs hv => ?_
  exact wp_lockEach hm (h v hs hv _ rfl).1 (h v hs hv _ rfl).2

/-- Rows written one by one: distinct rows do not disturb each other. -/
theorem wp_writeEach (hm : 1 ≤ m.level) {w : S.Key t → Write S} (hr : ∀ k, (w k).res = .row t k)
    {ks : List (S.Key t)} (hd : ks.Nodup) :
    ∀ {σ : Pt S} {Q : List (S.Key t × S.Row t) → Pt S → Prop},
    (∀ done k rest σ', ks = done ++ k :: rest → σ'.held = (σ.grants t m done).held →
      σ.Later σ' → ¬ Holds σ'.held (.row t k) m → O.lock σ' (.row t k) m) →
    (∀ k r σ', k ∈ ks → σ.Later σ' → Holds σ'.held (.row t k) m → σ.db.get t k = some r →
      p k r = true → O.write σ' (w k)) →
    Q (σ.db.found t p ks) ((σ.grants t m ks).writes ((σ.db.found t p ks).map fun e => w e.1)) →
    wp D O Q X (Prog.writeEach t p m w ks) σ := by
  induction ks with
  | nil => exact fun _ _ h => h
  | cons k ks ih =>
    intro σ Q hl hw h
    obtain ⟨hk, hd⟩ := List.nodup_cons.1 hd
    unfold Prog.writeEach
    rw [wp_bind]
    refine wp_recheck hm (hl [] k ks σ rfl rfl (.refl σ)) ?_
    cases hf : (σ.db.get t k).filter (p k) with
    | none =>
      rw [found_cons_none hf] at h
      refine ih hd (fun done k' rest σ' he hh hs => ?_) (fun k' r σ' hk' hs => ?_) h
      · exact hl (k :: done) k' rest σ' (by rw [he]; rfl) hh ((σ.later_grant _ _).trans hs)
      · exact hw k' r σ' (List.mem_cons_of_mem _ hk') ((σ.later_grant _ _).trans hs)
    | some r =>
      obtain ⟨hg, hp⟩ := Option.filter_eq_some_iff.1 hf
      rw [found_cons_some hf] at h
      have hl1 : σ.Later ((σ.grant (.row t k) m).write (w k)) :=
        (σ.later_grant _ _).trans (Pt.later_write _ _)
      -- the rows still to come have other keys
      have hsame : ∀ k' ∈ ks, ((σ.grant (.row t k) m).write (w k)).db.get t k' = σ.db.get t k' := by
        intro k' hk'
        refine get_apply_ne _ fun he => ?_
        rw [hr] at he
        cases he
        exact hk hk'
      have hfound : ((σ.grant (.row t k) m).write (w k)).db.found t p ks = σ.db.found t p ks :=
        found_congr hsame
      simp only [wp_bind]
      refine wp_put (hw k r _ List.mem_cons_self (σ.later_grant _ _) (holds_acquire _ _ _) hg hp) ?_
      rw [wp_bind]
      refine ih hd (fun done k' rest σ' he hh hs => ?_) (fun k' r' σ' hk' hs hh hg' hp' => ?_) ?_
      · refine hl (k :: done) k' rest σ' (by rw [he]; rfl) ?_ (hl1.trans hs)
        rw [hh, Pt.grants_write]
        rfl
      · exact hw k' r' σ' (List.mem_cons_of_mem _ hk') (hl1.trans hs) hh (hsame k' hk' ▸ hg') hp'
      · rw [hfound, Pt.grants_write]
        exact h

theorem wp_updateAll
    (h : ∀ v, D.rel [] σ.start v → D.rel σ.held v σ.db →
      ∀ ks, ks.Perm ((v.sel t p).map Prod.fst) →
      (∀ done k rest σ', ks = done ++ k :: rest → σ'.held = (σ.grants t .noKeyUpdate done).held →
        σ.Later σ' → ¬ Holds σ'.held (.row t k) .noKeyUpdate → O.lock σ' (.row t k) .noKeyUpdate) ∧
      (∀ k r σ', k ∈ ks → σ.Later σ' → Holds σ'.held (.row t k) .noKeyUpdate →
        σ.db.get t k = some r → p k r = true → O.write σ' (.mod t k (onlyIf (p k) f))) ∧
      Q (σ.db.found t p ks) ((σ.grants t .noKeyUpdate ks).writes
        ((σ.db.found t p ks).map fun e => .mod t e.1 (onlyIf (p e.1) f)))) :
    wp D O Q X (Prog.updateAll t p f) σ := by
  unfold Prog.updateAll
  rw [wp_bind]
  refine wp_read fun v hs hv => ?_
  rw [wp_bind]
  refine wp_choose fun n => ?_
  have hp := arrange_perm n ((v.sel t p).map Prod.fst)
  obtain ⟨h1, h2, h3⟩ := h v hs hv _ hp
  exact wp_writeEach (by decide) (fun _ => rfl) (hp.nodup_iff.2 (sel_keys_nodup v t p)) h1 h2 h3

theorem wp_deleteAll
    (h : ∀ v₀, D.rel [] σ.start (overlay σ.ws v₀) → D.rel σ.held (overlay σ.ws v₀) σ.db →
      D.more.rel σ.held v₀ σ.now →
      ∀ ks, ks.Perm (((overlay σ.ws v₀).sel t p).map Prod.fst) →
      (∀ done k rest σ', ks = done ++ k :: rest → σ'.held = (σ.grants t .update done).held →
        σ.Later σ' → ¬ Holds σ'.held (.row t k) .update → O.lock σ' (.row t k) .update) ∧
      (∀ k r σ', k ∈ ks → σ.Later σ' → Holds σ'.held (.row t k) .update →
        σ.db.get t k = some r → p k r = true → O.write σ' (.del t k)) ∧
      Q (σ.db.found t p ks) ((σ.grants t .update ks).writes
        ((σ.db.found t p ks).map fun e => .del t e.1))) :
    wp D O Q X (Prog.deleteAll t p) σ := by
  unfold Prog.deleteAll
  rw [wp_bind]
  refine wp_snapshot fun v₀ hs hv hm => ?_
  rw [wp_bind]
  refine wp_choose fun n => ?_
  have hp := arrange_perm n (((overlay σ.ws v₀).sel t p).map Prod.fst)
  obtain ⟨h1, h2, h3⟩ := h v₀ hs hv hm _ hp
  exact wp_writeEach (by decide) (fun _ => rfl) (hp.nodup_iff.2 (sel_keys_nodup _ t p)) h1 h2 h3

end rules

end Txn
