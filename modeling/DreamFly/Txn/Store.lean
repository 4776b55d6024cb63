import DreamFly.Txn.Table
import DreamFly.Txn.Lock
import Mathlib.Logic.Function.Basic

/-!
# Relational stores

A schema names tables, their keys and rows, and the unique keys rows contend
for; a store is one table for each name. Writes are row writes: a transaction's
pending changes are a list of them, laid over the committed store (`overlay`).
Locks are taken on rows and on unique keys (`Res`).
-/

namespace Txn

/-- Tables with their key and row types, and the unique keys beside the primary
ones. -/
structure Schema where
  Tbl : Type
  Key : Tbl → Type
  Row : Tbl → Type
  Uniq : Type
  [decTbl : DecidableEq Tbl]
  [decKey : ∀ t, DecidableEq (Key t)]
  [decUniq : DecidableEq Uniq]

attribute [instance] Schema.decTbl Schema.decKey Schema.decUniq

variable {S : Schema}

/-- The contents of all tables. -/
abbrev Store (S : Schema) := (t : S.Tbl) → Table (S.Key t) (S.Row t)

/-- What locks are taken on: a row, or an entry of a unique index. -/
inductive Res (S : Schema)
  | row (t : S.Tbl) (k : S.Key t)
  | uniq (u : S.Uniq)

instance : DecidableEq (Res S)
  | .row t k, .row t' k' =>
    if h : t = t' then
      decidable_of_iff (h ▸ k = k') (by subst h; simp)
    else isFalse (by rintro ⟨⟩; exact h rfl)
  | .uniq u, .uniq u' => decidable_of_iff (u = u') (by simp)
  | .row _ _, .uniq _ => isFalse (by rintro ⟨⟩)
  | .uniq _, .row _ _ => isFalse (by rintro ⟨⟩)

/-- One row write: an INSERT, which never overwrites; the SET clause of an UPDATE,
which needs the row to be there; a DELETE. -/
inductive Write (S : Schema)
  | add (t : S.Tbl) (k : S.Key t) (r : S.Row t)
  | mod (t : S.Tbl) (k : S.Key t) (f : S.Row t → S.Row t)
  | del (t : S.Tbl) (k : S.Key t)

namespace Store

/-- Row `k` of table `t`. -/
def get (d : Store S) (t : S.Tbl) (k : S.Key t) : Option (S.Row t) :=
  (d t).lookup k

/-- The rows of table `t` that satisfy `p`, in scan order. -/
def sel (d : Store S) (t : S.Tbl) (p : S.Key t → S.Row t → Bool) : List (S.Key t × S.Row t) :=
  (d t).only p

/-- How many rows of table `t` satisfy `p`. -/
def count (d : Store S) (t : S.Tbl) (p : S.Key t → S.Row t → Bool) : ℕ :=
  (d t).count p

/-- The sum of `f` over the rows of table `t`. -/
def total (d : Store S) (t : S.Tbl) (f : S.Key t → S.Row t → ℤ) : ℤ :=
  (d t).total f

/-- What row `k` contributes to a sum over table `t`. -/
def share (d : Store S) (t : S.Tbl) (f : S.Key t → S.Row t → ℤ) (k : S.Key t) : ℤ :=
  (d t).share f k

variable {d d' : Store S} {t t' : S.Tbl} {k k' : S.Key t} {r : S.Row t}
  {f g : S.Key t → S.Row t → ℤ} {p : S.Key t → S.Row t → Bool}

theorem mem_sel : (k, r) ∈ d.sel t p ↔ d.get t k = some r ∧ p k r = true :=
  Table.mem_only

/-- What holds of every row in the table's list holds of every row. -/
theorem get_all {P : S.Key t → S.Row t → Prop} (h : ∀ e ∈ (d t).rows, P e.1 e.2)
    (hk : d.get t k = some r) : P k r :=
  h (k, r) (Table.mem_rows.2 hk)

theorem sel_nodup (d : Store S) (t : S.Tbl) (p : S.Key t → S.Row t → Bool) : (d.sel t p).Nodup :=
  Table.only_nodup p (d t)

theorem sel_keys_nodup (d : Store S) (t : S.Tbl) (p : S.Key t → S.Row t → Bool) :
    ((d.sel t p).map Prod.fst).Nodup :=
  Table.only_keys_nodup p (d t)

theorem sel_perm (h : ∀ k r, p k r = true → (d.get t k = some r ↔ d'.get t k = some r)) :
    (d.sel t p).Perm (d'.sel t p) :=
  Table.only_perm h

theorem count_eq_total (d : Store S) (t : S.Tbl) (p : S.Key t → S.Row t → Bool) :
    (d.count t p : ℤ) = d.total t fun k r => if p k r then 1 else 0 :=
  Table.count_eq_total p (d t)

theorem count_le {p' : S.Key t → S.Row t → Bool}
    (h : ∀ k r, d.get t k = some r → p k r = true → ∃ r', d'.get t k = some r' ∧ p' k r' = true) :
    d.count t p ≤ d'.count t p' :=
  Table.count_le h

/-- The rows that satisfy `p` and `q`, and those that satisfy only `p`. -/
theorem count_split (d : Store S) (t : S.Tbl) (p q : S.Key t → S.Row t → Bool) :
    d.count t p = d.count t (fun k r => p k r && q k r) + d.count t fun k r => p k r && !q k r := by
  have h : (d.count t p : ℤ) = d.count t (fun k r => p k r && q k r) + d.count t fun k r =>
      p k r && !q k r := by
    rw [count_eq_total, count_eq_total, count_eq_total]
    refine (Table.total_ext fun k r _ => ?_).trans (Table.total_add _ _ (d t))
    cases p k r <;> cases q k r <;> rfl
  exact_mod_cast h

/-- At most one row satisfies `p`, if two such rows are one. -/
theorem count_le_one (h : ∀ k k' r r', d.get t k = some r → d.get t k' = some r' → p k r = true →
    p k' r' = true → k = k') :
    d.count t p ≤ 1 := by
  have hkeys := d.sel_keys_nodup t p
  have hmem := fun k r => mem_sel (d := d) (t := t) (p := p) (k := k) (r := r)
  unfold count Table.count
  unfold sel at hkeys hmem
  match (d t).only p, hkeys, hmem with
  | [], _, _ => exact Nat.zero_le 1
  | [_], _, _ => exact le_rfl
  | (k, r) :: (k', r') :: l, hkeys, hmem =>
    obtain ⟨hk, hp⟩ := (hmem k r).1 (by simp)
    obtain ⟨hk', hp'⟩ := (hmem k' r').1 (by simp)
    have heq := h k k' r r' hk hk' hp hp'
    simp [heq] at hkeys

theorem total_nonneg (h : ∀ k r, d.get t k = some r → 0 ≤ f k r) : 0 ≤ d.total t f :=
  Table.total_nonneg h

theorem total_ext (h : ∀ k r, d.get t k = some r → f k r = g k r) : d.total t f = d.total t g :=
  Table.total_ext h

theorem total_eq_zero (h : ∀ k r, d.get t k = some r → f k r = 0) : d.total t f = 0 :=
  Table.total_eq_zero h

theorem total_add (d : Store S) (t : S.Tbl) (f g : S.Key t → S.Row t → ℤ) :
    (d.total t fun k r => f k r + g k r) = d.total t f + d.total t g :=
  Table.total_add f g (d t)

theorem total_eq_sum_sel (h : ∀ k r, p k r = false → f k r = 0) :
    d.total t f = ((d.sel t p).map fun e => f e.1 e.2).sum :=
  Table.total_eq_sum_only (d t) h

theorem total_congr (hf : ∀ k r, p k r = false → f k r = 0)
    (h : ∀ k r, p k r = true → (d.get t k = some r ↔ d'.get t k = some r)) :
    d.total t f = d'.total t f :=
  Table.total_congr hf h

end Store

/-- The resource a write needs locked. -/
def Write.res : Write S → Res S
  | .add t k _ => .row t k
  | .mod t k _ => .row t k
  | .del t k => .row t k

/-- The table a write changes. -/
def Write.tbl : Write S → S.Tbl
  | .add t _ _ => t
  | .mod t _ _ => t
  | .del t _ => t

/-- The SET clause of an UPDATE with a WHERE clause on the row. -/
def onlyIf {ρ : Type} (p : ρ → Bool) (f : ρ → ρ) (r : ρ) : ρ := if p r then f r else r

@[simp] theorem onlyIf_pos {ρ : Type} {p : ρ → Bool} {f : ρ → ρ} {r : ρ} (h : p r = true) :
    onlyIf p f r = f r :=
  if_pos h

/-- What holds of every row that is changed, and of a row left alone, holds. -/
theorem onlyIf_ind {ρ : Type} {p : ρ → Bool} {f : ρ → ρ} {P : ρ → ρ → Prop}
    (h : ∀ r, p r = true → P r (f r))
    (h0 : ∀ r, P r r) (r : ρ) : P r (onlyIf p f r) := by
  unfold onlyIf
  split
  · next hp => exact h r hp
  · exact h0 r

namespace Store

/-- What a write does to table `t'`. -/
def onTable (t' : S.Tbl) (tbl : Table (S.Key t') (S.Row t')) : Write S → Table (S.Key t') (S.Row t')
  | .add t k r => if h : t = t' then tbl.putNew (h ▸ k) (h ▸ r) else tbl
  | .mod t k f => if h : t = t' then tbl.modify (h ▸ k) (h ▸ f) else tbl
  | .del t k => if h : t = t' then tbl.erase (h ▸ k) else tbl

/-- The store after one row write. -/
def apply (d : Store S) (w : Write S) : Store S := fun t => onTable t (d t) w

/-- Pending writes laid over a store, oldest first. -/
def overlay (ws : List (Write S)) (d : Store S) : Store S :=
  ws.foldl apply d

@[simp] theorem overlay_nil (d : Store S) : overlay [] d = d := rfl

@[simp] theorem overlay_cons (w : Write S) (ws : List (Write S)) (d : Store S) :
    overlay (w :: ws) d = overlay ws (d.apply w) := rfl

theorem overlay_append (ws ws' : List (Write S)) (d : Store S) :
    overlay (ws ++ ws') d = overlay ws' (overlay ws d) :=
  List.foldl_append

variable {d : Store S} {t t' : S.Tbl} {k k' : S.Key t} {r r' : S.Row t}

/-- A write leaves the other tables alone. -/
theorem apply_other (d : Store S) {w : Write S} (h : t' ≠ w.tbl) : (d.apply w) t' = d t' := by
  cases w <;> exact dif_neg fun he => h he.symm

theorem apply_add (d : Store S) (t : S.Tbl) (k : S.Key t) (r : S.Row t) :
    d.apply (.add t k r) t = (d t).putNew k r :=
  dif_pos rfl

theorem apply_mod (d : Store S) (t : S.Tbl) (k : S.Key t) (f : S.Row t → S.Row t) :
    d.apply (.mod t k f) t = (d t).modify k f :=
  dif_pos rfl

theorem apply_del (d : Store S) (t : S.Tbl) (k : S.Key t) : d.apply (.del t k) t = (d t).erase k :=
  dif_pos rfl

/-- A write that leaves its own table alone changes nothing. -/
theorem apply_same {w : Write S} (h : d.apply w w.tbl = d w.tbl) : d.apply w = d := by
  funext t
  by_cases ht : t = w.tbl
  · subst ht; exact h
  · exact apply_other d ht

theorem apply_add_new (h : d.get t k = none) (r : S.Row t) :
    d.apply (.add t k r) t = (d t).insert k r := by
  rw [apply_add, Table.putNew, if_neg (by rw [show (d t).lookup k = none from h]; simp)]

theorem apply_add_taken (h : d.get t k = some r) (r' : S.Row t) : d.apply (.add t k r') = d :=
  apply_same (by rw [Write.tbl, apply_add, Table.putNew,
    if_pos (by rw [show (d t).lookup k = some r from h]; rfl)])

theorem apply_mod_some (h : d.get t k = some r) (f : S.Row t → S.Row t) :
    d.apply (.mod t k f) t = (d t).insert k (f r) := by
  rw [apply_mod, Table.modify, show (d t).lookup k = some r from h]

theorem apply_mod_none (h : d.get t k = none) (f : S.Row t → S.Row t) : d.apply (.mod t k f) = d :=
  apply_same (by rw [Write.tbl, apply_mod, Table.modify, show (d t).lookup k = none from h])

theorem apply_mod_congr {f g : S.Row t → S.Row t} (h : d.get t k = some r) (hfg : f r = g r) :
    d.apply (.mod t k f) = d.apply (.mod t k g) := by
  funext t'
  by_cases ht : t' = t
  · subst ht; rw [apply_mod_some h, apply_mod_some h, hfg]
  · rw [apply_other d ht, apply_other d ht]

section other
variable {w : Write S}

theorem get_apply_other (d : Store S) (h : t' ≠ w.tbl) (k : S.Key t') :
    (d.apply w).get t' k = d.get t' k := by
  unfold get; rw [apply_other d h]

theorem total_apply_other (d : Store S) (h : t' ≠ w.tbl) (f : S.Key t' → S.Row t' → ℤ) :
    (d.apply w).total t' f = d.total t' f := by
  unfold total; rw [apply_other d h]

theorem sel_apply_other (d : Store S) (h : t' ≠ w.tbl) (p : S.Key t' → S.Row t' → Bool) :
    (d.apply w).sel t' p = d.sel t' p := by
  unfold sel; rw [apply_other d h]

end other

theorem get_add (d : Store S) (t : S.Tbl) (k k' : S.Key t) (r : S.Row t) :
    (d.apply (.add t k r)).get t k' = if k' = k then some ((d.get t k).getD r) else d.get t k' := by
  cases h : d.get t k with
  | none =>
    unfold get
    rw [apply_add_new h]
    split
    · next hk => subst hk; exact AList.lookup_insert _
    · next hk => exact AList.lookup_insert_ne hk
  | some r' =>
    rw [apply_add_taken h]
    split
    · next hk => rw [hk, h]; rfl
    · rfl

theorem get_mod (d : Store S) (t : S.Tbl) (k k' : S.Key t) (f : S.Row t → S.Row t) :
    (d.apply (.mod t k f)).get t k' = if k' = k then (d.get t k).map f else d.get t k' := by
  cases h : d.get t k with
  | none =>
    rw [apply_mod_none h]
    split
    · next hk => rw [hk, h]; rfl
    · rfl
  | some r =>
    unfold get
    rw [apply_mod_some h]
    split
    · next hk => subst hk; exact AList.lookup_insert _
    · next hk => exact AList.lookup_insert_ne hk

theorem get_del (d : Store S) (t : S.Tbl) (k k' : S.Key t) :
    (d.apply (.del t k)).get t k' = if k' = k then none else d.get t k' := by
  unfold get
  rw [apply_del]
  split
  · next h => subst h; exact AList.lookup_erase _ _
  · next h => exact AList.lookup_erase_ne h

/-- A write changes only its own row. -/
theorem get_apply_ne (d : Store S) {w : Write S} (h : w.res ≠ .row t k) :
    (d.apply w).get t k = d.get t k := by
  by_cases ht : t = w.tbl
  · cases w with
    | add _ k' r =>
      cases ht
      exact (get_add d _ k' k r).trans (if_neg fun hk => h (by rw [hk]; rfl))
    | mod _ k' f =>
      cases ht
      exact (get_mod d _ k' k f).trans (if_neg fun hk => h (by rw [hk]; rfl))
    | del _ k' =>
      cases ht
      exact (get_del d _ k' k).trans (if_neg fun hk => h (by rw [hk]; rfl))
  · exact get_apply_other d ht k

/-- What a write leaves in its own row depends on that row alone. -/
theorem get_apply_res {a b : Store S} {w : Write S} (hw : w.res = .row t k)
    (h : a.get t k = b.get t k) : (a.apply w).get t k = (b.apply w).get t k := by
  cases w with
  | add t' k' r => cases hw; rw [get_add, get_add, h]
  | mod t' k' f => cases hw; rw [get_mod, get_mod, h]
  | del t' k' => cases hw; rw [get_del, get_del, if_pos rfl, if_pos rfl]

theorem total_add_new (h : d.get t k = none) (f : S.Key t → S.Row t → ℤ) (r : S.Row t) :
    (d.apply (.add t k r)).total t f = d.total t f + f k r := by
  unfold total
  rw [apply_add_new h, Table.total_insert, Table.share_none h, sub_zero]

/-- A new row, among the rows that satisfy `p`. -/
theorem sel_add_new {p : S.Key t → S.Row t → Bool} (h : d.get t k = none) (hp : p k r = true) :
    ((d.apply (.add t k r)).sel t p).Perm ((k, r) :: d.sel t p) := by
  have hnew : (k, r) ∉ d.sel t p := fun hm => by
    rw [mem_sel, h] at hm
    cases hm.1
  refine (List.perm_ext_iff_of_nodup (sel_nodup _ _ _)
    (List.nodup_cons.2 ⟨hnew, sel_nodup _ _ _⟩)).2 fun ⟨k', r'⟩ => ?_
  rw [mem_sel, List.mem_cons, mem_sel, get_add, h]
  by_cases hk : k' = k
  · subst hk
    rw [if_pos rfl, h]
    constructor
    · rintro ⟨hr, -⟩; cases hr; exact .inl rfl
    · rintro (he | ⟨hr, -⟩)
      · cases he; exact ⟨rfl, hp⟩
      · cases hr
  · rw [if_neg hk]
    constructor
    · exact .inr
    · rintro (he | hr)
      · cases he; exact absurd rfl hk
      · exact hr

/-- A new row that does not satisfy `p`. -/
theorem sel_add_skip {p : S.Key t → S.Row t → Bool} (h : d.get t k = none) (hp : p k r = false) :
    ((d.apply (.add t k r)).sel t p).Perm (d.sel t p) := by
  refine sel_perm fun k' r' hp' => ?_
  rw [get_add, h]
  by_cases hk : k' = k
  · subst hk
    rw [if_pos rfl, h]
    constructor
    · intro hr
      obtain rfl : r = r' := Option.some.inj hr
      rw [hp] at hp'
      cases hp'
    · intro hr
      cases hr
  · rw [if_neg hk]

theorem total_mod (h : d.get t k = some r) (f : S.Key t → S.Row t → ℤ) (g : S.Row t → S.Row t) :
    (d.apply (.mod t k g)).total t f = d.total t f - f k r + f k (g r) := by
  unfold total
  rw [apply_mod_some h, Table.total_insert, Table.share_some h]

end Store

end Txn
