import DreamFly.Txn.Track

/-!
# What a held lock freezes

A locking discipline says which locks a write needs beside the one on its own
row, and what cannot change for that reason while a transaction holds its locks.

* `Protect`: one such fact and the guard on writes that makes it true.
  `Protect.keywise` states it row by row; `appendOnly` (rows that are never
  changed again), `upward` (rows that change in one direction) and `noNew` (nobody
  else adds to what a locked owner has) are the usual cases, and `all` puts several
  together.
* `Protect.discipline`: the facts together with what row locks give in every
  table: a row locked against writers stays as it is.
-/

namespace Txn

open Store

variable {S : Schema} {L L' : Locks (Res S)} {a b : Store S} {w : Write S} {t : S.Tbl}

/-- Two stores agree on the rows that `L` locks against writers. -/
def SameLocked (L : Locks (Res S)) (a b : Store S) : Prop :=
  ∀ t k, Holds L (.row t k) .share → a.get t k = b.get t k

/-- A relation between an earlier and a later store that the other transactions
respect while `L` is held, because a guard is kept on everyone's writes. -/
structure Protect (S : Schema) extends Rely S where
  guard : Locks (Res S) → Write S → Prop
  guard_mono : ∀ {L L' w}, L ⊆ L' → guard L w → guard L' w
  env : ∀ {L L' w} d, Compat L L' → guard L' w → rel L d (d.apply w)
  own : ∀ {L w a b}, Holds L w.res .noKeyUpdate → guard L w → SameLocked L a b → rel L a b →
    rel L (a.apply w) (b.apply w)

/-- Locks each write needs, and what they freeze. `more` is what else the runs at
hand respect between two committed stores. -/
structure Discipline (S : Schema) extends Rely S where
  more : Rely S
  guard : Locks (Res S) → Write S → Prop
  guard_mono : ∀ {L L' w}, L ⊆ L' → guard L w → guard L' w
  env : ∀ {L L' w} d, Compat L L' → Holds L' w.res .noKeyUpdate → guard L' w → rel L d (d.apply w)
  own : ∀ {L w a b}, Holds L w.res .noKeyUpdate → guard L w → rel L a b →
    rel L (a.apply w) (b.apply w)
  same : ∀ {L a b}, rel L a b → SameLocked L a b

/-! ## Row locks -/

theorem sameLocked_env (d : Store S) (hc : Compat L L') (hw : Holds L' w.res .noKeyUpdate) :
    SameLocked L d (d.apply w) := by
  intro t k hk
  refine (get_apply_ne d fun hr => ?_).symm
  exact hc.not_holds hk (by decide) (hr ▸ hw)

theorem sameLocked_own (h : SameLocked L a b) : SameLocked L (a.apply w) (b.apply w) := by
  intro t k hk
  by_cases hr : w.res = .row t k
  · exact get_apply_res hr (h t k hk)
  · rw [get_apply_ne a hr, get_apply_ne b hr, h t k hk]

namespace Protect

/-- A fact stated row by row: `ρ L k x y` says that row `k` may go from `x` to `y`
while `L` is held. -/
def keywise (t : S.Tbl) (ρ : Locks (Res S) → S.Key t → Option (S.Row t) → Option (S.Row t) → Prop)
    (guard : Locks (Res S) → Write S → Prop)
    (refl : ∀ L k x, ρ L k x x)
    (trans : ∀ L k x y z, ρ L k x y → ρ L k y z → ρ L k x z)
    (anti : ∀ L L' k x y, L ⊆ L' → ρ L' k x y → ρ L k x y)
    (guard_mono : ∀ L L' w, L ⊆ L' → guard L w → guard L' w)
    (env : ∀ L L' w k, w.res = .row t k → Compat L L' → guard L' w → ∀ d : Store S,
      ρ L k (d.get t k) ((d.apply w).get t k)) : Protect S where
  rel L a b := ∀ k, ρ L k (a.get t k) (b.get t k)
  refl L d k := refl L k _
  trans h h' k := trans _ k _ _ _ (h k) (h' k)
  anti hs h k := anti _ _ k _ _ hs (h k)
  guard := guard
  guard_mono hs h := guard_mono _ _ _ hs h
  env {L L' w} d hc hg k := by
    by_cases hr : w.res = .row t k
    · exact env L L' w k hr hc hg d
    · rw [get_apply_ne d hr]; exact refl L k _
  own {L w a b} hw _ hs h k := by
    by_cases hr : w.res = .row t k
    · rw [get_apply_res hr (hs t k (hr ▸ hw.weaken (by decide)))]; exact refl L k _
    · rw [get_apply_ne a hr, get_apply_ne b hr]; exact h k

/-- Rows of `t` are added and never changed or removed. -/
def appendOnly (t : S.Tbl) : Protect S :=
  keywise t (fun _ _ x y => ∀ r, x = some r → y = some r)
    (fun _ w => w.tbl = t → ∃ k r, w = .add t k r)
    (fun _ _ _ _ h => h) (fun _ _ _ _ _ h h' r hr => h' r (h r hr)) (fun _ _ _ _ _ _ h => h)
    (fun _ _ _ _ h => h)
    (by
      intro L L' w k hr _ hg d r hk
      have ht : w.tbl = t := by cases w <;> cases hr <;> rfl
      obtain ⟨k', r', rfl⟩ := hg ht
      cases hr
      rw [get_add, if_pos rfl, hk]
      rfl)

/-- Rows of `t` are never removed. -/
def noDelete (t : S.Tbl) : Protect S :=
  keywise t (fun _ _ x y => x.isSome → y.isSome) (fun _ w => ∀ k, w ≠ .del t k)
    (fun _ _ _ h => h) (fun _ _ _ _ _ h h' hx => h' (h hx)) (fun _ _ _ _ _ _ h => h)
    (fun _ _ _ _ h => h)
    (by
      intro L L' w k hr _ hg d hk
      cases w with
      | add t' k' r => cases hr; rw [get_add, if_pos rfl]; rfl
      | mod t' k' f => cases hr; rw [get_mod, if_pos rfl, Option.isSome_map]; exact hk
      | del t' k' => cases hr; exact absurd rfl (hg k))

/-- Rows of `t` are never removed, and an UPDATE only takes them up along `le`. -/
def upward (t : S.Tbl) (le : S.Row t → S.Row t → Prop) (refl : ∀ r, le r r)
    (trans : ∀ r r' r'', le r r' → le r' r'' → le r r'') : Protect S :=
  keywise t (fun _ _ x y => ∀ r, x = some r → ∃ r', y = some r' ∧ le r r')
    (fun _ w => (∀ k, w ≠ .del t k) ∧ ∀ k f, w = .mod t k f → ∀ r, le r (f r))
    (fun _ _ _ r h => ⟨r, h, refl r⟩)
    (fun _ _ _ _ _ h h' r hr => by
      obtain ⟨r', hr', hc⟩ := h r hr
      obtain ⟨r'', hr'', hc'⟩ := h' r' hr'
      exact ⟨r'', hr'', trans r r' r'' hc hc'⟩)
    (fun _ _ _ _ _ _ h => h) (fun _ _ _ _ h => h)
    (by
      intro L L' w k hr _ hg d r hk
      cases w with
      | add t' k' r' => cases hr; rw [get_add, if_pos rfl, hk]; exact ⟨r, rfl, refl r⟩
      | mod t' k' f => cases hr; rw [get_mod, if_pos rfl, hk]; exact ⟨f r, rfl, hg.2 k f rfl r⟩
      | del t' k' => cases hr; exact absurd rfl (hg.1 k))

/-- A column of `t` that no UPDATE touches, in rows that are never removed. -/
def fixed {β : Type} (t : S.Tbl) (col : S.Row t → β) : Protect S :=
  upward t (fun r r' => col r' = col r) (fun _ => rfl) fun _ _ _ h h' => h'.trans h

/-- While `r i` is held in mode `m`, nobody else makes a row of `t` satisfy `p i`:
to do that takes `r i` in the conflicting mode `m'`. -/
def noNew {ι : Type} (t : S.Tbl) (p : ι → S.Key t → S.Row t → Prop) (r : ι → Res S) (m m' : Mode)
    (hm : m.conflicts m' = true) : Protect S :=
  keywise t (fun L k x y => ∀ i, Holds L (r i) m → ∀ row, y = some row → p i k row →
      ∃ row', x = some row' ∧ p i k row')
    (fun L w => (∀ k row, w = .add t k row → ∀ i, p i k row → Holds L (r i) m') ∧
      ∀ k f, w = .mod t k f → ∀ i row, p i k (f row) → p i k row ∨ Holds L (r i) m')
    (fun _ _ _ _ _ row h hp => ⟨row, h, hp⟩)
    (fun _ _ _ _ _ h h' i hi row hr hp => by
      obtain ⟨row', hr', hp'⟩ := h' i hi row hr hp
      exact h i hi row' hr' hp')
    (fun _ _ _ _ _ hs h i hi => h i (hi.mono hs))
    (fun _ _ _ hs h => ⟨fun k row hw i hp => (h.1 k row hw i hp).mono hs,
      fun k f hw i row hp => (h.2 k f hw i row hp).imp id (·.mono hs)⟩)
    (by
      intro L L' w k hr hc hg d i hi row hy hp
      cases w with
      | add t' k' row' =>
        cases hr
        rw [get_add, if_pos rfl] at hy
        cases hd : d.get t k with
        | none =>
          rw [hd] at hy
          cases hy
          exact absurd (hg.1 k row' rfl i hp) (hc.not_holds hi hm)
        | some row₀ => rw [hd] at hy; cases hy; exact ⟨row₀, rfl, hp⟩
      | mod t' k' f =>
        cases hr
        rw [get_mod, if_pos rfl] at hy
        obtain ⟨row₀, hd, rfl⟩ := Option.map_eq_some_iff.1 hy
        rcases hg.2 k f rfl i row₀ hp with hp' | hh
        · exact ⟨row₀, hd, hp'⟩
        · exact absurd hh (hc.not_holds hi hm)
      | del t' k' =>
        cases hr
        rw [get_del, if_pos rfl] at hy
        cases hy)

/-- Rows of `t` are neither added nor removed. -/
def closed (t : S.Tbl) : Protect S :=
  keywise t (fun _ _ x y => x.isSome = y.isSome) (fun _ w => w.tbl = t → ∃ k f, w = .mod t k f)
    (fun _ _ _ => rfl) (fun _ _ _ _ _ h h' => h.trans h') (fun _ _ _ _ _ _ h => h)
    (fun _ _ _ _ h => h)
    (by
      intro L L' w k hr _ hg d
      have ht : w.tbl = t := by cases w <;> cases hr <;> rfl
      obtain ⟨k', f, rfl⟩ := hg ht
      cases hr
      rw [get_mod, if_pos rfl, Option.isSome_map])

theorem appendOnly_guard (hm : ∀ k f, w ≠ .mod t k f) (hd : ∀ k, w ≠ .del t k) :
    (appendOnly t).guard L w := by
  intro ht
  cases w with
  | add t' k r => cases ht; exact ⟨k, r, rfl⟩
  | mod t' k f => cases ht; exact absurd rfl (hm k f)
  | del t' k => cases ht; exact absurd rfl (hd k)

theorem closed_guard (ha : ∀ k r, w ≠ .add t k r) (hd : ∀ k, w ≠ .del t k) :
    (closed t).guard L w := by
  intro ht
  cases w with
  | add t' k r => cases ht; exact absurd rfl (ha k r)
  | mod t' k f => cases ht; exact ⟨k, f, rfl⟩
  | del t' k => cases ht; exact absurd rfl (hd k)

/-- Several facts at once. -/
def all (Ps : List (Protect S)) : Protect S where
  rel L a b := ∀ P ∈ Ps, P.rel L a b
  refl L d P _ := P.refl L d
  trans h h' P hP := P.trans (h P hP) (h' P hP)
  anti hs h P hP := P.anti hs (h P hP)
  guard L w := ∀ P ∈ Ps, P.guard L w
  guard_mono hs h P hP := P.guard_mono hs (h P hP)
  env d hc hg P hP := P.env d hc (hg P hP)
  own hw hg hs h P hP := P.own hw (hg P hP) hs (h P hP)

/-- The discipline of row locks and the facts of `P`. -/
def discipline (P : Protect S) : Discipline S where
  more := .free S
  rel L a b := SameLocked L a b ∧ P.rel L a b
  refl L d := ⟨fun _ _ _ => rfl, P.refl L d⟩
  trans h h' := ⟨fun t k hk => (h.1 t k hk).trans (h'.1 t k hk), P.trans h.2 h'.2⟩
  anti hs h := ⟨fun t k hk => h.1 t k (hk.mono hs), P.anti hs h.2⟩
  guard := P.guard
  guard_mono := P.guard_mono
  env d hc hw hg := ⟨sameLocked_env d hc hw, P.env d hc hg⟩
  own hw hg h := ⟨sameLocked_own h.1, P.own hw hg h.1 h.2⟩
  same h := h.1

end Protect

/-! ## Whole transactions -/

namespace Discipline

variable (D : Discipline S)

/-- What a call relies on: the discipline, and what the runs respect beside. -/
def both : Rely S := D.toRely.and D.more

/-- The discipline for runs that respect `K` beside. -/
def under (K : Rely S) : Discipline S := { D with more := K }

/-- A write with the locks it needs. -/
def Covers (L : Locks (Res S)) (w : Write S) : Prop :=
  Holds L w.res .noKeyUpdate ∧ D.guard L w

variable {D}

theorem Covers.mono (h : D.Covers L w) (hs : L ⊆ L') : D.Covers L' w :=
  ⟨h.1.mono hs, D.guard_mono hs h.2⟩

/-- What another transaction commits respects the locks held. -/
theorem rel_overlay {ws : List (Write S)} (hc : Compat L L') (hw : ∀ w ∈ ws, D.Covers L' w) :
    ∀ d, D.rel L d (overlay ws d) := by
  induction ws with
  | nil => exact fun d => D.refl L d
  | cons w ws ih =>
    intro d
    have h := hw w List.mem_cons_self
    exact D.trans (D.env d hc h.1 h.2) (ih (fun x hx => hw x (List.mem_cons_of_mem w hx)) _)

/-- A transaction's own writes keep what it knows. -/
theorem rel_overlay_own {ws : List (Write S)} (hw : ∀ w ∈ ws, D.Covers L w) :
    ∀ {a b}, D.rel L a b → D.rel L (overlay ws a) (overlay ws b) := by
  induction ws with
  | nil => exact fun h => h
  | cons w ws ih =>
    intro a b hab
    have h := hw w List.mem_cons_self
    exact ih (fun x hx => hw x (List.mem_cons_of_mem w hx)) (D.own h.1 h.2 hab)

end Discipline

end Txn
