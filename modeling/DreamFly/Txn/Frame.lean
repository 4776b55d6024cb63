import DreamFly.Txn.Store

/-!
# Frames and chains

`Only ts` says that nothing outside the tables `ts` changed; `Chain P l` that a
store came from another by one `P`-step for each element of `l`. A transaction's
effect is a sequence of both, and each table sees only the steps that name it.
-/

namespace Txn

open Store

variable {S : Schema} {α β : Type} {a b c d d' : Store S} {ts ts' : List S.Tbl} {t : S.Tbl}

/-- `d'` differs from `d` in the tables `ts` at most. -/
def Only (ts : List S.Tbl) (d d' : Store S) : Prop := ∀ t, t ∉ ts → d' t = d t

namespace Only

theorem refl (ts : List S.Tbl) (d : Store S) : Only ts d d := fun _ _ => rfl

theorem trans (h : Only ts a b) (h' : Only ts b c) : Only ts a c :=
  fun t ht => (h' t ht).trans (h t ht)

theorem mono (h : Only ts a b) (hs : ts ⊆ ts') : Only ts' a b :=
  fun t ht => h t fun hm => ht (hs hm)

theorem write (d : Store S) {w : Write S} (h : w.tbl ∈ ts) : Only ts d (d.apply w) :=
  fun _ ht => apply_other d fun he => ht (he ▸ h)

theorem writes {ws : List (Write S)} (h : ∀ w ∈ ws, w.tbl ∈ ts) :
    ∀ d, Only ts d (overlay ws d) := by
  induction ws with
  | nil => exact fun d => refl ts d
  | cons w ws ih =>
    intro d
    exact (write d (h w List.mem_cons_self)).trans
      (ih (fun x hx => h x (List.mem_cons_of_mem w hx)) _)

variable (h : Only ts d d') (ht : t ∉ ts)
include h ht

theorem get (k : S.Key t) : d'.get t k = d.get t k := by
  unfold Store.get; rw [h t ht]

theorem sel (p : S.Key t → S.Row t → Bool) : d'.sel t p = d.sel t p := by
  unfold Store.sel; rw [h t ht]

theorem count (p : S.Key t → S.Row t → Bool) : d'.count t p = d.count t p := by
  unfold Store.count; rw [h t ht]

theorem total (f : S.Key t → S.Row t → ℤ) : d'.total t f = d.total t f := by
  unfold Store.total; rw [h t ht]

end Only

/-! ## Many rows of one table -/

section many
variable {f : S.Key t → S.Row t → S.Row t} {g : S.Row t → S.Row t} {p : S.Key t → S.Row t → Bool}
  {ks : List (S.Key t)}

/-- Updates of several rows, each once. -/
theorem get_mods (hks : ks.Nodup) (d : Store S) (k : S.Key t) :
    (overlay (ks.map fun k => .mod t k (f k)) d).get t k =
      if k ∈ ks then (d.get t k).map (f k) else d.get t k := by
  induction ks generalizing d with
  | nil => simp
  | cons x ks ih =>
    obtain ⟨hx, hks⟩ := List.nodup_cons.1 hks
    rw [List.map_cons, overlay_cons, ih hks, get_mod]
    by_cases hk : k = x
    · subst hk; simp [hx]
    · simp [hk]

/-- Deletes of several rows. -/
theorem get_dels (d : Store S) (k : S.Key t) :
    (overlay (ks.map fun k => .del t k) d).get t k = if k ∈ ks then none else d.get t k := by
  induction ks generalizing d with
  | nil => simp
  | cons x ks ih =>
    rw [List.map_cons, overlay_cons, ih, get_del]
    by_cases hk : k = x
    · subst hk; simp
    · simp [hk]

/-- Some rows of `t` that satisfy `p` were changed by `f`, and nothing else. -/
structure Edited (t : S.Tbl) (p : S.Key t → S.Row t → Bool) (f : S.Row t → S.Row t)
    (d d' : Store S) : Prop where
  only : Only [t] d d'
  row : ∀ k, d'.get t k = d.get t k ∨ ∃ r, d.get t k = some r ∧ p k r = true ∧
    d'.get t k = some (f r)

theorem Edited.refl (t : S.Tbl) (p : S.Key t → S.Row t → Bool) (f : S.Row t → S.Row t)
    (d : Store S) :
    Edited t p f d d := ⟨Only.refl _ _, fun _ => .inl rfl⟩

/-- One row that satisfied `p` was changed. -/
theorem Edited.one {k : S.Key t} {r : S.Row t} (h : d.get t k = some r) (hp : p k r = true) :
    Edited t p g d (d.apply (.mod t k (onlyIf (p k) g))) where
  only := Only.write d (by simp [Write.tbl])
  row k' := by
    rw [get_mod]
    split
    · next he => subst he; exact .inr ⟨r, h, hp, by rw [h, Option.map_some, onlyIf_pos hp]⟩
    · exact .inl rfl

end many

/-! ## Chains -/

/-- `d'` comes from `d` by one `P`-step for each element of the list, in order. -/
def Chain (P : α → Store S → Store S → Prop) : List α → Store S → Store S → Prop
  | [], d, d' => d' = d
  | x :: l, d, d' => ∃ d₁, P x d d₁ ∧ Chain P l d₁ d'

namespace Chain

variable {P P' : α → Store S → Store S → Prop} {l l' : List α} {x : α}

theorem append (h : Chain P l a b) (h' : Chain P l' b c) : Chain P (l ++ l') a c := by
  induction l generalizing a with
  | nil => cases h; exact h'
  | cons x l ih =>
    obtain ⟨d₁, h1, h2⟩ := h
    exact ⟨d₁, h1, ih h2⟩

theorem snoc (h : Chain P l a b) (hx : P x b c) : Chain P (l ++ [x]) a c :=
  h.append ⟨c, hx, rfl⟩

theorem imp (hP : ∀ x ∈ l, ∀ a b, P x a b → P' x a b) (h : Chain P l a b) : Chain P' l a b := by
  induction l generalizing a with
  | nil => exact h
  | cons x l ih =>
    obtain ⟨d₁, h1, h2⟩ := h
    exact ⟨d₁, hP x List.mem_cons_self _ _ h1, ih (fun y hy => hP y (List.mem_cons_of_mem x hy)) h2⟩

/-- The steps seen through a function on the list. -/
theorem map {Q : β → Store S → Store S → Prop} (f : α → β) (h : Chain (fun x => Q (f x)) l a b) :
    Chain Q (l.map f) a b := by
  induction l generalizing a with
  | nil => exact h
  | cons x l ih =>
    obtain ⟨d₁, h1, h2⟩ := h
    exact ⟨d₁, h1, ih h2⟩

/-- What every step keeps, the chain keeps. -/
theorem inv {I : Store S → Prop} (hI : ∀ x ∈ l, ∀ a b, P x a b → I a → I b) (h : Chain P l a b)
    (ha : I a) : I b := by
  induction l generalizing a with
  | nil => cases h; exact ha
  | cons x l ih =>
    obtain ⟨d₁, h1, h2⟩ := h
    exact ih (fun y hy => hI y (List.mem_cons_of_mem x hy)) h2 (hI x List.mem_cons_self _ _ h1 ha)

theorem only (hP : ∀ x ∈ l, ∀ a b, P x a b → Only ts a b) (h : Chain P l a b) : Only ts a b :=
  inv (I := fun b => Only ts a b) (fun x hx c e hs hc => hc.trans (hP x hx c e hs)) h
    (Only.refl ts a)

/-- A quantity that every step moves by `g`. -/
theorem sum {f : Store S → ℤ} {g : α → ℤ} (hP : ∀ x ∈ l, ∀ a b, P x a b → f b = f a + g x)
    (h : Chain P l a b) : f b = f a + (l.map g).sum := by
  induction l generalizing a with
  | nil => cases h; simp
  | cons x l ih =>
    obtain ⟨d₁, h1, h2⟩ := h
    rw [ih (fun y hy => hP y (List.mem_cons_of_mem x hy)) h2, hP x List.mem_cons_self _ _ h1,
      List.map_cons, List.sum_cons, add_assoc]

end Chain

end Txn
