import DreamFly.Txn.Plain

/-!
# Rows that exclude each other

An exclusion constraint keeps two rows of a table from having a moment in common. An INSERT
locks the moments of its row and looks at who has one; so what it finds free is free at its
commit.

* `Exclusion.Apart`: no two rows clash, and what keeps that.
* `Exclusion.protect`: the rule that whoever makes a row have a moment holds it.
* `Exclusion.Inserted`: a list of rows, each free when its turn comes.
-/

namespace Txn

variable {S : Schema} {E μ : Type} {t : S.Tbl} {O : Oblig S E}

/-- The moments that a row of `t` has, and their entries in the index. -/
structure Exclusion (S : Schema) (t : S.Tbl) (μ : Type) where
  has : S.Row t → μ → Prop
  entry : μ → S.Uniq

namespace Exclusion

variable (X : Exclusion S t μ)

/-- A moment in common. -/
def Clash (r r' : S.Row t) : Prop := ∃ x, X.has r x ∧ X.has r' x

/-- No two rows clash. -/
def Apart (d : Store S) : Prop :=
  ∀ k k' r r', d.get t k = some r → d.get t k' = some r' → X.Clash r r' → k = k'

/-- No row clashes with `r`. -/
def Free (r : S.Row t) (d : Store S) : Prop := ∀ k r', d.get t k = some r' → ¬ X.Clash r' r

/-- All moments of `r` are locked. -/
def Locked (L : Locks (Res S)) (r : S.Row t) : Prop := ∀ x, X.has r x →
    Holds L (.uniq (X.entry x)) .update

/-- Nobody else makes a row have a moment that is locked. -/
def protect : Protect S :=
  .noNew t (fun x _ r => X.has r x)
    (fun x => .uniq (X.entry x)) .update .update Mode.conflicts_update

variable {X} {d d' v : Store S} {L L' : Locks (Res S)} {k : S.Key t} {r : S.Row t}
  {f : S.Row t → S.Row t} {w : Write S}

theorem Clash.symm {r r' : S.Row t} (h : X.Clash r r') : X.Clash r' r := by
  obtain ⟨x, hr, hr'⟩ := h
  exact ⟨x, hr', hr⟩

theorem Locked.mono (h : X.Locked L r) (hs : L ⊆ L') : X.Locked L' r := fun x hx => (h x hx).mono hs

/-! ## What keeps rows apart -/

/-- What is free under its locks stays free. -/
theorem Free.later (h : X.Free r v) (hl : X.Locked L r) (hrel : X.protect.rel L v d) :
    X.Free r d := by
  rintro k r' hk ⟨x, hx', hx⟩
  obtain ⟨r₀, hr₀, hx₀⟩ := hrel k x (hl x hx) r' hk hx'
  exact h k r₀ hr₀ ⟨x, hx₀, hx⟩

/-- What nobody has under its lock, of some rows, none of them gets. -/
theorem unhad_later {x : μ} {P : S.Key t → Prop} (h : ∀ k r, v.get t k = some r → P k → ¬ X.has r x)
    (hl : Holds L (.uniq (X.entry x)) .update) (hrel : X.protect.rel L v d) : ∀ k r, d.get t k =
      some r → P k → ¬ X.has r x := by
  intro k r hk hP hx
  obtain ⟨r₀, hr₀, hx₀⟩ := hrel k x hl r hk hx
  exact h k r₀ hr₀ hP hx₀

/-- A new row that is free. -/
theorem Apart.add (h : X.Apart d) (hn : d.get t k = none) (hf : X.Free r d) :
    X.Apart (d.apply (.add t k r)) := by
  intro k₁ k₂ r₁ r₂ h₁ h₂ hc
  rw [Store.get_add, hn, Option.getD_none] at h₁ h₂
  split at h₁
  next he₁ =>
    cases h₁
    split at h₂
    next he₂ => exact he₁.trans he₂.symm
    next =>
      obtain ⟨x, hx₁, hx₂⟩ := hc
      exact absurd ⟨x, hx₂, hx₁⟩ (hf k₂ r₂ h₂)
  next =>
    split at h₂
    next => cases h₂; exact absurd hc (hf k₁ r₁ h₁)
    next => exact h k₁ k₂ r₁ r₂ h₁ h₂ hc

/-- Rows go, or lose moments. -/
theorem Apart.less (h : X.Apart d) (hs : ∀ k r', d'.get t k = some r' → ∃ r, d.get t k = some r ∧
    ∀ x, X.has r' x → X.has r x) :
    X.Apart d' := by
  intro k₁ k₂ r₁ r₂ h₁ h₂ ⟨x, hx₁, hx₂⟩
  obtain ⟨s₁, hs₁, hsub₁⟩ := hs k₁ r₁ h₁
  obtain ⟨s₂, hs₂, hsub₂⟩ := hs k₂ r₂ h₂
  exact h k₁ k₂ s₁ s₂ hs₁ hs₂ ⟨x, hsub₁ x hx₁, hsub₂ x hx₂⟩

/-- A change that gives a row no moment. -/
theorem Apart.mod (h : X.Apart d) (hf : ∀ r x, X.has (f r) x → X.has r x) :
    X.Apart (d.apply (.mod t k f)) := by
  refine h.less fun k' r' hk' => ?_
  rw [Store.get_mod] at hk'
  split at hk'
  next he =>
    obtain ⟨r₀, hr₀, rfl⟩ := Option.map_eq_some_iff.1 hk'
    exact ⟨r₀, he ▸ hr₀, hf r₀⟩
  next => exact ⟨r', hk', fun _ hx => hx⟩

/-- A row whose new moments nobody else has. -/
theorem Apart.change (h : X.Apart d) (hk : d.get t k = some r)
    (hf : ∀ x, X.has (f r) x → X.has r x ∨ ∀ k' r', d.get t k' = some r' → k' ≠ k → ¬ X.has r' x) :
    X.Apart (d.apply (.mod t k f)) := by
  have hget : ∀ k' r', (d.apply (.mod t k f)).get t k' = some r' → k' = k ∧ r' = f r ∨ k' ≠ k ∧
      d.get t k' = some r' := by
    intro k' r' hk'
    rw [Store.get_mod] at hk'
    split at hk'
    next he =>
      rw [hk] at hk'
      cases hk'
      exact .inl ⟨he, rfl⟩
    next he => exact .inr ⟨he, hk'⟩
  -- a clash of the changed row with another one is an old clash, or one that is ruled out
  have hother : ∀ k' r', d.get t k' = some r' → k' ≠ k → ¬ X.Clash (f r) r' := by
    rintro k' r' hk' hne ⟨x, hx, hx'⟩
    rcases hf x hx with hold | hfree
    · exact hne (h k' k r' r hk' hk ⟨x, hx', hold⟩)
    · exact hfree k' r' hk' hne hx'
  intro k₁ k₂ r₁ r₂ h₁ h₂ hc
  rcases hget k₁ r₁ h₁ with ⟨he₁, hr₁⟩ | ⟨hne₁, g₁⟩
  · rcases hget k₂ r₂ h₂ with ⟨he₂, -⟩ | ⟨hne₂, g₂⟩
    · rw [he₁, he₂]
    · rw [hr₁] at hc
      exact absurd hc (hother k₂ r₂ g₂ hne₂)
  · rcases hget k₂ r₂ h₂ with ⟨-, hr₂⟩ | ⟨hne₂, g₂⟩
    · rw [hr₂] at hc
      exact absurd hc.symm (hother k₁ r₁ g₁ hne₁)
    · exact h k₁ k₂ r₁ r₂ g₁ g₂ hc

/-- Rows that are there stay as they are or go. -/
theorem Apart.sub (h : X.Apart d) (hs : ∀ k r, d'.get t k = some r → d.get t k = some r) :
    X.Apart d' :=
  h.less fun k r' hk => ⟨r', hs k r' hk, fun _ hx => hx⟩

/-- Rows of other tables do not matter. -/
theorem Apart.only {ts : List S.Tbl} (h : X.Apart d) (ho : Only ts d d') (ht : t ∉ ts) :
    X.Apart d' :=
  h.sub fun k r hk => by rw [← ho.get ht]; exact hk

/-! ## The rule -/

theorem guard_add (h : X.Locked L r) : X.protect.guard L (.add t k r) := by
  refine ⟨fun k' r' he x hx => ?_, fun k' f he => (by cases he)⟩
  cases he
  exact h x hx

theorem guard_mod_held (h : ∀ r x, X.has (f r) x → X.has r x ∨
    Holds L (.uniq (X.entry x)) .update) :
    X.protect.guard L (.mod t k f) := by
  refine ⟨fun k' r' he => (by cases he), fun k' g he x r' hx => ?_⟩
  cases he
  exact h r' x hx

theorem guard_mod (h : ∀ r x, X.has (f r) x → X.has r x) : X.protect.guard L (.mod t k f) :=
  guard_mod_held fun r x hx => .inl (h r x hx)

theorem guard_del : X.protect.guard L (.del t k) :=
  ⟨fun k' r' he => (by cases he), fun k' f he => (by cases he)⟩

theorem guard_other (h : w.tbl ≠ t) : X.protect.guard L w := by
  refine ⟨fun k' r' he => ?_, fun k' f he => ?_⟩
  · exact absurd (by rw [he]; rfl) h
  · exact absurd (by rw [he]; rfl) h

/-! ## Locks -/

variable {α : Type} {D : Discipline S} {C : Pt S → Prop} {σ : Pt S} {F : E → Prop}

/-- A loop that locks what its elements say. -/
theorem lockAll (f : α → Res S) (m : Mode) (l : List α) (hlock : ∀ a ∈ l, ∀ σ', σ.Later σ' →
    O.lock σ' (f a) m) :
    Yields D O σ (Prog.each (fun a => Prog.lockRes (f a) m) l) F fun _ σ' => σ'.db = σ.db ∧
    σ'.ws = σ.ws ∧
      ∀ a ∈ l, Holds σ'.held (f a) m := by
  refine Yields.each_inv (fun done σ' => σ'.db = σ.db ∧ σ'.ws = σ.ws ∧
    ∀ a ∈ done, Holds σ'.held (f a) m)
    ⟨rfl, rfl, fun a ha => by cases ha⟩ ?_
  intro done a rest σ' he hl ⟨hd, hws, hh⟩
  refine (Yields.lockRes (hlock a (by simp [he]) σ' hl)).imp (fun _ σ'' hl' h => ⟨?_, ?_, ?_⟩)
    fun _ h => h
  · rw [h]
    exact hd
  · rw [h]
    exact hws
  · intro a' ha'
    rcases List.mem_append.1 ha' with ha' | ha'
    · exact hl'.holds (hh a' ha')
    · rw [List.mem_singleton.1 ha', h]
      exact holds_acquire _ _ _

/-- The entry of one moment, and the test that none of some rows has it. -/
theorem take (hrel : ∀ {L : Locks (Res S)} {v d : Store S}, D.rel L v d → X.protect.rel L v d)
    {x : μ} {P : S.Key t → Prop}
    {taken : Store S → Bool} {e : E} (htaken : ∀ v, taken v = false → ∀ k r, v.get t k = some r →
      P k → ¬ X.has r x)
    (hlock : O.lock σ (.uniq (X.entry x)) .update) (he : F e) :
    Yields D O σ (Prog.claim (.uniq (X.entry x)) taken >>= fun b => Prog.ensure (!b) e) F
      fun _ σ' =>
      σ' = σ.grant (.uniq (X.entry x)) .update ∧ Holds σ'.held (.uniq (X.entry x)) .update ∧
        ∀ k r, σ'.db.get t k = some r → P k → ¬ X.has r x := by
  refine Yields.bind (Yields.claim hlock) fun b σ₁ _ hclaim => ?_
  obtain ⟨rfl, v, -, hv, hb⟩ := hclaim
  refine Yields.ensure (fun hfree => ⟨rfl, holds_acquire _ _ _, ?_⟩) he
  exact unhad_later (htaken v (by rw [← hb]; simpa using hfree)) (holds_acquire _ _ _) (hrel hv)

/-! ## Lists of new rows -/

/-- Each row is new, and free when it is its turn. -/
def Inserted (X : Exclusion S t μ) : List (S.Row t) → Store S → Store S → Prop :=
  Chain fun r a b => ∃ k, a.get t k = none ∧ X.Free r a ∧ b = a.apply (.add t k r)

variable {rows : List (S.Row t)}

/-- **Inserting keeps rows apart.** -/
theorem Inserted.apart (h : X.Inserted rows d d') (ha : X.Apart d) : X.Apart d' := by
  refine Chain.inv (I := X.Apart) (fun r _ a b hab ha => ?_) h ha
  obtain ⟨k, hn, hf, rfl⟩ := hab
  exact ha.add hn hf

theorem Inserted.only (h : X.Inserted rows d d') : Only [t] d d' := by
  refine Chain.only (fun r _ a b hab => ?_) h
  obtain ⟨k, -, -, rfl⟩ := hab
  exact Only.write (w := .add t k r) a List.mem_cons_self

/-- What was there stays, and what is new is one of the rows. -/
theorem Inserted.get (h : X.Inserted rows d d') :
    (∀ k r, d.get t k = some r → d'.get t k = some r) ∧
    ∀ k r, d'.get t k = some r → d.get t k = some r ∨ d.get t k = none ∧ r ∈ rows := by
  induction rows generalizing d with
  | nil => cases h; exact ⟨fun _ _ h => h, fun _ _ h => .inl h⟩
  | cons r₀ rows ih =>
    obtain ⟨d₁, ⟨k, hn, -, rfl⟩, hrest⟩ := h
    have hadd : ∀ k', (d.apply (.add t k r₀)).get t k' = if k' = k then some r₀ else
        d.get t k' := by
      intro k'
      rw [Store.get_add, hn, Option.getD_none]
    constructor
    · intro k' r' hk'
      refine (ih hrest).1 k' r' ?_
      rw [hadd, if_neg fun he => ?_]
      · exact hk'
      · rw [he, hn] at hk'
        cases hk'
    · intro k' r' hk'
      rcases (ih hrest).2 k' r' hk' with hb | ⟨hb, hm⟩
      · rw [hadd] at hb
        split at hb
        next he => cases hb; exact .inr ⟨he ▸ hn, List.mem_cons_self⟩
        next => exact .inl hb
      · rw [hadd] at hb
        split at hb
        next => cases hb
        next => exact .inr ⟨hb, List.mem_cons_of_mem _ hm⟩

/-- **All of the list is inserted**, and nothing else. -/
theorem Inserted.sel_perm (h : X.Inserted rows d d') (p : S.Row t → Bool) :
    ((d'.sel t fun _ r => p r).map Prod.snd).Perm ((d.sel t fun _ r => p r).map Prod.snd ++
      rows.filter p) := by
  induction rows generalizing d with
  | nil => cases h; rw [List.filter_nil, List.append_nil]
  | cons r rows ih =>
    obtain ⟨d₁, ⟨k, hn, -, rfl⟩, hrest⟩ := h
    cases hp : p r with
    | true =>
      have hnew := (Store.sel_add_new (t := t) (p := fun _ r => p r) (r := r) hn hp).map Prod.snd
      refine (ih hrest).trans ((hnew.append_right _).trans ?_)
      rw [List.filter_cons_of_pos hp]
      exact List.perm_middle.symm
    | false =>
      have hnew := (Store.sel_add_skip (t := t) (p := fun _ r => p r) (r := r) hn hp).map Prod.snd
      refine (ih hrest).trans ((hnew.append_right _).trans ?_)
      rw [List.filter_cons_of_neg (by rw [hp]; decide)]

end Exclusion

end Txn
