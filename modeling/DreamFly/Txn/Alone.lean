import DreamFly.Txn.Plain
import DreamFly.Txn.Solo

/-!
# Statements of a call that runs alone

With nobody else committing, a statement finds the store as the writes of its own
transaction have left it, and does to all of it what it says.

* `Alone`: what a piece of such a transaction makes of a store.
* `Alone.read` and the rules after it, one for each statement.
* `Alone.wp_atomically`: the transaction as a whole.
-/

namespace Txn

open Store Prog

variable {S : Schema} {E A Q α β : Type}

/-- From the store `d` on, `p` ends with a result and a store as `R` says, or fails as `F`
says. -/
def Alone (d : Store S) (p : Prog S E α) (F : E → Prop) (R : α → Store S → Prop) : Prop :=
  ∀ σ : Pt S, σ.Laid → σ.db = d →
    Yields ((rowLocks S).under (.still S)) (plainly (rowLocks S) fun _ => True) σ p F fun a σ' =>
      σ'.Laid ∧ R a σ'.db

theorem Pt.Laid.grants {σ : Pt S} (h : σ.Laid) (t : S.Tbl) (m : Mode) (ks : List (S.Key t)) :
    (σ.grants t m ks).Laid := by
  unfold Pt.Laid at h ⊢
  rw [Pt.grants_db, Pt.grants_ws, Pt.grants_now]
  exact h

theorem Pt.Laid.writes {σ : Pt S} (h : σ.Laid) (ws : List (Write S)) : (σ.writes ws).Laid := by
  unfold Pt.Laid at h ⊢
  rw [Pt.writes_db, Pt.writes_ws, Pt.writes_now, overlay_append, h]

namespace Alone

variable {d d' : Store S} {p : Prog S E α} {F F' : E → Prop} {R R' : α → Store S → Prop}

/-! ## Structure -/

theorem ret {a : α} (h : R a d) : Alone d (.ret a : Prog S E α) F R :=
    fun _ hσ hd => .ret ⟨hσ, hd ▸ h⟩

theorem pure {a : α} (h : R a d) : Alone d (Pure.pure a : Prog S E α) F R := ret h

theorem fail {e : E} (h : F e) : Alone d (.fail e : Prog S E α) F R := fun _ _ _ => .fail h

theorem imp (h : Alone d p F R) (hR : ∀ a d', R a d' → R' a d') (hF : ∀ e, F e → F' e) :
    Alone d p F' R' :=
  fun σ hσ hd => (h σ hσ hd).imp (fun a σ' _ hr => ⟨hr.1, hR a σ'.db hr.2⟩) hF

theorem bind {k : α → Prog S E β} {R' : β → Store S → Prop} (h : Alone d p F R)
    (hk : ∀ a d', R a d' → Alone d' (k a) F R') :
    Alone d (p >>= k) F R' :=
  fun σ hσ hd => Yields.bind (h σ hσ hd) fun a σ' _ hr => hk a σ'.db hr.2 σ' hr.1 rfl

theorem orFail {o : Option α} {e : E} (hs : ∀ a, o = some a → R a d) (hn : o = none → F e) :
    Alone d (Prog.orFail o e) F R := by
  cases o with
  | none => exact fail (hn rfl)
  | some a => exact ret (hs a rfl)

theorem ensure {b : Bool} {e : E} {R : Unit → Store S → Prop} (ht : b = true → R () d)
    (hf : b = false → F e) :
    Alone d (Prog.ensure b e : Prog S E Unit) F R := by
  cases b with
  | false => exact fail (hf rfl)
  | true => exact ret (ht rfl)

/-- A loop, by what holds of the part that is done. -/
theorem each {f : α → Prog S E β} {l : List α} (I : List α → Store S → Prop) (h0 : I [] d)
    (h : ∀ done a rest d', l = done ++ a :: rest → I done d' →
      Alone d' (f a) F fun _ d'' => I (done ++ [a]) d'') :
    Alone d (Prog.each f l) F fun _ d' => I l d' := by
  intro σ hσ hd
  refine Yields.each_inv (fun done σ' => σ'.Laid ∧ I done σ'.db) ⟨hσ, hd ▸ h0⟩ ?_
  intro done a rest σ' he _ hi
  exact h done a rest σ'.db he hi.2 σ' hi.1 rfl

/-! ## Statements -/

section statements
variable {t : S.Tbl} {k : S.Key t} {m : Mode}

theorem read {q : Store S → α} (h : R (q d) d) : Alone d (Prog.read q : Prog S E α) F R := by
  intro σ hσ hd
  subst hd
  exact Yields.read_still hσ ⟨hσ, h⟩

theorem lockRes {r : Res S} {R : Unit → Store S → Prop} (h : R () d) :
    Alone d (Prog.lockRes r m : Prog S E Unit) F R := by
  intro σ hσ hd
  refine (Yields.lockRes trivial).imp (fun _ σ' _ h' => ?_) fun _ h => h
  subst h'
  exact ⟨hσ.grant _ _, hd ▸ h⟩

/-- A row that is written is locked by the statement itself. -/
theorem put {w : Write S} {R : Unit → Store S → Prop} {σ : Pt S} (hσ : σ.Laid)
    (hh : Holds σ.held w.res .noKeyUpdate)
    (h : R () (σ.db.apply w)) : Yields ((rowLocks S).under (.still S))
    (plainly (rowLocks S) fun _ => True) σ
      (Prog.put w : Prog S E Unit) F fun a σ' => σ'.Laid ∧ R a σ'.db := by
  refine (Yields.put (rowLocks_covers hh)).imp (fun _ σ' _ h' => ?_) fun _ h => h
  subst h'
  exact ⟨hσ.write w, h⟩

theorem claim {r : Res S} {taken : Store S → Bool} {R : Bool → Store S → Prop} (h : R (taken d) d) :
    Alone d (Prog.claim r taken : Prog S E Bool) F R := by
  intro σ hσ hd
  refine (Yields.claim_still hσ trivial).imp (fun b σ' _ h' => ?_) fun _ h => h
  obtain ⟨hs, hb⟩ := h'
  subst hs hb hd
  exact ⟨hσ.grant _ _, h⟩

theorem references {e : E} {R : Unit → Store S → Prop} (hs : (d.get t k).isSome = true → R () d)
    (hn : d.get t k = none → F e) :
    Alone d (Prog.references t k e : Prog S E Unit) F R := by
  intro σ hσ hd
  subst hd
  refine Yields.bind (R := fun o σ' => o = σ.db.get t k ∧ σ' = σ)
    (Yields.read_still hσ ⟨rfl, rfl⟩) fun o σ₁ _ h₁ => ?_
  obtain ⟨ho, hs₁⟩ := h₁
  subst hs₁
  cases hk : σ₁.db.get t k with
  | none =>
    rw [hk] at ho
    subst ho
    exact .throw (hn hk)
  | some r =>
    rw [hk] at ho
    subst ho
    refine (Yields.lockRes trivial).imp (fun _ σ₂ _ h₂ => ?_) fun _ h => h
    subst h₂
    exact ⟨hσ.grant _ _, hs (by rw [hk]; rfl)⟩

theorem selectFor {p : S.Row t → Bool} {R : Option (S.Row t) → Store S → Prop}
    (h : R ((d.get t k).filter p) d) :
    Alone d (Prog.selectFor t k p m : Prog S E _) F R := by
  intro σ hσ hd
  subst hd
  refine (Yields.selectFor_still hσ trivial).imp (fun r σ' _ h' => ?_) fun _ h => h
  obtain ⟨hr, hσ', hd, -⟩ := h'
  subst hr
  rw [hd]
  exact ⟨hσ', h⟩

theorem insert {key : ℕ → S.Key t} {row : ℕ → S.Row t} {R : ℕ → Store S → Prop}
    (h : ∀ n, d.get t (key n) = none → R n (d.apply (.add t (key n) (row n)))) :
    Alone d (Prog.insert t key row : Prog S E ℕ) F R := by
  intro σ hσ hd
  subst hd
  refine (Yields.insert fun n => rowLocks_covers (holds_acquire _ _ _)).imp (fun n σ' _ h' => ?_)
    fun _ h => h
  obtain ⟨-, hn, -, hs⟩ := h'
  subst hs
  exact ⟨(hσ.grant _ _).write _, h n hn⟩

/-- The snapshot of a statement is the store as it is. -/
theorem view_eq {σ : Pt S} (hσ : σ.Laid) {v₀ : Store S}
    (h : ((rowLocks S).under (.still S)).more.rel σ.held v₀ σ.now) :
    overlay σ.ws v₀ = σ.db := by
  have hnow : v₀ = σ.now := h
  rw [hnow]
  exact hσ.symm

/-- UPDATE of all rows that `p` says. -/
theorem updateAll {p : S.Key t → S.Row t → Bool} {f : S.Row t → S.Row t}
    {R : List (S.Key t × S.Row t) → Store S → Prop}
    (h : ∀ rs d', Only [t] d d' → (∀ k, d'.get t k = (d.get t k).map (onlyIf (p k) f)) → R rs d') :
    Alone d (Prog.updateAll t p f : Prog S E _) F R := by
  intro σ hσ hd
  subst hd
  unfold Prog.updateAll Yields
  rw [wp_bind]
  refine wp_snapshot fun v₀ _ _ hm => ?_
  rw [view_eq hσ hm, wp_bind]
  refine wp_choose fun n => ?_
  have hks := arrange_perm n ((σ.db.sel t p).map Prod.fst)
  have hd : (arrange n ((σ.db.sel t p).map Prod.fst)).Nodup :=
    hks.nodup_iff.2 (sel_keys_nodup σ.db t p)
  generalize arrange n ((σ.db.sel t p).map Prod.fst) = ks at hks hd
  refine wp_writeEach (by decide) (fun _ => rfl) hd (fun _ _ _ _ _ _ _ _ => trivial)
    (fun k r σ' _ _ hh _ _ => rowLocks_covers hh) ⟨?_, ?_, ?_⟩
  · exact (Pt.later_grants _ _ _ _).trans (Pt.later_writes _ _)
  · exact (hσ.grants _ _ _).writes _
  refine h _ _ ?_ fun k => ?_
  · rw [Pt.writes_db, Pt.grants_db]
    refine Only.writes (fun w hw => ?_) _
    obtain ⟨e, -, rfl⟩ := List.mem_map.1 hw
    exact List.mem_singleton.2 rfl
  · have he : (σ.db.found t p ks).map (fun e => Write.mod t e.1 (onlyIf (p e.1) f)) =
        ((σ.db.found t p ks).map Prod.fst).map fun k => .mod t k (onlyIf (p k) f) := by
        rw [List.map_map]; rfl
    rw [Pt.writes_db, Pt.grants_db, he, get_mods ((found_keys_sublist _ _ _ _).nodup hd)]
    split
    next => rfl
    next hk =>
      -- a row that is not found does not satisfy `p`
      cases hr : σ.db.get t k with
      | none => rfl
      | some r =>
        cases hp : p k r with
        | false => rw [Option.map_some, onlyIf, hp]; rfl
        | true =>
          have hmem : k ∈ ks := hks.mem_iff.2 (List.mem_map.2 ⟨(k, r), mem_sel.2 ⟨hr, hp⟩, rfl⟩)
          exact absurd (List.mem_map.2 ⟨(k, r), mem_found.2 ⟨hmem, hr, hp⟩, rfl⟩) hk

/-- DELETE of all rows that `p` says. -/
theorem deleteAll {p : S.Key t → S.Row t → Bool} {R : List (S.Key t × S.Row t) → Store S → Prop}
    (h : ∀ rs d', Only [t] d d' → (∀ k, d'.get t k = (d.get t k).filter fun r => !p k r) →
      R rs d') :
    Alone d (Prog.deleteAll t p : Prog S E _) F R := by
  intro σ hσ hd
  subst hd
  refine wp_deleteAll fun v₀ _ _ hm ks hks => ⟨fun _ _ _ _ _ _ _ _ => trivial,
    fun k r σ' _ _ hh _ _ =>
    rowLocks_covers (hh.weaken (by decide)), (Pt.later_grants _ _ _ _).trans (Pt.later_writes _ _),
      (hσ.grants _ _ _).writes _, ?_⟩
  -- alone the snapshot is the store itself, so every hit is found again
  rw [view_eq hσ hm] at hks
  refine h _ _ ?_ fun k => ?_
  · rw [Pt.writes_db, Pt.grants_db]
    refine Only.writes (fun w hw => ?_) _
    obtain ⟨e, -, rfl⟩ := List.mem_map.1 hw
    exact List.mem_singleton.2 rfl
  · have he : (σ.db.found t p ks).map (fun e => Write.del t e.1) =
        ((σ.db.found t p ks).map Prod.fst).map fun k => .del t k := by rw [List.map_map]; rfl
    rw [Pt.writes_db, Pt.grants_db, he, get_dels]
    split
    next hk =>
      obtain ⟨e, hm, rfl⟩ := List.mem_map.1 hk
      obtain ⟨-, hr, hp⟩ := mem_found.1 hm
      rw [hr, Option.filter_some, hp]
      rfl
    next hk =>
      cases hr : σ.db.get t k with
      | none => rfl
      | some r =>
        cases hp : p k r with
        | false => rw [Option.filter_some, hp]; rfl
        | true =>
          have hmem : k ∈ ks := hks.mem_iff.2 (List.mem_map.2 ⟨(k, r), mem_sel.2 ⟨hr, hp⟩, rfl⟩)
          exact absurd (List.mem_map.2 ⟨(k, r), mem_found.2 ⟨hmem, hr, hp⟩, rfl⟩) hk

end statements

/-! ## Whole transactions -/

/-- A transaction, and what is done after it. -/
theorem wp_atomically {k : α → Prog S E β} {Q : β → Pt S → Prop} {X : E → Pt S → Prop} {b : Bool}
    (h : Alone d p F R)
    (hk : ∀ a d' d'', R a d' → wp ((rowLocks S).under (.still S))
      (plainly (rowLocks S) fun _ => True) Q X (k a) (.begin d' d'' true))
    (hX : ∀ e d', F e → X e (.begin d d' b)) :
    wp ((rowLocks S).under (.still S)) (plainly (rowLocks S) fun _ => True) Q X (p.atomically >>= k)
    (.begin d d b) := by
  rw [wp_bind]
  refine (Txn.wp_atomically _ _).2 ((h _ (Pt.laid_begin d b) rfl).wp
    (fun a σ' _ hr => ⟨trivial, fun d'' _ => ?_⟩)
    fun e σ' hl hf => ⟨trivial, fun d'' _ => ?_⟩)
  · exact hk a σ'.db d'' hr.2
  · rw [hl.now, hl.committed]
    exact hX e d'' hf

/-- **A call that runs alone ends as its specification says.** -/
theorem outcome {V : Service S E A Q} {s s' : Sys S E A Q} {t : ℕ} {q : Q} {c : Call S E A Q}
    {X : E → Store S → Prop} {R : A → Store S → Prop}
    (hnew : s.call t = none)
    (h : wp ((rowLocks S).under (.still S)) (plainly (rowLocks S) fun _ => True)
      (fun a σ => R a σ.start) (fun e σ => X e σ.start)
      (V.prog q) (.begin s.db s.db false))
    (hr : V.Reach (fun _ e _ => e = .start t q ∨ e.IsStep t) s s') (hc : s'.call t = some c)
    (hf : c.finished = true) :
    (∃ a, c.prog = .ret a ∧ R a s'.db) ∨ ∃ e, c.prog = .fail e ∧ X e s'.db := by
  rcases solo_outcome hnew (fun _ _ hw => hw) h hr hc hf with ⟨a, σ, ha, hra, hs⟩ |
      ⟨e, σ, he, hxe, hs⟩
  · exact .inl ⟨a, ha, hs ▸ hra⟩
  · exact .inr ⟨e, he, hs ▸ hxe⟩

end Alone

/-! ## Keys to draw -/

namespace Prog

variable {t : S.Tbl}

theorem draws_read (q : Store S → α) : (Prog.read q : Prog S E α).Draws := fun _ => trivial

theorem draws_lockRes (r : Res S) (m : Mode) : (Prog.lockRes r m : Prog S E Unit).Draws := trivial

theorem draws_claim (r : Res S) (taken : Store S → Bool) :
    (Prog.claim r taken : Prog S E Bool).Draws := fun _ => trivial

theorem draws_insert {key : ℕ → S.Key t} (hkey : Function.Injective key) (row : ℕ → S.Row t) :
    (Prog.insert t key row : Prog S E ℕ).Draws :=
  ⟨hkey, fun _ => trivial⟩

theorem draws_writeEach (p : S.Key t → S.Row t → Bool) (m : Mode) (w : S.Key t → Write S)
    (ks : List (S.Key t)) :
    (Prog.writeEach t p m w ks : Prog S E _).Draws := by
  induction ks with
  | nil => trivial
  | cons k ks ih =>
    refine Draws.bind (p := recheck t k (p k) m) (fun _ => trivial) fun o => ?_
    cases o with
    | none => exact ih
    | some r => exact ih.bind fun _ => trivial

theorem draws_updateAll (p : S.Key t → S.Row t → Bool) (f : S.Row t → S.Row t) :
    (Prog.updateAll t p f : Prog S E _).Draws :=
  (draws_read _).bind fun _ => Draws.bind (p := choose) (fun _ => trivial) fun _ =>
    draws_writeEach _ _ _ _

theorem draws_deleteAll (p : S.Key t → S.Row t → Bool) : (Prog.deleteAll t p : Prog S E _).Draws :=
  (draws_read _).bind fun _ => Draws.bind (p := choose) (fun _ => trivial) fun _ =>
    draws_writeEach _ _ _ _

end Prog

end Txn
