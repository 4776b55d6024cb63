import DreamFly.Txn.Sound
import DreamFly.Txn.Yields
import Mathlib.Data.Set.Finite.Basic
import Mathlib.Data.Finset.Preimage

/-!
# Calls that run alone

A call whose operations are not interleaved with anybody else's, from a state in
which nobody else holds a lock.

* `Sys.Quiescent.free`: with no call in flight nobody holds a lock.
* `solo_finishes`: such a call can always go on, up to its end.
* `solo_ends`, `solo_outcome`: it ends, and as its specification says.
* `Yields.read_still` and the rules after it: with nobody else committing, a read
  shows the store as it is.
-/

namespace Txn

variable {S : Schema} {E A Q α β : Type}

/-- Nothing is committed by anybody else. -/
def Rely.still (S : Schema) : Rely S where
  rel _ a b := a = b
  refl _ _ := rfl
  trans h h' := h.trans h'
  anti _ h := h

/-- The event is an operation of call `t`. -/
def Event.IsStep (t : ℕ) (e : Event Q) : Prop := ∃ n, e = .step t n

/-- Nobody but `t` holds a lock. -/
def Sys.Free (s : Sys S E A Q) (t : ℕ) : Prop := ∀ u c, s.call u = some c → u ≠ t → c.held = []

/-- The keys a program draws do not run out. -/
def Prog.Draws : Prog S E α → Prop
  | .ret _ | .fail _ => True
  | .view k => ∀ d, (k d).Draws
  | .lock _ _ k | .write _ k | .commit k | .rollback _ k => k.Draws
  | .fresh _ key k => Function.Injective key ∧ ∀ n, (k n).Draws
  | .pick k => ∀ n, (k n).Draws

theorem Prog.Draws.handle {ok : α → Prog S E β} {err : E → Prog S E β} {p : Prog S E α}
    (h : p.Draws)
    (hok : ∀ a, (ok a).Draws) (herr : ∀ e, (err e).Draws) : (p.handle ok err).Draws := by
  induction p with
  | ret a => exact hok a
  | fail e => exact herr e
  | view k ih => exact fun d => ih d (h d)
  | lock r m k ih => exact ih h
  | fresh t key k ih => exact ⟨h.1, fun n => ih n (h.2 n)⟩
  | pick k ih => exact fun n => ih n (h n)
  | write w k ih => exact ih h
  | commit k ih => exact ih h
  | rollback e k ih => exact ih h

theorem Prog.Draws.bind {p : Prog S E α} {k : α → Prog S E β} (h : p.Draws)
    (hk : ∀ a, (k a).Draws) :
    (p >>= k).Draws :=
  h.handle hk fun _ => trivial

section draws
variable {t : S.Tbl} {k : S.Key t} {e : E}

theorem Prog.Draws.ite {b : Prop} [Decidable b] {p p' : Prog S E α} (h : p.Draws) (h' : p'.Draws) :
    (if b then p else p').Draws := by
  split
  · exact h
  · exact h'

theorem Prog.draws_orFail (o : Option α) (e : E) : (Prog.orFail o e : Prog S E α).Draws := by
  cases o <;> trivial

theorem Prog.draws_ensure (b : Bool) (e : E) : (Prog.ensure b e : Prog S E Unit).Draws := by
  cases b <;> trivial

theorem Prog.draws_checked (r : Except E α) : (Prog.checked r : Prog S E α).Draws := by
  cases r <;> trivial

theorem Prog.draws_references : (Prog.references t k e).Draws :=
  Draws.bind (fun _ => trivial) fun o => by cases o <;> trivial

theorem Prog.draws_selectFor (t : S.Tbl) (k : S.Key t) (p : S.Row t → Bool) (m : Mode) :
    (Prog.selectFor t k p m : Prog S E _).Draws := by
  refine Draws.bind (p := Prog.read _) (fun _ => trivial) fun r => ?_
  cases r.filter p with
  | none => trivial
  | some _ => exact fun _ => trivial

theorem Prog.Draws.each {f : α → Prog S E β} (h : ∀ a, (f a).Draws) : ∀ l, (Prog.each f l).Draws
  | [] => trivial
  | a :: l => (h a).bind fun _ => (Draws.each h l).bind fun _ => trivial

theorem Prog.Draws.atomically {p : Prog S E α} (h : p.Draws) : p.atomically.Draws :=
  h.handle (fun _ => trivial) fun _ => trivial

end draws

/-! ## Calls that have ended -/

/-- A program that ends with no transaction open; `b`: one may be open now. -/
def Prog.Tidy : Bool → Prog S E α → Prop
  | b, .ret _ | b, .fail _ => b = false
  | b, .view k => ∀ d, (k d).Tidy b
  | _, .lock _ _ k | _, .write _ k => k.Tidy true
  | _, .fresh _ _ k => ∀ n, (k n).Tidy true
  | b, .pick k => ∀ n, (k n).Tidy b
  | _, .commit k | _, .rollback _ k => k.Tidy false

namespace Prog.Tidy

variable {ok : α → Prog S E β} {err : E → Prog S E β} {p : Prog S E α} {b : Bool}

/-- Whatever `p` leaves open, what comes after it ends. -/
theorem handle_any (hok : ∀ a b, (ok a).Tidy b) (herr : ∀ e b, (err e).Tidy b) :
    (p.handle ok err).Tidy b := by
  induction p generalizing b with
  | ret a => exact hok a b
  | fail e => exact herr e b
  | view k ih => exact fun d => ih d
  | lock r m k ih => exact ih
  | fresh t key k ih => exact fun n => ih n
  | pick k ih => exact fun n => ih n
  | write w k ih => exact ih
  | commit k ih => exact ih
  | rollback e k ih => exact ih

theorem handle (h : p.Tidy b) (hok : ∀ a, (ok a).Tidy false) (herr : ∀ e, (err e).Tidy false) :
    (p.handle ok err).Tidy b := by
  induction p generalizing b with
  | ret a => rw [show b = false from h]; exact hok a
  | fail e => rw [show b = false from h]; exact herr e
  | view k ih => exact fun d => ih d (h d)
  | lock r m k ih => exact ih h
  | fresh t key k ih => exact fun n => ih n (h n)
  | pick k ih => exact fun n => ih n (h n)
  | write w k ih => exact ih h
  | commit k ih => exact ih h
  | rollback e k ih => exact ih h

theorem bind {k : α → Prog S E β} (h : p.Tidy b) (hk : ∀ a, (k a).Tidy false) : (p >>= k).Tidy b :=
  h.handle hk fun _ => rfl

theorem atomically : p.atomically.Tidy b :=
  handle_any (fun _ _ => rfl) fun _ _ => rfl

theorem checked (r : Except E α) : (Prog.checked r : Prog S E α).Tidy false := by
  cases r <;> exact rfl

end Prog.Tidy

section ended
variable {V : Service S E A Q} {ok : Sys S E A Q → Event Q → Sys S E A Q → Prop}
  {s s' : Sys S E A Q} {c c' : Call S E A Q}

/-- What holds of a call whose program is tidy: an open transaction will be ended. -/
def Call.Tidy (c : Call S E A Q) : Prop := ∃ b, c.prog.Tidy b ∧ (b = false → c.held = [])

theorem Call.Tidy.advance {busy : Res S → Mode → Bool} {n : ℕ} {d d' : Store S} (h : c.Tidy)
    (ha : c.advance busy n d = some (d', c')) : c'.Tidy := by
  obtain ⟨b, hb, hheld⟩ := h
  unfold Call.advance at ha
  split at ha
  · cases ha
  · cases ha
  case h_3 k hk => cases ha; rw [hk] at hb; exact ⟨b, hb _, hheld⟩
  case h_4 r m k hk =>
    split at ha
    · cases ha
    · cases ha; rw [hk] at hb; exact ⟨true, hb, fun h => (nomatch h)⟩
  case h_5 t key k hk =>
    simp only at ha
    split at ha
    · cases ha
    · cases ha; rw [hk] at hb; exact ⟨true, hb n, fun h => (nomatch h)⟩
  case h_6 k hk => cases ha; rw [hk] at hb; exact ⟨b, hb n, hheld⟩
  case h_7 w k hk => cases ha; rw [hk] at hb; exact ⟨true, hb, fun h => (nomatch h)⟩
  case h_8 k hk => cases ha; rw [hk] at hb; exact ⟨false, hb, fun _ => rfl⟩
  case h_9 e k hk => cases ha; rw [hk] at hb; exact ⟨false, hb, fun _ => rfl⟩

theorem reach_tidy (hV : ∀ q, (V.prog q).Tidy false) {d : Store S} (h : V.Reach ok (Sys.init d) s) :
    ∀ t c, s.call t = some c → c.Tidy := by
  induction h with
  | refl => intro t c hc; rw [Sys.call_init] at hc; cases hc
  | tail _ hst ih =>
    obtain ⟨e, he, -⟩ := hst
    intro u c' hu
    rcases step_cases he with ⟨t, q, -, -, rfl⟩ | ⟨t, n, c, c₁, d₁, -, hc, ha, rfl⟩ |
        ⟨t, c, -, hc, -, rfl⟩
    all_goals
      rw [Sys.call_set] at hu
      split at hu
    · cases hu; exact ⟨false, hV q, fun _ => rfl⟩
    · exact ih u c' hu
    · cases hu; exact (ih t c hc).advance ha
    · exact ih u c' hu
    · cases hu; exact ⟨false, rfl, fun _ => rfl⟩
    · exact ih u c' hu

/-- No call is in flight. -/
def Sys.Quiescent (s : Sys S E A Q) : Prop := ∀ t c, s.call t = some c → c.finished = true

/-- **Calls that have ended hold no locks.** -/
theorem Sys.Quiescent.free (hq : s.Quiescent) (hV : ∀ q, (V.prog q).Tidy false) {d : Store S}
    (h : V.Reach ok (Sys.init d) s)
    (t : ℕ) : s.Free t := by
  intro u c hu _
  obtain ⟨b, hb, hheld⟩ := reach_tidy hV h u c hu
  refine hheld ?_
  have hf := hq u c hu
  unfold Call.finished at hf
  cases hp : c.prog with
  | ret a => rw [hp] at hb; exact hb
  | fail e => rw [hp] at hb; exact hb
  | _ => rw [hp] at hf; cases hf

end ended

/-! ## Progress -/

/-- There is a key that two stores do not have and no lock is on. -/
theorem exists_key {t : S.Tbl} {key : ℕ → S.Key t} (hkey : Function.Injective key) (a b : Store S)
    (L : Locks (Res S)) :
    ∃ n, a.get t (key n) = none ∧ b.get t (key n) = none ∧ ∀ x ∈ L, x.1 ≠ .row t (key n) := by
  classical
  have hinj : Function.Injective fun n => Res.row t (key n) := by
    intro m n h
    cases hm : Res.row t (key m) with
    | row t' k => exact hkey (by simpa using h)
    | uniq u => cases hm
  let used : List (Res S) := ((a t).keys ++ (b t).keys).map (Res.row t) ++ L.map Prod.fst
  obtain ⟨n, hn⟩ := Infinite.exists_notMem_finset (used.toFinset.preimage _ hinj.injOn)
  simp only [Finset.mem_preimage, List.mem_toFinset, used, List.mem_append, List.mem_map, not_or,
    not_exists, not_and] at hn
  obtain ⟨hk, hL⟩ := hn
  refine ⟨n, ?_, ?_, fun x hx hr => hL x hx hr⟩
  · exact AList.lookup_eq_none.2 fun hm => hk (key n) (.inl (AList.mem_keys.1 hm)) rfl
  · exact AList.lookup_eq_none.2 fun hm => hk (key n) (.inr (AList.mem_keys.1 hm)) rfl

variable {V : Service S E A Q} {s s' : Sys S E A Q} {c : Call S E A Q} {t : ℕ}

theorem Sys.Free.not_busy (h : s.Free t) (r : Res S) (m : Mode) : s.busy t r m = false := by
  simp only [Sys.busy, List.any_eq_false]
  rintro ⟨u, c⟩ hm
  by_cases hu : u = t
  · simp [hu]
  · simp [h u c (Table.mem_rows.1 hm) hu]

theorem Sys.Free.set (h : s.Free t) (c : Call S E A Q) (d : Store S) : (s.set t c d).Free t := by
  intro u c' hc hu
  rw [Sys.call_set_ne _ hu] at hc
  exact h u c' hc hu

/-- **A call that nobody stands in the way of finishes**, by its own operations. -/
theorem solo_finishes (hc : s.call t = some c) (hfree : s.Free t) (hdraw : c.prog.Draws) :
    ∃ s' c', V.Reach (fun _ e _ => e.IsStep t) s s' ∧ s'.call t = some c' ∧ c'.finished = true := by
  -- one operation, then the rest
  have hgo : ∀ {s : Sys S E A Q} {c c' : Call S E A Q} {n : ℕ} {d' : Store S}, s.call t = some c →
      c.advance (s.busy t) n s.db = some (d', c') →
      (∃ s' c'', V.Reach (fun _ e _ => e.IsStep t) (s.set t c' d') s' ∧ s'.call t = some c'' ∧
        c''.finished = true) →
      ∃ s' c'', V.Reach (fun _ e _ => e.IsStep t) s s' ∧ s'.call t = some c'' ∧
        c''.finished = true := by
    rintro s c c' n d' hc ha ⟨s', c'', hr, h⟩
    have he : V.step (.step t n) s = some (s.set t c' d') := by
      simp only [Service.step, hc, ha, Option.map_some]
    exact ⟨s', c'', .head ⟨.step t n, he, n, rfl⟩ hr, h⟩
  generalize hp : c.prog = p at hdraw
  induction p generalizing s c with
  | ret a => exact ⟨s, c, .refl, hc, by simp [Call.finished, hp]⟩
  | fail e => exact ⟨s, c, .refl, hc, by simp [Call.finished, hp]⟩
  | view k ih =>
    have ha : c.advance (s.busy t) 0 s.db = some (s.db, { c with prog := k (c.sees s.db) }) := by
      simp [Call.advance, hp]
    exact hgo hc ha (ih _ (c := { c with prog := k (c.sees s.db) }) (Sys.call_set_self ..)
      (hfree.set _ _) rfl (hdraw _))
  | lock r m k ih =>
    have ha : c.advance (s.busy t) 0 s.db =
        some (s.db, { c with prog := k, held := acquire c.held r m }) := by
      simp [Call.advance, hp, hfree.not_busy]
    exact hgo hc ha (ih (c := { c with prog := k, held := acquire c.held r m })
      (Sys.call_set_self ..) (hfree.set _ _) rfl hdraw)
  | fresh t' key k ih =>
    obtain ⟨n, h1, h2, h3⟩ := exists_key hdraw.1 s.db (c.sees s.db) c.held
    have hheld : (c.held.any fun x => x.1 = .row t' (key n)) = false := by
      rw [List.any_eq_false]
      intro x hx
      simpa using h3 x hx
    have ha : c.advance (s.busy t) n s.db =
        some (s.db,
          { c with prog := k n, held := acquire c.held (.row t' (key n)) .noKeyUpdate }) := by
      simp only [Call.advance, hp, h1, h2, hfree.not_busy, hheld]
      rfl
    exact hgo hc ha (ih n
      (c := { c with prog := k n, held := acquire c.held (.row t' (key n)) .noKeyUpdate })
      (Sys.call_set_self ..) (hfree.set _ _) rfl (hdraw.2 n))
  | pick k ih =>
    have ha : c.advance (s.busy t) 0 s.db = some (s.db, { c with prog := k 0 }) := by
      simp [Call.advance, hp]
    exact hgo hc ha (ih 0 (c := { c with prog := k 0 }) (Sys.call_set_self ..)
      (hfree.set _ _) rfl (hdraw 0))
  | write w k ih =>
    have ha : c.advance (s.busy t) 0 s.db =
        some (s.db, { c with prog := k, ws := c.ws ++ [w] }) := by
      simp [Call.advance, hp]
    exact hgo hc ha (ih (c := { c with prog := k, ws := c.ws ++ [w] }) (Sys.call_set_self ..)
      (hfree.set _ _) rfl hdraw)
  | commit k ih =>
    have ha : c.advance (s.busy t) 0 s.db = some (c.sees s.db, c.endTx k true) := by
      simp [Call.advance, hp]
    exact hgo hc ha (ih (c := c.endTx k true) (Sys.call_set_self ..) (hfree.set _ _) rfl hdraw)
  | rollback e k ih =>
    have ha : c.advance (s.busy t) 0 s.db = some (s.db, c.endTx k c.committed) := by
      simp [Call.advance, hp]
    exact hgo hc ha (ih (c := c.endTx k c.committed) (Sys.call_set_self ..)
      (hfree.set _ _) rfl hdraw)

/-! ## What it ends with -/

variable {R : Rely S} {O : Oblig S E} {Post : A → Pt S → Prop} {Err : E → Pt S → Prop}
  {D : Discipline S}

/-- A call stays tracked along its own operations. -/
theorem solo_tracked (h : V.Reach (fun _ e _ => e.IsStep t) s s') (hc : s.call t = some c)
    (htr : Tracked R O Post Err s.db c) : ∃ c', s'.call t = some c' ∧
      Tracked R O Post Err s'.db c' := by
  induction h with
  | refl => exact ⟨c, hc, htr⟩
  | @tail s₁ s₂ _ hst ih =>
    obtain ⟨e, he, n, rfl⟩ := hst
    obtain ⟨c₁, hc₁, htr₁⟩ := ih
    simp only [Service.step, hc₁] at he
    obtain ⟨⟨d', c'⟩, ha, rfl⟩ := Option.map_eq_some_iff.1 he
    exact ⟨c', Sys.call_set_self .., tracked_advance htr₁ ha⟩

/-- A new call, specified for the case that nobody else commits anything. -/
theorem tracked_still {q : Q} {d : Store S} (hO : ∀ σ w, O.write σ w → D.Covers σ.held w)
    (h : wp (D.under (.still S)) O Post Err (V.prog q) (.begin d d false)) :
    Tracked (D.under (.still S)).both O Post Err d (V.fresh q d) := by
  refine ⟨d, Rely.refl _ _ _, fun d' hd => ?_⟩
  obtain ⟨-, rfl⟩ := hd
  exact wp_track (D := D.under (.still S)) hO _ ⟨d, d, [], [], false⟩ (by simp) h

/-- A run of call `t` alone is its start and then its operations. -/
theorem solo_run {q : Q} (hnew : s.call t = none)
    (h : V.Reach (fun _ e _ => e = .start t q ∨ e.IsStep t) s s') :
    s' = s ∨ V.Reach (fun _ e _ => e.IsStep t) (s.set t (V.fresh q s.db) s.db) s' := by
  induction h with
  | refl => exact .inl rfl
  | tail _ hst ih =>
    obtain ⟨e, he, hok⟩ := hst
    rcases ih with rfl | hr
    · rcases hok with rfl | ⟨n, rfl⟩
      · simp only [Service.step, hnew] at he
        cases he
        exact .inr .refl
      · simp only [Service.step, hnew] at he
        cases he
    · rcases hok with rfl | hstep
      · obtain ⟨c, hc, -⟩ := reach_call hr (Sys.call_set_self ..)
        simp only [Service.step, hc] at he
        cases he
      · exact .inr (hr.tail ⟨e, he, hstep⟩)

/-- **A call that runs alone ends as its specification says.** -/
theorem solo_outcome {q : Q} (hnew : s.call t = none) (hO : ∀ σ w, O.write σ w → D.Covers σ.held w)
    (h : wp (D.under (.still S)) O Post Err (V.prog q) (.begin s.db s.db false))
    (hr : V.Reach (fun _ e _ => e = .start t q ∨ e.IsStep t) s s') (hc : s'.call t = some c)
    (hf : c.finished = true) :
    (∃ a σ, c.prog = .ret a ∧ Post a σ ∧ σ.start = s'.db) ∨ ∃ e σ, c.prog = .fail e ∧ Err e σ ∧
      σ.start = s'.db := by
  rcases solo_run hnew hr with rfl | hr
  · rw [hnew] at hc; cases hc
  obtain ⟨c₁, hc₁, htr⟩ := solo_tracked hr (Sys.call_set_self ..) (tracked_still hO h)
  rw [hc] at hc₁
  cases hc₁
  unfold Call.finished at hf
  cases hp : c.prog with
  | ret a =>
    obtain ⟨start, hs, hpost⟩ := htr.ret hp
    exact .inl ⟨a, _, rfl, hpost, hs.2⟩
  | fail e =>
    obtain ⟨start, hs, herr⟩ := htr.fail hp
    exact .inr ⟨e, _, rfl, herr, hs.2⟩
  | _ => rw [hp] at hf; cases hf

/-- **A call that runs alone does end.** -/
theorem solo_ends {q : Q} (hfree : s.Free t) (hnew : s.call t = none) (hdraw : (V.prog q).Draws) :
    ∃ s' c', V.Reach (fun _ e _ => e = .start t q ∨ e.IsStep t) s s' ∧ s'.call t = some c' ∧
      c'.finished = true := by
  have hstart : V.Step (fun _ e _ => e = .start t q ∨
      e.IsStep t) s (s.set t (V.fresh q s.db) s.db) :=
    ⟨.start t q, by simp only [Service.step, hnew], .inl rfl⟩
  obtain ⟨s', c', hr, hc', hf⟩ := solo_finishes (V := V) (s := s.set t (V.fresh q s.db) s.db)
    (Sys.call_set_self ..) (hfree.set _ _) hdraw
  exact ⟨s', c', .head hstart (hr.mono fun _ _ _ h => .inr h), hc', hf⟩

/-! ## Rules -/

/-- The point's store is the committed one under its writes. -/
def Pt.Laid (σ : Pt S) : Prop := σ.db = Store.overlay σ.ws σ.now

theorem Pt.laid_begin (d : Store S) (b : Bool) : (Pt.begin d d b).Laid := rfl

theorem Pt.Laid.grant {σ : Pt S} (h : σ.Laid) (r : Res S) (m : Mode) : (σ.grant r m).Laid := h

theorem Pt.Laid.write {σ : Pt S} (h : σ.Laid) (w : Write S) : (σ.write w).Laid := by
  unfold Pt.Laid at h ⊢
  rw [Pt.write_db, Pt.write_ws, Pt.write_now, Store.overlay_append, ← h]
  rfl

namespace Yields

variable {σ : Pt S} {F : E → Prop}

/-- A read shows the store as it is. -/
theorem read_still {R : α → Pt S → Prop} {q : Store S → α} (hσ : σ.Laid) (h : R (q σ.db) σ) :
    Yields (D.under (.still S)) O σ (Prog.read q) F R := by
  refine Yields.snapshot fun v₀ _ _ hv => ?_
  have hnow : v₀ = σ.now := hv
  rw [hnow, ← hσ]
  exact h

/-- A row found and locked is the row as it is; there is none only if there is none. -/
theorem selectFor_still {t : S.Tbl} {k : S.Key t} {p : S.Row t → Bool} {m : Mode} (hσ : σ.Laid)
    (hl : O.lock σ (.row t k) m) :
    Yields (D.under (.still S)) O σ (Prog.selectFor t k p m) F fun r σ' =>
      r = (σ.db.get t k).filter p ∧ σ'.Laid ∧
      σ'.db = σ.db ∧ (r.isSome = true → Holds σ'.held (.row t k) m) := by
  unfold Prog.selectFor
  refine Yields.bind (R := fun r σ' => r = σ.db.get t k ∧ σ' = σ)
    (read_still hσ ⟨rfl, rfl⟩) fun r σ₁ _ ⟨hr, h₁⟩ => ?_
  subst h₁
  subst hr
  cases hf : (σ₁.db.get t k).filter p with
  | none => exact .pure ⟨rfl, hσ, rfl, fun h => (nomatch h)⟩
  | some row =>
    refine Yields.bind (Yields.lockRes hl) fun _ σ₂ _ h₂ => ?_
    have hσ₂ : σ₂.Laid := by rw [h₂]; exact hσ.grant _ _
    refine Yields.bind (R := fun r σ' => r = σ₂.db.get t k ∧ σ' = σ₂)
      (read_still hσ₂ ⟨rfl, rfl⟩) fun r σ₃ _ ⟨hr, h₃⟩ => ?_
    subst h₃
    refine .pure ⟨?_, hσ₂, by rw [h₂]; rfl, fun _ => by rw [h₂]; exact holds_acquire _ _ _⟩
    rw [hr, h₂, Pt.grant_db, hf]

/-- An entry of a unique index is taken as the store has it. -/
theorem claim_still {r : Res S} {taken : Store S → Bool} (hσ : σ.Laid) (hl : O.lock σ r .update) :
    Yields (D.under (.still S)) O σ (Prog.claim r taken) F fun b σ' => σ' = σ.grant r .update ∧
    b = taken σ.db := by
  unfold Prog.claim
  refine Yields.bind (Yields.lockRes hl) fun _ σ₁ _ h₁ =>
    read_still (by rw [h₁]; exact hσ.grant _ _) ?_
  rw [h₁]
  exact ⟨rfl, rfl⟩

/-- The row a foreign key names is there. -/
theorem references_still {t : S.Tbl} {k : S.Key t} {e : E} (hσ : σ.Laid)
    (hk : (σ.db.get t k).isSome = true)
    (hl : O.lock σ (.row t k) .keyShare) :
    Yields (D.under (.still S)) O σ (Prog.references t k e) F fun _ σ' =>
      σ' = σ.grant (.row t k) .keyShare := by
  unfold Prog.references
  refine Yields.bind (R := fun r σ' => r = σ.db.get t k ∧ σ' = σ)
    (read_still hσ ⟨rfl, rfl⟩) fun r σ₁ _ ⟨hr, h₁⟩ => ?_
  subst h₁
  cases r with
  | none => rw [← hr] at hk; cases hk
  | some row => exact Yields.lockRes hl

end Yields

end Txn
