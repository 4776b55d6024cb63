import DreamFly.Txn.Discipline

/-!
# A program logic for transactions

`wp` reasons about a transaction as if it ran alone on the store committed when
it ends, except that a read shows that store only as far as the held locks
vouch for it (`Discipline.rel`). There is no interference to think about between
two operations: it is all in the reads. `wp_track` is the soundness of this view
against the interleaved reading of `track`.
-/

namespace Txn

variable {S : Schema} {E α β : Type}

namespace Pt

/-- One more lock. -/
def grant (σ : Pt S) (r : Res S) (m : Mode) : Pt S := { σ with held := acquire σ.held r m }

/-- One more pending write. -/
def write (σ : Pt S) (w : Write S) : Pt S := { σ with db := σ.db.apply w, ws := σ.ws ++ [w] }

/-- The beginning of a transaction that ends when `d` is committed. -/
def begin (start d : Store S) (committed : Bool) : Pt S := ⟨start, d, d, [], [], committed⟩

variable (σ : Pt S) (r : Res S) (m : Mode) (w : Write S)

@[simp] theorem grant_start : (σ.grant r m).start = σ.start := rfl
@[simp] theorem grant_now : (σ.grant r m).now = σ.now := rfl
@[simp] theorem grant_db : (σ.grant r m).db = σ.db := rfl
@[simp] theorem grant_ws : (σ.grant r m).ws = σ.ws := rfl
@[simp] theorem grant_held : (σ.grant r m).held = acquire σ.held r m := rfl
@[simp] theorem grant_committed : (σ.grant r m).committed = σ.committed := rfl
@[simp] theorem write_start : (σ.write w).start = σ.start := rfl
@[simp] theorem write_now : (σ.write w).now = σ.now := rfl
@[simp] theorem write_db : (σ.write w).db = σ.db.apply w := rfl
@[simp] theorem write_ws : (σ.write w).ws = σ.ws ++ [w] := rfl
@[simp] theorem write_held : (σ.write w).held = σ.held := rfl
@[simp] theorem write_committed : (σ.write w).committed = σ.committed := rfl

end Pt

/-- The weakest condition under which a program meets its obligations from `σ` on
and ends as `Q` or `X` say. -/
def wp (D : Discipline S) (O : Oblig S E) (Q : α → Pt S → Prop) (X : E → Pt S → Prop) :
    Prog S E α → Pt S → Prop
  | .ret a, σ => Q a σ
  | .fail e, σ => X e σ
  | .view k, σ => ∀ v, D.rel [] σ.start v → D.rel σ.held v σ.db →
      (∃ v₀, v = Store.overlay σ.ws v₀ ∧ D.more.rel σ.held v₀ σ.now) → wp D O Q X (k v) σ
  | .lock r m k, σ => (¬ Holds σ.held r m → O.lock σ r m) ∧ wp D O Q X k (σ.grant r m)
  | .fresh t key k, σ => ∀ n, σ.now.get t (key n) = none → σ.db.get t (key n) = none →
      (∀ m, (.row t (key n), m) ∉ σ.held) → wp D O Q X (k n) (σ.grant (.row t (key n)) .noKeyUpdate)
  | .pick k, σ => ∀ n, wp D O Q X (k n) σ
  | .write w k, σ => O.write σ w ∧ wp D O Q X k (σ.write w)
  | .commit k, σ => O.commit σ ∧ ∀ d, D.rel [] σ.db d → wp D O Q X k (.begin σ.db d true)
  | .rollback e k, σ => O.rollback e σ ∧ ∀ d, D.rel [] σ.now d →
      wp D O Q X k (.begin σ.now d σ.committed)

variable {D : Discipline S} {O : Oblig S E} {Q Q' : α → Pt S → Prop} {X X' : E → Pt S → Prop}

/-- **Commit-time reasoning is sound.** -/
theorem wp_track (hO : ∀ σ w, O.write σ w → D.Covers σ.held w) (p : Prog S E α) :
    ∀ σ : Raw S, (∀ w ∈ σ.ws, D.Covers σ.held w) → wp D O Q X p σ.pt →
      track D.both O Q X p σ := by
  induction p with
  | ret a => exact fun σ _ h => h
  | fail e => exact fun σ _ h => h
  | view k ih =>
    intro σ hw h d hs hd
    -- others have changed only what the call's own locks leave free
    refine ih _ σ hw (h _ ?_ ?_ ⟨d, rfl, hd.2⟩)
    · exact D.trans hs.1 (D.rel_overlay (compat_nil _) hw d)
    · exact D.rel_overlay_own hw hd.1
  | lock r m k ih =>
    intro σ hw h
    exact ⟨h.1, ih _ (fun w hm => (hw w hm).mono (subset_acquire _ _ _)) h.2⟩
  | fresh t key k ih =>
    intro σ hw h n d hd hn hn' hh
    have hw' : ∀ w ∈ σ.ws, D.Covers (acquire σ.held (.row t (key n)) .noKeyUpdate) w :=
      fun w hm => (hw w hm).mono (subset_acquire _ _ _)
    have hk : Holds (acquire σ.held (Res.row t (key n)) .noKeyUpdate) (.row t (key n)) .share :=
      (holds_acquire _ _ _).weaken (by decide)
    refine ih n _ hw' (h n ?_ ?_ hh)
    · exact (D.same hd.1 t (key n) hk).symm.trans hn
    · exact (D.same (D.rel_overlay_own hw' hd.1) t (key n) hk).symm.trans hn'
  | pick k ih => exact fun σ hw h n => ih n σ hw (h n)
  | write w k ih =>
    intro σ hw h
    refine ⟨h.1, ih _ ?_ ?_⟩
    · intro x hx
      rcases List.mem_append.1 hx with hx | hx
      · exact hw x hx
      · rw [List.mem_singleton.1 hx]; exact hO _ _ h.1
    · have he : ({ σ with ws := σ.ws ++ [w] } : Raw S).pt = σ.pt.write w := by
        simp only [Raw.pt, Pt.write, Store.overlay_append, Store.overlay_cons, Store.overlay_nil]
      rw [he]
      exact h.2
  | commit k ih =>
    intro σ _ h
    exact ⟨h.1, fun d hd => ih _ (by simp) (h.2 d hd.1)⟩
  | rollback e k ih =>
    intro σ _ h
    exact ⟨h.1, fun d hd => ih _ (by simp) (h.2 d hd.1)⟩

theorem wp_mono (hQ : ∀ a σ, Q a σ → Q' a σ) (hX : ∀ e σ, X e σ → X' e σ) (p : Prog S E α) :
    ∀ σ, wp D O Q X p σ → wp D O Q' X' p σ := by
  induction p with
  | ret a => exact fun σ h => hQ a σ h
  | fail e => exact fun σ h => hX e σ h
  | view k ih => exact fun σ h v hs hv hm => ih v σ (h v hs hv hm)
  | lock r m k ih => exact fun σ h => ⟨h.1, ih _ h.2⟩
  | fresh t key k ih => exact fun σ h n h1 h2 h3 => ih n _ (h n h1 h2 h3)
  | pick k ih => exact fun σ h n => ih n σ (h n)
  | write w k ih => exact fun σ h => ⟨h.1, ih _ h.2⟩
  | commit k ih => exact fun σ h => ⟨h.1, fun d hd => ih _ (h.2 d hd)⟩
  | rollback e k ih => exact fun σ h => ⟨h.1, fun d hd => ih _ (h.2 d hd)⟩

/-- What holds on the discipline alone holds where the runs respect more. -/
theorem wp_under {K : Rely S} (hK : ∀ L a b, D.more.rel L a b) (p : Prog S E α) :
    ∀ σ, wp D O Q X p σ → wp (D.under K) O Q X p σ := by
  induction p with
  | ret a => exact fun σ h => h
  | fail e => exact fun σ h => h
  | view k ih =>
    exact fun σ h v hs hv hm => ih v σ (h v hs hv (hm.imp fun v₀ hv₀ => ⟨hv₀.1, hK _ _ _⟩))
  | lock r m k ih => exact fun σ h => ⟨h.1, ih _ h.2⟩
  | fresh t key k ih => exact fun σ h n h1 h2 h3 => ih n _ (h n h1 h2 h3)
  | pick k ih => exact fun σ h n => ih n σ (h n)
  | write w k ih => exact fun σ h => ⟨h.1, ih _ h.2⟩
  | commit k ih => exact fun σ h => ⟨h.1, fun d hd => ih _ (h.2 d hd)⟩
  | rollback e k ih => exact fun σ h => ⟨h.1, fun d hd => ih _ (h.2 d hd)⟩

/-- A program that meets its obligations meets weaker ones. -/
theorem wp_oblig {O' : Oblig S E} (hw : ∀ σ w, O.write σ w → O'.write σ w)
    (hl : ∀ σ r m, O.lock σ r m → O'.lock σ r m)
    (hc : ∀ σ, O.commit σ → O'.commit σ) (hr : ∀ e σ, O.rollback e σ → O'.rollback e σ)
    (p : Prog S E α) :
    ∀ σ, wp D O Q X p σ → wp D O' Q X p σ := by
  induction p with
  | ret a => exact fun σ h => h
  | fail e => exact fun σ h => h
  | view k ih => exact fun σ h v hs hv hm => ih v σ (h v hs hv hm)
  | lock r m k ih => exact fun σ h => ⟨fun hn => hl _ _ _ (h.1 hn), ih _ h.2⟩
  | fresh t key k ih => exact fun σ h n h1 h2 h3 => ih n _ (h n h1 h2 h3)
  | pick k ih => exact fun σ h n => ih n σ (h n)
  | write w k ih => exact fun σ h => ⟨hw _ _ h.1, ih _ h.2⟩
  | commit k ih => exact fun σ h => ⟨hc _ h.1, fun d hd => ih _ (h.2 d hd)⟩
  | rollback e k ih => exact fun σ h => ⟨hr _ _ h.1, fun d hd => ih _ (h.2 d hd)⟩

/-! ## Rules -/

theorem wp_handle {Q : β → Pt S → Prop} (ok : α → Prog S E β) (err : E → Prog S E β)
    (p : Prog S E α) : ∀ σ, wp D O Q X (p.handle ok err) σ ↔
      wp D O (fun a => wp D O Q X (ok a)) (fun e => wp D O Q X (err e)) p σ := by
  induction p with
  | ret a => exact fun σ => Iff.rfl
  | fail e => exact fun σ => Iff.rfl
  | view k ih =>
    exact fun σ => forall_congr' fun v => imp_congr_right fun _ => imp_congr_right fun _ =>
      imp_congr_right fun _ => ih v σ
  | lock r m k ih => exact fun σ => and_congr_right fun _ => ih _
  | fresh t key k ih =>
    exact fun σ => forall_congr' fun n => imp_congr_right fun _ => imp_congr_right fun _ =>
      imp_congr_right fun _ => ih n _
  | pick k ih => exact fun σ => forall_congr' fun n => ih n σ
  | write w k ih => exact fun σ => and_congr_right fun _ => ih _
  | commit k ih =>
    exact fun σ => and_congr_right fun _ => forall_congr' fun d => imp_congr_right fun _ => ih _
  | rollback e k ih =>
    exact fun σ => and_congr_right fun _ => forall_congr' fun d => imp_congr_right fun _ => ih _

@[simp] theorem wp_bind {Q : β → Pt S → Prop} (p : Prog S E α) (k : α → Prog S E β) (σ : Pt S) :
    wp D O Q X (p >>= k) σ ↔ wp D O (fun a => wp D O Q X (k a)) X p σ :=
  wp_handle k .fail p σ

@[simp] theorem wp_pure (a : α) (σ : Pt S) : wp D O Q X (pure a) σ ↔ Q a σ := Iff.rfl

@[simp] theorem wp_ret (a : α) (σ : Pt S) : wp D O Q X (.ret a) σ ↔ Q a σ := Iff.rfl

@[simp] theorem wp_fail (e : E) (σ : Pt S) : wp D O Q X (.fail e) σ ↔ X e σ := Iff.rfl

@[simp] theorem wp_throw (e : E) (σ : Pt S) : wp D O Q X (throw e) σ ↔ X e σ := Iff.rfl

theorem wp_atomically (p : Prog S E α) (σ : Pt S) :
    wp D O Q X p.atomically σ ↔
      wp D O (fun a σ' => O.commit σ' ∧ ∀ d, D.rel [] σ'.db d → Q a (.begin σ'.db d true))
        (fun e σ' => O.rollback (some e) σ' ∧ ∀ d, D.rel [] σ'.now d →
          X e (.begin σ'.now d σ'.committed)) p σ :=
  wp_handle _ _ p σ

theorem wp_orFail {o : Option α} {e : E} {σ : Pt S} (h : ∀ a, o = some a → Q a σ)
    (hx : o = none → X e σ) : wp D O Q X (Prog.orFail o e) σ := by
  cases o with
  | none => exact hx rfl
  | some a => exact h a rfl

theorem wp_ensure {c : Bool} {e : E} {Q : Unit → Pt S → Prop} {σ : Pt S} (h : c = true → Q () σ)
    (hx : c = false → X e σ) : wp D O Q X (Prog.ensure c e) σ := by
  cases c with
  | false => exact hx rfl
  | true => exact h rfl

theorem wp_checked {r : Except E α} {σ : Pt S} (h : ∀ a, r = .ok a → Q a σ)
    (hx : ∀ e, r = .error e → X e σ) : wp D O Q X (Prog.checked r) σ := by
  cases r with
  | ok a => exact h a rfl
  | error e => exact hx e rfl

theorem wp_checked_bind {r : Except E α} {k : α → Prog S E β} {Q : β → Pt S → Prop} {σ : Pt S}
    (h : ∀ a, r = .ok a → wp D O Q X (k a) σ) (hx : ∀ e, r = .error e → X e σ) :
    wp D O Q X (Prog.checked r >>= k) σ :=
  (wp_bind _ _ σ).2 (wp_checked h hx)

/-- A loop: `I` holds of what is done and what is left at every turn. -/
theorem wp_each {f : α → Prog S E β} {Q : List β → Pt S → Prop}
    (I : List β → List α → Pt S → Prop)
    (hstep : ∀ done a rest σ, I done (a :: rest) σ →
      wp D O (fun b => I (done ++ [b]) rest) X (f a) σ)
    {l : List α} {σ : Pt S} (h0 : I [] l σ) (hQ : ∀ bs σ, I bs [] σ → Q bs σ) :
    wp D O Q X (Prog.each f l) σ := by
  suffices H : ∀ (l : List α) (done : List β) (σ : Pt S), I done l σ →
      wp D O (fun bs σ' => Q (done ++ bs) σ') X (Prog.each f l) σ by simpa using H l [] σ h0
  intro l
  induction l with
  | nil => intro done σ hI; simpa [Prog.each] using hQ done σ hI
  | cons a rest ih =>
    intro done σ hI
    rw [Prog.each, wp_bind]
    refine wp_mono (fun b σ' hb => ?_) (fun _ _ h => h) _ _ (hstep done a rest σ hI)
    rw [wp_bind]
    exact wp_mono (fun bs σ'' h => by simpa using h) (fun _ _ h => h) _ _ (ih (done ++ [b]) σ' hb)

end Txn
