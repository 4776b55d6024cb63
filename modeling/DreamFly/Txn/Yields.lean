import DreamFly.Txn.Sql
import DreamFly.Txn.Frame

/-!
# Specifications of pieces of a transaction

`Yields` is the form in which functions are specified: from `σ` on, the code ends
at a later point of the same transaction with what `R` says, or fails with an
error that `F` allows. Specifications compose along binds and loops.
-/

namespace Txn

variable {S : Schema} {E α β : Type}

theorem Pt.Later.holds {σ σ' : Pt S} {r : Res S} {m : Mode} (h : σ.Later σ')
    (hh : Holds σ.held r m) :
    Holds σ'.held r m := hh.mono h.held

/-- From `σ` on, `p` ends later in the transaction as `R` says, or fails as `F` says. -/
def Yields (D : Discipline S) (O : Oblig S E) (σ : Pt S) (p : Prog S E α) (F : E → Prop)
    (R : α → Pt S → Prop) : Prop :=
  wp D O (fun a σ' => σ.Later σ' ∧ R a σ') (fun e σ' => σ.Later σ' ∧ F e) p σ

variable {D : Discipline S} {O : Oblig S E} {σ : Pt S} {p : Prog S E α} {F F' : E → Prop}
  {R R' : α → Pt S → Prop}

namespace Yields

theorem imp (h : Yields D O σ p F R) (hR : ∀ a σ', σ.Later σ' → R a σ' → R' a σ')
    (hF : ∀ e, F e → F' e) : Yields D O σ p F' R' :=
  wp_mono (fun a σ' h => ⟨h.1, hR a σ' h.1 h.2⟩) (fun e _ h => ⟨h.1, hF e h.2⟩) p σ h

/-- A specification, used where its result is judged by `Q` and `X`. -/
theorem wp {Q : α → Pt S → Prop} {X : E → Pt S → Prop} (h : Yields D O σ p F R)
    (hQ : ∀ a σ', σ.Later σ' → R a σ' → Q a σ') (hX : ∀ e σ', σ.Later σ' → F e → X e σ') :
    Txn.wp D O Q X p σ :=
  wp_mono (fun a σ' h => hQ a σ' h.1 h.2) (fun e σ' h => hX e σ' h.1 h.2) p σ h

theorem ret {a : α} (h : R a σ) : Yields D O σ (.ret a) F R := ⟨.refl σ, h⟩

theorem pure {a : α} (h : R a σ) : Yields D O σ (Pure.pure a) F R := ret h

theorem fail {e : E} (h : F e) : Yields D O σ (.fail e : Prog S E α) F R := ⟨.refl σ, h⟩

theorem throw {e : E} (h : F e) : Yields D O σ (MonadExcept.throw e : Prog S E α) F R := fail h

/-- A program that goes on from a later point. -/
theorem later {σ' : Pt S} (h : σ.Later σ') (hp : Yields D O σ' p F R) :
    Txn.wp D O (fun a σ'' => σ.Later σ'' ∧ R a σ'') (fun e σ'' => σ.Later σ'' ∧ F e) p σ' :=
  hp.wp (fun _ _ hl hr => ⟨h.trans hl, hr⟩) fun _ _ hl hf => ⟨h.trans hl, hf⟩

theorem bind {k : α → Prog S E β} {R' : β → Pt S → Prop} (h : Yields D O σ p F R)
    (hk : ∀ a σ', σ.Later σ' → R a σ' → Yields D O σ' (k a) F R') :
    Yields D O σ (p >>= k) F R' := by
  unfold Yields
  rw [wp_bind]
  exact h.wp (fun a σ' hl hr => later hl (hk a σ' hl hr)) fun _ _ hl hf => ⟨hl, hf⟩

/-- A specified piece at the head of code that goes on beyond this transaction. -/
theorem bind_wp {k : α → Prog S E β} {Q : β → Pt S → Prop} {X : E → Pt S → Prop}
    (h : Yields D O σ p F R)
    (hk : ∀ a σ', σ.Later σ' → R a σ' → Txn.wp D O Q X (k a) σ') (hX : ∀ e σ', σ.Later σ' →
      F e → X e σ') :
    Txn.wp D O Q X (p >>= k) σ := by
  rw [wp_bind]
  exact h.wp hk hX

theorem orFail {o : Option α} {e : E} (h : ∀ a, o = some a → R a σ) (hF : F e) :
    Yields D O σ (Prog.orFail o e) F R :=
  wp_orFail (fun a ha => ⟨.refl σ, h a ha⟩) fun _ => ⟨.refl σ, hF⟩

theorem ensure {c : Bool} {e : E} {R : Unit → Pt S → Prop} (h : c = true → R () σ) (hF : F e) :
    Yields D O σ (Prog.ensure c e) F R :=
  wp_ensure (fun hc => ⟨.refl σ, h hc⟩) fun _ => ⟨.refl σ, hF⟩

theorem checked {r : Except E α} (h : ∀ a, r = .ok a → R a σ) (hF : ∀ e, r = .error e → F e) :
    Yields D O σ (Prog.checked r) F R :=
  wp_checked (fun a ha => ⟨.refl σ, h a ha⟩) fun e he => ⟨.refl σ, hF e he⟩

theorem read {q : Store S → α}
    (h : ∀ v, D.rel [] σ.start v → D.rel σ.held v σ.db → R (q v) σ) :
    Yields D O σ (Prog.read q) F R :=
  wp_read fun v hs hv => ⟨.refl σ, h v hs hv⟩

/-- A read whose snapshot is judged by what the runs at hand respect. -/
theorem snapshot {q : Store S → α}
    (h : ∀ v₀, D.rel [] σ.start (Store.overlay σ.ws v₀) →
      D.rel σ.held (Store.overlay σ.ws v₀) σ.db →
      D.more.rel σ.held v₀ σ.now → R (q (Store.overlay σ.ws v₀)) σ) :
    Yields D O σ (Prog.read q) F R :=
  wp_snapshot fun v₀ hs hv hm => ⟨.refl σ, h v₀ hs hv hm⟩

/-- A specification under the discipline alone, used where the runs respect more. -/
theorem under {K : Rely S} (hK : ∀ L a b, D.more.rel L a b) (h : Yields D O σ p F R) :
    Yields (D.under K) O σ p F R := wp_under hK p σ h

/-- A loop, each of whose turns is a `P`-step. -/
theorem each {P : α × β → Store S → Store S → Prop} {f : α → Prog S E β} {l : List α}
    (h : ∀ done a rest bs σ', l = done ++ a :: rest → bs.length = done.length → σ.Later σ' →
      Chain P (done.zip bs) σ.db σ'.db →
      Yields D O σ' (f a) F fun b σ'' => P (a, b) σ'.db σ''.db) :
    Yields D O σ (Prog.each f l) F fun bs σ' =>
      bs.length = l.length ∧ Chain P (l.zip bs) σ.db σ'.db := by
  refine wp_each (fun bs rest σ' => σ.Later σ' ∧ ∃ done, l = done ++ rest ∧
    bs.length = done.length ∧ Chain P (done.zip bs) σ.db σ'.db) ?_ ?_ ?_
  · rintro bs a rest σ' ⟨hl, done, he, hn, hc⟩
    refine (h done a rest bs σ' he hn hl hc).wp (fun b σ'' hl' hp => ?_) fun _ _ hl' hf =>
      ⟨hl.trans hl', hf⟩
    refine ⟨hl.trans hl', done ++ [a], by simp [he], by simp [hn], ?_⟩
    rw [List.zip_append hn.symm]
    exact hc.snoc hp
  · exact ⟨.refl σ, [], rfl, rfl, rfl⟩
  · rintro bs σ' ⟨hl, done, he, hn, hc⟩
    rw [List.append_nil] at he
    subst he
    exact ⟨hl, hn, hc⟩

/-- A loop, by what holds of the part that is done. -/
theorem each_inv {f : α → Prog S E β} {l : List α} (I : List α → Pt S → Prop) (h0 : I [] σ)
    (h : ∀ done a rest σ', l = done ++ a :: rest → σ.Later σ' → I done σ' →
      Yields D O σ' (f a) F fun _ σ'' => I (done ++ [a]) σ'') :
    Yields D O σ (Prog.each f l) F fun _ σ' => I l σ' := by
  refine wp_each (fun _ rest σ' => σ.Later σ' ∧ ∃ done, l = done ++ rest ∧ I done σ') ?_ ⟨.refl σ,
    [], rfl, h0⟩ ?_
  · rintro _ a rest σ' ⟨hl, done, he, hi⟩
    refine (h done a rest σ' he hl hi).wp (fun _ σ'' hl' hi' => ?_) fun _ _ hl' hf =>
      ⟨hl.trans hl', hf⟩
    exact ⟨hl.trans hl', done ++ [a], by simp [he], hi'⟩
  · rintro _ σ' ⟨hl, done, he, hi⟩
    rw [List.append_nil] at he
    exact ⟨hl, he ▸ hi⟩

/-- A loop whose results nobody needs. -/
theorem each_unit {P : α → Store S → Store S → Prop} {f : α → Prog S E β} {l : List α}
    (h : ∀ a ∈ l, ∀ σ', σ.Later σ' → Yields D O σ' (f a) F fun _ σ'' => P a σ'.db σ''.db) :
    Yields D O σ (Prog.each f l) F fun _ σ' => Chain P l σ.db σ'.db := by
  refine (each (P := fun x => P x.1) fun done a rest bs σ' he _ hl _ =>
    h a (by simp [he]) σ' hl).imp (fun bs σ' _ ⟨hn, hc⟩ => ?_) fun _ h => h
  have hm := hc.map Prod.fst
  rwa [List.map_fst_zip (by omega)] at hm

section statements
variable {t : S.Tbl} {k : S.Key t} {m : Mode}

theorem lockRes {r : Res S} {m : Mode} (hl : O.lock σ r m) :
    Yields D O σ (Prog.lockRes r m) F fun _ σ' => σ' = σ.grant r m :=
  wp_lockRes (fun _ => hl) ⟨σ.later_grant r m, rfl⟩

theorem put {w : Write S} (hw : O.write σ w) :
    Yields D O σ (Prog.put w) F fun _ σ' => σ' = σ.write w :=
  wp_put hw ⟨σ.later_write w, rfl⟩

theorem references {e : E} (hl : O.lock σ (.row t k) .keyShare) (hF : F e) :
    Yields D O σ (Prog.references t k e) F fun _ σ' => σ' = σ.grant (.row t k) .keyShare :=
  wp_references (fun _ => hl) ⟨σ.later_grant _ _, rfl⟩ ⟨.refl σ, hF⟩

theorem claim {r : Res S} {taken : Store S → Bool} (hl : O.lock σ r .update) :
    Yields D O σ (Prog.claim r taken) F fun b σ' => σ' = σ.grant r .update ∧
      ∃ v, D.rel [] σ.start v ∧ D.rel σ'.held v σ.db ∧ b = taken v :=
  wp_claim (fun _ => hl) fun v hs hv => ⟨σ.later_grant _ _, rfl, v, hs, hv, rfl⟩

theorem insert {key : ℕ → S.Key t} {row : ℕ → S.Row t}
    (hw : ∀ n, O.write (σ.grant (.row t (key n)) .noKeyUpdate) (.add t (key n) (row n))) :
    Yields D O σ (Prog.insert t key row) F fun n σ' => σ.now.get t (key n) = none ∧
      σ.db.get t (key n) = none ∧ (∀ m, (.row t (key n), m) ∉ σ.held) ∧
      σ' = (σ.grant (.row t (key n)) .noKeyUpdate).write (.add t (key n) (row n)) :=
  wp_insert fun n h1 h2 h3 => ⟨hw n, (σ.later_grant _ _).trans (Pt.later_write _ _), h1,
    h2, h3, rfl⟩

theorem selectFor {p : S.Row t → Bool} (hm : 1 ≤ m.level) (hl : O.lock σ (.row t k) m) :
    Yields D O σ (Prog.selectFor t k p m) F fun r σ' => σ'.db = σ.db ∧
      ∀ row, r = some row → Holds σ'.held (.row t k) m ∧ σ.db.get t k = some row ∧
        p row = true := by
  refine wp_selectFor hm (fun _ _ _ _ _ _ _ => hl)
    (fun _ _ _ _ => ⟨.refl σ, rfl, fun _ h => (nomatch h)⟩)
      ⟨σ.later_grant _ _, rfl, fun row hr => ?_⟩
  obtain ⟨hg, hp⟩ := Option.filter_eq_some_iff.1 hr
  exact ⟨holds_acquire _ _ _, hg, hp⟩

theorem selectFor_held {p : S.Row t → Bool} (hm : 1 ≤ m.level) (hh : Holds σ.held (.row t k) m) :
    Yields D O σ (Prog.selectFor t k p m) F fun r σ' => σ' = σ ∧ r = (σ.db.get t k).filter p :=
  wp_selectFor_held hm hh ⟨.refl σ, rfl, rfl⟩

/-- UPDATE of one row. -/
theorem updateRow {p : S.Row t → Bool} {f : S.Row t → S.Row t}
    (hl : O.lock σ (.row t k) .noKeyUpdate)
    (hw : ∀ σ', σ.Later σ' → Holds σ'.held (.row t k) .noKeyUpdate →
      O.write σ' (.mod t k (onlyIf p f))) :
    Yields D O σ (Prog.updateRow t k p f) F fun r σ' => (r = none ∧ σ'.db = σ.db) ∨
      ∃ row, σ.db.get t k = some row ∧ p row = true ∧ r = some (f row) ∧
        Holds σ'.held (.row t k) .noKeyUpdate ∧
        σ'.db = σ.db.apply (.mod t k (onlyIf p f)) := by
  refine wp_updateRow (fun _ _ _ _ _ _ _ => hl) (fun _ _ _ _ => ⟨.refl σ, .inl ⟨rfl, rfl⟩⟩)
    (fun _ => ⟨σ.later_grant _ _, .inl ⟨rfl, rfl⟩⟩) fun row hr hp =>
      ⟨hw _ (σ.later_grant _ _) (holds_acquire _ _ _), ?_, ?_⟩
  · exact (σ.later_grant _ _).trans (Pt.later_write _ _)
  · exact .inr ⟨row, hr, hp, rfl, holds_acquire _ _ _, rfl⟩

/-- SELECT … FOR of several rows: what it found is what is there at the end, each
row locked. -/
theorem selectAllFor {p : S.Key t → S.Row t → Bool} {le : S.Key t × S.Row t →
    S.Key t × S.Row t → Bool}
    (hm : 1 ≤ m.level) (hl : ∀ σ' k, O.lock σ' (.row t k) m) :
    Yields D O σ (Prog.selectAllFor t p le m) F fun rs σ' => σ'.db = σ.db ∧
      (∃ v, D.rel [] σ.start v ∧ D.rel σ.held v σ.db ∧
        rs = σ.db.found t p (((v.sel t p).insertionSort (le · ·)).map Prod.fst)) ∧
      ∀ e ∈ rs, σ.db.get t e.1 = some e.2 ∧ p e.1 e.2 = true ∧ Holds σ'.held (.row t e.1) m := by
  refine wp_selectAllFor hm fun v hs hv ks hks =>
    ⟨fun _ _ _ _ _ => hl _ _, Pt.later_grants _ _ _ _, by simp,
    ⟨v, hs, hv, by rw [hks]⟩, ?_⟩
  rintro ⟨k, r⟩ he
  obtain ⟨hk, hg, hp⟩ := mem_found.1 he
  exact ⟨hg, hp, Pt.holds_grants hk σ⟩

/-- UPDATE of several rows. -/
theorem updateAll {p : S.Key t → S.Row t → Bool} {f : S.Row t → S.Row t}
    (hl : ∀ σ' k, O.lock σ' (.row t k) .noKeyUpdate)
    (hw : ∀ σ' k, σ.Later σ' → Holds σ'.held (.row t k) .noKeyUpdate →
      O.write σ' (.mod t k (onlyIf (p k) f))) :
    Yields D O σ (Prog.updateAll t p f) F fun rs σ' => Edited t p f σ.db σ'.db ∧
      ((∀ e ∈ rs, σ.db.get t e.1 = some e.2 ∧ p e.1 e.2 = true) ∧
        ∀ k, k ∉ rs.map Prod.fst → σ'.db.get t k = σ.db.get t k) ∧
      -- the rows that its snapshot showed are all among them
      ∃ v, D.rel [] σ.start v ∧ D.rel σ.held v σ.db ∧ ∀ k r r', v.get t k = some r → p k r = true →
        σ.db.get t k = some r' → p k r' = true → σ'.db.get t k = some (f r') := by
  refine wp_updateAll fun v hs hv ks hks => ?_
  have hget : ∀ k, ((σ.grants t .noKeyUpdate ks).writes
      ((σ.db.found t p ks).map fun e => .mod t e.1 (onlyIf (p e.1) f))).db.get t k =
      if k ∈ (σ.db.found t p ks).map Prod.fst then (σ.db.get t k).map (onlyIf (p k) f) else
        σ.db.get t k := by
    intro k
    have hd : ((σ.db.found t p ks).map Prod.fst).Nodup :=
      (found_keys_sublist _ _ _ _).nodup (hks.nodup_iff.2 (Store.sel_keys_nodup v t p))
    have he : (σ.db.found t p ks).map (fun e => Write.mod t e.1 (onlyIf (p e.1) f)) =
        ((σ.db.found t p ks).map Prod.fst).map fun k => .mod t k (onlyIf (p k) f) := by
        rw [List.map_map]; rfl
    rw [Pt.writes_db, Pt.grants_db, he, get_mods hd]
  refine ⟨fun _ _ _ _ _ _ _ _ => hl _ _, fun k r σ' _ hl hh _ _ => hw σ' k hl hh,
    (Pt.later_grants _ _ _ _).trans (Pt.later_writes _ _), ⟨?_, fun k => ?_⟩, ⟨?_, fun k hk => ?_⟩,
    v, hs, hv,
    fun k r r' hr hp hr' hp' => ?_⟩
  · rw [Pt.writes_db, Pt.grants_db]
    refine Only.writes (fun w hw => ?_) _
    obtain ⟨e, -, rfl⟩ := List.mem_map.1 hw
    simp [Write.tbl]
  · rw [hget]
    split
    · next hk =>
      obtain ⟨⟨k', r⟩, hm, rfl⟩ := List.mem_map.1 hk
      obtain ⟨-, hg, hp⟩ := mem_found.1 hm
      exact .inr ⟨r, hg, hp, by simp only [hg, Option.map_some, onlyIf_pos hp]⟩
    · exact .inl rfl
  · rintro ⟨k, r⟩ he
    exact (mem_found.1 he).2
  · rw [hget, if_neg hk]
  · have hk : k ∈ ks := hks.mem_iff.2 (List.mem_map.2 ⟨(k, r), Store.mem_sel.2 ⟨hr, hp⟩, rfl⟩)
    rw [hget, if_pos (List.mem_map.2 ⟨(k, r'), mem_found.2 ⟨hk, hr', hp'⟩, rfl⟩), hr',
      Option.map_some, onlyIf_pos hp']

/-- DELETE of several rows: the ones that its snapshot showed and that are still there. -/
theorem deleteAll {p : S.Key t → S.Row t → Bool}
    (hl : ∀ σ' k, O.lock σ' (.row t k) .update)
    (hw : ∀ σ' k, σ.Later σ' → Holds σ'.held (.row t k) .update → O.write σ' (.del t k)) :
    Yields D O σ (Prog.deleteAll t p) F fun rs σ' => Only [t] σ.db σ'.db ∧
      (∃ v₀, D.rel [] σ.start (Store.overlay σ.ws v₀) ∧ D.rel σ.held (Store.overlay σ.ws v₀) σ.db ∧
        D.more.rel σ.held v₀ σ.now ∧
        ∀ k r, (k, r) ∈ rs ↔ σ.db.get t k = some r ∧ p k r = true ∧
          ∃ r', (Store.overlay σ.ws v₀).get t k = some r' ∧ p k r' = true) ∧
      ∀ k, σ'.db.get t k = if k ∈ rs.map Prod.fst then none else σ.db.get t k := by
  refine wp_deleteAll fun v₀ hs hv hm ks hks => ⟨fun _ _ _ _ _ _ _ _ => hl _ _,
    fun k r σ' _ hl hh _ _ => hw σ' k hl hh,
    (Pt.later_grants _ _ _ _).trans (Pt.later_writes _ _), ?_, ⟨v₀, hs, hv, hm, fun k r => ?_⟩,
    fun k => ?_⟩
  · rw [Pt.writes_db, Pt.grants_db]
    refine Only.writes (fun w hw => ?_) _
    obtain ⟨e, -, rfl⟩ := List.mem_map.1 hw
    simp [Write.tbl]
  · have hk : k ∈ ks ↔ ∃ r', (Store.overlay σ.ws v₀).get t k = some r' ∧ p k r' = true := by
      rw [hks.mem_iff, List.mem_map]
      constructor
      · rintro ⟨⟨k', r⟩, hm, rfl⟩; exact ⟨r, Store.mem_sel.1 hm⟩
      · rintro ⟨r, hr⟩; exact ⟨(k, r), Store.mem_sel.2 hr, rfl⟩
    rw [mem_found, hk]
    exact ⟨fun h => ⟨h.2.1, h.2.2, h.1⟩, fun h => ⟨h.2.2, h.1, h.2.1⟩⟩
  · have he : (σ.db.found t p ks).map (fun e => Write.del t e.1) =
        ((σ.db.found t p ks).map Prod.fst).map fun k => .del t k := by rw [List.map_map]; rfl
    rw [Pt.writes_db, Pt.grants_db, he, get_dels]

end statements

end Yields

end Txn
