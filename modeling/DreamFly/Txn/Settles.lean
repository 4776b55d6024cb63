import DreamFly.Lists.Groups
import DreamFly.Txn.Yields

/-!
# Pieces of a transaction that compute

`Settles` is the specification of a piece that stays within its transaction: it neither
commits nor rolls back, and it takes no lock it does not have, so it waits for nobody.
Results and errors are judged alike, which lets a piece be compared with a function of the
rows its transaction holds. `Settles.each` does so for loops.
-/

namespace Txn

variable {S : Schema} {E α β : Type}

/-- Covered writes only; no lock that is not held yet, no end of the transaction. -/
def Oblig.inside (D : Discipline S) : Oblig S E where
  write σ w := D.Covers σ.held w
  lock _ _ _ := False
  commit _ := False
  rollback _ _ := False

/-- From `σ` on, whatever the other transactions do meanwhile, `p` ends as `P` says. -/
def Settles (D : Discipline S) (σ : Pt S) (p : Prog S E α) (P : Except E α → Pt S → Prop) : Prop :=
  wp D (.inside D) (fun a => P (.ok a)) (fun e => P (.error e)) p σ

variable {D : Discipline S} {σ : Pt S} {p : Prog S E α} {P P' : Except E α → Pt S → Prop}

namespace Settles

theorem imp (h : Settles D σ p P) (hP : ∀ r σ', P r σ' → P' r σ') : Settles D σ p P' :=
  wp_mono (fun a => hP (.ok a)) (fun e => hP (.error e)) p σ h

theorem ret {a : α} (h : P (.ok a) σ) : Settles D σ (.ret a) P := h

theorem fail {e : E} (h : P (.error e) σ) : Settles D σ (.fail e : Prog S E α) P := h

theorem bind {k : α → Prog S E β} {R : Except E β → Pt S → Prop} (h : Settles D σ p P)
    (hk : ∀ a σ', P (.ok a) σ' → Settles D σ' (k a) R) (he : ∀ e σ', P (.error e) σ' →
      R (.error e) σ') :
    Settles D σ (p >>= k) R := by
  unfold Settles
  rw [wp_bind]
  exact wp_mono (fun a σ' ha => hk a σ' ha) (fun e σ' he' => he e σ' he') p σ h

/-- UPDATE of a row that is locked already. -/
theorem updateRow {t : S.Tbl} {k : S.Key t} {p : S.Row t → Bool} {f : S.Row t → S.Row t}
    {P : Except E (Option (S.Row t)) → Pt S → Prop}
    (hh : Holds σ.held (.row t k) .noKeyUpdate) (hc : D.Covers σ.held (.mod t k (onlyIf p f)))
    (hn : (σ.db.get t k).filter p = none → P (.ok none) σ)
    (h : ∀ r, σ.db.get t k = some r → p r = true → P (.ok (some (f r)))
      (σ.write (.mod t k (onlyIf p f)))) :
    Settles D σ (Prog.updateRow t k p f) P :=
  wp_updateRow_held hh hn fun r hr hp => ⟨hc, h r hr hp⟩

/-- A loop whose every turn computes `g`, and keeps `I` of the turns so far. -/
theorem each {f : α → Prog S E β} {g : α → Except E β} {I : List α → Pt S → Prop} {l : List α}
    (hstep : ∀ done a rest σ', l = done ++ a :: rest → I done σ' →
      Settles D σ' (f a) fun r σ'' => r = g a ∧ (∀ b, r = .ok b → I (done ++ [a]) σ'') ∧
      ∀ e, r = .error e → I done σ'')
    (h : I [] σ) :
    Settles D σ (Prog.each f l) fun r σ' => r = l.mapM g ∧ (∀ bs, r = .ok bs → I l σ') ∧
      ∀ e, r = .error e → ∃ done a rest, l = done ++ a :: rest ∧ (∀ x ∈ done, ∃ b, g x = .ok b) ∧
        g a = .error e ∧ I done σ' := by
  -- along the loop: what is done has been computed by `g`
  refine wp_each (fun bs rest σ' => ∃ done, l = done ++ rest ∧ done.mapM g = .ok bs ∧
    I done σ') ?_ ?_ ?_
  · rintro bs a rest σ' ⟨done, hl, hbs, hI⟩
    refine wp_mono (fun b σ'' hb => ?_) (fun e σ'' he => ?_) _ _ (hstep done a rest σ' hl hI)
    · obtain ⟨hg, hok, -⟩ := hb
      refine ⟨done ++ [a], by simp [hl], ?_, hok b rfl⟩
      rw [List.mapM_append, hbs, List.mapM_cons, ← hg]
      rfl
    · obtain ⟨hg, -, herr⟩ := he
      refine ⟨?_, fun _ h => (nomatch h), fun e' he' => ?_⟩
      · rw [hl, List.mapM_append, hbs, List.mapM_cons, ← hg]
        rfl
      · cases he'
        exact ⟨done, a, rest, hl, Lists.ok_of_mapM hbs, hg.symm, herr e rfl⟩
  · exact ⟨[], rfl, rfl, h⟩
  · rintro bs σ' ⟨done, hl, hbs, hI⟩
    rw [List.append_nil] at hl
    subst hl
    exact ⟨hbs.symm, fun _ _ => hI, fun _ h => (nomatch h)⟩

end Settles

end Txn
