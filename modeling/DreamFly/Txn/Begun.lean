import DreamFly.Txn.Journal
import DreamFly.Txn.Plain
import DreamFly.Txn.Stages

/-!
# Where a commit's call began

A call reads stores that are gone when it commits. What its commit says of the store it began
on is tied to a place in the journal: the call began there, and what has changed since was
changed by an entry in between.

* `journal_begun`: each entry, and the store on which its call began.
* `Begun.changed`: the entry that has changed something in between.
* `journal_under`: entries of calls that the others have left something to rely on.
-/

namespace Txn

variable {S : Schema} {E A Q : Type} {V : Service S E A Q} {D : Discipline S}
  {Does : Q → Store S → Pt S → Prop}
  {ok : Sys S E A Q → Event Q → Sys S E A Q → Prop} {d : Store S} {s : Sys S E A Q}
    {γ : List (Entry S E A Q)}

/-- The call of the entry `x`, which comes after `γ`, began when `γ₀` had been committed, on `b`. -/
def BeganAt (V : Service S E A Q) (ok : Sys S E A Q → Event Q → Sys S E A Q → Prop) (d : Store S)
    (γ : List (Entry S E A Q))
    (x : Entry S E A Q) (γ₀ : List (Entry S E A Q)) (b : Store S) : Prop :=
  ∃ s₀ s₁, V.Journaled ok d s₀ γ₀ ∧ s₀.db = b ∧ s₀.call x.call = some (V.fresh x.req b) ∧
    V.RecReach journal ok (s₀, γ₀) (s₁, γ)

/-- The commit of a call that began on `b`, after the entries `γ₀`. -/
structure Begun (V : Service S E A Q) (ok : Sys S E A Q → Event Q → Sys S E A Q → Prop)
    (Does : Q → Store S → Pt S → Prop) (d : Store S)
    (γ : List (Entry S E A Q)) (x : Entry S E A Q) (γ₀ γ' : List (Entry S E A Q))
    (b : Store S) : Prop where
  split : γ = γ₀ ++ γ'
  began : BeganAt V ok d γ x γ₀ b
  start : Linked d γ₀ b
  since : Linked b γ' x.before
  does : ∃ σ : Pt S, σ.now = x.before ∧ σ.db = x.after ∧ Does x.req b σ

/-- **Each entry tells of the store on which its call began**, and that is one the run has
passed. -/
theorem journal_begun (hmore : ∀ L a b, D.more.rel L a b)
    (h : ∀ q b d', D.rel [] b d' → Commits D (Does q b) (V.prog q) (.begin b d' false))
    (hj : V.Journaled ok d s γ) :
    ∀ γ₁ x γ₂, γ = γ₁ ++ x :: γ₂ → ∃ γ₀ γ' b, Begun V ok Does d γ₁ x γ₀ γ' b := by
  have hany : ∀ q b d', D.rel [] b d' → Commits D (fun _ => True) (V.prog q) (.begin b d' false) :=
    fun q b d' hr => commits_imp (fun _ _ => trivial) (h q b d' hr)
  have hOK : ∀ {s₁}, V.Reach ok (Sys.init d) s₁ → s₁.OK (plainContract hany) :=
    fun hr => plain_ok hmore hr
  refine journaled_induct (P := fun _ γ => ∀ γ₁ x γ₂, γ = γ₁ ++ x :: γ₂ →
    ∃ γ₀ γ' b, Begun V ok Does d γ₁ x γ₀ γ' b)
    (fun γ₁ x γ₂ he => ?_) (fun s γ e s' hr he _ ih γ₁ x γ₂ hγ => ?_) hj
  · cases γ₁ <;> cases he
  rcases entry_cases he with ⟨hn, -⟩ | ⟨t, n, c, k, -, hc, hk, -, hn⟩
  · rw [hn, Option.toList_none, List.append_nil] at hγ
    exact ih γ₁ x γ₂ hγ
  rw [hn, Option.toList_some] at hγ
  rcases List.eq_nil_or_concat γ₂ with rfl | ⟨γ₃, y, rfl⟩
  · obtain ⟨rfl, hx⟩ := List.append_inj' hγ rfl
    cases hx
    -- the call's own commit: follow it from its start
    obtain ⟨s₀, γ₀, h0, hrun, hfresh, -⟩ := journaled_start hr hc
    obtain ⟨γ', rfl⟩ := journal_grows hrun
    have hb : Linked d γ₀ s₀.db := journal_linked h0
    obtain ⟨b', hb', hsince⟩ := (journal_linked hr).split
    cases hb.unique hb'
    obtain ⟨start, ho⟩ := reach_commit (O := plainly D (Does c.req s₀.db))
      (fun s₁ hs₁ => hOK (h0.reach.trans hs₁)) hmore
      (fun _ _ hw => hw) hfresh (fun d' hd' => h c.req s₀.db d' hd') hrun.reach hc hk
    exact ⟨γ₀, γ', s₀.db, rfl, ⟨s₀, s, h0, rfl, hfresh, hrun⟩, hb, hsince, c.pt start s.db,
      rfl, rfl, ho⟩
  · rw [List.concat_eq_append, ← List.cons_append, ← List.append_assoc] at hγ
    exact ih γ₁ x γ₃ (List.append_inj' hγ rfl).1

/-- **What is so now and was not when the call began has come true in between.** -/
theorem Begun.changed {x : Entry S E A Q} {γ₀ γ' : List (Entry S E A Q)} {b : Store S}
    {P : Store S → Prop} (h : Begun V ok Does d γ x γ₀ γ' b)
    (h0 : ¬ P b) (h1 : P x.before) : ∃ γ₁ y γ₂, γ = γ₀ ++ (γ₁ ++ y :: γ₂) ∧ ¬ P y.before ∧
      P y.after := by
  obtain ⟨γ₁, y, γ₂, hγ, hn, hp⟩ := h.since.since h0 h1
  exact ⟨γ₁, y, γ₂, by rw [h.split, hγ], hn, hp⟩

/-- **An entry commits as its request does on `K`**, if no other call has broken `K` for a
call of that request. -/
theorem journal_under {C : Contract V D} {K : Rely S} {P : Pt S → Prop} {q : Q} {x : Entry S E A Q}
    (hOK : ∀ s₁, V.Reach ok (Sys.init d) s₁ → s₁.OK C)
    (h : ∀ b d', D.rel [] b d' → Commits (D.under K) P (V.prog q) (.begin b d' false))
    (hK : ∀ s₁ t c₁ u c₂ s₂ e, V.Reach ok (Sys.init d) s₁ → s₁.call t = some c₁ → c₁.req = q →
      V.step e s₁ = some s₂ →
      ok s₁ e s₂ → CommitStep s₁ u c₂ s₂ → u ≠ t → K.rel c₁.held s₁.db s₂.db)
    (hj : V.Journaled ok d s γ) (hx : x ∈ γ) (hreq : x.req = q) : ∃ σ : Pt S, σ.now = x.before ∧
      σ.db = x.after ∧ P σ := by
  refine journaled_induct (P := fun _ γ => ∀ x ∈ γ, x.req = q → ∃ σ : Pt S, σ.now = x.before ∧
    σ.db = x.after ∧ P σ)
    (fun x hx => by cases hx) (fun s γ e s' hr he _ ih x hx hreq => ?_) hj x hx hreq
  rcases List.mem_append.1 hx with hx | hx
  · exact ih x hx hreq
  rcases entry_cases he with ⟨hn, -⟩ | ⟨t, n, c, k, -, hc, hk, -, hn⟩
  · rw [hn] at hx
    cases hx
  rw [hn] at hx
  cases List.mem_singleton.1 hx
  have hcq : c.req = q := hreq
  -- the call, followed from its start
  obtain ⟨s₀, h0, hrun, hfresh⟩ := reach_start hr.reach hc
  rw [hcq] at hfresh
  have htr : Tracked (D.toRely.and K) (plainly (D.under K) P) (fun _ _ => True)
      (fun _ _ => True) s₀.db (V.fresh q s₀.db) :=
    ⟨s₀.db, Rely.refl _ _ _, fun d' hd' => wp_track (D := D.under K)
      (fun _ _ hw => hw) _ ⟨s₀.db, d', [], [], false⟩ (by simp) (h _ _ hd'.1)⟩
  have hkept : ∀ s₁ c₁ u c₂ s₂ e, V.Reach ok s₀ s₁ → s₁.call t = some c₁ → V.step e s₁ = some s₂ →
      ok s₁ e s₂ →
      CommitStep s₁ u c₂ s₂ → u ≠ t → K.rel c₁.held s₁.db s₂.db := by
    intro s₁ c₁ u c₂ s₂ e hs₁ hc₁
    obtain ⟨c₃, hc₃, hreq₃, -⟩ := reach_call hs₁ hfresh
    rw [hc₁] at hc₃
    cases hc₃
    exact hK s₁ t c₁ u c₂ s₂ e (h0.trans hs₁) hc₁ hreq₃
  obtain ⟨c', hc', htr'⟩ := reach_tracked_under (fun s₁ hs₁ => hOK s₁ (h0.trans hs₁))
    (fun _ => trivial) hkept hrun hfresh htr
  rw [hc] at hc'
  cases hc'
  obtain ⟨start, -, ho⟩ := htr'.commit hk
  exact ⟨c.pt start s.db, rfl, rfl, ho⟩

end Txn
