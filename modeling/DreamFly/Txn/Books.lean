import DreamFly.Txn.Sound

/-!
# Books of the calls

A quantity of the store that every commit moves by an amount its request names. Over a
whole run it has moved by the sum of these amounts over the calls that have committed:
no commit is lost and none counts twice (`reach_books`).
-/

namespace Txn

variable {S : Schema} {E A Q : Type} {V : Service S E A Q} {s s' : Sys S E A Q}
  {c c' : Call S E A Q} {t : ℕ} {g : Q → ℤ}
  {e : Event Q} {f : Store S → ℤ} {d : Store S} {ok : Sys S E A Q → Event Q → Sys S E A Q → Prop}

/-- What the call has booked: nothing before it commits. -/
def Call.booked (g : Q → ℤ) (c : Call S E A Q) : ℤ := if c.committed then g c.req else 0

/-- What all calls have booked. -/
def Sys.booked (g : Q → ℤ) (s : Sys S E A Q) : ℤ := s.calls.total fun _ c => c.booked g

/-- The call has ended with a result. -/
def Call.returned (c : Call S E A Q) : Bool :=
  match c.prog with
  | .ret _ => true
  | _ => false

/-- What the calls that have answered have booked. -/
def Sys.answered (g : Q → ℤ) (s : Sys S E A Q) : ℤ := s.calls.total fun _ c => if c.returned then
    g c.req else 0

/-- Where just the calls with a result have committed, these are the books. -/
theorem booked_eq_answered (h : ∀ t c, s.call t = some c → g c.req ≠ 0 → c.committed = c.returned) :
    s.booked g = s.answered g := by
  refine Table.total_ext fun t c hc => ?_
  rw [Call.booked]
  by_cases hg : g c.req = 0
  · rw [hg]
    simp
  · rw [h t c hc hg]

theorem booked_init (d : Store S) : (Sys.init d : Sys S E A Q).booked g = 0 := rfl

theorem booked_set_new (hn : s.call t = none) (hc : c.committed = false) :
    (s.set t c d).booked g = s.booked g := by
  have hshare : Table.share (fun _ c => c.booked g) s.calls t = 0 := Table.share_none hn
  have h0 : c.booked g = 0 := by rw [Call.booked, hc]; rfl
  unfold Sys.booked
  rw [Sys.set, Table.total_insert, hshare, h0, sub_zero, add_zero]

theorem booked_set (hc : s.call t = some c) : (s.set t c' d).booked g = s.booked g - c.booked g +
    c'.booked g := by
  have hshare : Table.share (fun _ c => c.booked g) s.calls t = c.booked g := Table.share_some hc
  unfold Sys.booked
  rw [Sys.set, Table.total_insert, hshare]

theorem booked_set_same (hc : s.call t = some c) (hreq : c'.req = c.req)
    (hcom : c'.committed = c.committed) :
    (s.set t c' d).booked g = s.booked g := by
  have h : c'.booked g = c.booked g := by rw [Call.booked, Call.booked, hreq, hcom]
  rw [booked_set hc, h, sub_add_cancel]

/-- The books change where a call commits for the first time, and by its amount. -/
theorem booked_commit (h : CommitStep s t c s') (hc : c.committed = false) :
    s'.booked g = s.booked g + g c.req := by
  obtain ⟨hcall, k, -, rfl⟩ := h
  have h0 : c.booked g = 0 := by rw [Call.booked, hc]; rfl
  have h1 : (c.endTx k true).booked g = g c.req := rfl
  rw [booked_set hcall, h0, h1, sub_zero]

theorem step_booked (h : V.step e s = some s') :
    (s'.db = s.db ∧ s'.booked g = s.booked g) ∨ ∃ t c, CommitStep s t c s' := by
  rcases step_cases h with ⟨t, q, -, hn, rfl⟩ | ⟨t, n, c, c', d', -, hc, ha, rfl⟩ |
      ⟨t, c, -, hc, -, rfl⟩
  · exact .inl ⟨rfl, booked_set_new hn rfl⟩
  · obtain ⟨hreq, -, hcase⟩ := advance_inv ha
    rcases hcase with ⟨rfl, -, -, hcom⟩ | ⟨_, _, _, -, -, rfl, -, -, hcom⟩ |
        ⟨_, _, -, rfl, -, -, hcom⟩ |
      ⟨k, hk, rfl, rfl⟩ | ⟨_, _, -, rfl, rfl⟩
    · exact .inl ⟨rfl, booked_set_same hc hreq hcom⟩
    · exact .inl ⟨rfl, booked_set_same hc hreq hcom⟩
    · exact .inl ⟨rfl, booked_set_same hc hreq hcom⟩
    · exact .inr ⟨t, c, hc, k, hk, rfl⟩
    · exact .inl ⟨rfl, booked_set_same hc rfl rfl⟩
  · exact .inl ⟨rfl, booked_set_same hc rfl rfl⟩

/-- **The books balance.** -/
theorem reach_books (hcommit : ∀ s₁ t c s₂ e, V.Reach ok (Sys.init d) s₁ → V.step e s₁ = some s₂ →
    ok s₁ e s₂ →
      CommitStep s₁ t c s₂ → c.committed = false ∧ f s₂.db = f s₁.db + g c.req)
    (h : V.Reach ok (Sys.init d) s) : f s.db = f d + s.booked g := by
  induction h with
  | refl => rw [booked_init, add_zero]; rfl
  | @tail s₁ s₂ hr hst ih =>
    obtain ⟨e, he, hok⟩ := hst
    rcases step_booked (g := g) he with ⟨hd, hb⟩ | ⟨t, c, hcs⟩
    · rw [hd, hb, ih]
    · obtain ⟨hc, hf⟩ := hcommit s₁ t c s₂ e hr he hok hcs
      rw [hf, ih, booked_commit hcs hc, add_assoc]

end Txn
