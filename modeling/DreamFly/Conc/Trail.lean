import DreamFly.Conc.Machine
import Mathlib.Logic.Function.Basic

/-!
# What a call has done

The commands a program gives with the answers it gets, in their order.

* `Trail`: a list of commands and answers, from a program to what is left of it.
* `Trail.bind`: the trail of a sequence is that of its first part, or goes through it.
* `trailing`, `trail_of_reach`: in a run with its record, what each call has done is a
  trail of its program.
-/

namespace Conc

/-- A command and what it answered. -/
abbrev Deed (M : Machine) : Type := (c : M.Cmd) × M.Reply c

variable {M : Machine} {E A Q α β : Type}

namespace Code

/-- The program gives the commands of the list, they answer as it says, and the last program is
left. -/
inductive Trail : Code M E α → List (Deed M) → Code M E α → Prop
  | nil (p : Code M E α) : Trail p [] p
  | cons (c : M.Cmd) (k : M.Reply c → Code M E α) (a : M.Reply c) {l : List (Deed M)}
  {r : Code M E α} :
    Trail (k a) l r → Trail (call c k) (⟨c, a⟩ :: l) r

namespace Trail

variable {p r : Code M E α} {l : List (Deed M)} {c : M.Cmd} {k : M.Reply c → Code M E α}

theorem of_ret {a : α} (h : Trail (ret a) l r) : l = [] ∧ r = ret a := by
  cases h with
  | nil => exact ⟨rfl, rfl⟩

theorem of_call (h : Trail (call c k) l r) : (l = [] ∧ r = call c k) ∨ ∃ a l', l = ⟨c, a⟩ :: l' ∧
    Trail (k a) l' r := by
  cases h with
  | nil => exact .inl ⟨rfl, rfl⟩
  | cons _ _ a h => exact .inr ⟨a, _, rfl, h⟩

/-- A command at the head of a program. -/
theorem of_exec {f : M.Reply c → Code M E α} (h : Trail (exec c >>= f) l r) :
    (l = [] ∧ ∃ k, r = call c k) ∨ ∃ a l', l = ⟨c, a⟩ :: l' ∧ Trail (f a) l' r := by
  rcases of_call (k := f) h with ⟨hl, hr⟩ | hrest
  · exact .inl ⟨hl, f, hr⟩
  · exact .inr hrest

/-- **The trail of a sequence**: its first part is not over yet, or it is and the rest goes on from
its result. -/
theorem of_bind {p : Code M E α} {f : α → Code M E β} {r : Code M E β} (h : Trail (p >>= f) l r) :
    (∃ p', Trail p l p' ∧ r = p' >>= f) ∨
      ∃ a l₁ l₂, l = l₁ ++ l₂ ∧ Trail p l₁ (ret a) ∧ Trail (f a) l₂ r := by
  rw [bind_def] at h
  induction p generalizing l with
  | ret a => exact .inr ⟨a, [], l, rfl, .nil _, h⟩
  | fail e =>
    cases h with
    | nil => exact .inl ⟨fail e, .nil _, rfl⟩
  | call c k ih =>
    rcases of_call (k := fun a => (k a).handle f fail) h with ⟨rfl, rfl⟩ | ⟨a, l', rfl, h'⟩
    · exact .inl ⟨call c k, .nil _, rfl⟩
    · rcases ih a h' with ⟨p', hp, hr⟩ | ⟨b, l₁, l₂, rfl, h1, h2⟩
      · exact .inl ⟨p', .cons c k a hp, hr⟩
      · exact .inr ⟨b, ⟨c, a⟩ :: l₁, l₂, rfl, .cons c k a h1, h2⟩

/-- One more command. -/
theorem snoc (h : Trail p l (call c k)) (a : M.Reply c) : Trail p (l ++ [⟨c, a⟩]) (k a) := by
  generalize hr : call c k = r at h
  induction h with
  | nil q =>
    subst hr
    exact .cons c k a (.nil _)
  | cons c' k' b _ ih => exact .cons c' k' b (ih hr)

end Trail

end Code

namespace Sys

/-- The command an event is, with its call and its answer. -/
def did (s : Sys M E A Q) : Event M Q → Option (ℕ × Deed M)
  | .step t n =>
    (s.call t).bind fun c =>
      match c.prog with
      | .call cmd _ => (M.exec t cmd n s.state).map fun y => (t, ⟨cmd, y.1⟩)
      | _ => none
  | _ => none

end Sys

/-- The record of a run: what each call has done. -/
def trailing (γ : ℕ → List (Deed M)) (s : Sys M E A Q) (e : Event M Q) (_ : Sys M E A Q) :
    ℕ → List (Deed M) :=
  match s.did e with
  | some (t, d) => Function.update γ t (γ t ++ [d])
  | none => γ

namespace Service

variable {V : Service M E A Q} {e : Event M Q} {x y : Sys M E A Q × (ℕ → List (Deed M))}
  {ok : Sys M E A Q × (ℕ → List (Deed M)) → Event M Q → Sys M E A Q × (ℕ → List (Deed M)) → Prop}

/-- The system with the record of what its calls have done. -/
abbrev trailed (V : Service M E A Q) : Lts (Sys M E A Q × (ℕ → List (Deed M))) (Event M Q) :=
  V.lts.noting trailing

/-- Before any call. -/
abbrev fresh (x : M.State) : Sys M E A Q × (ℕ → List (Deed M)) := (Sys.init x, fun _ => [])

/-- **What an event is**, with its record. -/
theorem trailed_cases (h : V.trailed.step e x = some y) :
    (∃ t q, e = .start t q ∧ x.1.call t = none ∧ y = (x.1.set t ⟨q, V.prog q⟩ x.1.state, x.2)) ∨
    (∃ t n q c k a x', e = .step t n ∧ x.1.call t = some ⟨q, .call c k⟩ ∧
      M.exec t c n x.1.state = some (a, x') ∧
      y = (x.1.set t ⟨q, k a⟩ x', Function.update x.2 t (x.2 t ++ [⟨c, a⟩]))) ∨
    ∃ v, e = .env v ∧ y = ({ x.1 with state := M.env v x.1.state }, x.2) := by
  obtain ⟨hstep, hnote⟩ := Lts.noting_step.1 h
  rcases Service.step_cases hstep with ⟨t, q, rfl, hn, hy⟩ | ⟨t, n, q, p, p', x', rfl, hc, hx, hy⟩ |
      ⟨v, rfl, hy⟩
  · exact .inl ⟨t, q, rfl, hn, Prod.ext hy hnote⟩
  · cases p with
    | ret a => cases hx
    | fail e => cases hx
    | call c k =>
      obtain ⟨⟨a, z⟩, hexec, heq⟩ := Option.map_eq_some_iff.1 hx
      cases heq
      refine .inr (.inl ⟨t, n, q, c, k, a, z, rfl, hc, hexec, Prod.ext hy ?_⟩)
      rw [hnote]
      simp only [trailing, Sys.did, hc, Option.bind_some, hexec, Option.map_some]
  · exact .inr (.inr ⟨v, rfl, Prod.ext hy hnote⟩)

/-- **What a call has done is a trail of its program.** -/
theorem trail_of_reach {x₀ : M.State} (h : V.trailed.Reach ok (fresh x₀) y) :
    ∀ t, (∀ c, y.1.call t = some c → (V.prog c.req).Trail (y.2 t) c.prog) ∧
      (y.1.call t = none → y.2 t = []) := by
  refine h.inv (I := fun y => ∀ t, (∀ c, y.1.call t = some c →
    (V.prog c.req).Trail (y.2 t) c.prog) ∧
    (y.1.call t = none → y.2 t = [])) ?_ fun t => ⟨fun c hc => by simp at hc, fun _ => rfl⟩
  intro x e y ih hstep _ u
  rcases trailed_cases hstep with ⟨t, q, rfl, hn, rfl⟩ | ⟨t, n, q, c, k, a, x', rfl, hc, hx, rfl⟩ |
      ⟨v, rfl, rfl⟩
  · dsimp only
    rw [Sys.call_set]
    split
    · next hu =>
      subst hu
      refine ⟨?_, nofun⟩
      rintro _ ⟨⟩
      rw [(ih u).2 hn]
      exact .nil _
    · exact ih u
  · dsimp only
    rw [Sys.call_set]
    split
    · next hu =>
      subst hu
      refine ⟨?_, nofun⟩
      rintro _ ⟨⟩
      rw [Function.update_self]
      exact ((ih u).1 _ hc).snoc a
    · next hu =>
      rw [Function.update_of_ne hu]
      exact ih u
  · exact ih u

end Service

end Conc
