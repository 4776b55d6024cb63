import Mathlib.Logic.Relation

/-!
# Labelled transition systems

States and events, with what an event does where it can happen.

* `run`: a list of events, executable.
* `Reach ok`: the states a run reaches when every step of it meets `ok`.
* `Reach.inv`: what the first state has and every step keeps, every reached state has.
* `noting`: the system with a record of its run beside the state. The record never
  gets in the way of an event.
-/

namespace Conc

/-- States `σ`, events `ε`, and the state after an event that can happen. -/
structure Lts (σ ε : Type) where
  step : ε → σ → Option σ

namespace Lts

variable {σ ε Γ : Type} (T : Lts σ ε)

/-- A list of events, in order. -/
def run : List ε → σ → Option σ
  | [], s => some s
  | e :: es, s => (T.step e s).bind (run es)

/-- The state after a list of events; where one of them cannot happen, the first state. -/
def after (es : List ε) (s : σ) : σ := (T.run es s).getD s

/-- One event of a run whose steps meet `ok`. -/
def Step (ok : σ → ε → σ → Prop) (s s' : σ) : Prop := ∃ e, T.step e s = some s' ∧ ok s e s'

/-- The states a run from `s` reaches if every step of it meets `ok`. -/
def Reach (ok : σ → ε → σ → Prop) : σ → σ → Prop := Relation.ReflTransGen (T.Step ok)

/-- The states any run from `s` reaches. -/
abbrev Reachable : σ → σ → Prop := T.Reach fun _ _ _ => True

/-- The system with a record beside the state. -/
def noting (note : Γ → σ → ε → σ → Γ) : Lts (σ × Γ) ε where
  step e x := (T.step e x.1).map fun s => (s, note x.2 x.1 e s)

variable {T} {ok ok' : σ → ε → σ → Prop} {s s' : σ}

/-- **Induction over a run.** -/
theorem Reach.inv {I : σ → Prop} (hstep : ∀ s e s', I s → T.step e s = some s' → ok s e s' → I s')
    (h0 : I s)
    (h : T.Reach ok s s') : I s' := by
  induction h with
  | refl => exact h0
  | tail _ hst ih =>
    obtain ⟨e, he, hok⟩ := hst
    exact hstep _ e _ ih he hok

theorem Reach.mono (hok : ∀ s e s', ok s e s' → ok' s e s') (h : T.Reach ok s s') :
    T.Reach ok' s s' :=
  Relation.ReflTransGen.mono (fun _ _ ⟨e, he, ho⟩ => ⟨e, he, hok _ e _ ho⟩) _ _ h

/-- A list of events that can all happen is a run. -/
theorem Reach.of_run {es : List ε} (hok : ∀ e ∈ es, ∀ s s', ok s e s') (h : T.run es s = some s') :
    T.Reach ok s s' := by
  induction es generalizing s with
  | nil => cases h; exact .refl
  | cons e es ih =>
    obtain ⟨s₁, h1, h2⟩ := Option.bind_eq_some_iff.1 h
    have hrest := ih (fun e' he => hok e' (List.mem_cons_of_mem e he)) h2
    exact .head ⟨e, h1, hok e List.mem_cons_self s s₁⟩ hrest

/-- A list of events that can all happen, each in a way that meets `ok`. -/
def runOk (T : Lts σ ε) (ok : σ → ε → σ → Prop) [∀ s e s', Decidable (ok s e s')] :
    List ε → σ → Option σ
  | [], s => some s
  | e :: es, s => (T.step e s).bind fun s' => if ok s e s' then runOk T ok es s' else none

theorem Reach.of_runOk [∀ s e s', Decidable (ok s e s')] {es : List ε}
    (h : T.runOk ok es s = some s') : T.Reach ok s s' := by
  induction es generalizing s with
  | nil => cases h; exact .refl
  | cons e es ih =>
    obtain ⟨s₁, h1, h2⟩ := Option.bind_eq_some_iff.1 h
    split at h2
    next ho => exact .head ⟨e, h1, ho⟩ (ih h2)
    · cases h2

theorem reach_runOk [∀ s e s', Decidable (ok s e s')] (es : List ε) :
    T.Reach ok s ((T.runOk ok es s).getD s) := by
  cases h : T.runOk ok es s with
  | none => exact .refl
  | some s' => exact .of_runOk h

theorem reachable_after (es : List ε) : T.Reachable s (T.after es s) := by
  unfold after
  cases h : T.run es s with
  | none => exact .refl
  | some s' => exact .of_run (fun _ _ _ _ => trivial) h

section noting
variable {note : Γ → σ → ε → σ → Γ} {e : ε} {x y : σ × Γ}

/-- A step of the system with the record is a step of the system. -/
theorem noting_step : (T.noting note).step e x = some y ↔ T.step e x.1 = some y.1 ∧
    y.2 = note x.2 x.1 e y.1 := by
  simp only [noting, Option.map_eq_some_iff]
  constructor
  · rintro ⟨s, hs, rfl⟩
    exact ⟨hs, rfl⟩
  · rintro ⟨hs, hn⟩
    exact ⟨y.1, hs, by rw [← hn]⟩

theorem noting_enabled {s : σ} (h : T.step e x.1 = some s) :
    (T.noting note).step e x = some (s, note x.2 x.1 e s) :=
  noting_step.2 ⟨h, rfl⟩

end noting

end Lts

end Conc
