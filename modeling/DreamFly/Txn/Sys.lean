import DreamFly.Txn.Prog
import Mathlib.Logic.Relation

/-!
# Interleaved calls

Any number of calls run against one store, one operation at a time in any order.
Reads see the committed store under the call's own pending writes; locks are
kept until the transaction ends; a commit lays the pending writes over the store
in one step. An event starts a call, lets a call take its next operation, or
makes a call fail there (a database error, a lost connection, a crash).

* `Service.step` and `Service.run`: one event and a list of them, executable.
* `Service.Reach`: the states a run reaches when every step meets a condition.
* `WaitsFor`: the waits-for graph between the calls.
-/

namespace Txn

variable {S : Schema} {E A Q : Type}

/-- A call in progress. `born` and `committed` record, for the statements below,
the store at its start and whether it has committed. -/
structure Call (S : Schema) (E A Q : Type) where
  req : Q
  prog : Prog S E A
  ws : List (Write S)
  held : Locks (Res S)
  born : Store S
  committed : Bool

/-- The committed store and the calls. -/
structure Sys (S : Schema) (E A Q : Type) where
  db : Store S
  calls : Table ℕ (Call S E A Q)

/-- The code behind the requests, and the error a call dies with. -/
structure Service (S : Schema) (E A Q : Type) where
  prog : Q → Prog S E A
  crash : E

inductive Event (Q : Type)
  | start (t : ℕ) (q : Q)
  | step (t n : ℕ)
  | abort (t : ℕ)

/-- The call an event is about. -/
def Event.call : Event Q → ℕ
  | .start t _ | .step t _ | .abort t => t

/-- `k` operations of call `t`, with the outcomes `n`, `n + 1`, … -/
def Event.steps (t n k : ℕ) : List (Event Q) := (List.range k).map fun i => .step t (n + i)

namespace Sys

/-- Before any call. -/
def init (d : Store S) : Sys S E A Q := ⟨d, ∅⟩

def call (s : Sys S E A Q) (t : ℕ) : Option (Call S E A Q) := s.calls.lookup t

/-- Someone other than `t` holds `r` in a mode that conflicts with `m`. -/
def busy (s : Sys S E A Q) (t : ℕ) (r : Res S) (m : Mode) : Bool :=
  s.calls.rows.any fun e => e.1 ≠ t && e.2.held.any fun x => x.1 = r && m.conflicts x.2

/-- Record `c` as the state of call `t`, with committed store `d`. -/
def set (s : Sys S E A Q) (t : ℕ) (c : Call S E A Q) (d : Store S) : Sys S E A Q :=
  ⟨d, s.calls.insert t c⟩

end Sys

namespace Call

/-- What the call reads: the committed store under its own writes. -/
def sees (c : Call S E A Q) (d : Store S) : Store S := Store.overlay c.ws d

def finished (c : Call S E A Q) : Bool :=
  match c.prog with
  | .ret _ | .fail _ => true
  | _ => false

/-- The call has no transaction open any more and continues with `p`. -/
def endTx (c : Call S E A Q) (p : Prog S E A) (committed : Bool) : Call S E A Q :=
  { c with prog := p, ws := [], held := [], committed := committed }

/-- One operation of the call, given which locks are busy and the outcome `n` of
a choice: the new committed store and the rest of the call. A call that has to
wait cannot take its operation; nobody waits for what it already holds. -/
def advance (busy : Res S → Mode → Bool) (n : ℕ) (d : Store S) (c : Call S E A Q) :
    Option (Store S × Call S E A Q) :=
  match c.prog with
  | .ret _ => none
  | .fail _ => none
  | .view k => some (d, { c with prog := k (c.sees d) })
  | .lock r m k =>
    if ¬ Holds c.held r m ∧ busy r m then none
    else some (d, { c with prog := k, held := acquire c.held r m })
  | .fresh t key k =>
    let r := Res.row t (key n)
    if (d.get t (key n)).isSome || ((c.sees d).get t (key n)).isSome || busy r .update
        || c.held.any (fun x => x.1 = r) then none
    else some (d, { c with prog := k n, held := acquire c.held r .noKeyUpdate })
  | .pick k => some (d, { c with prog := k n })
  | .write w k => some (d, { c with prog := k, ws := c.ws ++ [w] })
  | .commit k => some (c.sees d, c.endTx k true)
  | .rollback _ k => some (d, c.endTx k c.committed)

end Call

namespace Service

variable (V : Service S E A Q)

/-- A call of request `q`, started when `d` is committed. -/
def fresh (q : Q) (d : Store S) : Call S E A Q := ⟨q, V.prog q, [], [], d, false⟩

/-- One event, when it can happen. -/
def step : Event Q → Sys S E A Q → Option (Sys S E A Q)
  | .start t q, s =>
    match s.call t with
    | some _ => none
    | none => some (s.set t (V.fresh q s.db) s.db)
  | .step t n, s =>
    match s.call t with
    | none => none
    | some c => (c.advance (s.busy t) n s.db).map fun x => s.set t x.2 x.1
  | .abort t, s =>
    match s.call t with
    | none => none
    | some c =>
      if c.finished then none else some (s.set t (c.endTx (.fail V.crash) c.committed) s.db)

/-- A list of events, in order. -/
def run : List (Event Q) → Sys S E A Q → Option (Sys S E A Q)
  | [], s => some s
  | e :: es, s => (V.step e s).bind (run es)

/-- One event of a run whose steps meet `ok`. -/
def Step (ok : Sys S E A Q → Event Q → Sys S E A Q → Prop) (s s' : Sys S E A Q) : Prop :=
  ∃ e, V.step e s = some s' ∧ ok s e s'

/-- The states a run from `s` reaches if every step of it meets `ok`. -/
def Reach (ok : Sys S E A Q → Event Q → Sys S E A Q → Prop) : Sys S E A Q → Sys S E A Q → Prop :=
  Relation.ReflTransGen (V.Step ok)

/-- The states any run from `s` reaches. -/
abbrev Reachable : Sys S E A Q → Sys S E A Q → Prop := V.Reach fun _ _ _ => True

/-- The same, when every request of the run meets `W`. -/
abbrev ReachOf (W : Q → Prop) : Sys S E A Q → Sys S E A Q → Prop :=
  V.Reach fun _ e _ => ∀ t q, e = .start t q → W q

variable {V} {ok ok' : Sys S E A Q → Event Q → Sys S E A Q → Prop} {s s' : Sys S E A Q}

theorem Reach.mono (hok : ∀ s e s', ok s e s' → ok' s e s') (h : V.Reach ok s s') :
    V.Reach ok' s s' :=
  Relation.ReflTransGen.mono (fun _ _ ⟨e, he, ho⟩ => ⟨e, he, hok _ e _ ho⟩) _ _ h

/-- Every step of the run meets `ok'`. -/
theorem Reach.imp (hok : ∀ s e s', V.step e s = some s' → ok s e s' → ok' s e s')
    (h : V.Reach ok s s') : V.Reach ok' s s' :=
  Relation.ReflTransGen.mono (fun _ _ ⟨e, he, ho⟩ => ⟨e, he, hok _ e _ he ho⟩) _ _ h

/-- The states on the way from `s` to `s'`. -/
def Between (V : Service S E A Q) (ok : Sys S E A Q → Event Q → Sys S E A Q → Prop)
    (s s' a : Sys S E A Q) : Prop :=
  V.Reach ok s a ∧ V.Reach ok a s'

/-- Each step of a run happens between states of the run. -/
theorem Reach.between (h : V.Reach ok s s') :
    V.Reach (fun a _ b => Between V ok s s' a ∧ Between V ok s s' b) s s' := by
  induction h with
  | refl => exact .refl
  | @tail s₁ s₂ hr hst ih =>
    have hlast : V.Reach ok s₁ s₂ := .single hst
    refine .tail (ih.mono fun _ _ _ ⟨⟨h1, h2⟩, h3, h4⟩ => ⟨⟨h1, h2.tail hst⟩, h3, h4.tail hst⟩) ?_
    obtain ⟨e, he, -⟩ := hst
    exact ⟨e, he, ⟨hr, hlast⟩, hr.trans hlast, .refl⟩

/-- However a run from `s` to `s'` goes (`ok` are its steps), it passes a state of which `P`
holds. -/
def Passes (V : Service S E A Q) (s s' : Sys S E A Q) (P : Sys S E A Q → Prop) : Prop :=
  ∀ ok, V.Reach ok s s' → ∃ s₁, V.Reach ok s s₁ ∧ V.Reach ok s₁ s' ∧ P s₁

/-- A run through states that all meet `I`. -/
theorem Reach.carry {I : Sys S E A Q → Prop} (hI : ∀ s₁, V.Reach ok s s₁ → I s₁)
    (h : V.Reach ok s s') :
    V.Reach (fun a e b => ok a e b ∧ I a ∧ I b) s s' := by
  induction h with
  | refl => exact .refl
  | @tail s₁ s₂ hr hst ih =>
    obtain ⟨e, he, hok⟩ := hst
    exact .tail ih ⟨e, he, hok, hI s₁ hr, hI s₂ (hr.tail ⟨e, he, hok⟩)⟩

/-- A list of events that can all happen is a run. -/
theorem Reach.of_run {es : List (Event Q)} (hok : ∀ e ∈ es, ∀ s s', ok s e s')
    (h : V.run es s = some s') :
    V.Reach ok s s' := by
  induction es generalizing s with
  | nil => cases h; exact .refl
  | cons e es ih =>
    obtain ⟨s₁, h1, h2⟩ := Option.bind_eq_some_iff.1 h
    exact .head ⟨e, h1, hok e List.mem_cons_self s s₁⟩
      (ih (fun e' he => hok e' (List.mem_cons_of_mem e he)) h2)

/-- The state after a list of events; where one of them cannot happen, the first state. -/
def after (V : Service S E A Q) (es : List (Event Q)) (s : Sys S E A Q) : Sys S E A Q :=
  (V.run es s).getD s

theorem reach_after {es : List (Event Q)} (hok : ∀ e ∈ es, ∀ s s', ok s e s') :
    V.Reach ok s (V.after es s) := by
  unfold after
  cases h : V.run es s with
  | none => exact .refl
  | some s' => exact .of_run hok h

theorem reachable_after (es : List (Event Q)) : V.Reachable s (V.after es s) :=
    reach_after fun _ _ _ _ => trivial

/-- All events can happen, and every step passes the test. -/
def checks (V : Service S E A Q) (T : Sys S E A Q → Event Q → Sys S E A Q → Bool) : List (Event Q) →
    Sys S E A Q → Bool
  | [], _ => true
  | e :: es, s =>
    match V.step e s with
    | none => false
    | some s' => T s e s' && checks V T es s'

theorem reach_checks {T : Sys S E A Q → Event Q → Sys S E A Q → Bool} {es : List (Event Q)}
    (h : V.checks T es s = true) :
    V.Reach (fun a e b => T a e b = true) s (V.after es s) := by
  induction es generalizing s with
  | nil => exact .refl
  | cons e es ih =>
    unfold checks at h
    split at h
    · cases h
    next s₁ he =>
    rw [Bool.and_eq_true] at h
    have hafter : V.after (e :: es) s = (V.run es s₁).getD s := by rw [after, run, he]; rfl
    have hrest := ih h.2
    cases hrun : V.run es s₁ with
    | none => rw [hafter, hrun]; exact .refl
    | some s' =>
      rw [after, hrun] at hrest
      rw [hafter, hrun]
      exact .head ⟨e, he, h.1⟩ hrest

/-! ## Runs with a record -/

section recorded
variable {Γ : Type} {note : Γ → Sys S E A Q → Event Q → Sys S E A Q → Option Γ}

/-- One event of a run that is put on record: `note` is the record after it, if the run
may go on so. -/
def RecStep (V : Service S E A Q) (note : Γ → Sys S E A Q → Event Q → Sys S E A Q → Option Γ)
    (ok : Sys S E A Q → Event Q → Sys S E A Q → Prop) (x y : Sys S E A Q × Γ) : Prop :=
  ∃ e, V.step e x.1 = some y.1 ∧ note x.2 x.1 e y.1 = some y.2 ∧ ok x.1 e y.1

/-- The states and records that such a run reaches. -/
def RecReach (V : Service S E A Q) (note : Γ → Sys S E A Q → Event Q → Sys S E A Q → Option Γ)
    (ok : Sys S E A Q → Event Q → Sys S E A Q → Prop) : Sys S E A Q × Γ → Sys S E A Q × Γ → Prop :=
  Relation.ReflTransGen (V.RecStep note ok)

/-- A list of events, put on record. -/
def runRec (V : Service S E A Q) (note : Γ → Sys S E A Q → Event Q → Sys S E A Q → Option Γ) :
    List (Event Q) → Sys S E A Q × Γ → Option (Sys S E A Q × Γ)
  | [], x => some x
  | e :: es, x =>
    (V.step e x.1).bind fun s => (note x.2 x.1 e s).bind fun g => runRec V note es (s, g)

theorem RecReach.reach {x y : Sys S E A Q × Γ} (h : V.RecReach note ok x y) :
    V.Reach ok x.1 y.1 := by
  induction h with
  | refl => exact .refl
  | tail _ hst ih =>
    obtain ⟨e, he, -, hok⟩ := hst
    exact ih.tail ⟨e, he, hok⟩

theorem RecReach.mono {x y : Sys S E A Q × Γ} (hok : ∀ s e s', ok s e s' → ok' s e s')
    (h : V.RecReach note ok x y) :
    V.RecReach note ok' x y :=
  Relation.ReflTransGen.mono (fun _ _ ⟨e, he, hg, ho⟩ => ⟨e, he, hg, hok _ e _ ho⟩) _ _ h

theorem RecReach.of_run {es : List (Event Q)} {x y : Sys S E A Q × Γ} (hok : ∀ s e s', ok s e s')
    (h : V.runRec note es x = some y) : V.RecReach note ok x y := by
  induction es generalizing x with
  | nil => cases h; exact .refl
  | cons e es ih =>
    obtain ⟨s₁, h1, h2⟩ := Option.bind_eq_some_iff.1 h
    obtain ⟨g₁, h3, h4⟩ := Option.bind_eq_some_iff.1 h2
    exact .head ⟨e, h1, h3, hok _ e _⟩ (ih h4)

end recorded

end Service

/-- Call `t` waits for call `u`: `u` holds a lock that conflicts with the one
`t` is asking for. -/
def WaitsFor (s : Sys S E A Q) (t u : ℕ) : Prop :=
  ∃ c c' r m m', s.call t = some c ∧ s.call u = some c' ∧ t ≠ u ∧ c.prog.wanted = some (r, m) ∧
    (r, m') ∈ c'.held ∧ m.conflicts m' = true

end Txn
