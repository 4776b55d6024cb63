import DreamFly.Conc.Lts
import DreamFly.Txn.Table

/-!
# Calls that share a store

Any number of calls run against one shared state, one command at a time in any
order. A command is atomic: it answers and changes the state in one step. What a
command does may depend on an outcome the caller does not control (a random draw, a
failure of the store); a command that has to wait cannot happen yet. Between two
commands the state may change by itself (`env`: time passes, an entry is lost).

* `Code`: a call's program, a tree of commands.
* `Service.lts`: the interleavings of all calls, one command each step.
* `step_cases`: what an event is.
* `Sys.tally`: how many calls are in a given situation, and how a step changes that.
-/

namespace Conc

open Txn (Table)

/-- Shared state, the commands on it and what happens to it by itself: `exec t c n` is
command `c` of call `t` with outcome `n`. -/
structure Machine where
  State : Type
  Cmd : Type
  Reply : Cmd → Type
  Env : Type
  exec : ℕ → (c : Cmd) → ℕ → State → Option (Reply c × State)
  env : Env → State → State

/-- A program that ends in a result of type `α` or an error of type `E`. -/
inductive Code (M : Machine) (E α : Type)
  | ret (a : α)
  | fail (e : E)
  | call (c : M.Cmd) (k : M.Reply c → Code M E α)

namespace Code

variable {M : Machine} {E α β : Type}

/-- Continue with `ok` after a result and with `err` after an error. -/
def handle (ok : α → Code M E β) (err : E → Code M E β) : Code M E α → Code M E β
  | ret a => ok a
  | fail e => err e
  | call c k => call c fun r => (k r).handle ok err

instance : Monad (Code M E) where
  pure := ret
  bind p k := p.handle k fail

instance : MonadExcept E (Code M E) where
  throw := fail
  tryCatch p h := p.handle ret h

/-- One command. -/
def exec (c : M.Cmd) : Code M E (M.Reply c) := call c ret

/-- A fallible check. -/
def check (r : Except E α) : Code M E α :=
  match r with
  | .ok a => ret a
  | .error e => fail e

/-- `Ok`-or-error: the value of `o`, or the error `e` when there is none. -/
def orFail (o : Option α) (e : E) : Code M E α :=
  match o with
  | some a => ret a
  | none => fail e

/-- Go on only if `c` holds. -/
def ensure (c : Bool) (e : E) : Code M E Unit :=
  if c then ret () else fail e

/-- The command a program is about to give. -/
def next : Code M E α → Option M.Cmd
  | call c _ => some c
  | _ => none

def finished : Code M E α → Bool
  | call _ _ => false
  | _ => true

/-- The program ends after at most `k` more commands, whatever they answer. -/
def Within : ℕ → Code M E α → Prop
  | _, ret _ => True
  | _, fail _ => True
  | 0, call _ _ => False
  | k + 1, call _ f => ∀ r, (f r).Within k

/-- One command of call `t` with outcome `n`, if the program has one left and it can
happen: the rest of the program and the new state. -/
def advance (t n : ℕ) (x : M.State) : Code M E α → Option (Code M E α × M.State)
  | call c k => (M.exec t c n x).map fun r => (k r.1, r.2)
  | _ => none

variable {t n : ℕ} {x : M.State} {p : Code M E α}

theorem bind_def (p : Code M E α) (f : α → Code M E β) : p >>= f = p.handle f fail := rfl

@[simp] theorem ret_bind (a : α) (f : α → Code M E β) : (ret a : Code M E α) >>= f = f a := rfl

@[simp] theorem pure_bind' (a : α) (f : α → Code M E β) : (pure a : Code M E α) >>= f = f a := rfl

@[simp] theorem fail_bind (e : E) (f : α → Code M E β) : (fail e : Code M E α) >>= f = fail e := rfl

@[simp] theorem throw_bind (e : E) (f : α → Code M E β) : (throw e : Code M E α) >>= f =
    fail e := rfl

@[simp] theorem ensure_true (e : E) : (ensure true e : Code M E Unit) = ret () := rfl

@[simp] theorem ensure_false (e : E) : (ensure false e : Code M E Unit) = fail e := rfl

end Code

/-- A call in progress. -/
structure Call (M : Machine) (E A Q : Type) where
  req : Q
  prog : Code M E A

/-- The shared state and the calls. -/
structure Sys (M : Machine) (E A Q : Type) where
  state : M.State
  calls : Table ℕ (Call M E A Q)

/-- The code behind the requests. -/
structure Service (M : Machine) (E A Q : Type) where
  prog : Q → Code M E A

inductive Event (M : Machine) (Q : Type)
  | start (t : ℕ) (q : Q)
  | step (t n : ℕ)
  | env (v : M.Env)

/-- `k` commands of call `t`, each with outcome `n`. -/
def Event.steps {M : Machine} {Q : Type} (t n k : ℕ) : List (Event M Q) :=
  List.replicate k (.step t n)

variable {M : Machine} {E A Q : Type}

namespace Sys

/-- Before any call. -/
def init (x : M.State) : Sys M E A Q := ⟨x, ∅⟩

def call (s : Sys M E A Q) (t : ℕ) : Option (Call M E A Q) := s.calls.lookup t

/-- Record `c` as the state of call `t`, with shared state `x`. -/
def set (s : Sys M E A Q) (t : ℕ) (c : Call M E A Q) (x : M.State) : Sys M E A Q :=
  ⟨x, s.calls.insert t c⟩

/-- How many calls satisfy `p`. -/
def tally (s : Sys M E A Q) (p : Call M E A Q → Bool) : ℕ := s.calls.count fun _ c => p c

/-- The command an event is, with its call's request and its outcome. -/
def does (s : Sys M E A Q) : Event M Q → Option (Q × M.Cmd × ℕ)
  | .step t n => (s.call t).bind fun c => c.prog.next.map fun cmd => (c.req, cmd, n)
  | _ => none

/-- No call is in flight. -/
def Quiescent (s : Sys M E A Q) : Prop := ∀ t c, s.call t = some c → c.prog.finished = true

variable {s : Sys M E A Q} {t u : ℕ} {c c' : Call M E A Q} {x : M.State} {p : Call M E A Q → Bool}

@[simp] theorem call_init (x : M.State) (t : ℕ) : (init x : Sys M E A Q).call t = none :=
  AList.lookup_empty t

@[simp] theorem set_state (s : Sys M E A Q) (t : ℕ) (c : Call M E A Q)
    (x : M.State) : (s.set t c x).state = x := rfl

@[simp] theorem call_set_self (s : Sys M E A Q) (t : ℕ) (c : Call M E A Q)
    (x : M.State) : (s.set t c x).call t = some c :=
  AList.lookup_insert _

theorem call_set_ne (s : Sys M E A Q) {t u : ℕ} (h : u ≠ t) (c : Call M E A Q) (x : M.State) :
    (s.set t c x).call u = s.call u :=
  AList.lookup_insert_ne h

theorem call_set (s : Sys M E A Q) (t u : ℕ) (c : Call M E A Q) (x : M.State) :
    (s.set t c x).call u = if u = t then some c else s.call u := by
  split
  · next h => rw [h, call_set_self]
  · next h => exact call_set_ne s h c x

theorem does_step {n : ℕ} {q : Q} {p : Code M E A} (h : s.call t = some ⟨q, p⟩) :
    s.does (.step t n) = p.next.map fun cmd => (q, cmd, n) := by
  simp only [does, h, Option.bind_some]

/-! ## Counting calls -/

@[simp] theorem tally_init (x : M.State) (p : Call M E A Q → Bool) :
    (init x : Sys M E A Q).tally p = 0 := rfl

theorem tally_cast (s : Sys M E A Q) (p : Call M E A Q → Bool) :
    (s.tally p : ℤ) = s.calls.total fun _ c => if p c then 1 else 0 := Table.count_eq_total _ _

/-- A new call. -/
theorem tally_new (h : s.call t = none) : (s.set t c x).tally p = s.tally p + if p c then
    1 else 0 := by
  have h1 := tally_cast (s.set t c x) p
  have h2 := tally_cast s p
  unfold set at h1
  rw [Table.total_insert, Table.share_none h, ← h2] at h1
  unfold set
  split at h1 <;> simp_all <;> omega

/-- A call that has gone on. -/
theorem tally_set (h : s.call t = some c) :
    (s.set t c' x).tally p + (if p c then 1 else 0) = s.tally p + if p c' then 1 else 0 := by
  have h1 := tally_cast (s.set t c' x) p
  have h2 := tally_cast s p
  unfold set at h1
  rw [Table.total_insert, Table.share_some h, ← h2] at h1
  unfold set
  split at h1 <;> split at h1 <;> simp_all <;> omega

/-- A call that satisfies `p` is counted. -/
theorem tally_pos (h : s.call t = some c) (hp : p c = true) : 0 < s.tally p := by
  have hm : (t, c) ∈ s.calls.only fun _ c => p c := Table.mem_only.2 ⟨h, hp⟩
  exact List.length_pos_of_mem hm

theorem tally_le {p' : Call M E A Q → Bool} (h : ∀ c, p c = true → p' c = true) :
    s.tally p ≤ s.tally p' :=
  Table.count_le fun _ c hl hp => ⟨c, hl, h c hp⟩

theorem tally_eq_zero : s.tally p = 0 ↔ ∀ t c, s.call t = some c → p c = false := by
  constructor
  · intro h t c hc
    by_contra hp
    have := tally_pos hc (by simpa using hp)
    omega
  · intro h
    unfold tally Table.count
    rw [List.length_eq_zero_iff, List.eq_nil_iff_forall_not_mem]
    rintro ⟨t, c⟩ hm
    obtain ⟨hc, hp⟩ := Table.mem_only.1 hm
    rw [h t c hc] at hp
    cases hp

theorem tally_congr {s' : Sys M E A Q} (h : s'.calls = s.calls) : s'.tally p = s.tally p := by
  unfold tally
  rw [h]

end Sys

namespace Service

variable (V : Service M E A Q)

/-- One event, when it can happen. -/
def step : Event M Q → Sys M E A Q → Option (Sys M E A Q)
  | .start t q, s =>
    match s.call t with
    | some _ => none
    | none => some (s.set t ⟨q, V.prog q⟩ s.state)
  | .step t n, s =>
    match s.call t with
    | none => none
    | some c => (c.prog.advance t n s.state).map fun y => s.set t ⟨c.req, y.1⟩ y.2
  | .env v, s => some { s with state := M.env v s.state }

/-- The interleavings of all calls. -/
def lts : Lts (Sys M E A Q) (Event M Q) where
  step := V.step

variable {V} {s s' : Sys M E A Q} {e : Event M Q}

/-- **What an event is**: the start of a call, a command of one, a change from outside. -/
theorem step_cases (h : V.lts.step e s = some s') :
    (∃ t q, e = .start t q ∧ s.call t = none ∧ s' = s.set t ⟨q, V.prog q⟩ s.state) ∨
    (∃ t n q p p' x, e = .step t n ∧ s.call t = some ⟨q, p⟩ ∧ p.advance t n s.state = some (p', x) ∧
      s' = s.set t ⟨q, p'⟩ x) ∨
    (∃ v, e = .env v ∧ s' = { s with state := M.env v s.state }) := by
  change V.step e s = some s' at h
  unfold step at h
  split at h
  · next t q =>
    split at h
    · cases h
    · next hn =>
      cases h
      exact .inl ⟨t, q, rfl, hn, rfl⟩
  · next t n =>
    split at h
    · cases h
    next c hc =>
    obtain ⟨⟨p', x⟩, hx, rfl⟩ := Option.map_eq_some_iff.1 h
    exact .inr (.inl ⟨t, n, c.req, c.prog, p', x, rfl, hc, hx, rfl⟩)
  · next v =>
    cases h
    exact .inr (.inr ⟨v, rfl, rfl⟩)

/-- A call whose next command can happen goes on. -/
theorem step_exec {t n : ℕ} {q : Q} {c : M.Cmd} {k : M.Reply c → Code M E A}
    {r : M.Reply c × M.State}
    (hc : s.call t = some ⟨q, .call c k⟩) (hr : M.exec t c n s.state = some r) :
    V.lts.step (.step t n) s = some (s.set t ⟨q, k r.1⟩ r.2) := by
  change V.step (.step t n) s = _
  unfold step
  simp only [hc, Code.advance, hr, Option.map_some]

/-- A call keeps its request, and there are no fewer calls than before. -/
theorem step_call {t : ℕ} {c : Call M E A Q} (h : V.lts.step e s = some s')
    (hc : s.call t = some c) :
    ∃ c', s'.call t = some c' ∧ c'.req = c.req := by
  rcases step_cases h with ⟨u, q, rfl, hn, rfl⟩ | ⟨u, n, q, p, p', x, rfl, hu, -, rfl⟩ |
      ⟨v, rfl, rfl⟩
  · have hne : t ≠ u := fun he => by rw [he, hn] at hc; cases hc
    exact ⟨c, by rw [Sys.call_set_ne _ hne, hc], rfl⟩
  · by_cases hne : t = u
    · subst hne
      rw [hc] at hu
      cases hu
      exact ⟨_, Sys.call_set_self .., rfl⟩
    · exact ⟨c, by rw [Sys.call_set_ne _ hne, hc], rfl⟩
  · exact ⟨c, hc, rfl⟩

end Service

end Conc
