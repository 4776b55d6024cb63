import DreamFly.Txn.Store

/-!
# Transaction programs

A call's code as a tree of database operations. The constructors are the points
at which other calls can get in between: reading, waiting for a lock, drawing a
fresh key, the end of a transaction. `atomically` is the usual shape of a
transaction: commit when the body returns, roll back when it fails.
-/

namespace Txn

/-- A program that ends in a result of type `α` or an error of type `E`. -/
inductive Prog (S : Schema) (E α : Type)
  /-- Done, with a result. -/
  | ret (a : α)
  /-- Done, with an error. -/
  | fail (e : E)
  /-- Read: a snapshot of what is committed, under the transaction's own writes. -/
  | view (k : Store S → Prog S E α)
  /-- Take a lock, waiting while another transaction holds a conflicting one. -/
  | lock (r : Res S) (m : Mode) (k : Prog S E α)
  /-- Draw a key that no row has and nobody else works with (a new UUID). -/
  | fresh (t : S.Tbl) (key : ℕ → S.Key t) (k : ℕ → Prog S E α)
  /-- A choice the program does not control: a scan order, a clock reading. -/
  | pick (k : ℕ → Prog S E α)
  /-- A row write, pending until the commit. -/
  | write (w : Write S) (k : Prog S E α)
  | commit (k : Prog S E α)
  /-- Drop the pending writes, because of `e` if there is one. -/
  | rollback (e : Option E) (k : Prog S E α)

namespace Prog

variable {S : Schema} {E α β : Type}

/-- Continue with `ok` after a result and with `err` after an error. -/
def handle (ok : α → Prog S E β) (err : E → Prog S E β) : Prog S E α → Prog S E β
  | ret a => ok a
  | fail e => err e
  | view k => view fun d => (k d).handle ok err
  | lock r m k => lock r m (k.handle ok err)
  | fresh t key k => fresh t key fun n => (k n).handle ok err
  | pick k => pick fun n => (k n).handle ok err
  | write w k => write w (k.handle ok err)
  | commit k => commit (k.handle ok err)
  | rollback e k => rollback e (k.handle ok err)

instance : Monad (Prog S E) where
  pure := ret
  bind p k := p.handle k fail

instance : MonadExcept E (Prog S E) where
  throw := fail
  tryCatch p h := p.handle ret h

theorem bind_eq (p : Prog S E α) (k : α → Prog S E β) : p >>= k = p.handle k fail := rfl

/-- `Ok`-or-error: the value of `o`, or the error `e` when there is none. -/
def orFail (o : Option α) (e : E) : Prog S E α :=
  match o with
  | some a => ret a
  | none => fail e

/-- Go on only if `c` holds. -/
def ensure (c : Bool) (e : E) : Prog S E Unit :=
  if c then ret () else fail e

/-- A result computed aside: go on with its value, or fail with its error. -/
def checked (r : Except E α) : Prog S E α :=
  match r with
  | .ok a => ret a
  | .error e => fail e

/-- Run `f` on every element, in order. -/
def each (f : α → Prog S E β) : List α → Prog S E (List β)
  | [] => ret []
  | a :: as => do
    let b ← f a
    let bs ← each f as
    return b :: bs

/-- A transaction: commit at the end of `p`, roll back at its first error. -/
def atomically (p : Prog S E α) : Prog S E α :=
  p.handle (fun a => commit (ret a)) (fun e => rollback (some e) (fail e))

/-- The operation a program is blocked on or about to do, if it takes a lock. -/
def wanted : Prog S E α → Option (Res S × Mode)
  | lock r m _ => some (r, m)
  | _ => none

/-- The program is about to commit. -/
def isCommit : Prog S E α → Bool
  | commit _ => true
  | _ => false

/-- The error the program has ended with. -/
def failed : Prog S E α → Option E
  | fail e => some e
  | _ => none

/-- Why the program is about to roll back. -/
def rollsBack : Prog S E α → Option (Option E)
  | rollback e _ => some e
  | _ => none

theorem rollsBack_eq_some {p : Prog S E α} {e : Option E} : p.rollsBack = some e ↔
    ∃ k, p = rollback e k := by
  cases p <;> simp [rollsBack]

end Prog

end Txn
