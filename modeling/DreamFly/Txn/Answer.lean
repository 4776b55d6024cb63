import DreamFly.Txn.Sql

/-!
# Queries

Programs that only read. `answer` is what such a program ends with where all its
statements see the same store.
-/

namespace Txn

variable {S : Schema} {E α β : Type} {d : Store S}

namespace Prog

/-- What a program that only reads ends with at a store; none if it does anything else. -/
def answer (d : Store S) : Prog S E α → Option (Except E α)
  | ret a => some (.ok a)
  | fail e => some (.error e)
  | view k => (k d).answer d
  | _ => none

/-- The result, if there is one and it is no error. -/
def answered (d : Store S) (p : Prog S E α) : Option α :=
  match p.answer d with
  | some (.ok a) => some a
  | _ => none

theorem answer_bind (p : Prog S E α) (k : α → Prog S E β) :
    (p >>= k).answer d = (p.answer d).bind fun r => match r with
      | .ok a => (k a).answer d
      | .error e => some (.error e) := by
  rw [bind_eq]
  induction p with
  | view k ih => exact ih d
  | _ => rfl

theorem answered_bind (p : Prog S E α) (k : α → Prog S E β) :
    (p >>= k).answered d = (p.answered d).bind fun a => (k a).answered d := by
  unfold answered
  rw [answer_bind]
  cases p.answer d with
  | none => rfl
  | some r => cases r <;> rfl

@[simp] theorem answered_pure (a : α) : (pure a : Prog S E α).answered d = some a := rfl

@[simp] theorem answered_read (q : Store S → α) : (read q : Prog S E α).answered d =
    some (q d) := rfl

@[simp] theorem answered_orFail (o : Option α) (e : E) :
    (orFail o e : Prog S E α).answered d = o := by
  cases o <;> rfl

end Prog

end Txn
