import DreamFly.Base
import DreamFly.Conc.Protocol

/-!
# Password-reset tokens

`issue` and `consume` over two keys of the short-lived store: the token's own key, which
says whose it is, and the user's index key, which says which token is the current one.
-/

namespace DreamFly.Reset

open Conc Code

/-- 32 random bytes. -/
abbrev Token := ℕ

inductive Key
  /-- `password_reset:{token}` -/
  | token (t : Token)
  /-- `password_reset_current:{user_id}` -/
  | index (userId : Uuid)
deriving DecidableEq

/-- What the keys hold: a user's id under a token, a token under an index. -/
inductive Stored
  | user (userId : Uuid)
  | token (t : Token)
deriving DecidableEq, Repr

def passwordResetTtlSeconds : ℕ := 900

/-- The random bytes of a token. -/
@[reducible] def random : Machine where
  State := Unit
  Cmd := Unit
  Reply _ := Token
  Env := Empty
  exec _ _ n x := some (n, x)
  env v := v.elim

@[reducible] def backend : Machine := random.withStore Key Stored

abbrev Io := Code backend AppError

/-- Fail-closed: a store call that fails ends the request with a 500. -/
abbrev ephemeral (c : StoreCmd Key Stored) : Io c.Answer := store (.internal "ephemeral store") c

/-- The token an index key holds. -/
def asToken : Val Stored → Option Token
  | .text (.token t) => some t
  | _ => none

/-- The user a token key holds, parsed. -/
def asUser : Val Stored → Option Uuid
  | .text (.user u) => some u
  | _ => none

/-- The previous token, if there is one, is no longer good. -/
def forget : Option Token → Io Unit
  | some previous => ephemeral (.del (.token previous))
  | none => return ()

def issue (userId : Uuid) : Io Token := do
  let token ← other (M := random) ()
  let previous ← ephemeral (.get (.index userId))
  forget (previous.bind asToken)
  ephemeral (.setEx (.token token) (.user userId) passwordResetTtlSeconds)
  ephemeral (.setEx (.index userId) (.token token) passwordResetTtlSeconds)
  return token

def consume (token : Token) : Io Uuid := do
  let stored ← ephemeral (.getdel (.token token))
  let stored ← orFail stored (.badRequest "invalid or expired token")
  let userId ← orFail (asUser stored) (.internal "invalid user_id in reset token")
  ephemeral (.del (.index userId))
  return userId

inductive Req
  | issue (userId : Uuid)
  | consume (token : Token)
deriving DecidableEq

/-- A token, or the user it was for. -/
inductive Reply
  | issued (t : Token)
  | accepted (userId : Uuid)
deriving DecidableEq

def Req.prog : Req → Io Reply
  | .issue u => do return .issued (← Reset.issue u)
  | .consume t => do return .accepted (← Reset.consume t)

def tokens : Service backend AppError Reply Req where
  prog := Req.prog

/-! ## The commands in order -/

/-- How far a call has come; an `issue` knows its token from `look` on. -/
inductive Phase
  | draw
  | look (t : Token)
  | clear (t previous : Token)
  | store (t : Token)
  | index (t : Token)
  | take
  | unindex (userId : Uuid)
  | done

def afterLook (t : Token) : Except StoreError (Option (Val Stored)) → Phase
  | .ok previous =>
    match previous.bind asToken with
    | some p => .clear t p
    | none => .store t
  | .error _ => .done

/-- On to the next phase unless the store failed. -/
def unlessFailed (σ : Phase) : Except StoreError Unit → Phase
  | .ok _ => σ
  | .error _ => .done

def afterTake : Except StoreError (Option (Val Stored)) → Phase
  | .ok stored =>
    match stored.bind asUser with
    | some u => .unindex u
    | none => .done
  | .error _ => .done

theorem afterTake_cases (r : Except StoreError (Option (Val Stored))) :
    afterTake r = .done ∨ ∃ v u, r = .ok (some v) ∧ asUser v = some u ∧
      afterTake r = .unindex u := by
  unfold afterTake
  split
  · next stored =>
    split
    · next u hu =>
      obtain ⟨v, rfl, hv⟩ := Option.bind_eq_some_iff.1 hu
      exact .inr ⟨v, u, rfl, hv, rfl⟩
    · exact .inl rfl
  · exact .inl rfl

inductive Gives : Req → Phase → (c : backend.Cmd) → (backend.Reply c → Phase) → Prop
  | draw (u : Uuid) : Gives (.issue u) .draw (.other ()) Phase.look
  | look (u : Uuid) (t : Token) : Gives (.issue u) (.look t) (.store (.get (.index u)))
  (afterLook t)
  | clear (u : Uuid) (t p : Token) : Gives (.issue u) (.clear t p) (.store (.del (.token p)))
  (unlessFailed (.store t))
  | store (u : Uuid) (t : Token) :
    Gives (.issue u) (.store t) (.store (.setEx (.token t) (.user u) passwordResetTtlSeconds))
    (unlessFailed (.index t))
  | index (u : Uuid) (t : Token) :
    Gives (.issue u) (.index t) (.store (.setEx (.index u) (.token t) passwordResetTtlSeconds))
    fun _ => .done
  | take (t : Token) : Gives (.consume t) .take (.store (.getdel (.token t))) afterTake
  | unindex (t : Token) (u : Uuid) : Gives (.consume t) (.unindex u)
  (.store (.del (.index u))) fun _ => .done

@[reducible] def protocol (q : Req) : Protocol backend AppError Reply where
  Phase := Phase
  gives := Gives q
  ends _ σ := σ = .done

/-- A call that is done gives no more commands. -/
theorem finished_of_done {q : Req} {p : Io Reply} (h : p.Keeps (protocol q) Phase.done) :
    p.finished = true := by
  refine (h.over fun c f hg => ?_).1
  cases hg

abbrev Io.Follows {α : Type} (q : Req) (p : Io α) (σ : Phase) (post : Phase → Prop) : Prop :=
  Code.Follows (protocol q) (fun _ => post) σ p

theorem forget_follows {u : Uuid} {t : Token} (stored : Option (Val Stored)) :
    (forget (stored.bind asToken)).Follows (.issue u) (afterLook t (.ok stored)) fun σ =>
      σ = .store t := by
  unfold afterLook
  dsimp only
  cases stored.bind asToken with
  | none => exact (rfl : Phase.store t = .store t)
  | some p => exact Follows.lastStore (.clear u t p) (fun _ => rfl) fun _ => rfl

theorem issue_follows {u : Uuid} : (issue u).Follows (.issue u) .draw fun σ => σ = .done := by
  unfold issue
  refine Follows.other (.draw u) fun t => ?_
  refine Follows.store (.look u t) (fun _ => rfl) fun stored => ?_
  refine Follows.bind (forget_follows stored) ?_
  rintro _ σ rfl
  refine Follows.store (.store u t) (fun _ => rfl) fun _ => ?_
  refine Follows.store (.index u t) (fun _ => rfl) fun _ => ?_
  rfl

theorem consume_follows {t : Token} : (consume t).Follows (.consume t) .take fun σ =>
    σ = .done := by
  unfold consume
  refine Follows.store (.take t) (fun _ => rfl) fun stored => ?_
  refine Follows.orFail (fun hnone => by rw [hnone]; rfl) ?_
  rintro v rfl
  refine Follows.orFail (fun hnone => by simp only [afterTake, Option.bind_some, hnone])
    fun u hu => ?_
  have hnext : afterTake (.ok (some v)) = .unindex u := by
    simp only [afterTake, Option.bind_some, hu]
  rw [hnext]
  exact Follows.store (.unindex t u) (fun _ => rfl) fun _ => rfl

/-- The phase a request starts in. -/
def Req.first : Req → Phase
  | .issue _ => .draw
  | .consume _ => .take

theorem tokens_keeps (q : Req) : (tokens.prog q).Keeps (protocol q) q.first := by
  cases q with
  | issue u => exact Follows.bind issue_follows fun _ _ h => h
  | consume t => exact Follows.bind consume_follows fun _ _ h => h

end DreamFly.Reset
