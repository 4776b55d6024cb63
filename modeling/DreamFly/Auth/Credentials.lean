import DreamFly.Base
import DreamFly.Conc.Protocol

/-!
# The credential check

Email and password to an account or a 401: the lockout check, the lookup, the slow
password hash, the verdict, and the failure counter, which is read before the hash and
written after it. The counter is fail-open: where the store fails, nobody is locked out.

`argon2 password hash` is the hash library's verification; it fails on a malformed hash.
-/

namespace DreamFly.Credentials

open Conc Code

/-- `login_fail:{email}` -/
structure Key where
  email : String
deriving DecidableEq

def loginMaxAttempts : ℤ := 10

def loginLockoutTtl : ℕ := 900

structure User where
  id : Uuid
  passwordHash : Option String
  isActive : Bool
deriving DecidableEq, Repr

inductive Cmd
  | findUserByEmail (email : String)
  | verifyPassword (password : String) (hash : Option String)
deriving DecidableEq

@[reducible] def Cmd.Reply : Cmd → Type
  | .findUserByEmail _ => Except DbError (Option User)
  | .verifyPassword _ _ => Except Unit Bool

section
variable (argon2 : String → String → Except Unit Bool)

/-- Without a hash one verification against a dummy hash, whose result does not matter. -/
def verifyPassword (password : String) (hash : Option String) : Except Unit Bool :=
  match hash with
  | some hash => argon2 password hash
  | none => .ok false

/-- The accounts by their email, which others may change at any time; a lookup may fail. -/
@[reducible] def accounts : Machine where
  State := String → Option User
  Cmd := Cmd
  Reply := Cmd.Reply
  Env := String → Option User
  exec _ c n d :=
    match c with
    | .findUserByEmail email => some (if n = 0 then .ok (d email) else .error .connection, d)
    | .verifyPassword password hash => some (Credentials.verifyPassword argon2 password hash, d)
  env d _ := d

@[reducible] def backend : Machine := (accounts argon2).withStore Key String

abbrev Io := Code (backend argon2) AppError

inductive Verdict
  | accept (u : User)
  | reject (counts : Bool)

def judge (user : Option User) (matched : Bool) : Verdict :=
  match user with
  | none => .reject true
  | some u =>
    if u.passwordHash.isNone then .reject true
    else if !matched then .reject true
    else if !u.isActive then .reject false
    else .accept u

/-- The number of a run of ASCII digits; there must be one. -/
def digits (cs : List Char) : Option ℤ :=
  if cs ≠ [] ∧ cs.all Char.isDigit then
    some (cs.foldl (fun n c => 10 * n + (c.toNat - '0'.toNat : ℕ)) 0)
  else none

/-- `str::parse::<i64>`: a sign at most, then digits, and the number must fit. -/
def parseI64 (s : String) : Option ℤ :=
  let number := match s.toList with
    | '+' :: cs => digits cs
    | '-' :: cs => (digits cs).map Neg.neg
    | cs => digits cs
  number.filter fitsI64

example : parseI64 "+10" = some 10 ∧ parseI64 "-" = none ∧ parseI64 "9223372036854775808" = none ∧
    parseI64 "-9223372036854775808" = some (-9223372036854775808) := by decide +kernel

/-- The counter as it was read: 0 where the store failed, nothing is there or it is no number. -/
def failures (stored : Except StoreError (Option (Val String))) : ℤ :=
  match stored with
  | .ok (some (.count n)) => n
  | .ok (some (.text v)) => (parseI64 v).getD 0
  | _ => 0

def loginLockedOut (email : String) : Io argon2 Bool := do
  let stored ← tryStore (.get ⟨email⟩)
  return failures stored ≥ loginMaxAttempts

def recordLoginFailure (email : String) : Io argon2 Unit := do
  let _ ← tryStore (.incrWithTtl ⟨email⟩ loginLockoutTtl)
  return ()

def clearLoginFailures (email : String) : Io argon2 Unit := do
  let _ ← tryStore (.del ⟨email⟩)
  return ()

/-- What follows from the verdict: the only place that counts or clears. -/
def settle (email : String) : Verdict → Io argon2 User
  | .reject true => do
    recordLoginFailure argon2 email
    throw .unauthorized
  | .reject false => throw .unauthorized
  | .accept user => do
    clearLoginFailures argon2 email
    return user

def verify (email password : String) : Io argon2 User := do
  let locked ← loginLockedOut argon2 email
  ensure (!locked) .unauthorized
  let user ← other (M := accounts argon2) (.findUserByEmail email)
  let user ← Code.check (user.mapError .database)
  let matched ← other (M := accounts argon2)
    (.verifyPassword password (user.bind User.passwordHash))
  let matched ← Code.check (matched.mapError fun _ => .internal "password verify error")
  settle argon2 email (judge user matched)

/-- A login attempt; the email is normalized. -/
structure Req where
  email : String
  password : String
deriving DecidableEq

def logins : Service (backend argon2) AppError User Req where
  prog q := verify argon2 q.email q.password

end

/-! ## The commands in order -/

inductive Phase
  | read
  | find
  | compare (user : Option User)
  | count
  | clear
  | done

def afterRead (stored : Except StoreError (Option (Val String))) : Phase :=
  if failures stored ≥ loginMaxAttempts then .done else .find

def afterFind : Except DbError (Option User) → Phase
  | .ok user => .compare user
  | .error _ => .done

def Verdict.next : Verdict → Phase
  | .accept _ => .clear
  | .reject true => .count
  | .reject false => .done

def afterCompare (user : Option User) : Except Unit Bool → Phase
  | .ok matched => (judge user matched).next
  | .error _ => .done

section protocol
variable (argon2 : String → String → Except Unit Bool)

inductive Gives : Req → Phase → (c : (backend argon2).Cmd) →
    ((backend argon2).Reply c → Phase) → Prop
  | read (q : Req) : Gives q .read (.store (.get ⟨q.email⟩)) afterRead
  | find (q : Req) : Gives q .find (.other (.findUserByEmail q.email)) afterFind
  | compare (q : Req) (user : Option User) :
    Gives q (.compare user) (.other (.verifyPassword q.password (user.bind User.passwordHash)))
    (afterCompare user)
  | count (q : Req) : Gives q .count (.store (.incrWithTtl ⟨q.email⟩ loginLockoutTtl)) fun _ =>
    .done
  | clear (q : Req) : Gives q .clear (.store (.del ⟨q.email⟩)) fun _ => .done

@[reducible] def protocol (q : Req) : Protocol (backend argon2) AppError User where
  Phase := Phase
  gives := Gives argon2 q
  ends _ σ := σ = .done

theorem settle_follows {q : Req} (v : Verdict) :
    Code.Follows (protocol argon2 q) (fun _ σ => σ = .done) v.next (settle argon2 q.email v) := by
  cases v with
  | accept user => exact Follows.tryStore (.clear q) fun _ => rfl
  | reject counts =>
    cases counts with
    | true => exact Follows.tryStore (.count q) fun _ => rfl
    | false => exact (rfl : Phase.done = .done)

/-- **An attempt keeps to its protocol.** -/
theorem logins_keeps (q : Req) : ((logins argon2).prog q).Keeps (protocol argon2 q) .read := by
  change Code.Follows (protocol argon2 q) (fun _ σ => σ = .done) .read
    (verify argon2 q.email q.password)
  unfold verify
  refine Follows.tryStore (.read q) fun stored => ?_
  by_cases hl : failures stored ≥ loginMaxAttempts
  · have hdone : afterRead stored = .done := if_pos hl
    rw [hdone]
    simp only [hl, decide_true, Bool.not_true]
    rfl
  · have hfind : afterRead stored = .find := if_neg hl
    rw [hfind]
    simp only [hl, decide_false, Bool.not_false]
    refine Follows.other (.find q) fun user => ?_
    cases user with
    | error e => rfl
    | ok user =>
      refine Follows.other (.compare q user) fun matched => ?_
      cases matched with
      | error e => rfl
      | ok matched => exact settle_follows argon2 (judge user matched)

end protocol

end DreamFly.Credentials
