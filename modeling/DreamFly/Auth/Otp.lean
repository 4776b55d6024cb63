import DreamFly.Base
import DreamFly.Conc.Ephemeral
import DreamFly.Content.Pages

/-!
# Phone verification

Sending a code, checking it, and the writes to the two columns of `users` that say
which phone a user has and whether it is verified. The code and its attempt counter
are entries of the short-lived store; a call waits for the lock on a user's row and
for nothing else.
-/

namespace DreamFly.Otp

open Conc Code
open Txn (Table)
open Content (UpdateProfileRequest birthDateRangeError)

/-! ## The store's keys -/

inductive Key
  | otpRate (userId : Uuid)
  | otp (userId : Uuid)
  | otpAttempts (userId : Uuid)
deriving DecidableEq

/-- `{"phone": …, "code": …}` -/
structure Payload where
  phone : String
  code : String
deriving DecidableEq, Repr

def otpRequestsPerHour : ℤ := 3

def otpMaxAttempts : ℤ := 5

def otpTtlSeconds : ℕ := 300

def otpRateLimitTtl : ℕ := 3600

/-! ## The users table -/

structure User where
  name : String
  phone : Option String
  phoneVerified : Bool
  avatarUrl : Option String
  preferences : Option String
  birthDate : Option ℤ
  isActive : Bool
deriving DecidableEq, Repr

/-- A row: what is committed, and what the transaction that has it locked has made of it. -/
structure Slot where
  committed : User
  pending : Option (ℕ × User)
deriving DecidableEq, Repr

namespace Slot

/-- Another transaction than that of call `t` has the row locked. -/
def lockedFor (t : ℕ) (s : Slot) : Bool := s.pending.any fun p => p.1 ≠ t

/-- The row as call `t` sees it once it has the lock. -/
def current (t : ℕ) (s : Slot) : User :=
  match s.pending with
  | some (t', u) => if t' = t then u else s.committed
  | none => s.committed

/-- The row after call `t` has written it in its transaction. -/
def write (t : ℕ) (u : User) (s : Slot) : Slot := { s with pending := some (t, u) }

/-- The row after a statement outside a transaction. -/
def set (u : User) (_ : Slot) : Slot := ⟨u, none⟩

def commit (t : ℕ) (s : Slot) : Slot :=
  match s.pending with
  | some (t', u) => if t' = t then ⟨u, none⟩ else s
  | none => s

def rollback (t : ℕ) (s : Slot) : Slot :=
  match s.pending with
  | some (t', _) => if t' = t then ⟨s.committed, none⟩ else s
  | none => s

end Slot

abbrev Users := Table Uuid Slot

namespace Users

/-- The committed row of a user. -/
def row (d : Users) (id : Uuid) : Option User := (d.lookup id).map Slot.committed

/-- A row has `phone` in the unique index on verified phones. -/
def holdsPhone (phone : String) (u : User) : Bool := u.phoneVerified && u.phone = some phone

end Users

structure UpdateUserRequest where
  name : Option String
  phone : Option String
  isActive : Option Bool
deriving DecidableEq, Repr

/-- SET phone_verified = true, phone = $2. -/
def updatePhoneVerified (phone : String) (r : User) : User :=
  { r with phoneVerified := true, phone := some phone }

/-- The SET clauses of `update_profile`, every right-hand side over the old row. -/
def updateProfile (req : UpdateProfileRequest) (r : User) : User :=
  { r with
    name := req.name.getD r.name
    phone := match req.phone with
      | some v => some v
      | none => r.phone
    phoneVerified := match req.phone with
      | some v => if r.phone ≠ some v then false else r.phoneVerified
      | none => r.phoneVerified
    avatarUrl := match req.avatarUrl with
      | some v => some v
      | none => r.avatarUrl
    preferences := match req.preferences with
      | some v => some v
      | none => r.preferences
    birthDate := req.birthDate.getD r.birthDate }

/-- The SET clauses of `admin_update`: COALESCE of name and phone, the flag reset where
the phone is given and distinct from the old one. -/
def adminUpdate (name phone : Option String) (r : User) : User :=
  { r with
    name := name.getD r.name
    phone := phone.or r.phone
    phoneVerified := if phone ≠ none ∧ phone ≠ r.phone then false else r.phoneVerified }

/-! ## Statements -/

inductive UserCmd
  /-- A random number between 100000 and 999999. -/
  | drawCode
  | sendSms (number code : String)
  | updatePhoneVerified (userId : Uuid) (phone : String)
  | updateProfile (userId : Uuid) (req : UpdateProfileRequest)
  | setActiveTx (userId : Uuid) (isActive : Bool)
  | adminUpdateTx (userId : Uuid) (name phone : Option String)
  /-- The end of a transaction that has written this row. -/
  | commit (userId : Uuid)
  | rollback (userId : Uuid)
deriving DecidableEq

@[reducible] def UserCmd.Reply : UserCmd → Type
  | .drawCode => ℕ
  | .sendSms _ _ => Bool
  | .updatePhoneVerified _ _ => Except DbError Unit
  | .updateProfile _ _ => Except DbError User
  | .setActiveTx _ _ => Unit
  | .adminUpdateTx _ _ _ => Option User
  | .commit _ => Unit
  | .rollback _ => Unit

/-- Another row has the phone in the unique index, committed or not decided yet. -/
def Users.phoneTaken (d : Users) (id : Uuid) (phone : String) : Bool :=
  d.rows.any fun e => e.1 ≠ id && holdsPhone phone e.2.committed

def Users.phoneUndecided (d : Users) (id : Uuid) (phone : String) : Bool :=
  d.rows.any fun e => e.1 ≠ id && e.2.pending.any fun p =>
    holdsPhone phone e.2.committed || holdsPhone phone p.2

/-- UPDATE users … WHERE id: waits while another transaction has the row, or the entry of
the unique index, and looks at the committed row then. -/
def updatePhoneVerifiedStmt (t : ℕ) (d : Users) (id : Uuid) (phone : String) :
    Option (Except DbError Unit × Users) :=
  match d.lookup id with
  | none => some (.ok (), d)
  | some s =>
    if s.lockedFor t || d.phoneUndecided id phone then none
    else if d.phoneTaken id phone then some (.error (.unique "uq_users_phone_verified"), d)
    else some (.ok (), d.insert id (s.set (updatePhoneVerified phone s.committed)))

/-- UPDATE users … WHERE id RETURNING *, outside a transaction. -/
def updateProfileStmt (t : ℕ) (d : Users) (id : Uuid) (req : UpdateProfileRequest) :
    Option (Except DbError User × Users) :=
  match d.lookup id with
  | none => some (.error .rowNotFound, d)
  | some s =>
    if s.lockedFor t then none
    else
      let r := updateProfile req s.committed
      some (.ok r, d.insert id (s.set r))

/-- UPDATE users … WHERE id RETURNING *, in the transaction of call `t`. -/
def updateTxStmt (t : ℕ) (d : Users) (id : Uuid) (f : User → User) : Option (Option User × Users) :=
  match d.lookup id with
  | none => some (none, d)
  | some s =>
    if s.lockedFor t then none
    else
      let r := f (s.current t)
      some (some r, d.insert id (s.write t r))

/-- The database, the SMS gateway and the random numbers. -/
@[reducible] def users : Machine where
  State := Users
  Cmd := UserCmd
  Reply := UserCmd.Reply
  Env := Empty
  exec t c n d :=
    match c with
    | .drawCode => some (100000 + n % 900000, d)
    | .sendSms _ _ => some (n = 0, d)
    | .updatePhoneVerified id phone => updatePhoneVerifiedStmt t d id phone
    | .updateProfile id req => updateProfileStmt t d id req
    | .setActiveTx id b =>
      (updateTxStmt t d id fun r => { r with isActive := b }).map fun x => ((), x.2)
    | .adminUpdateTx id name phone => updateTxStmt t d id (adminUpdate name phone)
    | .commit id => some ((), Table.modify d id (Slot.commit t))
    | .rollback id => some ((), Table.modify d id (Slot.rollback t))
  env v := v.elim

/-- The short-lived store beside them. -/
@[reducible] def backend : Machine := users.withStore Key Payload

abbrev Io := Code backend AppError

/-- A store call that fails ends the request: fail-closed. -/
abbrev ephemeral (c : StoreCmd Key Payload) : Io c.Answer := store (.internal "ephemeral store") c

/-! ## `otp` -/

structure OtpVerifyRequest where
  phone : String
  code : String
deriving DecidableEq, Repr

/-- The second half of `send_otp`: the code is drawn, stored and sent. -/
def issueCode (userId : Uuid) (phone : String) : Io String := do
  let code ← other (M := users) .drawCode
  let code := toString code
  ephemeral (.setEx (.otp userId) ⟨phone, code⟩ otpTtlSeconds)
  ephemeral (.del (.otpAttempts userId))
  let sent ← other (M := users) (.sendSms phone code)
  ensure sent (.internal "sms")
  return "verification code sent"

def sendOtp (userId : Uuid) (phone : String) : Io String := do
  let count ← ephemeral (.incrWithTtl (.otpRate userId) otpRateLimitTtl)
  ensure (count ≤ otpRequestsPerHour)
    (.badRequest "too many verification requests, try again later")
  issueCode userId phone

/-- The stored text, read as JSON: a field that is not there is the empty string. -/
def decode : Val Payload → Payload
  | .text p => p
  | .count _ => ⟨"", ""⟩

/-- What `check` makes of the stored payload. -/
def judge (req : OtpVerifyRequest) (stored : Option (Val Payload)) : Except AppError Unit :=
  match stored with
  | none => .error (.badRequest "verification code expired")
  | some v =>
    if (decode v).phone ≠ req.phone then .error (.badRequest "invalid verification code")
    else if (decode v).code ≠ req.code then .error (.badRequest "invalid verification code")
    else .ok ()

/-- The attempt is counted before the code is looked at. -/
def check (userId : Uuid) (req : OtpVerifyRequest) : Io Unit := do
  let attempts ← ephemeral (.incrWithTtl (.otpAttempts userId) otpTtlSeconds)
  if attempts > otpMaxAttempts then
    ephemeral (.del (.otp userId))
    throw (.badRequest "too many attempts, request a new code")
  let stored ← ephemeral (.get (.otp userId))
  Code.check (judge req stored)

def consume (userId : Uuid) : Io Unit := do
  ephemeral (.del (.otp userId))
  ephemeral (.del (.otpAttempts userId))

def verifyOtp (userId : Uuid) (req : OtpVerifyRequest) : Io String := do
  check userId req
  let updated ← other (M := users) (.updatePhoneVerified userId req.phone)
  Code.check (updated.mapError .database)
  consume userId
  return "phone verified successfully"

/-! ## `users` -/

def updateMe (userId : Uuid) (req : UpdateProfileRequest) (today : ℤ) : Io User := do
  match req.birthDate with
  | some (some date) =>
    match birthDateRangeError date today with
    | some msg => throw (.validation msg)
    | none => pure ()
  | _ => pure ()
  let updated ← other (M := users) (.updateProfile userId req)
  Code.check (updated.mapError .database)

/-- `deactivate_tx` or `reactivate_tx`, where the request says so. -/
def setActiveTx (userId : Uuid) : Option Bool → Io Unit
  | none => return ()
  | some b => other (M := users) (.setActiveTx userId b)

/-- What the transaction of `admin_update_user` does after that. -/
def adminUpdateTx (userId : Uuid) (req : UpdateUserRequest) : Io User := do
  match ← other (M := users) (.adminUpdateTx userId req.name req.phone) with
  | none =>
    other (M := users) (.rollback userId)
    throw (.notFound "user not found")
  | some user =>
    other (M := users) (.commit userId)
    return user

def adminUpdateUser (userId : Uuid) (req : UpdateUserRequest) : Io User := do
  ensure (req.name.isSome || req.phone.isSome || req.isActive.isSome) (.validation "至少提供一個欄位")
  setActiveTx userId req.isActive
  adminUpdateTx userId req

/-! ## The service -/

inductive Req
  | sendOtp (userId : Uuid) (phone : String)
  | verifyOtp (userId : Uuid) (req : OtpVerifyRequest)
  | updateMe (userId : Uuid) (req : UpdateProfileRequest) (today : ℤ)
  | adminUpdateUser (userId : Uuid) (req : UpdateUserRequest)
deriving DecidableEq

inductive Reply
  | message (m : String)
  | user (r : User)

def Req.prog : Req → Io Reply
  | .sendOtp u phone => do return .message (← Otp.sendOtp u phone)
  | .verifyOtp u req => do return .message (← Otp.verifyOtp u req)
  | .updateMe u req today => do return .user (← Otp.updateMe u req today)
  | .adminUpdateUser u req => do return .user (← Otp.adminUpdateUser u req)

def phones : Service backend AppError Reply Req where
  prog := Req.prog

end DreamFly.Otp
