import DreamFly.Auth.Session
import DreamFly.Content.Pages

/-!
# Accounts

How accounts are born and linked: registration, accounts that an administrator creates, and
signing in with Google, which creates an account, links one that has the verified email, or
refreshes the one it is linked to. Beside them are the partial updates of a user's row.

What the identity provider has answered is part of the request (`GoogleIdentity`); Argon2, the
JWT library and the letter cases are parameters (`AccountEnv`).
-/

namespace DreamFly.Linking

open Txn Prog
open Content (Letters UpdateProfileRequest birthDateRangeError formatValidationErrors)

/-! ## Tables -/

inductive Role
  | admin
  | coach
  | member
  | guest
deriving DecidableEq, Repr

def Role.all : List Role := [.admin, .coach, .member, .guest]

structure User where
  email : String
  name : String
  phone : Option String
  phoneVerified : Bool
  avatarUrl : Option String
  passwordHash : Option String
  googleId : Option String
  isActive : Bool
  lastLogin : Option Instant
  birthDate : Option ℤ
deriving DecidableEq, Repr

structure UserRegisteredPayload where
  userId : Uuid
  email : String
  name : String
deriving DecidableEq, Repr

structure OutboxEvent where
  payload : UserRegisteredPayload
  correlationId : Option String
deriving DecidableEq, Repr

inductive AccountTbl
  | users
  | roles
  | userRoles
  | refreshTokens
  | eventsOutbox
deriving DecidableEq, Repr

/-- The entries of the unique indexes on `users`; emails are CITEXT. -/
inductive AccountUniq
  | email (lowerEmail : String)
  | googleId (googleId : String)
deriving DecidableEq, Repr

@[reducible] def AccountTbl.Key : AccountTbl → Type
  | .users => Uuid
  | .roles => Role
  | .userRoles => Uuid × Role
  | .refreshTokens => String
  | .eventsOutbox => Uuid

@[reducible] def AccountTbl.Row : AccountTbl → Type
  | .users => User
  | .roles => Unit
  | .userRoles => Unit
  | .refreshTokens => RefreshToken
  | .eventsOutbox => OutboxEvent

instance AccountTbl.decidableEqKey : ∀ t : AccountTbl, DecidableEq t.Key
  | .users => inferInstanceAs (DecidableEq ℕ)
  | .roles => inferInstanceAs (DecidableEq Role)
  | .userRoles => inferInstanceAs (DecidableEq (ℕ × Role))
  | .refreshTokens => inferInstanceAs (DecidableEq String)
  | .eventsOutbox => inferInstanceAs (DecidableEq ℕ)

@[reducible] def Registry : Schema where
  Tbl := AccountTbl
  Key := AccountTbl.Key
  Row := AccountTbl.Row
  Uniq := AccountUniq

abbrev Tx := Prog Registry AppError

/-- The configuration and the libraries. `hashForStorage` draws a salt. -/
structure AccountEnv extends AuthEnv String String where
  letters : Letters
  hashForStorage : ℕ → String → Except AppError String

/-- `AppError::conflict_on_unique`, over the error of a piece of a transaction. -/
def conflictOnUnique {α : Type} (msg : String) (p : Tx α) : Tx α :=
  p.handle .ret fun e => .fail (match e with
    | .database e => AppError.conflictOnUnique e msg
    | e => e)

variable (E : AccountEnv)

/-- Account emails are lower-cased, not trimmed. -/
def normalizeEmail (email : String) : String := E.letters.toLowercase email

/-! ## Statements on users -/

/-- The widths of the columns. -/
def User.columns (u : User) : Bool :=
  u.name.length ≤ 100 ∧ u.phone.all (fun s => s.length ≤ 20) ∧
  u.googleId.all (fun s => s.length ≤ 255)

/-- The CHECK constraint `users_has_auth_method`. -/
def User.hasAuthMethod (u : User) : Bool := u.passwordHash.isSome ∨ u.googleId.isSome

def findUserByGoogleId (googleId : String) (d : Store Registry) : Option (Uuid × User) :=
  (d.sel .users fun _ u => u.googleId = some googleId).head?

def findUserByEmail (email : String) (d : Store Registry) : Option (Uuid × User) :=
  (d.sel .users fun _ u => E.letters.lower u.email = E.letters.lower email).head?

/-- The entry of the unique index on `email` that a user is about to take. -/
def takeEmail (id : Option Uuid) (email : String) : Tx Unit := do
  let b ← claim (S := Registry) (.uniq (.email (E.letters.lower email))) fun d =>
    !(d.sel .users fun k u => some k ≠ id ∧ E.letters.lower u.email = E.letters.lower email).isEmpty
  ensure (!b) (.database (.unique "users_email_key"))

def takeGoogleId (id : Option Uuid) (googleId : String) : Tx Unit := do
  let b ← claim (S := Registry) (.uniq (.googleId googleId)) fun d =>
    !(d.sel .users fun k u => some k ≠ id ∧ u.googleId = some googleId).isEmpty
  ensure (!b) (.database (.unique "users_google_id_key"))

def takeGoogleIdOf (u : User) : Tx Unit :=
  match u.googleId with
  | none => return ()
  | some googleId => takeGoogleId none googleId

/-- INSERT INTO users … RETURNING *. -/
def insertUser (u : User) : Tx (Uuid × User) := do
  ensure u.columns (.database .outOfRange)
  ensure u.hasAuthMethod (.database (.check "users_has_auth_method"))
  takeEmail E none u.email
  takeGoogleIdOf u
  let id ← insert (S := Registry) .users id fun _ => u
  return (id, u)

/-- `email` is already normalized. -/
def createUserTx (email name : String) (phone : Option String) (passwordHash : String)
    (birthDate : Option ℤ) : Tx (Uuid × User) :=
  insertUser E ⟨email, name, phone, false, none, some passwordHash, none, true, none, birthDate⟩

/-- The SET of the upsert. -/
def User.refresh (email name : String) (avatarUrl : Option String) (u : User) : User :=
  { u with email := email, name := name, avatarUrl := avatarUrl.orElse fun _ => u.avatarUrl }

/-- The entries of the email before and after. -/
def moveEmail (id : Uuid) (old new : String) : Tx Unit := do
  lockRes (S := Registry) (.uniq (.email (E.letters.lower old))) .update
  takeEmail E (some id) new

/-- The DO UPDATE of the upsert, if the row still has this Google id when it is locked. -/
def refreshGoogleUser (id : Uuid) (email name googleId : String) (avatarUrl : Option String) :
    Tx (Option (Uuid × User)) := do
  match ← selectFor (S := Registry) .users id (fun u => u.googleId = some googleId) .update with
  | none => return none
  | some u =>
    ensure (u.refresh email name avatarUrl).columns (.database .outOfRange)
    moveEmail E id u.email email
    put (S := Registry) (.mod .users id (onlyIf (fun u => u.googleId = some googleId)
      (User.refresh email name avatarUrl)))
    return some (id, u.refresh email name avatarUrl)

/-- The DO UPDATE, if there is a conflict. -/
def refreshExisting (existing : Option (Uuid × User)) (email name googleId : String)
    (avatarUrl : Option String) : Tx (Option (Uuid × User)) :=
  match existing with
  | none => return none
  | some (id, _) => refreshGoogleUser E id email name googleId avatarUrl

/-- INSERT … ON CONFLICT (google_id) DO UPDATE SET … RETURNING *. -/
def createOrUpdateGoogleUserTx (email name googleId : String) (avatarUrl : Option String) :
    Tx (Uuid × User) := do
  lockRes (S := Registry) (.uniq (.googleId googleId)) .update
  let existing ← read (S := Registry) (findUserByGoogleId googleId)
  let row ← refreshExisting E existing email name googleId avatarUrl
  match row with
  | some row => return row
  | none =>
    insertUser E ⟨email, name, none, false, avatarUrl, none, some googleId, true, none, none⟩

/-- The SET of the link. -/
def User.link (googleId : String) (avatarUrl : Option String) (u : User) : User :=
  { u with googleId := some googleId, avatarUrl := avatarUrl.orElse fun _ => u.avatarUrl }

def lockGoogleId (googleId : Option String) : Tx Unit :=
  match googleId with
  | none => return ()
  | some googleId => lockRes (S := Registry) (.uniq (.googleId googleId)) .update

/-- The entries of a Google id that is set, whatever was there before. -/
def moveGoogleId (id : Uuid) (old : Option String) (new : String) : Tx Unit := do
  lockGoogleId old
  takeGoogleId (some id) new

/-- UPDATE users SET google_id, avatar_url WHERE id RETURNING *. -/
def linkGoogleAccountTx (userId : Uuid) (googleId : String) (avatarUrl : Option String) :
    Tx (Uuid × User) := do
  let u ← selectFor (S := Registry) .users userId (fun _ => true) .update
  let u ← orFail u (.database .rowNotFound)
  ensure (u.link googleId avatarUrl).columns (.database .outOfRange)
  moveGoogleId userId u.googleId googleId
  put (S := Registry) (.mod .users userId (User.link googleId avatarUrl))
  return (userId, u.link googleId avatarUrl)

def updateLastLogin (userId : Uuid) : Tx Unit := do
  let now ← choose
  let _ ← updateRow (S := Registry) .users userId (fun _ => true) fun u =>
    { u with lastLogin := some (now : ℤ) }

/-! ## Roles, events and sessions -/

/-- INSERT INTO user_roles … ON CONFLICT DO NOTHING, of a role that has a row. -/
def assignRole (userId : Uuid) (role : Role) : Tx Unit := do
  let row ← read (S := Registry) (·.get .roles role)
  let _ ← orFail row (.database .rowNotFound)
  if ← claim (S := Registry) (.row .userRoles (userId, role)) fun d =>
    (d.get .userRoles (userId, role)).isSome then
    return ()
  references (S := Registry) .users userId (.database (.foreignKey "users"))
  references (S := Registry) .roles role (.database (.foreignKey "roles"))
  put (S := Registry) (.add .userRoles (userId, role) ())

/-- The roles in the order of their names. -/
def findRoleNamesByUser (userId : Uuid) : Tx (List Role) :=
  read (S := Registry) fun d => Role.all.filter fun role => (d.get .userRoles (userId, role)).isSome

def insertDomainEventTx (payload : UserRegisteredPayload) (correlationId : Option String) :
    Tx Unit := do
  let _ ← insert (S := Registry) .eventsOutbox id fun _ => ⟨payload, correlationId⟩

def saveRefreshToken (userId : Uuid) (tokenHash : String) (expiresAt : Instant) : Tx Unit := do
  let taken ← claim (S := Registry) (.row .refreshTokens tokenHash) fun d =>
    (d.get .refreshTokens tokenHash).isSome
  ensure (!taken) (.database (.unique "refresh_tokens_token_hash_key"))
  references (S := Registry) .users userId (.database (.foreignKey "users"))
  put (S := Registry) (.add .refreshTokens tokenHash ⟨userId, expiresAt, false⟩)

structure UserResponse where
  id : Uuid
  user : User
  roles : List Role
deriving DecidableEq, Repr

/-- The access token is not stored. -/
structure AuthResponse where
  refreshToken : String
  user : UserResponse
deriving DecidableEq, Repr

/-- `session::start`: every issuance crosses the gate on `is_active`. -/
def start (user : Uuid × User) (now : Instant) : Tx AuthResponse := do
  ensure user.2.isActive .unauthorized
  let jti ← choose
  let refreshToken := E.encodeRefreshToken ⟨user.1, Auth.refreshExpiry E.toAuthEnv now, now, jti⟩
  saveRefreshToken user.1 (E.hashToken refreshToken) (Auth.refreshExpiry E.toAuthEnv now)
  let roles ← findRoleNamesByUser user.1
  return ⟨refreshToken, user.1, user.2, roles⟩

/-- `session::end_all`. -/
def endAll (userId : Uuid) : Tx Unit := do
  let _ ← deleteAll (S := Registry) .refreshTokens fun _ r => r.userId = userId

/-! ## Birth -/

structure NewAccount where
  email : String
  name : String
  phone : Option String
  birthDate : Option ℤ
  passwordHash : String
deriving DecidableEq, Repr

/-- The row, the role and the event, in this order. -/
def createAccount (account : NewAccount) (correlationId : Option String) : Tx (Uuid × User) := do
  let user ← createUserTx E (normalizeEmail E account.email) account.name account.phone
      account.passwordHash account.birthDate
  assignRole user.1 .member
  insertDomainEventTx ⟨user.1, user.2.email, user.2.name⟩ correlationId
  return user

structure RegisterRequest where
  email : String
  name : String
  password : String
deriving DecidableEq, Repr

def register (req : RegisterRequest) (correlationId : Option String) (now : Instant) :
    Tx AuthResponse := do
  let salt ← choose
  let hashed ← checked (E.hashForStorage salt req.password)
  atomically do
    let user ← conflictOnUnique "registration failed" (createAccount E ⟨req.email, req.name, none,
        none, hashed⟩ correlationId)
    start E user now

structure CreateUserRequest where
  email : String
  name : String
  phone : Option String
  password : String
  birthDate : Option ℤ
deriving DecidableEq, Repr

def checkBirthDate (birthDate : Option ℤ) (today : ℤ) (msg : String → String) :
    Except AppError Unit :=
  match birthDate.bind fun date => birthDateRangeError date today with
  | none => .ok ()
  | some e => .error (.validation (msg e))

/-- `POST /users`. -/
def createUser (req : CreateUserRequest) (correlationId : Option String) (today : ℤ) :
    Tx UserResponse := do
  checked (checkBirthDate req.birthDate today fun e => formatValidationErrors [⟨"birth_date", e⟩])
  let salt ← choose
  let hashed ← checked (E.hashForStorage salt req.password)
  atomically do
    let user ← conflictOnUnique "Email 已被使用" (createAccount E ⟨req.email, req.name, req.phone,
        req.birthDate, hashed⟩ correlationId)
    let roles ← findRoleNamesByUser user.1
    return ⟨user.1, user.2, roles⟩

/-! ## Signing in with Google -/

/-- A Google account whose id token has passed all checks. -/
structure GoogleIdentity where
  sub : String
  email : String
  name : Option String
  picture : Option String
deriving DecidableEq, Repr

inductive LinkAction
  | create
  | link (userId : Uuid)
  | refresh
deriving DecidableEq, Repr

structure LinkPlan where
  action : LinkAction
  grantMember : Bool
  emitRegisteredEvent : Bool
  sendWelcome : Bool
deriving DecidableEq, Repr

/-- The decision looks at what was found, not at which Google id it has. -/
def plan (existingByGoogle existingByEmail : Option (Uuid × User)) : Except AppError LinkPlan :=
  match existingByGoogle, existingByEmail with
  | some _, _ => .ok ⟨.refresh, false, false, false⟩
  | none, some (id, user) =>
    if user.googleId.isSome then .error (.conflict "email already associated with another account")
    else .ok ⟨.link id, false, true, false⟩
  | none, none => .ok ⟨.create, true, true, true⟩

/-- The email is looked up only where the Google id is unknown. -/
def lookUp (identity : GoogleIdentity) (email : String) : Tx LinkPlan := do
  let existingByGoogle ← read (S := Registry) (findUserByGoogleId identity.sub)
  let existingByEmail ← (match existingByGoogle with
    | some _ => pure none
    | none => read (S := Registry) (findUserByEmail E email))
  checked (plan existingByGoogle existingByEmail)

def carryOut (action : LinkAction) (identity : GoogleIdentity) (email name : String) :
    Tx (Uuid × User) :=
  match action with
  | .create | .refresh => createOrUpdateGoogleUserTx E email name identity.sub identity.picture
  | .link userId => linkGoogleAccountTx userId identity.sub identity.picture

/-- The transaction of `google_auth`. -/
def googleAuthTx (identity : GoogleIdentity) (correlationId : Option String) (now : Instant) :
    Tx AuthResponse := do
  let name := identity.name.getD identity.email
  let email := normalizeEmail E identity.email
  let plan ← lookUp E identity email
  let user ← carryOut E plan.action identity email name
  (if plan.grantMember then assignRole user.1 .member else pure ())
  updateLastLogin user.1
  let response ← start E user now
  (if plan.emitRegisteredEvent then insertDomainEventTx ⟨user.1, user.2.email,
    user.2.name⟩ correlationId else pure ())
  return response

/-- `verified`: what `verify_code` has answered. -/
def googleAuth (verified : Except AppError GoogleIdentity) (correlationId : Option String)
    (now : Instant) : Tx AuthResponse := do
  let identity ← checked verified
  atomically (googleAuthTx E identity correlationId now)

/-! ## Updates of a row -/

structure UpdateUserRequest where
  name : Option String
  phone : Option String
  isActive : Option Bool
deriving DecidableEq, Repr

/-- A phone number that really changes is unverified. -/
def User.withPhone (phone : Option String) (u : User) : User :=
  match phone with
  | none => u
  | some phone =>
    { u with phone := some phone, phoneVerified := if u.phone ≠ some phone then false else
      u.phoneVerified }

def setActiveTx (userId : Uuid) (isActive : Bool) : Tx Unit := do
  let _ ← updateRow (S := Registry) .users userId (fun _ => true) fun u =>
    { u with isActive := isActive }

def deactivateTx (userId : Uuid) : Tx Unit := do
  setActiveTx userId false
  endAll userId

def reactivateTx (userId : Uuid) : Tx Unit := setActiveTx userId true

def updateActive (userId : Uuid) (isActive : Option Bool) : Tx Unit :=
  match isActive with
  | some false => deactivateTx userId
  | some true => reactivateTx userId
  | none => return ()

def User.adminUpdate (req : UpdateUserRequest) (u : User) : User :=
  { u.withPhone req.phone with name := req.name.getD u.name }

/-- UPDATE users … RETURNING *, with the widths of the columns. -/
def updateUser (userId : Uuid) (f : User → User) : Tx (Option User) := do
  let u ← updateRow (S := Registry) .users userId (fun _ => true) f
  ensure (u.all User.columns) (.database .outOfRange)
  return u

/-- `PATCH /users/{id}`. -/
def adminUpdateUser (userId : Uuid) (req : UpdateUserRequest) : Tx UserResponse := do
  ensure (req.name.isSome ∨ req.phone.isSome ∨ req.isActive.isSome) (.validation "至少提供一個欄位")
  let user ← atomically do
    updateActive userId req.isActive
    let user ← updateUser userId (User.adminUpdate req)
    orFail user (.notFound "user not found")
  let roles ← findRoleNamesByUser userId
  return ⟨userId, user, roles⟩

def User.updateProfile (req : UpdateProfileRequest) (u : User) : User :=
  { u.withPhone req.phone with
    name := req.name.getD u.name
    avatarUrl := req.avatarUrl.orElse fun _ => u.avatarUrl
    birthDate := req.birthDate.getD u.birthDate }

/-- `PATCH /users/me`. -/
def updateMe (userId : Uuid) (req : UpdateProfileRequest) (today : ℤ) : Tx UserResponse := do
  checked (checkBirthDate (req.birthDate.bind fun date => date) today fun e => e)
  let user ← atomically do
    let user ← updateUser userId (User.updateProfile req)
    orFail user (.database .rowNotFound)
  let roles ← findRoleNamesByUser userId
  return ⟨userId, user, roles⟩

/-! ## The service -/

inductive AccountReq
  | register (req : RegisterRequest) (correlationId : Option String) (now : Instant)
  | createUser (req : CreateUserRequest) (correlationId : Option String) (today : ℤ)
  | googleAuth (verified : Except AppError GoogleIdentity) (correlationId : Option String)
  (now : Instant)
  | adminUpdateUser (userId : Uuid) (req : UpdateUserRequest)
  | updateMe (userId : Uuid) (req : UpdateProfileRequest) (today : ℤ)

inductive AccountReply
  | session (r : AuthResponse)
  | user (r : UserResponse)
deriving DecidableEq, Repr

def AccountReq.prog : AccountReq → Tx AccountReply
  | .register req correlationId now =>
    do return .session (← Linking.register E req correlationId now)
  | .createUser req correlationId today =>
    do return .user (← Linking.createUser E req correlationId today)
  | .googleAuth verified correlationId now =>
    do return .session (← Linking.googleAuth E verified correlationId now)
  | .adminUpdateUser userId req => do return .user (← Linking.adminUpdateUser userId req)
  | .updateMe userId req today => do return .user (← Linking.updateMe userId req today)

def accounts : Service Registry AppError AccountReply AccountReq where
  prog := AccountReq.prog E
  crash := .database .connection

end DreamFly.Linking
