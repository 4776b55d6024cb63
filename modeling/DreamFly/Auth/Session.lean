import DreamFly.Base
import DreamFly.Txn.Sql
import DreamFly.Txn.Sys

/-!
# Sessions

The life cycle of refresh tokens: issue (`start`), rotate, log out, end them all, purge
the expired ones. A token is stored by its hash. Rotation takes the user's row first,
`FOR SHARE`, then the token's; a revoked token that comes back is a replay and ends
every session of its user.

Tokens and hashes are whatever the JWT and hash libraries make them (`AuthEnv`).
-/

namespace DreamFly

open Txn Prog

/-! ## Tables -/

structure Account where
  email : String
  googleId : Option String
  passwordHash : Option String
  isActive : Bool
  lastLogin : Option Instant
deriving DecidableEq, Repr

structure RefreshToken where
  userId : Uuid
  expiresAt : Instant
  revoked : Bool
deriving DecidableEq, Repr

def RefreshToken.revoke (r : RefreshToken) : RefreshToken := { r with revoked := true }

inductive AuthTbl
  | users
  | refreshTokens
deriving DecidableEq, Repr

inductive AuthUniq
  | email (email : String)
  | googleId (googleId : String)
  /-- The lock that INSERT, UPDATE and DELETE keep on the table `refresh_tokens` until
  their transaction ends; they do not exclude each other. -/
  | rowExclusive
deriving DecidableEq, Repr

/-- A token row is found by its hash, which is unique. -/
@[reducible] def AuthTbl.Key (Hash : Type) : AuthTbl → Type
  | .users => Uuid
  | .refreshTokens => Hash

@[reducible] def AuthTbl.Row : AuthTbl → Type
  | .users => Account
  | .refreshTokens => RefreshToken

instance AuthTbl.decidableEqKey {Hash : Type} [DecidableEq Hash] : ∀ t : AuthTbl,
    DecidableEq (t.Key Hash)
  | .users => inferInstanceAs (DecidableEq ℕ)
  | .refreshTokens => inferInstanceAs (DecidableEq Hash)

@[reducible] def Accounts (Hash : Type) [DecidableEq Hash] : Schema where
  Tbl := AuthTbl
  Key := AuthTbl.Key Hash
  Row := AuthTbl.Row
  Uniq := AuthUniq

/-- What a refresh JWT says: `sub`, `exp`, `iat` and `jti`. -/
structure RefreshClaims where
  sub : Uuid
  exp : Instant
  iat : Instant
  jti : ℕ
deriving DecidableEq, Repr

/-- The configuration and the libraries: JWT encoding and checking, the hash of tokens and
the check of passwords. -/
structure AuthEnv (Token Hash : Type) where
  encodeRefreshToken : RefreshClaims → Token
  decodeRefreshToken : Instant → Token → Option RefreshClaims
  hashToken : Token → Hash
  verifyPassword : String → String → Bool
  jwtRefreshExpirationDays : ℕ

namespace Auth

variable {Token Hash : Type} [DecidableEq Hash]

/-- A piece of a transaction on accounts. -/
abbrev Tx (Hash : Type) [DecidableEq Hash] := Prog (Accounts Hash) AppError

/-! ## Statements on refresh tokens -/

def lockTable : Tx Hash Unit := lockRes (.uniq .rowExclusive) .keyShare

def saveRefreshToken (userId : Uuid) (tokenHash : Hash) (expiresAt : Instant) : Tx Hash Unit := do
  lockTable
  let taken ← claim (S := Accounts Hash) (.row .refreshTokens tokenHash) fun d =>
    (d.get .refreshTokens tokenHash).isSome
  ensure (!taken) (.database (.unique "refresh_tokens_token_hash_key"))
  references (S := Accounts Hash) .users userId (.database (.foreignKey "users"))
  put (S := Accounts Hash) (.add .refreshTokens tokenHash ⟨userId, expiresAt, false⟩)

def findRefreshTokenTx (tokenHash : Hash) : Tx Hash (Option RefreshToken) :=
  selectFor (S := Accounts Hash) .refreshTokens tokenHash (fun _ => true) .update

def revokeRefreshToken (tokenHash : Hash) : Tx Hash Unit := do
  lockTable
  let _ ← updateRow (S := Accounts Hash) .refreshTokens tokenHash
    (fun _ => true) RefreshToken.revoke

def findUserByIdForShareTx (id : Uuid) : Tx Hash (Option Account) :=
  selectFor (S := Accounts Hash) .users id (fun _ => true) .share

/-- DELETE FROM refresh_tokens WHERE user_id. -/
def endAll (userId : Uuid) : Tx Hash Unit := do
  lockTable
  let _ ← deleteAll (S := Accounts Hash) .refreshTokens fun _ r => r.userId = userId

/-! ## The actions -/

/-- The refresh token of a new session; the access token and the roles are not stored. -/
structure AuthResponse (Token : Type) where
  refreshToken : Token
  userId : Uuid
deriving DecidableEq, Repr

variable (E : AuthEnv Token Hash)

/-- When a token issued at `now` expires. -/
def refreshExpiry (now : Instant) : Instant := now + E.jwtRefreshExpirationDays * 86400

/-- Every issuance crosses the gate on `is_active`. -/
def start (userId : Uuid) (user : Account) (now : Instant) : Tx Hash (AuthResponse Token) := do
  ensure user.isActive .unauthorized
  let jti ← choose
  let refreshToken := E.encodeRefreshToken ⟨userId, refreshExpiry E now, now, jti⟩
  saveRefreshToken userId (E.hashToken refreshToken) (refreshExpiry E now)
  return ⟨refreshToken, userId⟩

/-- The transaction of a rotation; it commits and answers nothing after a replay and for an
inactive user. -/
def rotateTx (userId : Uuid) (tokenHash : Hash) (now : Instant) :
    Tx Hash (Option (AuthResponse Token)) := do
  let user ← findUserByIdForShareTx userId
  let user ← orFail user .unauthorized
  let stored ← findRefreshTokenTx tokenHash
  let stored ← orFail stored .unauthorized
  ensure (stored.userId = userId) .unauthorized
  if stored.revoked then do
    endAll stored.userId
    return none
  else do
    ensure (now ≤ stored.expiresAt) .unauthorized
    revokeRefreshToken tokenHash
    if user.isActive then do
      let r ← start E userId user now
      return some r
    else do
      endAll userId
      return none

def rotate (refreshToken : Token) (now : Instant) : Tx Hash (AuthResponse Token) := do
  let claims ← orFail (E.decodeRefreshToken now refreshToken) .unauthorized
  let r ← atomically (rotateTx E claims.sub (E.hashToken refreshToken) now)
  orFail r .unauthorized

/-- `end`: a token that does not decode is logged out already. -/
def logOut (refreshToken : Token) (now : Instant) : Tx Hash Unit :=
  match E.decodeRefreshToken now refreshToken with
  | none => return ()
  | some _ => atomically (revokeRefreshToken (E.hashToken refreshToken))

def purgeExpired (now : Instant) : Tx Hash ℕ := atomically do
  lockTable
  let gone ← deleteAll (S := Accounts Hash) .refreshTokens fun _ r => r.expiresAt < now
  return gone.length

/-- The flag first, then the sessions. -/
def deactivateTx (userId : Uuid) : Tx Hash Unit := do
  let _ ← updateRow (S := Accounts Hash) .users userId (fun _ => true) fun u =>
    { u with isActive := false }
  endAll userId

/-! ## The service -/

/-- A session is started for a user as the caller has read it. -/
inductive SessionReq (Token : Type)
  | start (userId : Uuid) (user : Account) (now : Instant)
  | rotate (refreshToken : Token) (now : Instant)
  | logOut (refreshToken : Token) (now : Instant)
  | endAll (userId : Uuid)
  | purgeExpired (now : Instant)
  | deactivate (userId : Uuid)
deriving DecidableEq, Repr

inductive SessionReply (Token : Type)
  | session (r : AuthResponse Token)
  | purged (n : ℕ)
  | done
deriving DecidableEq, Repr

def SessionReq.prog : SessionReq Token → Tx Hash (SessionReply Token)
  | .start userId user now => do return .session (← atomically (Auth.start E userId user now))
  | .rotate refreshToken now => do return .session (← Auth.rotate E refreshToken now)
  | .logOut refreshToken now => do Auth.logOut E refreshToken now; return .done
  | .endAll userId => do atomically (Auth.endAll userId); return .done
  | .purgeExpired now => do return .purged (← Auth.purgeExpired now)
  | .deactivate userId => do atomically (Auth.deactivateTx userId); return .done

def sessions : Service (Accounts Hash) AppError (SessionReply Token) (SessionReq Token) where
  prog := SessionReq.prog E
  crash := .database .connection

end Auth

end DreamFly
