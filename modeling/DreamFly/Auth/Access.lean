import DreamFly.Base
import DreamFly.Conc.Protocol
import Mathlib.Data.List.Sort

/-!
# Account access

Whether a user may act and with which roles: `resolve` reads a cache of two keys and falls
back to the database, and the writes that change the answer drop both keys after their
commit. A cache that fails counts as one that has nothing.

A cached entry can be lost at any time; how long it lives is left open.
-/

namespace DreamFly.Access

open Conc Code

/-! ## The cache and the tables -/

inductive Key
  /-- `user_active:{user_id}` -/
  | active (userId : Uuid)
  /-- `user_roles:{user_id}` -/
  | roles (userId : Uuid)
deriving DecidableEq

def emptyRolesSentinel : String := "\u0000"

def roleCacheTtlSeconds : ℕ := 900

def activeCacheTtlSeconds : ℕ := 60

/-- What is committed: `users.is_active`, the names of each user's roles in their order, and
the names in the table of roles. -/
structure Db where
  users : Uuid → Option Bool
  userRoles : Uuid → List String
  roles : List String

/-- The writes that change an answer. -/
inductive Change
  | deactivate (userId : Uuid)
  | reactivate (userId : Uuid)
  | assignRole (userId : Uuid) (role : String)
deriving DecidableEq

def Change.user : Change → Uuid
  | deactivate u | reactivate u | assignRole u _ => u

namespace Db

def setActive (d : Db) (u : Uuid) (active : Bool) : Db :=
  { d with users := Function.update d.users u ((d.users u).map fun _ => active) }

/-- A grant of a role the user has already changes nothing. -/
def grant (d : Db) (u : Uuid) (role : String) : Db :=
  let roles := if role ∈ d.userRoles u then d.userRoles u else
    (d.userRoles u).orderedInsert (· ≤ ·) role
  { d with userRoles := Function.update d.userRoles u roles }

def apply (d : Db) : Change → Db
  | .deactivate u => d.setActive u false
  | .reactivate u => d.setActive u true
  | .assignRole u role => d.grant u role

/-- Why a write is refused: there is no such role, or no such user to give it to. -/
def refuses (d : Db) : Change → Option DbError
  | .assignRole u role =>
    if role ∉ d.roles then some .rowNotFound
    else if (d.users u).isNone then some (.foreignKey "users")
    else none
  | _ => none

end Db

inductive Cmd
  | get (k : Key)
  | setEx (k : Key) (v : String) (ttl : ℕ)
  | del (ks : List Key)
  | findActive (userId : Uuid)
  | findRoleNamesByUser (userId : Uuid)
  /-- The statement of a change, in the call's transaction. -/
  | write (c : Change)
  | commit
deriving DecidableEq

@[reducible] def Cmd.Reply : Cmd → Type
  | .get _ => Except Unit (Option String)
  | .setEx _ _ _ => Except Unit Unit
  | .del _ => Except Unit Unit
  | .findActive _ => Except DbError (Option Bool)
  | .findRoleNamesByUser _ => Except DbError (List String)
  | .write _ => Except DbError Unit
  | .commit => Except DbError Unit

/-- The cache, what is committed, and the write of each open transaction. -/
structure Store where
  cache : Key → Option String
  db : Db
  tx : ℕ → Option Change

namespace Store

def put (x : Store) (k : Key) (v : Option String) : Store :=
  { x with cache := Function.update x.cache k v }

def drop (x : Store) (ks : List Key) : Store :=
  { x with cache := fun k => if k ∈ ks then none else x.cache k }

/-- The transaction of call `t` after a statement, or without one at its end. -/
def setTx (x : Store) (t : ℕ) (c : Option Change) : Store :=
  { x with tx := Function.update x.tx t c }

def commit (x : Store) (t : ℕ) : Store :=
  match x.tx t with
  | some c => { x with db := x.db.apply c }.setTx t none
  | none => x

end Store

/-- A cache command fails before it is carried out (1) or after it (2); a statement that
fails (any outcome but 0) leaves nothing behind. -/
@[reducible] def access : Machine where
  State := Store
  Cmd := Cmd
  Reply := Cmd.Reply
  Env := Key
  exec t c n x :=
    match c with
    | .get k => some (if n = 1 ∨ n = 2 then .error () else .ok (x.cache k), x)
    | .setEx k v _ =>
      some (if n = 1 ∨ n = 2 then .error () else .ok (), if n = 1 then x else x.put k (some v))
    | .del ks => some (if n = 1 ∨ n = 2 then .error () else .ok (), if n = 1 then x else x.drop ks)
    | .findActive u => some (if n = 0 then .ok (x.db.users u) else .error .connection, x)
    | .findRoleNamesByUser u =>
      some (if n = 0 then .ok (x.db.userRoles u) else .error .connection, x)
    | .write c =>
      if n ≠ 0 then some (.error .connection, x)
      else
        match x.db.refuses c with
        | some e => some (.error e, x)
        | none => some (.ok (), x.setTx t (some c))
    | .commit =>
      if n = 0 then some (.ok (), x.commit t) else some (.error .connection, x.setTx t none)
  env k x := x.put k none

abbrev Io := Code access AppError

/-! ## `resolve` -/

/-- A cache error is a miss. -/
def hit (r : Except Unit (Option String)) : Option String := r.toOption.join

/-- The flag as it is cached; anything else is a miss. -/
def decodeActive : Option String → Option Bool
  | some "1" => some true
  | some "0" => some false
  | _ => none

def encodeActive (active : Bool) : String := if active then "1" else "0"

def refillActive (userId : Uuid) : Io Bool := do
  let row ← exec (M := access) (.findActive userId)
  let row ← Code.check (row.mapError .database)
  let active := row.getD false
  let _ ← exec (M := access) (.setEx (.active userId) (encodeActive active) activeCacheTtlSeconds)
  return active

def isActive (userId : Uuid) : Io Bool := do
  let cached ← exec (M := access) (.get (.active userId))
  match decodeActive (hit cached) with
  | some active => return active
  | none => refillActive userId

/-- A list of names separated by newlines; the sentinel stands for no roles. -/
def encodeRoles (roles : List String) : String :=
  if roles.isEmpty then emptyRolesSentinel else String.intercalate (String.singleton '\n') roles

/-- No value and the empty value are misses. -/
def decodeRoles : Option String → Option (List String)
  | some encoded =>
    if encoded = emptyRolesSentinel then some []
    else if encoded ≠ "" then some ((encoded.split '\n').toList.map fun s => s.copy)
    else none
  | none => none

def refillRoles (userId : Uuid) : Io (List String) := do
  let dbRoles ← exec (M := access) (.findRoleNamesByUser userId)
  let dbRoles ← Code.check (dbRoles.mapError .database)
  let _ ← exec (M := access) (.setEx (.roles userId) (encodeRoles dbRoles) roleCacheTtlSeconds)
  return dbRoles

def roleNames (userId : Uuid) : Io (List String) := do
  let cached ← exec (M := access) (.get (.roles userId))
  match decodeRoles (hit cached) with
  | some roles => return roles
  | none => refillRoles userId

/-- `none`: the user may not act. -/
def resolve (userId : Uuid) : Io (Option (List String)) := do
  let active ← isActive userId
  if !active then return none
  else do
    let roles ← roleNames userId
    return some roles

/-! ## Changes -/

/-- `AccessDirty::flush`: both keys in one DEL, its error swallowed. -/
def flush (userId : Uuid) : Io Unit := do
  let _ ← exec (M := access) (.del [.roles userId, .active userId])
  return ()

/-- A transaction that changes an answer, and the flush after its commit. -/
def change (c : Change) : Io Unit := do
  let r ← exec (M := access) (.write c)
  Code.check (r.mapError AppError.database)
  let r ← exec (M := access) .commit
  Code.check (r.mapError AppError.database)
  flush c.user

inductive Req
  | resolve (userId : Uuid)
  | change (c : Change)
deriving DecidableEq

inductive Reply
  | access (a : Option (List String))
  | changed
deriving DecidableEq

def Req.prog : Req → Io Reply
  | .resolve u => do return .access (← Access.resolve u)
  | .change c => do
    Access.change c
    return .changed

def accounts : Service access AppError Reply Req where
  prog := Req.prog

/-- What is committed about a user. -/
def Db.answer (d : Db) (u : Uuid) : Option (List String) :=
  if (d.users u).getD false then some (d.userRoles u) else none

end DreamFly.Access
