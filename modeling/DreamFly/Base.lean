import Mathlib.Data.Int.Notation
import Mathlib.Data.Nat.Notation

/-!
# Common types

Errors, machine integer ranges, the studio clock and the authenticated caller,
as the services use them.
-/

namespace DreamFly

abbrev Uuid := ℕ

/-- A UTC instant. -/
abbrev Instant := ℤ

/-- A statement the database refused. -/
inductive DbError
  | check (constraint : String)
  | unique (constraint : String)
  | foreignKey (table : String)
  | outOfRange
  | rowNotFound
  /-- The connection is gone: the transaction is rolled back by the server. -/
  | connection
deriving DecidableEq, Repr

inductive AppError
  | notFound (msg : String)
  | badRequest (msg : String)
  | unauthorized
  | forbidden (msg : String)
  | conflict (msg : String)
  | validation (msg : String)
  | database (e : DbError)
  | internal (msg : String)
deriving DecidableEq, Repr

/-- The one translation of a unique violation into 409. -/
def AppError.conflictOnUnique (e : DbError) (msg : String) : AppError :=
  match e with
  | .unique _ => .conflict msg
  | e => .database e

theorem bind_eq_ok {ε α β : Type} {x : Except ε α} {f : α → Except ε β} {b : β}
    (h : x >>= f = .ok b) : ∃ a, x = .ok a ∧ f a = .ok b := by
  cases x with
  | error e => cases h
  | ok a => exact ⟨a, rfl, h⟩

theorem bind_eq_error {ε α β : Type} {x : Except ε α} {f : α → Except ε β} {e : ε}
    (h : x >>= f = .error e) : x = .error e ∨ ∃ a, x = .ok a ∧ f a = .error e := by
  cases x with
  | error e' => cases h; exact .inl rfl
  | ok a => exact .inr ⟨a, rfl, h⟩

/-! ## Integers -/

def i32Max : ℤ := 2147483647

def i64Max : ℤ := 9223372036854775807

def fitsI32 (n : ℤ) : Bool := -i32Max - 1 ≤ n ∧ n ≤ i32Max

def fitsI64 (n : ℤ) : Bool := -i64Max - 1 ≤ n ∧ n ≤ i64Max

/-- Two's complement `i32`, as release builds compute it. -/
def wrapI32 (n : ℤ) : ℤ := (n + (i32Max + 1)) % (2 * (i32Max + 1)) - (i32Max + 1)

/-- `checked_mul` and `checked_add` on `i64`. -/
def checkedMul (a b : ℤ) : Option ℤ := if fitsI64 (a * b) then some (a * b) else none

def checkedAdd (a b : ℤ) : Option ℤ := if fitsI64 (a + b) then some (a + b) else none

/-- `-` and `/` on `i64` where they neither wrap nor panic. -/
def checkedSub (a b : ℤ) : Option ℤ := if fitsI64 (a - b) then some (a - b) else none

def checkedDiv (a b : ℤ) : Option ℤ := if b ≠ 0 ∧ fitsI64 (a.tdiv b) then some (a.tdiv b) else none

/-- A sum of the database, as it is cast to BIGINT. -/
def toBigint (n : ℤ) : Except DbError ℤ := if fitsI64 n then .ok n else .error .outOfRange

/-! ## The studio clock -/

/-- The configured time zone: the UTC instant of a local date and time, if it
names exactly one. -/
abbrev Tz := ℤ → ℤ → Option Instant

/-- The studio month of a UTC instant, counted in months. -/
abbrev MonthOf := Instant → ℤ

structure StudioNow where
  tz : Tz
  now : Instant

def toUtcChecked (tz : Tz) (date time : ℤ) (noun : String) : Except AppError Instant :=
  match tz date time with
  | some t => .ok t
  | none => .error (.badRequest (noun ++ " falls on an ambiguous local time"))

/-- Reject a local date and time that is at or before `now`. -/
def requireNotStarted (tz : Tz) (now : Instant) (date time : ℤ) (noun : String)
    (started : AppError) :
    Except AppError Unit := do
  let t ← toUtcChecked tz date time noun
  if t ≤ now then throw started

/-- Reject a local date and time that is still ahead of `now`. -/
def requireStarted (tz : Tz) (now : Instant) (date time : ℤ) (noun : String)
    (notStarted : AppError) :
    Except AppError Unit := do
  let t ← toUtcChecked tz date time noun
  if t > now then throw notStarted

/-! ## The caller -/

structure AuthUser where
  userId : Uuid
  roles : List String

namespace AuthUser

def isAdmin (a : AuthUser) : Bool := a.roles.contains "admin"

def ownsOrAdmin (a : AuthUser) (owner : Uuid) (msg : String) : Except AppError Unit :=
  if a.userId = owner ∨ a.isAdmin then .ok () else .error (.forbidden msg)

/-- The owner only: an admin does not pass. -/
def ownerOnly (a : AuthUser) (owner : Uuid) (msg : String) : Except AppError Unit :=
  if a.userId = owner then .ok () else .error (.forbidden msg)

end AuthUser

end DreamFly
