import DreamFly.Base
import Mathlib.Data.Int.Basic

/-!
# The studio clock

The configured time zone with both its directions, the studio's calendar date, and the
stage of a session as every read derives it. A local time in a gap of the zone, or in an
hour that comes twice, names no instant; the calendar date decides then.
-/

namespace DreamFly

/-- A time zone: what the clock on the wall shows at an instant, and the instant of a local
date and time. Hours may be missing or come twice; the date never goes back. -/
structure Zone where
  /-- Date and time of day. -/
  withTimezone : Instant → ℤ × ℤ
  toUtc : Tz
  toUtc_eq_some : ∀ date time t, toUtc date time = some t ↔
    ∀ t', withTimezone t' = (date, time) ↔ t' = t
  date_mono : ∀ t t', t ≤ t' → (withTimezone t).1 ≤ (withTimezone t').1

/-- The studio's calendar date. -/
def Zone.today (z : Zone) (now : Instant) : ℤ := (z.withTimezone now).1

/-- Whether a local date and time is at or before `now`. -/
def hasStarted (tz : Tz) (now : Instant) (date time : ℤ) : Option Bool :=
  (tz date time).map fun utc => utc ≤ now

def hasEnded (tz : Tz) (now : Instant) (date time : ℤ) : Option Bool :=
  (tz date time).map fun utc => utc ≤ now

inductive SessionStatus
  | upcoming
  | ongoing
  | done
deriving DecidableEq, Repr

namespace SessionStatus

def asStr : SessionStatus → String
  | upcoming => "upcoming"
  | ongoing => "ongoing"
  | done => "done"

/-- The stages in the order of their declaration. -/
def stage : SessionStatus → ℕ
  | upcoming => 0
  | ongoing => 1
  | done => 2

instance : LE SessionStatus := ⟨fun a b => a.stage ≤ b.stage⟩

instance (a b : SessionStatus) : Decidable (a ≤ b) :=
  inferInstanceAs (Decidable (a.stage ≤ b.stage))

/-- The stage of a session at `now`. -/
def derive (z : Zone) (now : Instant) (sessionDate startTime endTime : ℤ) : SessionStatus :=
  match hasStarted z.toUtc now sessionDate startTime, hasEnded z.toUtc now sessionDate endTime with
  | some false, _ => upcoming
  | some true, some false => ongoing
  | some true, some true => done
  | started, _ =>
    -- one of the two times names no instant
    if sessionDate < z.today now then done
    else if sessionDate > z.today now then upcoming
    else if started = some true then ongoing
    else upcoming

end SessionStatus

end DreamFly
