import DreamFly.Conc.Trail
import DreamFly.Kafka.Events

/-!
# The consumer

The loop that records events in `audit_log`: pull a message, resolve it (decode, handle,
retry in place with backoff), commit its offset if told to.

The broker, the shutdown signal and the answer of a commit are the environment's. A
consumer lives for as many rounds of its loop as its request says, and may crash between
any two of its commands. The JSON and UUID parsers are parameters (`AuditLib`).
-/

namespace DreamFly.Kafka

open Conc Code

/-! ## The loop -/

inductive ProcessingError
  | transient (reason : String)
  | poison (reason : String)
deriving DecidableEq, Repr

def maxAttempts : ℕ := 5

structure SourceMessage where
  topic : String
  part : ℤ
  offset : ℤ
  payload : Option ByteArray

/-- What is committed: the next offset to consume in a partition of a topic. -/
structure TopicPartition where
  topic : String
  part : ℤ
  offset : ℤ
deriving DecidableEq, Repr

/-- What the loop wakes up to: the shutdown channel has changed, or the source yields. -/
inductive Arrival
  | changed (stop : Bool)
  | next (msg : Option SourceMessage)

/-- `AuditHandler`: what a payload does to a store, for each outcome the caller does not control. -/
structure Handler where
  Store : Type
  handle : String → ℕ → Store → Except ProcessingError Unit × Store

inductive Cmd
  /-- The `select!` of the loop. -/
  | select
  | handle (payload : String)
  /-- A backoff, which the shutdown signal cuts short. -/
  | backoff (secs : ℕ)
  | commit (tp : TopicPartition)

@[reducible] def Cmd.Reply : Cmd → Type
  | .select => Arrival
  | .handle _ => Except ProcessingError Unit
  | .backoff _ => Bool
  | .commit _ => Except Unit Unit

/-- The broker hands anything to anyone; each handler call is one statement. -/
@[reducible] def broker (H : Handler) : Machine where
  State := Option Arrival × H.Store
  Cmd := Cmd
  Reply := Cmd.Reply
  Env := Arrival
  exec _ c n x :=
    match c with
    | .select => x.1.map fun a => (a, (none, x.2))
    | .handle payload => some ((H.handle payload n x.2).1, (x.1, (H.handle payload n x.2).2))
    | .backoff _ => some (n ≠ 0, x)
    | .commit _ => some (if n = 0 then .ok () else .error (), x)
  env a x := (some a, x.2)

inductive Resolution
  | commit
  | shutdown
deriving DecidableEq, Repr

section
variable {H : Handler}

abbrev Io (H : Handler) := Code (broker H) Unit

/-- `KafkaSource::commit`: the committed offset names the next record. -/
def SourceMessage.next (msg : SourceMessage) : TopicPartition :=
  ⟨msg.topic, msg.part, msg.offset + 1⟩

def commit (msg : SourceMessage) : Io H (Except Unit Unit) :=
  exec (M := broker H) (.commit msg.next)

/-- The retry loop, where `left` more attempts may follow this one: `attempt` is
`MAX_ATTEMPTS - left`. -/
def attempts (payload : String) (left : ℕ) : Io H Resolution := do
  let r ← exec (M := broker H) (.handle payload)
  match r with
  | .ok () => return .commit
  | .error (.poison _) => return .commit
  | .error (.transient _) =>
    match left with
    | 0 => return .commit
    | left' + 1 => do
      let stop ← exec (M := broker H) (.backoff (1 <<< (maxAttempts - (left' + 1) - 1)))
      if stop then return .shutdown else attempts payload left'

/-- `std::str::from_utf8` of the payload, if there is one. -/
def SourceMessage.text (msg : SourceMessage) : Option String := msg.payload.bind String.fromUTF8?

def resolve (msg : SourceMessage) : Io H Resolution :=
  match msg.text with
  | some payload => attempts payload (maxAttempts - 1)
  | none => return .commit

def run : ℕ → Io H Unit
  | 0 => return ()
  | rounds + 1 => do
    let next ← exec (M := broker H) .select
    match next with
    | .changed true => return ()
    | .changed false => run rounds
    | .next none => return ()
    | .next (some msg) => do
      let r ← resolve msg
      match r with
      | .commit => do
        let _ ← commit msg
        run rounds
      | .shutdown => return ()

/-- Consumers, each with the rounds it lives for. -/
def consumers (H : Handler) : Service (broker H) Unit Unit ℕ where
  prog := run

end

/-! ## The handler of the database -/

structure AuditLib where
  parseJson : String → Except String Json
  parseUuid : String → Option Uuid
  showError : DbError → String

structure AuditRow where
  id : Uuid
  userId : Option Uuid
  action : String
  resource : String
  resourceId : Option Uuid
  newValue : Json

/-- The table: its rows in the order in which they were inserted. -/
abbrev AuditLog := List AuditRow

def requiredStr (event : Json) (field : String) : Except ProcessingError String :=
  match (event.get field).bind Json.asStr with
  | some s => .ok s
  | none => .error (.poison s!"missing or non-string field `{field}`")

section
variable (L : AuditLib)

def optionalUuidFromData (event : Json) (field : String) : Option Uuid :=
  (event.get "data").bind fun d => (d.get field).bind fun v => v.asStr.bind L.parseUuid

def domainResource (eventType : String) : Option (String × String) :=
  (specForEventType eventType).map fun s => (s.resource, s.idField)

/-- The id an envelope carries, if it parses. -/
def eventId (event : Json) : Option Uuid := (event.get "event_id").bind fun v =>
    v.asStr.bind L.parseUuid

/-- `now` is the fresh UUID of `Uuid::now_v7`. -/
def eventRowId (event : Json) (now : Uuid) : Uuid := (eventId L event).getD now

def resourceOf (event : Json) (action : String) : String × Option Uuid :=
  match domainResource action with
  | some (resource, idField) => (resource, optionalUuidFromData L event idField)
  | none =>
    ((((event.get "data").bind fun d => d.get "resource").bind Json.asStr).getD "audit",
      optionalUuidFromData L event "resource_id")

/-- The row an event is recorded as. -/
def auditRow (payload : String) (now : Uuid) : Except ProcessingError AuditRow := do
  let event ← (L.parseJson payload).mapError fun e => .poison s!"invalid JSON: {e}"
  let action ← requiredStr event "event_type"
  let (resource, resourceId) := resourceOf L event action
  return ⟨eventRowId L event now, optionalUuidFromData L event "user_id", action, resource,
    resourceId,
    (event.get "data").getD (.obj [])⟩

/-- INSERT … ON CONFLICT (id) DO NOTHING -/
def AuditLog.insert (log : AuditLog) (row : AuditRow) : AuditLog :=
  if log.any fun r => r.id = row.id then log else log ++ [row]

/-- The INSERT succeeds, is refused for its user, fails, or is carried out and only its
answer is lost. -/
def insertRow (row : AuditRow) (n : ℕ) (log : AuditLog) : Except DbError Unit × AuditLog :=
  match n % 4 with
  | 0 => (.ok (), log.insert row)
  | 1 => (.error (.foreignKey "users"), log)
  | 2 => (.error .connection, log)
  | _ => (.error .connection, log.insert row)

def handleAuditEvent (payload : String) (n : ℕ) (log : AuditLog) :
    Except ProcessingError Unit × AuditLog :=
  match auditRow L payload (n / 4) with
  | .error e => (.error e, log)
  | .ok row =>
    match insertRow row n log with
    | (.ok (), log) => (.ok (), log)
    | (.error e, log) => (.error (.transient s!"sqlx error: {L.showError e}"), log)

@[reducible] def pool : Handler where
  Store := AuditLog
  handle := handleAuditEvent L

/-- The event id of a payload. -/
def payloadId (payload : String) : Option Uuid :=
  match L.parseJson payload with
  | .ok event => eventId L event
  | .error _ => none

end

end DreamFly.Kafka
