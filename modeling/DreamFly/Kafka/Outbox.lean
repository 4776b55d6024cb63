import DreamFly.Conc.Protocol
import DreamFly.Kafka.Events
import Mathlib.Data.List.Sort

/-!
# The outbox

Events are inserted into `events_outbox` in the transaction of the change they are about,
and drained from there: a drain claims due rows (one statement that moves their
`next_attempt_at` out by the lease), publishes them outside any transaction, and records
what came of it in a short one.

A statement of a transaction waits for the row locks of other transactions; the claim skips
locked rows. Statements, commits and connections may fail; a commit may also succeed and
only its answer be lost. What a call does between its commands is no one else's business,
so a crash is a call that gives no further command, or loses its connection. Times are in seconds.
-/

namespace DreamFly.Kafka.Outbox

open Conc Code
open Txn (Table)

/-! ## The table -/

structure Row where
  topic : String
  kafkaKey : String
  payload : Json
  createdAt : ℤ
  publishedAt : Option ℤ
  attempts : ℤ
  lastError : Option String
  nextAttemptAt : ℤ

def batchSize : ℕ := 100

def lease : ℤ := 60

def publishBudget : ℤ := 15

def maxRetryDelay : ℤ := 3600

/-- What a statement makes of one row; it shows with its transaction's commit. -/
inductive Write
  | insert (id : Uuid) (row : Row)
  | published (id : Uuid) (at_ : ℤ)
  | failed (id : Uuid) (reason : String) (nextAttemptAt : ℤ)

namespace Write

def id : Write → Uuid
  | insert id _ | published id _ | failed id _ _ => id

def apply (rows : Table Uuid Row) : Write → Table Uuid Row
  | insert id row => rows.insert id row
  | published id at_ => Table.modify rows id fun r => { r with publishedAt := some at_ }
  | failed id reason next =>
    Table.modify rows id fun r =>
      { r with attempts := r.attempts + 1, lastError := some reason, nextAttemptAt := next }

end Write

/-- An open transaction: its NOW() and what it has written. -/
structure Tx where
  start : ℤ
  writes : List Write

structure Store where
  now : ℤ
  rows : Table Uuid Row
  tx : Table ℕ Tx

namespace Store

/-- Another transaction holds the row's lock. -/
def locked (x : Store) (t : ℕ) (id : Uuid) : Bool :=
  x.tx.rows.any fun u => u.1 ≠ t ∧ u.2.writes.any fun w => w.id = id

/-- `published_at IS NULL AND next_attempt_at <= NOW()`, and not locked. -/
def due (x : Store) (t : ℕ) (now : ℤ) (id : Uuid) (r : Row) : Bool :=
  r.publishedAt.isNone ∧ r.nextAttemptAt ≤ now ∧ x.locked t id = false

/-- ORDER BY next_attempt_at LIMIT -/
def claimable (x : Store) (t : ℕ) (now : ℤ) : List (Uuid × Row) :=
  ((Table.only (x.due t now) x.rows).insertionSort fun a b => a.2.nextAttemptAt ≤
    b.2.nextAttemptAt).take batchSize

def close (x : Store) (t : ℕ) : Store := { x with tx := x.tx.erase t }

/-- The rows as transaction `tx` sees them. -/
def seenBy (x : Store) (tx : Tx) : Table Uuid Row := tx.writes.foldl Write.apply x.rows

def commit (x : Store) (t : ℕ) (tx : Tx) : Store := { x with rows := x.seenBy tx }.close t

def write (x : Store) (t : ℕ) (tx : Tx) (w : Write) : Store :=
  { x with tx := x.tx.insert t { tx with writes := tx.writes ++ [w] } }

def lend (rows : Table Uuid Row) (id : Uuid) (next : ℤ) : Table Uuid Row :=
  Table.modify rows id fun r => { r with nextAttemptAt := next }

/-- The claim with its commit. -/
def claim (x : Store) (t : ℕ) (tx : Tx) : Store :=
  { x with rows := (x.claimable t tx.start).foldl (fun rows (e : Uuid × Row) => lend rows e.1
    (tx.start + lease)) x.rows }.close t

end Store

/-! ## Commands -/

structure ClaimedRow where
  id : Uuid
  topic : String
  kafkaKey : String
  payload : Json
  attempts : ℤ
  createdAt : ℤ

inductive PublishResult
  | ok
  | err (e : String)
  /-- Still pending at the deadline of the batch. -/
  | elapsed
deriving DecidableEq, Repr

/-- The statements of a transaction. -/
inductive Stmt
  | begin
  | commit
  | rollback
  | insert (id : Uuid) (topic kafkaKey : String) (payload : Json)
  | markPublished (id : Uuid)
  | markFailed (id : Uuid) (reason : String) (delay : ℤ)

inductive Cmd
  | sql (s : Stmt)
  | claim
  /-- The row's id is not sent. -/
  | publish (id : Uuid) (topic kafkaKey body : String)
  /-- `Uuid::now_v7` -/
  | newId
  /-- `Utc::now` -/
  | clock

@[reducible] def Cmd.Reply : Cmd → Type
  | .sql _ => Except DbError Unit
  | .claim => Except DbError (List ClaimedRow)
  | .publish _ _ _ _ => PublishResult
  | .newId => Uuid
  | .clock => ℤ

inductive Env
  | tick (n : ℕ)
  /-- The connection of call `t` is gone. -/
  | lost (t : ℕ)

/-- `serde_json`, the texts of UUIDs and instants, and the text of the broker's `n`-th error. -/
structure OutboxLib where
  toText : Json → Except String String
  showUuid : Uuid → String
  showInstant : ℤ → String
  showKafka : ℕ → String

/-- A statement of transaction `tx`: where the connection fails, the transaction is gone. -/
def statement (x : Store) (t n : ℕ) (f : Tx → Except DbError Store) : Except DbError Unit × Store :=
  match x.tx.lookup t with
  | none => (.error .connection, x)
  | some tx =>
    if n ≠ 0 then (.error .connection, x.close t)
    else
      match f tx with
      | .ok x' => (.ok (), x')
      | .error e => (.error e, x.close t)

namespace Store

def insert (x : Store) (t : ℕ) (id : Uuid) (topic kafkaKey : String) (payload : Json) (tx : Tx) :
    Except DbError Store :=
  if ((x.seenBy tx).lookup id).isSome then .error (.unique "events_outbox_pkey")
  else .ok (x.write t tx (.insert id ⟨topic, kafkaKey, payload, tx.start, none, 0, none, tx.start⟩))

/-- An UPDATE of a row that is not there writes nothing. -/
def markPublished (x : Store) (t : ℕ) (id : Uuid) (tx : Tx) : Except DbError Store :=
  if ((x.seenBy tx).lookup id).isSome then .ok (x.write t tx (.published id tx.start)) else .ok x

def markFailed (x : Store) (t : ℕ) (id : Uuid) (reason : String) (delay : ℤ) (tx : Tx) :
    Except DbError Store :=
  match (x.seenBy tx).lookup id with
  | some r =>
    if fitsI32 (r.attempts + 1) then .ok (x.write t tx (.failed id reason (tx.start + delay))) else
      .error .outOfRange
  | none => .ok x

end Store

def publishResult (L : OutboxLib) : ℕ → PublishResult
  | 0 => .ok
  | 1 => .elapsed
  | n + 2 => .err (L.showKafka n)

def claimed (rows : List (Uuid × Row)) : List ClaimedRow :=
  rows.map fun e => ⟨e.1, e.2.topic, e.2.kafkaKey, e.2.payload, e.2.attempts, e.2.createdAt⟩

/-- For the claim and the commit outcome 0 is success, 1 is failure, and any other one is
success whose answer is lost. -/
def Store.sql (x : Store) (t n : ℕ) : Stmt → Option (Except DbError Unit × Store)
  | .begin =>
    some (if n = 0 then (.ok (), { x with tx := x.tx.insert t ⟨x.now, []⟩ }) else
      (.error .connection, x))
  | .commit =>
    match x.tx.lookup t with
    | none => some (.error .connection, x)
    | some tx =>
      some (if n = 0 then .ok () else .error .connection, if n = 1 then x.close t else
        x.commit t tx)
  | .rollback => some (if n = 0 then .ok () else .error .connection, x.close t)
  | .insert id topic key payload =>
    if x.locked t id then none else some (statement x t n (x.insert t id topic key payload))
  | .markPublished id =>
    if x.locked t id then none else some (statement x t n (x.markPublished t id))
  | .markFailed id reason delay =>
    if x.locked t id then none else some (statement x t n (x.markFailed t id reason delay))

def Store.runClaim (x : Store) (t n : ℕ) : Except DbError (List ClaimedRow) × Store :=
  match x.tx.lookup t with
  | none => (.error .connection, x)
  | some tx =>
    (if n = 0 then .ok (claimed (x.claimable t tx.start)) else .error .connection,
      if n = 1 then x.close t else x.claim t tx)

@[reducible] def table (L : OutboxLib) : Machine where
  State := Store
  Cmd := Cmd
  Reply := Cmd.Reply
  Env := Env
  exec t c n x :=
    match c with
    | .sql s => x.sql t n s
    | .claim => some (x.runClaim t n)
    | .publish _ _ _ _ => some (publishResult L n, x)
    | .newId => some (n, x)
    | .clock => some (x.now, x)
  env v x :=
    match v with
    | .tick n => { x with now := x.now + n }
    | .lost t => x.close t

/-! ## The calls -/

section
variable (L : OutboxLib)

/-- `sqlx::Error`, where `protocol` is the one `insert_event_tx` makes itself. -/
inductive Error
  | db (e : DbError)
  | protocol (msg : String)
deriving DecidableEq, Repr

abbrev Io := Code (table L) Error

/-- One statement; its error ends the call. -/
def sql (s : Stmt) : Io L Unit := do
  let r ← exec (M := table L) (.sql s)
  Code.check (r.mapError .db)

/-- The envelope, as it is serialized. -/
def envelope (eventId : Uuid) (eventType : String) (timestamp : ℤ) (correlationId : Option String)
    (data : Json) : Json :=
  .obj ([("version", .num "1"), ("event_id", .str (L.showUuid eventId)),
    ("event_type", .str eventType),
    ("timestamp", .str (L.showInstant timestamp))] ++ (correlationId.map fun c =>
      ("correlation_id", .str c)).toList ++
    [("data", data)])

/-- An event to be inserted; its data may fail to serialize. -/
structure NewEvent where
  topic : String
  eventType : String
  key : String
  data : Except String Json
  correlationId : Option String

def insertEventTx (event : NewEvent) : Io L Unit := do
  let eventId ← exec (M := table L) .newId
  let timestamp ← exec (M := table L) .clock
  let payload ← Code.check ((event.data.map
      (envelope L eventId event.eventType timestamp event.correlationId)).mapError
    fun e => .protocol s!"failed to serialize outbox event: {e}")
  let id ← exec (M := table L) .newId
  sql L (.insert id event.topic event.key payload)

def forEach {α : Type} (f : α → Io L Unit) : List α → Io L Unit
  | [] => return ()
  | a :: as => do
    f a
    forEach f as

/-- A transaction that inserts events, and commits or not; an error rolls it back. -/
def produce (events : List NewEvent) (commits : Bool) : Io L Unit := do
  sql L .begin
  try forEach L (insertEventTx L) events
  catch e => do
    sql L .rollback
    throw e
  if commits then sql L .commit else sql L .rollback

def retryDelay (attempts : ℕ) : ℤ := min (if attempts < 64 then 2 ^ attempts else
    2 ^ 64 - 1) maxRetryDelay

structure FailedPublish where
  id : Uuid
  attemptsBefore : ℤ
  reason : String

structure BatchOutcome where
  published : List Uuid
  failed : List FailedPublish

def ClaimedRow.fail (row : ClaimedRow) (reason : String) : FailedPublish :=
  ⟨row.id, row.attempts, reason⟩

/-- In order until done or a publish is still pending at the deadline; `outcome` is what came of
the rows before. -/
def publishBatch (outcome : BatchOutcome) : List ClaimedRow → Io L BatchOutcome
  | [] => return outcome
  | row :: rows =>
    match L.toText row.payload with
    | .error e =>
      publishBatch { outcome with failed := outcome.failed ++
        [row.fail s!"payload re-serialize error: {e}"] } rows
    | .ok body => do
      let r ← exec (M := table L) (.publish row.id row.topic row.kafkaKey body)
      match r with
      | .ok => publishBatch { outcome with published := outcome.published ++ [row.id] } rows
      | .err e =>
        publishBatch { outcome with failed := outcome.failed ++ [row.fail s!"kafka: {e}"] } rows
      | .elapsed =>
        return { outcome with failed := outcome.failed ++
          [row.fail s!"publish exceeded the {publishBudget}s batch budget"] }

/-- `saturating_add(1)`, and `u32::try_from` with its fallback. -/
def FailedPublish.delay (failure : FailedPublish) : ℤ :=
  let attempts := min (failure.attemptsBefore + 1) i32Max
  retryDelay (if 0 ≤ attempts then attempts.toNat else 4294967295)

def settle (outcome : BatchOutcome) : Io L Unit := do
  sql L .begin
  forEach L (fun id => sql L (.markPublished id)) outcome.published
  forEach L (fun f => sql L (.markFailed f.id f.reason f.delay)) outcome.failed
  sql L .commit

/-- `begin` is the start of the claim's own transaction, at which its NOW() is taken. -/
def drainOnce : Io L Unit := do
  sql L .begin
  let rows ← exec (M := table L) .claim
  let rows ← Code.check (rows.mapError .db)
  if rows.isEmpty then return ()
  else do
    let rows := rows.insertionSort fun a b => a.createdAt ≤ b.createdAt
    let outcome ← publishBatch L ⟨[], []⟩ rows
    settle L outcome

inductive Req
  | produce (events : List NewEvent) (commits : Bool)
  | drain

def outbox : Service (table L) Error Unit Req where
  prog
    | .produce events commits => produce L events commits
    | .drain => drainOnce L

end

end DreamFly.Kafka.Outbox
