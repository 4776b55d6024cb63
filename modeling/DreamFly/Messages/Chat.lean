import DreamFly.Base
import DreamFly.Txn.Sql
import DreamFly.Txn.Sys

/-!
# Conversations

Messages between members and coaches. A conversation is the one of an unordered pair of
users: which of them is stored as the member is decided from the roles of who asks, and two
users with both roles come out the other way round from either side. So the lookup, the
unique index and the answer to a lost race all take the pair as unordered.
-/

namespace DreamFly.Messages

open Txn Prog

/-! ## Tables -/

structure Conversation where
  memberId : Uuid
  coachId : Uuid
  createdAt : Instant
  lastMessageAt : Option Instant
deriving DecidableEq, Repr

structure Message where
  conversationId : Uuid
  senderId : Uuid
  body : String
  createdAt : Instant
  readAt : Option Instant
deriving DecidableEq, Repr

inductive ChatTbl
  | users
  | userRoles
  | conversations
  | messages
deriving DecidableEq, Repr

/-- The index `conversations_unique_user_pair (LEAST, GREATEST)`. -/
inductive ChatUniq
  | userPair (least greatest : Uuid)
deriving DecidableEq, Repr

@[reducible] def ChatTbl.Key : ChatTbl → Type
  | .userRoles => Uuid × String
  | _ => Uuid

@[reducible] def ChatTbl.Row : ChatTbl → Type
  | .users => Unit
  | .userRoles => Unit
  | .conversations => Conversation
  | .messages => Message

instance : ∀ t : ChatTbl, DecidableEq t.Key
  | .userRoles => inferInstanceAs (DecidableEq (Uuid × String))
  | .users | .conversations | .messages => inferInstanceAs (DecidableEq ℕ)

@[reducible] def Chat : Schema where
  Tbl := ChatTbl
  Key := ChatTbl.Key
  Row := ChatTbl.Row
  Uniq := ChatUniq

abbrev Db := Store Chat

abbrev Tx := Prog Chat AppError

/-- A SELECT as a transaction of its own. -/
def select {α : Type} (q : Db → α) : Tx α := .view fun d => rollback none (ret (q d))

/-- A statement as a transaction of its own; an error of the database is a result. -/
def statement {α : Type} (p : Tx (Except DbError α)) : Tx (Except DbError α) :=
  p.handle
    (fun r => match r with
      | .ok a => commit (ret (.ok a))
      | .error e => rollback none (ret (.error e)))
    (fun e => rollback (some e) (fail e))

/-! ## Pairing -/

inductive Role
  | admin
  | coach
  | member
  | guest
deriving DecidableEq, Repr

def Role.asStr : Role → String
  | .admin => "admin"
  | .coach => "coach"
  | .member => "member"
  | .guest => "guest"

def roleViolation : String := "僅支援教練與會員間的對話"

def holds (roles : List String) (role : Role) : Bool := roles.any (· = role.asStr)

/-- Who is the member and who the coach: the caller is the coach if he can be. -/
def resolvePair (callerId : Uuid) (callerRoles : List String) (targetId : Uuid)
    (targetRoles : List String) :
    Except AppError (Uuid × Uuid) :=
  if targetId = callerId then .error (.validation roleViolation)
  else if holds callerRoles .coach && holds targetRoles .member then .ok (targetId, callerId)
  else if holds callerRoles .member && holds targetRoles .coach then .ok (callerId, targetId)
  else .error (.validation roleViolation)

/-- SELECT r.name … WHERE user_id ORDER BY r.name. -/
def findRoleNamesByUser (userId : Uuid) (d : Db) : List String :=
  ((d.sel .userRoles fun k _ => k.1 = userId).map fun e => e.1.2).insertionSort (· ≤ ·)

/-- The caller's roles come with his token, the target's from the database. -/
def resolveMemberCoach (auth : AuthUser) (targetId : Uuid) : Tx (Uuid × Uuid) := do
  ensure (targetId ≠ auth.userId) (.validation roleViolation)
  let targetRoles ← select (findRoleNamesByUser targetId)
  checked (resolvePair auth.userId auth.roles targetId targetRoles)

/-! ## Conversations -/

/-- The WHERE clause of the lookup. -/
def Conversation.isOf (a b : Uuid) (c : Conversation) : Bool :=
  (c.memberId = a ∧ c.coachId = b) ∨ (c.memberId = b ∧ c.coachId = a)

def findByUserPair (userA userB : Uuid) (d : Db) : Option (Uuid × Conversation) :=
  (d.sel .conversations fun _ c => c.isOf userA userB).head?

/-- Some conversation has this entry of the index. -/
def pairTaken (least greatest : Uuid) (d : Db) : Bool :=
  !(d.sel .conversations fun _ c => min c.memberId c.coachId = least ∧
    max c.memberId c.coachId = greatest).isEmpty

/-- INSERT INTO conversations … RETURNING. -/
def addConversation (memberId coachId : Uuid) (now : Instant) :
    Tx (Except DbError (Uuid × Conversation)) := do
  if memberId = coachId then return .error (.check "conversations_member_coach_distinct")
  else
    let least := min memberId coachId
    let greatest := max memberId coachId
    if ← claim (S := Chat) (.uniq (.userPair least greatest)) (pairTaken least greatest) then
      return .error (.unique "conversations_unique_user_pair")
    else
      references (S := Chat) .users memberId (.database (.foreignKey "users"))
      references (S := Chat) .users coachId (.database (.foreignKey "users"))
      let row : Conversation := ⟨memberId, coachId, now, none⟩
      let n ← insert (S := Chat) .conversations id fun _ => row
      return .ok (n, row)

/-- `repository::insert` -/
def insertConversation (memberId coachId : Uuid) (now : Instant) :
    Tx (Except DbError (Uuid × Conversation)) :=
  statement (addConversation memberId coachId now)

/-- `POST /conversations`: get or create. -/
def createConversation (auth : AuthUser) (userId : Uuid) (now : Instant) :
    Tx (Uuid × Conversation) := do
  let pair ← resolveMemberCoach auth userId
  match ← select (findByUserPair pair.1 pair.2) with
  | some existing => return existing
  | none =>
    match ← insertConversation pair.1 pair.2 now with
    | .ok conv => return conv
    | .error (.unique _) => do
      -- somebody else has just inserted it
      let existing ← select (findByUserPair pair.1 pair.2)
      orFail existing (.internal
        s!"conversation ({pair.1}, {pair.2}) vanished after unique violation")
    | .error e => throw (.database e)

/-! ## Messages -/

/-- 404 without the conversation, 403 for anyone but its two sides. -/
def authorizeParticipant (auth : AuthUser) (conversationId : Uuid) : Tx Conversation := do
  let conv ← select (·.get .conversations conversationId)
  let conv ← orFail conv (.notFound "對話不存在")
  ensure (conv.memberId = auth.userId ∨ conv.coachId = auth.userId) (.forbidden "非此對話參與者")
  return conv

def insertMessageTx (conversationId senderId : Uuid) (body : String) (now : Instant) :
    Tx (Uuid × Message) := do
  ensure (1 ≤ body.length ∧ body.length ≤ 2000) (.database (.check "messages_body_check"))
  references (S := Chat) .conversations conversationId (.database (.foreignKey "conversations"))
  references (S := Chat) .users senderId (.database (.foreignKey "users"))
  let row : Message := ⟨conversationId, senderId, body, now, none⟩
  let n ← insert (S := Chat) .messages id fun _ => row
  return (n, row)

/-- SET last_message_at = NOW(). -/
def Conversation.touch (now : Instant) (c : Conversation) : Conversation :=
  { c with lastMessageAt := some now }

def touchLastMessageAtTx (conversationId : Uuid) (now : Instant) : Tx Unit := do
  let _ ← updateRow (S := Chat) .conversations conversationId (fun _ => true)
    (Conversation.touch now)

/-- `POST /conversations/{id}/messages`; `now` is the start of its transaction, the NOW() of
both statements. -/
def sendMessage (auth : AuthUser) (conversationId : Uuid) (body : String) (now : Instant) :
    Tx (Uuid × Message) := do
  let _ ← authorizeParticipant auth conversationId
  atomically do
    let message ← insertMessageTx conversationId auth.userId body now
    touchLastMessageAtTx conversationId now
    return message

def Message.read (now : Instant) (m : Message) : Message := { m with readAt := some now }

/-- `PATCH /conversations/{id}/read`: the messages of the other side. -/
def markRead (auth : AuthUser) (conversationId : Uuid) (now : Instant) : Tx ℕ := do
  let _ ← authorizeParticipant auth conversationId
  atomically do
    let rows ← updateAll (S := Chat) .messages
      (fun _ m => m.conversationId = conversationId ∧ m.senderId ≠ auth.userId ∧ m.readAt = none)
        (Message.read now)
    return rows.length

/-! ## Requests -/

inductive ChatReq
  | createConversation (auth : AuthUser) (userId : Uuid) (now : Instant)
  | sendMessage (auth : AuthUser) (conversationId : Uuid) (body : String) (now : Instant)
  | markRead (auth : AuthUser) (conversationId : Uuid) (now : Instant)
  /-- INSERT INTO user_roles … ON CONFLICT DO NOTHING. -/
  | assignRole (userId : Uuid) (role : Role)

inductive ChatReply
  | conversation (id : Uuid) (c : Conversation)
  | message (id : Uuid) (m : Message)
  | read (n : ℕ)
  | assigned

def assignRole (userId : Uuid) (role : Role) : Tx Unit := atomically do
  references (S := Chat) .users userId (.database (.foreignKey "users"))
  lockRes (S := Chat) (.row .userRoles (userId, role.asStr)) .update
  put (S := Chat) (.add .userRoles (userId, role.asStr) ())

def ChatReq.prog : ChatReq → Tx ChatReply
  | .createConversation auth userId now => do
    let r ← Messages.createConversation auth userId now
    return .conversation r.1 r.2
  | .sendMessage auth conversationId body now => do
    let r ← Messages.sendMessage auth conversationId body now
    return .message r.1 r.2
  | .markRead auth conversationId now =>
    do return .read (← Messages.markRead auth conversationId now)
  | .assignRole userId role => do
    Messages.assignRole userId role
    return .assigned

def chat : Service Chat AppError ChatReply ChatReq where
  prog := ChatReq.prog
  crash := .database .connection

end DreamFly.Messages
