import DreamFly.Proof.Messages
import Mathlib.Order.Bounds.Basic

/-!
# Conversations over whole runs

* `Paired`: one conversation for each unordered pair, none of a user with himself. It
  holds in every reachable state, and whoever asks for a pair gets its conversation
  (`one_conversation`).
* `Newest`: `last_message_at` is the newest message's time. The touch sets it to the
  start of the transaction that commits, so this is kept by commits in the order of those
  starts only (`messages_newest`).
-/

namespace DreamFly.Messages

open Txn Prog

abbrev ChatSys := Sys Chat AppError ChatReply ChatReq

variable {d d' : Db} {s s' : ChatSys} {σ : Pt Chat} {t : ℕ}
  {c : Call Chat AppError ChatReply ChatReq}

theorem chat_ok {ok : ChatSys → Event ChatReq → ChatSys → Prop} (h : chat.Reach ok (Sys.init d) s) :
    s.OK chatContract :=
  reach_ok (fun _ _ _ _ _ _ _ _ _ _ => trivial) (ok_init d) h

/-! ## One conversation for a pair -/

/-- One conversation for each unordered pair, of two different users. -/
structure Paired (d : Db) : Prop where
  distinct : ∀ k r, d.get .conversations k = some r → r.memberId ≠ r.coachId
  one : ∀ k k' r r', d.get .conversations k = some r → d.get .conversations k' = some r' →
    r.pair = r'.pair → k = k'

/-- A conversation after a commit was there before, or is the one that was created. -/
theorem Created.get {a b : Uuid} (h : Created a b d d') : ∃ k r, d.get .conversations k = none ∧
    r.memberId ≠ r.coachId ∧
    r.pair = pairOf a b ∧ r.lastMessageAt = none ∧ Only (S := Chat) [.conversations] d d' ∧
    ∀ k', d'.get .conversations k' = if k' = k then some r else d.get .conversations k' := by
  obtain ⟨k, r, hnew, hne, hp, hlast, rfl⟩ := h.added
  refine ⟨k, r, hnew, hne, hp, hlast, Only.write (S := Chat)
    (w := .add .conversations k r) _ (List.mem_singleton.2 rfl), fun k' => ?_⟩
  rw [Store.get_add, hnew]
  rfl

theorem Sent.get {conv : Uuid} {now : Instant} (h : Sent conv now d d') (k : Uuid) :
    d'.get .conversations k = if k = conv then (d.get .conversations k).map (Conversation.touch now)
    else d.get .conversations k := by
  obtain ⟨n, m, -, -, -, rfl⟩ := h.added
  rw [Store.get_mod, Store.get_apply_other _ (by simp [Write.tbl]),
    Store.get_apply_other _ (by simp [Write.tbl])]
  split
  next he =>
    subst he
    cases d.get .conversations k <;> rfl
  · rfl

/-- Every request but a creation leaves the conversations between the same two. -/
theorem ChatReq.Leaves.sides {q : ChatReq} (h : q.Leaves σ)
    (hq : ∀ auth u now, q ≠ .createConversation auth u now) {k : Uuid}
    {r' : Conversation} (hr : σ.db.get .conversations k = some r') :
    ∃ r, σ.now.get .conversations k = some r ∧ r.memberId = r'.memberId ∧
      r.coachId = r'.coachId := by
  cases q with
  | createConversation auth u now => exact absurd rfl (hq auth u now)
  | sendMessage auth conv body now =>
    rw [Sent.get h] at hr
    split at hr
    · obtain ⟨r, hold, rfl⟩ := Option.map_eq_some_iff.1 hr
      exact ⟨r, hold, rfl, rfl⟩
    · exact ⟨r', hr, rfl, rfl⟩
  | markRead auth conv now =>
    obtain ⟨p, he⟩ := h
    exact ⟨r', he.only.get (t := ChatTbl.conversations) (by simp) k ▸ hr, rfl, rfl⟩
  | assignRole userId role =>
    exact ⟨r', Only.get (t := ChatTbl.conversations) h (by simp) k ▸ hr, rfl, rfl⟩

theorem Paired.of_sides (hp : Paired d) (h : ∀ k r', d'.get .conversations k = some r' →
    ∃ r, d.get .conversations k = some r ∧ r.memberId = r'.memberId ∧ r.coachId = r'.coachId) :
      Paired d' := by
  refine ⟨fun k r' hr => ?_, fun k k' r₁ r₂ h₁ h₂ he => ?_⟩
  · obtain ⟨r, hr, hm, hc⟩ := h k r' hr
    rw [← hm, ← hc]
    exact hp.distinct k r hr
  · obtain ⟨r₁', h₁', hm₁, hc₁⟩ := h k r₁ h₁
    obtain ⟨r₂', h₂', hm₂, hc₂⟩ := h k' r₂ h₂
    refine hp.one k k' r₁' r₂' h₁' h₂' ?_
    unfold Conversation.pair at he ⊢
    rw [hm₁, hc₁, hm₂, hc₂]
    exact he

/-- A conversation is created for a pair that had none. -/
theorem Created.paired {a b : Uuid} (h : Created a b d d') (hp : Paired d) : Paired d' := by
  obtain ⟨kn, rn, hnew, hne, hpair, -, -, hget⟩ := h.get
  refine ⟨fun k r hr => ?_, fun k k' r₁ r₂ h₁ h₂ he => ?_⟩
  · rw [hget] at hr
    split at hr
    · cases hr
      exact hne
    · exact hp.distinct k r hr
  · rw [hget] at h₁ h₂
    split at h₁ <;> split at h₂
    next e₁ e₂ => exact e₁.trans e₂.symm
    · cases h₁
      exact absurd (he ▸ hpair) (h.free k' r₂ h₂)
    · cases h₂
      exact absurd (he.trans hpair) (h.free k r₁ h₁)
    · exact hp.one k k' r₁ r₂ h₁ h₂ he

theorem ChatReq.Leaves.paired {q : ChatReq} (h : q.Leaves σ) (hp : Paired σ.now) : Paired σ.db := by
  cases q with
  | createConversation auth u now => exact Created.paired h hp
  | sendMessage | markRead | assignRole =>
    exact hp.of_sides fun k r' hr => h.sides (fun _ _ _ he => (nomatch he)) hr

theorem reach_paired (h0 : Paired d) (h : chat.Reachable (Sys.init d) s) : Paired s.db :=
  reach_inv (C := chatContract) (fun _ h => chat_ok h) h0
    (fun _ _ _ h hp => ChatReq.Leaves.paired h hp) h

/-- Call `t` has been answered with conversation `id`, asked for by `a` with `b`. -/
def Got (s : ChatSys) (t : ℕ) (a b id : Uuid) : Prop :=
  ∃ c auth now conv, s.call t = some c ∧ c.req = .createConversation auth b now ∧ auth.userId = a ∧
    c.prog = .ret (.conversation id conv)

/-- Who has been answered has been given a conversation of his pair, which is there. -/
theorem got_there {a b id : Uuid} (h : chat.Reachable (Sys.init d) s) (hg : Got s t a b id) :
    ∃ r, s.db.get .conversations id = some r ∧ r.pair = pairOf a b := by
  obtain ⟨c, auth, now, conv, hc, hq, rfl, hp⟩ := hg
  obtain ⟨start, -, ho⟩ := (chat_ok h).ret hc hp
  rw [hq] at ho
  obtain ⟨-, hpair, r, hr, hm, hcoach⟩ := ho
  refine ⟨r, hr, ?_⟩
  rw [← hpair, Conversation.pair, Conversation.pair, hm, hcoach]

/-- **One conversation per pair of users**, whichever side asks, whatever the roles and
however the calls interleave. Whoever is answered gets the conversation of his pair, the
same one as everybody else, and nobody fails because another was faster. -/
theorem one_conversation (h0 : Paired d) (h : chat.Reachable (Sys.init d) s) :
    Paired s.db ∧
    (∀ t a b id, Got s t a b id → ∃ r, s.db.get .conversations id = some r ∧ r.pair = pairOf a b) ∧
    (∀ t t' a b a' b' id id', Got s t a b id → Got s t' a' b' id' → pairOf a b = pairOf a' b' →
      id = id') ∧
    ∀ t c auth u now, s.call t = some c → c.req = .createConversation auth u now →
      (∀ reply, c.prog = .ret reply → ∃ id, Got s t auth.userId u id) ∧ ∀ e, c.prog = .fail e →
        ¬ LostRace e := by
  refine ⟨reach_paired h0 h, fun t a b id hg => got_there h hg,
    fun t t' a b a' b' id id' hg hg' he => ?_,
    fun t c auth u now hc hq => ⟨fun reply hp => ?_, fun e hp => ?_⟩⟩
  · obtain ⟨r, hr, hpair⟩ := got_there h hg
    obtain ⟨r', hr', hpair'⟩ := got_there h hg'
    exact (reach_paired h0 h).one id id' r r' hr hr' ((hpair.trans he).trans hpair'.symm)
  · obtain ⟨start, -, ho⟩ := (chat_ok h).ret hc hp
    rw [hq] at ho
    cases reply with
    | conversation id conv => exact ⟨id, c, auth, now, conv, hc, hq, rfl, hp⟩
    | message id m => exact ho.elim
    | read n => exact ho.elim
    | assigned => exact ho.elim
  · obtain ⟨start, -, ho⟩ := (chat_ok h).fail hc hp
    exact ho

/-- Two users, each a member and a coach. -/
def sampleChat : Db :=
  Store.overlay [.add .users 1 (), .add .users 2 (), .add .userRoles (1, "member") (),
    .add .userRoles (1, "coach") (),
    .add .userRoles (2, "member") (), .add .userRoles (2, "coach") ()] fun _ => ∅

def sampleUser (userId : Uuid) : AuthUser := ⟨userId, ["member", "coach"]⟩

/-- Both ask for a conversation with the other. Neither finds one, and user 1 is faster. -/
def sampleRace : List (Event ChatReq) :=
  [.start 0 (.createConversation (sampleUser 1) 2 10),
    .start 1 (.createConversation (sampleUser 2) 1 11)] ++
    (Event.steps 0 0 4 ++ Event.steps 1 0 4 ++ Event.steps 0 10 9 ++ Event.steps 1 100 5)

theorem sampleChat_paired : Paired sampleChat :=
    ⟨fun _ _ hk => (nomatch hk), fun _ _ _ _ hk => (nomatch hk)⟩

theorem one_conversation_race : Paired (chat.after sampleRace (.init sampleChat)).db :=
  (one_conversation sampleChat_paired (Service.reachable_after _)).1

/-- Both get conversation 16, in which user 1 is the coach. -/
example : let s := chat.after sampleRace (.init sampleChat)
    s.db.get .conversations 16 = some ⟨2, 1, 10, none⟩ ∧
      [0, 1].map (fun t => (s.call t).map fun c => (c.finished, c.prog.failed)) =
      [some (true, none), some (true, none)] := by
  decide +kernel

/-! ## The newest message -/

/-- The largest of `s`, if there is one. -/
def Newest (s : Set Instant) : Option Instant → Prop
  | none => s = ∅
  | some t => IsGreatest s t

/-- When the messages of a conversation were written. -/
def sentAt (conv : Uuid) (d : Db) : Set Instant := { t | ∃ n m, d.get .messages n = some m ∧
    m.conversationId = conv ∧ m.createdAt = t }

/-- Messages belong to conversations, each of which shows its newest message's time. -/
structure InboxOK (d : Db) : Prop where
  there : ∀ n m, d.get .messages n = some m → ∃ r, d.get .conversations m.conversationId = some r
  newest : ∀ k r, d.get .conversations k = some r → Newest (sentAt k d) r.lastMessageAt

/-- `last_message_at` is later than before, or the same. -/
def Forward (d d' : Db) : Prop := ∀ k r t, d.get .conversations k = some r →
    r.lastMessageAt = some t →
  ∃ r' t', d'.get .conversations k = some r' ∧ r'.lastMessageAt = some t' ∧ t ≤ t'

theorem Forward.refl (d : Db) : Forward d d := fun _ r t hr ht => ⟨r, t, hr, ht, le_rfl⟩

theorem Forward.trans {a b c : Db} (h : Forward a b) (h' : Forward b c) : Forward a c :=
    fun k r t hr ht => by
  obtain ⟨r₁, t₁, hr₁, ht₁, hle₁⟩ := h k r t hr ht
  obtain ⟨r₂, t₂, hr₂, ht₂, hle₂⟩ := h' k r₁ t₁ hr₁ ht₁
  exact ⟨r₂, t₂, hr₂, ht₂, hle₁.trans hle₂⟩

/-- A value that is no earlier than the newest is the newest now. -/
theorem Newest.insert {s : Set Instant} {o : Option Instant} {t : Instant} (h : Newest s o)
    (ht : ∀ u, o = some u → u ≤ t) :
    Newest (insert t s) (some t) := by
  refine ⟨Set.mem_insert t s, ?_⟩
  rintro u (rfl | hu)
  · exact le_rfl
  · cases o with
    | none =>
      have h : s = ∅ := h
      rw [h] at hu
      exact hu.elim
    | some v => exact (h.2 hu).trans (ht v rfl)

/-- The messages of a conversation depend on their conversation and time only. -/
theorem sentAt_congr {conv : Uuid} (h : ∀ n m, d.get .messages n = some m →
      ∃ m', d'.get .messages n = some m' ∧ m'.conversationId = m.conversationId ∧
        m'.createdAt = m.createdAt)
    (h' : ∀ n m', d'.get .messages n = some m' →
      ∃ m, d.get .messages n = some m ∧ m'.conversationId = m.conversationId ∧
        m'.createdAt = m.createdAt) :
    sentAt conv d' = sentAt conv d := by
  ext t
  constructor
  · rintro ⟨n, m', hm', hc, ht⟩
    obtain ⟨m, hm, hc', ht'⟩ := h' n m' hm'
    exact ⟨n, m, hm, hc'.symm.trans hc, ht'.symm.trans ht⟩
  · rintro ⟨n, m, hm, hc, ht⟩
    obtain ⟨m', hm', hc', ht'⟩ := h n m hm
    exact ⟨n, m', hm', hc'.trans hc, ht'.trans ht⟩

theorem sentAt_same {conv : Uuid} (h : ∀ n, d'.get .messages n = d.get .messages n) :
    sentAt conv d' = sentAt conv d :=
  sentAt_congr (fun n m hm => ⟨m, (h n).trans hm, rfl, rfl⟩) fun n m hm =>
    ⟨m, (h n).symm.trans hm, rfl, rfl⟩

/-- A message adds its time to its conversation. -/
theorem Sent.sentAt {conv : Uuid} {now : Instant} (h : Sent conv now d d') (k : Uuid) :
    sentAt k d' = if k = conv then insert now (sentAt k d) else sentAt k d := by
  obtain ⟨n, m, hnew, hconv, hnow, rfl⟩ := h.added
  -- only the new message is added
  have hget : ∀ n', ((d.apply (.add .messages n m)).apply
      (.mod .conversations conv (onlyIf (fun _ => true) (Conversation.touch now)))).get
      .messages n' = if n' = n then some m else d.get .messages n' := fun n' => by
    rw [Store.get_apply_other _ (by simp [Write.tbl]), Store.get_add, hnew]
    rfl
  ext t
  constructor
  · rintro ⟨n', m', hm', hc, ht⟩
    rw [hget] at hm'
    split at hm'
    · cases hm'
      rw [if_pos (hc.symm.trans hconv)]
      exact .inl (ht.symm.trans hnow)
    · have hold : t ∈ Messages.sentAt k d := ⟨n', m', hm', hc, ht⟩
      split
      · exact .inr hold
      · exact hold
  · intro ht
    have hold : t ∈ Messages.sentAt k d → t ∈ Messages.sentAt k
        ((d.apply (.add .messages n m)).apply (.mod .conversations conv (onlyIf (fun _ => true)
          (Conversation.touch now)))) := by
      rintro ⟨n', m', hm', hc, ht⟩
      refine ⟨n', m', ?_, hc, ht⟩
      rw [hget, if_neg]
      · exact hm'
      · rintro rfl
        rw [hnew] at hm'
        cases hm'
    split at ht
    next he =>
      rcases ht with rfl | ht
      · exact ⟨n, m, by rw [hget, if_pos rfl], hconv.trans he.symm, hnow⟩
      · exact hold ht
    · exact hold ht

/-- The newest message so far of the conversation is not newer than the one at hand. -/
def InTime (conv : Uuid) (now : Instant) (d : Db) : Prop :=
  ∀ r t, d.get .conversations conv = some r → r.lastMessageAt = some t → t ≤ now

theorem Sent.inbox {conv : Uuid} {now : Instant} (h : Sent conv now d d') (ht : InTime conv now d)
    (hi : InboxOK d) :
    InboxOK d' ∧ Forward d d' := by
  refine ⟨⟨fun n' m' hm' => ?_, fun k r' hr' => ?_⟩, fun k r t hr hlast => ?_⟩
  · -- a message is only sent into a conversation that there is
    have hthere : ∃ r, d.get .conversations m'.conversationId = some r := by
      obtain ⟨n, m, hnew, hconv, -, rfl⟩ := h.added
      rw [Store.get_apply_other _ (by simp [Write.tbl]), Store.get_add, hnew] at hm'
      split at hm'
      · cases hm'
        exact hconv ▸ h.there
      · exact hi.there n' m' hm'
    obtain ⟨r, hr⟩ := hthere
    rw [h.get, hr]
    split
    · exact ⟨_, rfl⟩
    · exact ⟨r, rfl⟩
  · rw [h.get] at hr'
    rw [h.sentAt]
    split at hr'
    next he =>
      obtain ⟨r, hr, rfl⟩ := Option.map_eq_some_iff.1 hr'
      rw [if_pos he]
      exact (hi.newest k r hr).insert fun u hu => ht r u (he ▸ hr) hu
    next he =>
      rw [if_neg he]
      exact hi.newest k r' hr'
  · rw [h.get, hr]
    split
    next he => exact ⟨_, now, rfl, rfl, ht r t (he ▸ hr) hlast⟩
    · exact ⟨r, t, rfl, hlast, le_rfl⟩

/-- A message that comes too late turns the time back. -/
theorem Sent.back {conv : Uuid} {now : Instant} (h : Sent conv now d d')
    (ht : ¬ InTime conv now d) : ¬ Forward d d' := by
  intro hf
  refine ht fun r t hr hlast => ?_
  obtain ⟨r', t', hr', hlast', hle⟩ := hf conv r t hr hlast
  rw [h.get, if_pos rfl, hr] at hr'
  cases hr'
  cases hlast'
  exact hle

/-- It leaves a newer message than the time shown. -/
theorem Sent.stale {conv : Uuid} {now : Instant} (h : Sent conv now d d') (ht : ¬ InTime conv now d)
    (hi : InboxOK d) :
    ¬ InboxOK d' := by
  intro hi'
  refine ht fun r t hr hlast => ?_
  have hnew := hi.newest conv r hr
  rw [hlast] at hnew
  have hnow := hi'.newest conv (r.touch now) (by rw [h.get, if_pos rfl, hr]; rfl)
  refine hnow.2 ?_
  rw [h.sentAt, if_pos rfl]
  exact .inr hnew.1

theorem Created.inbox {a b : Uuid} (h : Created a b d d') (hi : InboxOK d) : InboxOK d' ∧
    Forward d d' := by
  obtain ⟨kn, rn, hnew, -, -, hlast, honly, hget⟩ := h.get
  have hmsg : ∀ n, d'.get .messages n = d.get .messages n :=
    fun n => honly.get (t := ChatTbl.messages) (by simp) n
  have hold : ∀ {k r}, d.get .conversations k = some r → d'.get .conversations k = some r :=
    fun {k r} hr => by
    rw [hget, if_neg]
    · exact hr
    · rintro rfl
      rw [hnew] at hr
      cases hr
  refine ⟨⟨fun n m hm => ?_, fun k r hr => ?_⟩, fun k r t hr ht => ⟨r, t, hold hr, ht, le_rfl⟩⟩
  · obtain ⟨r, hr⟩ := hi.there n m ((hmsg n).symm.trans hm)
    exact ⟨r, hold hr⟩
  · rw [sentAt_same hmsg]
    rw [hget] at hr
    split at hr
    next he =>
      -- nobody has written to it yet
      cases hr
      rw [hlast]
      refine Set.eq_empty_iff_forall_notMem.2 ?_
      rintro t ⟨n, m, hm, hc, -⟩
      obtain ⟨r, hr⟩ := hi.there n m hm
      rw [hc, he, hnew] at hr
      cases hr
    · exact hi.newest k r hr

/-- What leaves conversations, and their messages' times, alone. -/
theorem InboxOK.of_same (hi : InboxOK d) (hconv : ∀ k, d'.get .conversations k =
    d.get .conversations k)
    (h : ∀ n m, d.get .messages n = some m →
      ∃ m', d'.get .messages n = some m' ∧ m'.conversationId = m.conversationId ∧
        m'.createdAt = m.createdAt)
    (h' : ∀ n m', d'.get .messages n = some m' →
      ∃ m, d.get .messages n = some m ∧ m'.conversationId = m.conversationId ∧
        m'.createdAt = m.createdAt) :
    InboxOK d' ∧ Forward d d' := by
  refine ⟨⟨fun n m' hm' => ?_, fun k r hr => ?_⟩, fun k r t hr ht => ⟨r, t, (hconv k).trans hr,
    ht, le_rfl⟩⟩
  · obtain ⟨m, hm, hc, -⟩ := h' n m' hm'
    obtain ⟨r, hr⟩ := hi.there n m hm
    exact ⟨r, by rw [hconv, hc]; exact hr⟩
  · rw [sentAt_congr h h']
    exact hi.newest k r ((hconv k).symm.trans hr)

/-- The condition on a commit: a message is not older than the newest of its conversation. -/
def ChatReq.Timely : ChatReq → Db → Prop
  | .sendMessage _ conv _ now, d => InTime conv now d
  | _, _ => True

theorem ChatReq.Leaves.inbox {q : ChatReq} (h : q.Leaves σ) (ht : q.Timely σ.now)
    (hi : InboxOK σ.now) :
    InboxOK σ.db ∧ Forward σ.now σ.db := by
  cases q with
  | createConversation auth u now => exact Created.inbox h hi
  | sendMessage auth conv body now => exact Sent.inbox h ht hi
  | markRead auth conv now =>
    obtain ⟨p, he⟩ := h
    refine hi.of_same (fun k => he.only.get (t := ChatTbl.conversations) (by simp) k)
      (fun n m hm => ?_) fun n m' hm' => ?_
    · rcases he.row n with hsame | ⟨r, hr, -, hnew⟩
      · exact ⟨m, hsame.trans hm, rfl, rfl⟩
      · rw [hm] at hr
        cases hr
        exact ⟨_, hnew, rfl, rfl⟩
    · rcases he.row n with hsame | ⟨r, hr, -, hnew⟩
      · exact ⟨m', hsame.symm.trans hm', rfl, rfl⟩
      · rw [hm'] at hnew
        cases hnew
        exact ⟨r, hr, rfl, rfl⟩
  | assignRole userId role =>
    have hmsg : ∀ n, σ.db.get .messages n = σ.now.get .messages n :=
      fun n => Only.get (t := ChatTbl.messages) h (by simp) n
    exact hi.of_same (fun k => Only.get (t := ChatTbl.conversations) h (by simp) k)
      (fun n m hm => ⟨m, (hmsg n).trans hm, rfl, rfl⟩)
      fun n m hm => ⟨m, (hmsg n).symm.trans hm, rfl, rfl⟩

/-- Runs whose messages commit in time. -/
def InOrder (s : ChatSys) (_ : Event ChatReq) (s' : ChatSys) : Prop := ∀ t c, CommitStep s t c s' →
    c.req.Timely s.db

/-- A commit in a reachable state leaves what its request says. -/
theorem commit_leaves {ok : ChatSys → Event ChatReq → ChatSys → Prop}
    (h : chat.Reach ok (Sys.init d) s) (hcs : CommitStep s t c s') :
    ∃ σ : Pt Chat, σ.now = s.db ∧ σ.db = s'.db ∧ c.req.Leaves σ := by
  obtain ⟨start, -, ho⟩ := (chat_ok h).commit hcs
  obtain ⟨-, k, -, rfl⟩ := hcs
  exact ⟨c.pt start s.db, rfl, rfl, ho⟩

theorem commit_inbox {ok : ChatSys → Event ChatReq → ChatSys → Prop}
    (h : chat.Reach ok (Sys.init d) s) (hcs : CommitStep s t c s')
    (ht : c.req.Timely s.db) (hi : InboxOK s.db) : InboxOK s'.db ∧ Forward s.db s'.db := by
  obtain ⟨σ, hnow, hdb, hl⟩ := commit_leaves h hcs
  rw [← hnow] at ht hi ⊢
  rw [← hdb]
  exact hl.inbox ht hi

theorem commit_late {ok : ChatSys → Event ChatReq → ChatSys → Prop}
    (h : chat.Reach ok (Sys.init d) s) (hcs : CommitStep s t c s')
    (ht : ¬ c.req.Timely s.db) : ¬ Forward s.db s'.db ∧ (InboxOK s.db → ¬ InboxOK s'.db) := by
  obtain ⟨σ, hnow, hdb, hl⟩ := commit_leaves h hcs
  rw [← hnow] at ht ⊢
  rw [← hdb]
  cases hq : c.req with
  | sendMessage auth conv body now =>
    rw [hq] at hl ht
    exact ⟨Sent.back hl ht, Sent.stale hl ht⟩
  | createConversation | markRead | assignRole =>
    rw [hq] at ht
    exact absurd trivial ht

theorem reach_inbox (h0 : InboxOK d) (h : chat.Reach InOrder (Sys.init d) s) : InboxOK s.db :=
  reach_inv_step (P := InboxOK) h0 (fun _ _ _ _ _ hr _ ho hcs hi => (commit_inbox hr hcs
    (ho _ _ hcs) hi).1) h

theorem reach_forward (h0 : InboxOK d) (h : chat.Reach InOrder (Sys.init d) s)
    (h' : chat.Reach InOrder s s') : Forward s.db s'.db := by
  induction h' with
  | refl => exact Forward.refl _
  | @tail s₁ s₂ hr hst ih =>
    obtain ⟨e, he, ho⟩ := hst
    rcases step_db he with hd | ⟨t, c, hcs⟩
    · rw [hd]
      exact ih
    · exact ih.trans (commit_inbox (h.trans hr) hcs (ho t c hcs) (reach_inbox h0 (h.trans hr))).2

/-- **`last_message_at` is the newest message's time, and never goes back, as long as
messages commit in the order of their times**: a message that commits after a newer one of
its conversation turns it back. -/
theorem messages_newest (h0 : InboxOK d) :
    (∀ s, chat.Reach InOrder (Sys.init d) s → InboxOK s.db ∧ ∀ s', chat.Reach InOrder s s' →
      Forward s.db s'.db) ∧
    ∀ s t c s', chat.Reachable (Sys.init d) s → CommitStep s t c s' → ¬ c.req.Timely s.db →
      ¬ Forward s.db s'.db ∧ (InboxOK s.db → ¬ InboxOK s'.db) :=
  ⟨fun _ h => ⟨reach_inbox h0 h, fun _ h' => reach_forward h0 h h'⟩,
    fun _ _ _ _ h hcs ht => commit_late h hcs ht⟩

instance {conv : Uuid} {now : Instant} : Decidable (InTime conv now d) :=
  decidable_of_iff (((d.get .conversations conv).bind Conversation.lastMessageAt).all (· ≤ now) =
    true) <| by
    rw [Option.all_eq_true]
    constructor
    · intro h r t hr ht
      exact of_decide_eq_true (h t (by rw [hr]; exact ht))
    · intro h t ht
      obtain ⟨r, hr, ht⟩ := Option.bind_eq_some_iff.1 ht
      exact decide_eq_true (h r t hr ht)

instance : ∀ q : ChatReq, Decidable (q.Timely d)
  | .sendMessage _ conv _ now => inferInstanceAs (Decidable (InTime conv now d))
  | .createConversation .. | .markRead .. | .assignRole .. => .isTrue trivial

/-- Whoever is about to commit would be in time. -/
def inOrder (s : ChatSys) (_ : Event ChatReq) (_ : ChatSys) : Bool := s.calls.rows.all fun e =>
    !e.2.prog.isCommit || decide (e.2.req.Timely s.db)

theorem inOrder_of {e : Event ChatReq} (h : inOrder s e s' = true) : InOrder s e s' := by
  rintro t c ⟨hc, k, hk, -⟩
  have hmem := List.all_eq_true.1 h (t, c) (Table.mem_rows.2 hc)
  simpa [hk, Prog.isCommit] using hmem

/-- The two have a conversation with no message yet. -/
def sampleInbox : Db := sampleChat.apply (.add .conversations 7 ⟨2, 1, 5, none⟩)

theorem sampleInbox_ok : InboxOK sampleInbox := by
  refine ⟨fun _ _ hm => (nomatch hm), fun k r hr => ?_⟩
  have hlast : r.lastMessageAt = none := Store.get_all (d := sampleInbox)
    (t := ChatTbl.conversations)
    (P := fun _ r => r.lastMessageAt = none) (by decide) hr
  rw [hlast]
  exact Set.eq_empty_iff_forall_notMem.2 fun _ ⟨_, _, hm, _⟩ => (nomatch hm)

/-- One message from either side. -/
def sampleTalk : List (Event ChatReq) :=
  (.start 0 (.sendMessage (sampleUser 1) 7 "Shall we train?" 10) :: Event.steps 0 0 13) ++
    (.start 1 (.sendMessage (sampleUser 2) 7 "Gladly." 20) :: Event.steps 1 20 13)

theorem messages_newest_talk : InboxOK (chat.after sampleTalk (.init sampleInbox)).db :=
  ((messages_newest sampleInbox_ok).1 _
    ((Service.reach_checks (T := inOrder) (by decide +kernel)).mono fun _ _ _ => inOrder_of)).1

/-- Both have started, at 10 and at 20; the later one commits first. -/
def sampleOverlap : List (Event ChatReq) :=
  [.start 0 (.sendMessage (sampleUser 1) 7 "Shall we train?" 10),
    .start 1 (.sendMessage (sampleUser 2) 7 "At ten?" 20)] ++
    (Event.steps 0 0 4 ++ Event.steps 1 20 13 ++ Event.steps 0 40 9)

/-- **Two messages that overlap leave the older one's time.** -/
theorem newest_lost : InboxOK sampleInbox ∧
    let s := chat.after sampleOverlap (.init sampleInbox)
    chat.Reachable (Sys.init sampleInbox) s ∧ s.db.get .conversations 7 = some ⟨2, 1, 5, some 10⟩ ∧
      20 ∈ sentAt 7 s.db ∧ ¬ InboxOK s.db := by
  have hlast : (chat.after sampleOverlap (.init sampleInbox)).db.get .conversations 7 =
      some ⟨2, 1, 5, some 10⟩ := by decide +kernel
  have hmsg : (chat.after sampleOverlap (.init sampleInbox)).db.get .messages 26 =
      some ⟨7, 2, "At ten?", 20, none⟩ := by decide +kernel
  have hsent : 20 ∈ sentAt 7 (chat.after sampleOverlap (.init sampleInbox)).db :=
    ⟨26, _, hmsg, rfl, rfl⟩
  refine ⟨sampleInbox_ok, Service.reachable_after _, hlast, hsent, fun hi => ?_⟩
  have hle : (20 : ℤ) ≤ 10 := (hi.newest 7 _ hlast).2 hsent
  exact absurd hle (by decide)

end DreamFly.Messages
