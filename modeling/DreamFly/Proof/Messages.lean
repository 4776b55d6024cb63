import DreamFly.Messages.Chat
import DreamFly.Txn.Plain

/-!
# What chat requests commit and answer

A conversation is added under its entry of the unordered index and keeps its two sides, so
whoever has lost the race for the entry finds the winner's row (`createConversation_wp`).
-/

namespace DreamFly.Messages

open Txn Prog

/-! ## Pairs -/

/-- The unordered pair of two users. -/
def pairOf (a b : Uuid) : Uuid × Uuid := (min a b, max a b)

def Conversation.pair (c : Conversation) : Uuid × Uuid := pairOf c.memberId c.coachId

theorem pairOf_comm (a b : Uuid) : pairOf a b = pairOf b a := by
  unfold pairOf
  rw [min_comm, max_comm]

theorem pairOf_eq {a b x y : ℕ} : pairOf x y = pairOf a b ↔ (x = a ∧ y = b) ∨ (x = b ∧ y = a) := by
  have h : pairOf x y = pairOf a b ↔ min x y = min a b ∧ max x y = max a b :=
    Prod.mk.injEq .. ▸ Iff.rfl
  rw [h]
  omega

/-- The lookup is by unordered pair. -/
theorem isOf_iff {c : Conversation} {a b : Uuid} : c.isOf a b = true ↔ c.pair = pairOf a b := by
  unfold Conversation.isOf Conversation.pair
  rw [decide_eq_true_eq, pairOf_eq]

theorem pairTaken_iff {a b : Uuid} {d : Db} : pairTaken (min a b) (max a b) d = true ↔
    ∃ k c, d.get .conversations k = some c ∧ c.pair = pairOf a b := by
  unfold pairTaken
  rw [Bool.not_eq_true', List.isEmpty_eq_false_iff_exists_mem]
  constructor
  · rintro ⟨⟨k, c⟩, hm⟩
    obtain ⟨hk, hp⟩ := Store.mem_sel.1 hm
    exact ⟨k, c, hk, Prod.mk.injEq .. ▸ of_decide_eq_true hp⟩
  · rintro ⟨k, c, hk, hp⟩
    exact ⟨(k, c), Store.mem_sel.2 ⟨hk, decide_eq_true ((Prod.mk.injEq ..).mp hp)⟩⟩

theorem findByUserPair_some {a b : Uuid} {d : Db} {x : Uuid × Conversation}
    (h : findByUserPair a b d = some x) :
    d.get .conversations x.1 = some x.2 ∧ x.2.pair = pairOf a b := by
  obtain ⟨hk, hp⟩ := Store.mem_sel.1 (List.mem_of_mem_head? h)
  exact ⟨hk, isOf_iff.1 hp⟩

theorem findByUserPair_isSome {a b k : Uuid} {d : Db} {c : Conversation}
    (hk : d.get .conversations k = some c)
    (hp : c.pair = pairOf a b) : ∃ x, findByUserPair a b d = some x := by
  have hm : (k, c) ∈ d.sel .conversations fun _ c => c.isOf a b :=
    Store.mem_sel.2 ⟨hk, isOf_iff.2 hp⟩
  unfold findByUserPair
  cases hl : d.sel .conversations fun _ c => c.isOf a b with
  | nil =>
    rw [hl] at hm
    cases hm
  | cons x l => exact ⟨x, rfl⟩

/-- Whoever may talk to each other: two different users, in one orientation or the other. -/
theorem resolvePair_ok {caller target m c : Uuid} {roles roles' : List String}
    (h : resolvePair caller roles target roles' = .ok (m, c)) : m ≠ c ∧
    pairOf m c = pairOf caller target := by
  unfold resolvePair at h
  split at h
  · cases h
  next hne =>
    split at h
    · cases h
      exact ⟨hne, pairOf_comm _ _⟩
    · split at h
      · cases h
        exact ⟨fun he => hne he.symm, rfl⟩
      · cases h

/-! ## Rules -/

/-- Nobody else adds a conversation for a pair whose entry is locked. -/
def entryOfPair : Protect Chat :=
  .noNew .conversations (fun (x : Uuid × Uuid) _ c => c.pair = x)
    (fun x => .uniq (.userPair x.1 x.2)) .update .update
    (by decide)

/-- Conversations stay, with their two sides. -/
def sides : Protect Chat := .fixed .conversations fun c => (c.memberId, c.coachId)

def chatRules : Discipline Chat := (Protect.all [entryOfPair, sides]).discipline

variable {L : Locks (Res Chat)} {C : Pt Chat → Prop} {σ : Pt Chat} {a b d d' : Db} {k : Uuid}
  {row : Conversation}

theorem covers_conversation (hk : Holds L (.row (S := Chat)
    (t := ChatTbl.conversations) k) .noKeyUpdate)
    (hp : Holds L (.uniq (S := Chat) (.userPair row.pair.1 row.pair.2)) .update) :
    chatRules.Covers L (.add .conversations k row) := by
  refine ⟨hk, fun P hP => ?_⟩
  simp only [List.mem_cons, List.not_mem_nil, or_false] at hP
  rcases hP with rfl | rfl
  · refine ⟨?_, fun k' f he => (nomatch he)⟩
    rintro k' row' he x hx
    cases he
    exact hx ▸ hp
  · exact ⟨fun k' he => (nomatch he), fun k' f he => (nomatch he)⟩

theorem covers_touch {now : Instant}
    (hk : Holds L (.row (S := Chat) (t := ChatTbl.conversations) k) .noKeyUpdate) :
    chatRules.Covers L
      (.mod .conversations k (onlyIf (fun _ => true) (Conversation.touch now))) := by
  refine ⟨hk, fun P hP => ?_⟩
  simp only [List.mem_cons, List.not_mem_nil, or_false] at hP
  rcases hP with rfl | rfl
  · refine ⟨fun k' row he => (nomatch he), ?_⟩
    rintro k' f he x row hx
    cases he
    exact .inl hx
  · refine ⟨fun k' he => (nomatch he), ?_⟩
    rintro k' f he row
    cases he
    rfl

theorem covers_other {w : Write Chat} (h : Holds L w.res .noKeyUpdate)
    (ht : w.tbl ≠ .conversations) : chatRules.Covers L w := by
  refine ⟨h, fun P hP => ?_⟩
  simp only [List.mem_cons, List.not_mem_nil, or_false] at hP
  rcases hP with rfl | rfl
  · refine ⟨?_, ?_⟩
    · rintro k row rfl; exact absurd rfl ht
    · rintro k f rfl; exact absurd rfl ht
  · refine ⟨?_, ?_⟩
    · rintro k rfl; exact absurd rfl ht
    · rintro k f rfl; exact absurd rfl ht

/-- A conversation is still there later, between the same two. -/
theorem still (h : chatRules.rel L a b) (hk : a.get .conversations k = some row) :
    ∃ row', b.get .conversations k = some row' ∧ row'.memberId = row.memberId ∧
      row'.coachId = row.coachId := by
  obtain ⟨row', hk', hs⟩ := h.2 sides (by simp) k row hk
  exact ⟨row', hk', (Prod.mk.injEq ..).mp hs⟩

/-- A pair that had no conversation under its lock still has none. -/
theorem entry_free {x : Uuid × Uuid} (h : chatRules.rel L a b)
    (hh : Holds L (.uniq (S := Chat) (.userPair x.1 x.2)) .update)
    (ha : ∀ k c, a.get .conversations k = some c → c.pair ≠ x)
      (hk : b.get .conversations k = some row) : row.pair ≠ x := by
  intro hp
  obtain ⟨row', hk', hp'⟩ := h.2 entryOfPair (by simp) k x hh row hk hp
  exact ha k row' hk' hp'

/-! ## Commits -/

/-- A conversation added for a pair that had none. -/
structure Created (a b : Uuid) (d d' : Db) : Prop where
  free : ∀ k c, d.get .conversations k = some c → c.pair ≠ pairOf a b
  added : ∃ k c, d.get .conversations k = none ∧ c.memberId ≠ c.coachId ∧ c.pair = pairOf a b ∧
    c.lastMessageAt = none ∧
    d' = d.apply (.add .conversations k c)

/-- A message added, and its conversation touched. -/
structure Sent (conv : Uuid) (now : Instant) (d d' : Db) : Prop where
  there : ∃ c, d.get .conversations conv = some c
  added : ∃ k m, d.get .messages k = none ∧ m.conversationId = conv ∧ m.createdAt = now ∧
    d' = (d.apply (.add .messages k m)).apply (.mod .conversations conv (onlyIf (fun _ => true)
      (Conversation.touch now)))

def ChatReq.Leaves : ChatReq → Pt Chat → Prop
  | .createConversation auth userId _, σ => Created auth.userId userId σ.now σ.db
  | .sendMessage _ conv _ now, σ => Sent conv now σ.now σ.db
  | .markRead _ _ now, σ => ∃ p, Edited (S := Chat) .messages p (Message.read now) σ.now σ.db
  | .assignRole _ _, σ => Only (S := Chat) [.userRoles] σ.now σ.db

/-- A race for a new conversation shows in such an error. -/
def LostRace (e : AppError) : Prop := (∃ c, e = .database (.unique c)) ∨ ∃ msg, e = .internal msg

/-- The answers of a request: the conversation returned is the pair's. -/
def ChatReq.Answers : ChatReq → ChatReply → Pt Chat → Prop
  | .createConversation auth userId _, .conversation id conv, σ =>
    userId ≠ auth.userId ∧ conv.pair = pairOf auth.userId userId ∧
      ∃ c, σ.now.get .conversations id = some c ∧ c.memberId = conv.memberId ∧
        c.coachId = conv.coachId
  | .createConversation _ _ _, _, _ => False
  | _, _, _ => True

/-- The specification of a piece of a chat transaction, which does not fail from a race. -/
abbrev Chats (C : Pt Chat → Prop) {α : Type} (σ : Pt Chat) (p : Tx α)
    (R : α → Pt Chat → Prop) : Prop :=
  Yields chatRules (plainly chatRules C) σ p (fun e => ¬ LostRace e) R

theorem calm_validation {m : String} : ¬ LostRace (.validation m) := by
  rintro (⟨c, h⟩ | ⟨m, h⟩) <;> cases h

theorem calm_notFound {m : String} : ¬ LostRace (.notFound m) := by
  rintro (⟨c, h⟩ | ⟨m, h⟩) <;> cases h

theorem calm_forbidden {m : String} : ¬ LostRace (.forbidden m) := by
  rintro (⟨c, h⟩ | ⟨m, h⟩) <;> cases h

theorem calm_foreignKey {t : String} : ¬ LostRace (.database (.foreignKey t)) := by
  rintro (⟨c, h⟩ | ⟨m, h⟩) <;> cases h

theorem calm_check {c : String} : ¬ LostRace (.database (.check c)) := by
  rintro (⟨c, h⟩ | ⟨m, h⟩) <;> cases h

variable {α : Type} {Q : α → Pt Chat → Prop} {X : AppError → Pt Chat → Prop}

/-- A SELECT of its own: what follows starts from a later store. -/
theorem select_wp {q : Db → α} (h : ∀ v d₁, chatRules.rel [] σ.start v →
    chatRules.rel σ.held v σ.db → chatRules.rel [] σ.now d₁ →
    Q (q v) (.begin σ.now d₁ σ.committed)) : wp chatRules (plainly chatRules C) Q X (select q) σ :=
  fun v hs hv _ => ⟨trivial, fun d₁ hd => h v d₁ hs hv hd⟩

theorem resolveMemberCoach_wp {auth : AuthUser} {target : Uuid} {Q : Uuid × Uuid → Pt Chat → Prop}
    (h : ∀ p d₁, target ≠ auth.userId → p.1 ≠ p.2 → pairOf p.1 p.2 = pairOf auth.userId target →
      Q p (.begin d' d₁ false))
    (hX : ∀ e σ, ¬ LostRace e → X e σ) :
    wp chatRules (plainly chatRules C) Q X (resolveMemberCoach auth target)
    (.begin d d' false) := by
  refine (wp_bind _ _ _).2 (wp_ensure (fun hne => ?_) fun _ => hX _ _ calm_validation)
  refine (wp_bind _ _ _).2 (select_wp fun v d₁ _ _ _ => ?_)
  unfold checked
  cases hp : resolvePair auth.userId auth.roles target (findRoleNamesByUser target v) with
  | ok p =>
    obtain ⟨hpne, hpair⟩ := resolvePair_ok hp
    exact h p d₁ (of_decide_eq_true hne) hpne hpair
  | error e =>
    refine hX _ _ ?_
    -- the one error of the pairing
    unfold resolvePair at hp
    split at hp
    · cases hp
      exact calm_validation
    · split at hp
      · cases hp
      · split at hp
        · cases hp
        · cases hp
          exact calm_validation

/-- What the statement of an INSERT comes to. -/
def Inserted (m c : Uuid) (σ : Pt Chat) : Except DbError (Uuid × Conversation) → Pt Chat → Prop
  | .ok conv, σ' =>
    conv.2.memberId = m ∧ conv.2.coachId = c ∧ (∀ k row, σ.now.get .conversations k = some row →
      row.pair ≠ pairOf m c) ∧
    σ.now.get .conversations conv.1 = none ∧ conv.2.lastMessageAt = none ∧
    σ'.db = σ.now.apply (.add .conversations conv.1 conv.2)
  | .error (.unique _), σ' =>
    σ'.db = σ.now ∧ ∃ k row, σ.now.get .conversations k = some row ∧ row.pair = pairOf m c
  | .error e, _ => ¬ LostRace (.database e)

theorem addConversation_spec {m c : Uuid} {now : Instant} (hσ : σ.db = σ.now) :
    Chats C σ (addConversation m c now) (Inserted m c σ) := by
  unfold addConversation
  split
  · exact .pure calm_check
  refine Yields.bind (Yields.claim trivial) fun taken σ₁ hl₁ ⟨h₁, v, _, hv, ht⟩ => ?_
  have hd₁ : σ₁.db = σ.db := by rw [h₁]; rfl
  cases taken with
  | true =>
    -- the pair was taken: what took it is still there
    obtain ⟨k, row, hk, hp⟩ := pairTaken_iff.1 ht.symm
    obtain ⟨row', hk', hm, hc⟩ := still hv hk
    refine .pure ⟨hd₁.trans hσ, k, row', hσ ▸ hk', ?_⟩
    rw [← hp, Conversation.pair, Conversation.pair, hm, hc]
  | false =>
    have hentry : Holds σ₁.held (.uniq (S := Chat) (.userPair (min m c) (max m c))) .update := by
      rw [h₁]; exact holds_acquire _ _ _
    have hfree : ∀ k row, σ.now.get .conversations k = some row → row.pair ≠ pairOf m c :=
      fun k row hk => by
      refine entry_free (x := pairOf m c) hv hentry (fun k r hr hp => ?_) (hσ ▸ hk)
      rw [pairTaken_iff.2 ⟨k, r, hr, hp⟩] at ht
      cases ht
    refine Yields.bind (Yields.references trivial calm_foreignKey) fun _ σ₂ hl₂ h₂ => ?_
    refine Yields.bind (Yields.references trivial calm_foreignKey) fun _ σ₃ hl₃ h₃ => ?_
    have hd₃ : σ₃.db = σ.now := by rw [h₃, h₂, ← hσ, ← hd₁]; rfl
    refine Yields.bind (Yields.insert fun n => covers_conversation (holds_acquire _ _ _)
      (((hl₂.trans hl₃).holds hentry).mono (subset_acquire _ _ _)))
        fun n σ₄ hl₄ ⟨hn, _, _, h₄⟩ => .pure ?_
    refine ⟨rfl, rfl, hfree, ?_, rfl, ?_⟩
    · rw [hl₃.now, hl₂.now, hl₁.now] at hn
      exact hn
    · rw [h₄, ← hd₃]
      rfl

/-- A statement commits if it succeeds, and leaves nothing if it does not. -/
theorem statement_wp {p : Tx (Except DbError α)} {Q : Except DbError α → Pt Chat → Prop}
    {R : Except DbError α → Pt Chat → Prop} (h : Chats C σ p R)
    (hok : ∀ a σ', σ.Later σ' → R (.ok a) σ' → C σ' ∧ ∀ d, chatRules.rel [] σ'.db d →
      Q (.ok a) (.begin σ'.db d true))
    (herr : ∀ e σ', σ.Later σ' → R (.error e) σ' → ∀ d, chatRules.rel [] σ'.now d →
      Q (.error e) (.begin σ'.now d σ'.committed))
    (hX : ∀ e σ', ¬ LostRace e → X e σ') : wp chatRules (plainly chatRules C) Q X
      (statement p) σ := by
  refine (wp_handle _ _ p σ).2 (Yields.wp h (fun r σ' hl hr => ?_) fun e σ' _ he => ⟨trivial,
    fun _ _ => hX e _ he⟩)
  cases r with
  | ok a => exact hok a σ' hl hr
  | error e => exact ⟨trivial, herr e σ' hl hr⟩

/-- **Get or create**: whoever asks gets the conversation of the pair, and no call fails
from a race. -/
theorem createConversation_wp {auth : AuthUser} {target : Uuid} {now : Instant} :
    wp chatRules (plainly chatRules (ChatReq.createConversation auth target now).Leaves)
      (fun r => (ChatReq.createConversation auth target now).Answers (.conversation r.1 r.2))
      (fun e _ => ¬ LostRace e)
      (createConversation auth target now) (.begin d d' false) := by
  refine (wp_bind _ _ _).2 (resolveMemberCoach_wp (fun p d₁ hne hpne hpair => ?_) fun e _ h => h)
  refine (wp_bind _ _ _).2 (select_wp fun v d₂ _ hv hd₂ => ?_)
  cases hr : findByUserPair p.1 p.2 v with
  | some x =>
    obtain ⟨hk, hp⟩ := findByUserPair_some hr
    obtain ⟨c, hk, hm, hc⟩ := still (chatRules.trans hv hd₂) hk
    exact ⟨hne, hp.trans hpair, c, hk, hm, hc⟩
  | none =>
    refine (wp_bind _ _ _).2 (statement_wp (addConversation_spec rfl) ?_ ?_ fun e σ' he => he)
    · rintro conv σ' hl ⟨hm, hc, hfree, hnew, hlast, hdb⟩
      have hp : conv.2.pair = pairOf auth.userId target := by rw [Conversation.pair, hm, hc, hpair]
      refine ⟨⟨fun k row hk => hpair ▸ hfree k row (hl.now ▸ hk), conv.1, conv.2, hl.now ▸ hnew, ?_,
        hp, hlast, hl.now ▸ hdb⟩,
        fun d₃ hd₃ => ?_⟩
      · rw [hm, hc]
        exact hpne
      · have hk : σ'.db.get .conversations conv.1 = some conv.2 := by
          rw [hdb, Store.get_add, if_pos rfl, hnew]
          rfl
        obtain ⟨c, hk', hm', hc'⟩ := still hd₃ hk
        exact ⟨hne, hp, c, hk', hm', hc'⟩
    · intro e σ' hl he d₃ hd₃
      cases e with
      | unique cname =>
        obtain ⟨-, k, row, hk, hp⟩ := he
        -- the winner's row is there to be found
        refine (wp_bind _ _ _).2 (select_wp fun v d₄ hs hv hd₄ => ?_)
        obtain ⟨row', hk', hm', hc'⟩ := still hs (hl.now ▸ hk)
        obtain ⟨x, hx⟩ := findByUserPair_isSome (a := p.1) (b := p.2) hk'
          (by rw [← hp, Conversation.pair, Conversation.pair, hm', hc'])
        obtain ⟨hxk, hxp⟩ := findByUserPair_some hx
        obtain ⟨c, hc, hcm, hcc⟩ := still (chatRules.trans hv hd₄) hxk
        rw [hx]
        exact ⟨hne, hxp.trans hpair, c, hc, hcm, hcc⟩
      | _ => exact he

/-! ## Messages -/

/-- Whoever passes writes to a conversation that is there when his transaction starts. -/
theorem authorizeParticipant_wp {auth : AuthUser} {conv : Uuid} {Q : Conversation → Pt Chat → Prop}
    (h : ∀ r c d₁, d'.get .conversations conv = some c → chatRules.rel [] d' d₁ →
      Q r (.begin d' d₁ false))
    (hX : ∀ e σ, ¬ LostRace e → X e σ) :
    wp chatRules (plainly chatRules C) Q X (authorizeParticipant auth conv)
    (.begin d d' false) := by
  refine (wp_bind _ _ _).2 (select_wp fun v d₁ _ hv hd₁ => ?_)
  refine (wp_bind _ _ _).2 (wp_orFail (fun r hr => ?_) fun _ => hX _ _ calm_notFound)
  refine (wp_bind _ _ _).2 (wp_ensure (fun _ => ?_) fun _ => hX _ _ calm_forbidden)
  obtain ⟨c, hc, -⟩ := still hv hr
  exact h r c d₁ hc hd₁

theorem insertMessageTx_spec {conv sender : Uuid} {body : String} {now : Instant} :
    Chats C σ (insertMessageTx conv sender body now) fun r σ' => σ.now.get .messages r.1 = none ∧
    r.2.conversationId = conv ∧
      r.2.createdAt = now ∧ σ'.db = σ.db.apply (.add .messages r.1 r.2) := by
  refine Yields.bind (R := fun _ σ' => σ' = σ) (.ensure (fun _ => rfl) calm_check)
    fun _ σ₁ _ h₁ => ?_
  subst h₁
  refine Yields.bind (Yields.references trivial calm_foreignKey) fun _ σ₂ hl₂ h₂ => ?_
  refine Yields.bind (Yields.references trivial calm_foreignKey) fun _ σ₃ hl₃ h₃ => ?_
  refine Yields.bind (Yields.insert fun n => covers_other (holds_acquire _ _ _)
    (by simp [Write.tbl])) fun n σ₄ _ ⟨hn, _, _, h₄⟩ =>
    .pure ⟨?_, rfl, rfl, ?_⟩
  · rw [hl₃.now, hl₂.now] at hn
    exact hn
  · rw [h₄, h₃, h₂]
    rfl

/-- The conversation that a message is written to is there, so that it is touched. -/
theorem touchLastMessageAtTx_spec {conv : Uuid} {now : Instant} {c c' : Conversation}
    (hc : σ.start.get .conversations conv = some c)
    (hc' : σ.db.get .conversations conv = some c') :
    Chats C σ (touchLastMessageAtTx conv now) fun _ σ' =>
      σ'.db = σ.db.apply (.mod .conversations conv (onlyIf (fun _ => true)
        (Conversation.touch now))) := by
  have hsome : ∀ {e : Db} {r : Conversation}, e.get .conversations conv = some r →
      (e.get .conversations conv).filter (fun _ => true) = none → False := fun hr hf => by
    rw [hr] at hf
    cases hf
  refine Yields.bind (R := fun _ σ' => σ'.db = σ.db.apply
    (.mod .conversations conv (onlyIf (fun _ => true) (Conversation.touch now))))
    ?_ fun _ _ _ h => .pure h
  refine wp_updateRow (fun _ _ _ _ _ _ _ => trivial) (fun v hs hv hf => ?_)
    (fun hf => ?_) fun r hr _ =>
    ⟨covers_touch (holds_acquire _ _ _), (σ.later_grant _ _).trans (Pt.later_write _ _), rfl⟩
  · obtain ⟨r, hr, -⟩ := still hs hc
    exact (hsome hr hf).elim
  · exact (hsome hc' hf).elim

theorem sendMessage_wp {auth : AuthUser} {conv : Uuid} {body : String} {now : Instant} :
    wp chatRules (plainly chatRules (ChatReq.sendMessage auth conv body now).Leaves)
    (fun _ _ => True) (fun e _ => ¬ LostRace e)
      (sendMessage auth conv body now) (.begin d d' false) := by
  refine (wp_bind _ _ _).2 (authorizeParticipant_wp (fun _ c d₁ hc hd => ?_) fun e _ h => h)
  obtain ⟨c', hc', -⟩ := still hd hc
  refine (wp_atomically _ _).2 (Yields.wp (R := fun _ σ' => Sent conv now σ'.now σ'.db)
    (F := fun e => ¬ LostRace e) ?_
    (fun _ σ' _ h => ⟨h, fun _ _ => trivial⟩) fun e _ _ h => ⟨trivial, fun _ _ => h⟩)
  refine Yields.bind insertMessageTx_spec fun r σ₁ hl₁ ⟨hnew, hconv, hnow, hdb⟩ => ?_
  have hthere : σ₁.db.get .conversations conv = some c' := by
    rw [hdb, Store.get_apply_other _ (by simp [Write.tbl])]
    exact hc'
  refine Yields.bind (touchLastMessageAtTx_spec
    ((congrArg (·.get .conversations conv) hl₁.start).trans hc) hthere)
    fun _ σ₂ hl₂ h₂ => .pure ?_
  have hn : σ₂.now = d₁ := hl₂.now.trans hl₁.now
  refine ⟨⟨c', by rw [hn]; exact hc'⟩, r.1, r.2, by rw [hn]; exact hnew, hconv, hnow, ?_⟩
  rw [h₂, hdb, hn]
  rfl

theorem markRead_wp {auth : AuthUser} {conv : Uuid} {now : Instant} :
    wp chatRules (plainly chatRules (ChatReq.markRead auth conv now).Leaves) (fun _ _ => True)
    (fun e _ => ¬ LostRace e)
      (markRead auth conv now) (.begin d d' false) := by
  refine (wp_bind _ _ _).2 (authorizeParticipant_wp (fun _ c d₁ hc hd => ?_) fun e _ h => h)
  refine (wp_atomically _ _).2 (Yields.wp
    (R := fun _ σ' => ∃ p, Edited (S := Chat) .messages p (Message.read now) σ'.now σ'.db)
      (F := fun e => ¬ LostRace e) ?_
    (fun _ σ' _ h => ⟨h, fun _ _ => trivial⟩) fun e _ _ h => ⟨trivial, fun _ _ => h⟩)
  refine Yields.bind (Yields.updateAll (fun _ _ => trivial) fun σ' k _ hh => covers_other hh
    (by simp [Write.tbl])) ?_
  rintro rows σ₁ hl₁ ⟨he, -⟩
  exact .pure ⟨_, by rw [hl₁.now]; exact he⟩

theorem assignRole_wp {userId : Uuid} {role : Role} :
    wp chatRules (plainly chatRules (ChatReq.assignRole userId role).Leaves) (fun _ _ => True)
    (fun e _ => ¬ LostRace e)
      (assignRole userId role) (.begin d d' false) := by
  refine (wp_atomically _ _).2 (Yields.wp (R := fun _ σ' => Only (S := Chat)
    [.userRoles] σ'.now σ'.db)
    (F := fun e => ¬ LostRace e) ?_ (fun _ σ' _ h => ⟨h, fun _ _ => trivial⟩) fun e _ _ h =>
      ⟨trivial, fun _ _ => h⟩)
  refine Yields.bind (Yields.references trivial calm_foreignKey) fun _ σ₁ hl₁ h₁ => ?_
  refine Yields.bind (Yields.lockRes trivial) fun _ σ₂ hl₂ h₂ => ?_
  have hh : Holds σ₂.held (.row (S := Chat) (t := ChatTbl.userRoles)
    (userId, role.asStr)) .update := h₂ ▸ holds_acquire _ _ _
  refine (Yields.put (covers_other (hh.weaken (by decide)) (by simp [Write.tbl]))).imp
    (fun _ σ₃ hl₃ h₃ => ?_) fun _ h => h
  have hn : σ₃.now = σ₂.db := by rw [hl₃.now, hl₂.now, hl₁.now, h₂, h₁]; rfl
  rw [hn, h₃]
  exact Only.write (S := Chat) (w := .add .userRoles (userId, role.asStr) ()) _
    (List.mem_singleton.2 rfl)

/-! ## The contract -/

/-- What is shown of every request. -/
def chatContract : Contract chat chatRules where
  oblig q := plainly chatRules q.Leaves
  post q _ a σ := q.Answers a σ
  err _ _ e _ := ¬ LostRace e
  covers _ _ _ h := h
  crash _ _ _ := by rintro (⟨c, h⟩ | ⟨m, h⟩) <;> cases h
  meets q d d' _ := by
    cases q with
    | createConversation auth userId now => exact (wp_bind _ _ _).2 createConversation_wp
    | sendMessage auth conv body now =>
      exact (wp_bind _ _ _).2 (wp_mono (fun _ _ _ => trivial) (fun _ _ h => h) _ _ sendMessage_wp)
    | markRead auth conv now =>
      exact (wp_bind _ _ _).2 (wp_mono (fun _ _ _ => trivial) (fun _ _ h => h) _ _ markRead_wp)
    | assignRole userId role =>
      exact (wp_bind _ _ _).2 (wp_mono (fun _ _ _ => trivial) (fun _ _ h => h) _ _ assignRole_wp)

end DreamFly.Messages
