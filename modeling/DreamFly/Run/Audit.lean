import DreamFly.Kafka.Consumer
import Mathlib.Data.List.TakeWhile

/-!
# What consumers commit and record

* `run_inOrder`: whatever the broker, the handler and the shutdown signal do, a consumer
  commits its messages one by one in the order of their delivery, and each of them settled.
* `pool_records`: an event that was ever handled successfully has one row in `audit_log`.

The induction for the first is on the rounds of the loop; a round that goes on to the next
one is a delivery, what was done about it and its commit (`InOrder.round`).
-/

namespace DreamFly.Kafka

open Conc Code

/-! ## What a consumer has done -/

section
variable {H : Handler}

abbrev Deeds (H : Handler) := List (Deed (broker H))

def deliveredOf (l : Deeds H) : List SourceMessage :=
  l.filterMap fun
    | ⟨.select, .next msg⟩ => msg
    | _ => none

def commitsOf (l : Deeds H) : List TopicPartition :=
  l.filterMap fun
    | ⟨.commit tp, _⟩ => some tp
    | _ => none

def selects : Deed (broker H) → Bool
  | ⟨.select, _⟩ => true
  | _ => false

/-- What was done before the loop pulled another message. -/
def own (l : Deeds H) : Deeds H := l.takeWhile fun d => !selects d

/-- The attempts at `payload` that failed transiently. -/
def failuresOf (payload : String) (l : Deeds H) : ℕ :=
  l.countP fun
    | ⟨.handle p, .error (.transient _)⟩ => p = payload
    | _ => false

/-- A delivery. -/
abbrev pulled (msg : SourceMessage) : Deed (broker H) := ⟨.select, .next (some msg)⟩

/-- Shutdown during a backoff. -/
abbrev stopped (secs : ℕ) : Deed (broker H) := ⟨.backoff secs, true⟩

/-- After `l` a message need not be seen again: it cannot be decoded, was handled, was refused,
or has failed as often as it may. -/
inductive Settled (msg : SourceMessage) (l : Deeds H) : Prop
  | undecodable (h : msg.text = none)
  | handled (payload : String) (h : msg.text = some payload) (hl : ⟨.handle payload, .ok ()⟩ ∈ l)
  | refused (payload reason : String) (h : msg.text = some payload)
  (hl : ⟨.handle payload, .error (.poison reason)⟩ ∈ l)
  | failed (payload : String) (h : msg.text = some payload)
  (hl : failuresOf payload l = maxAttempts)

/-- Commits follow the deliveries, and never leave one behind that is not settled. -/
structure InOrder (l : Deeds H) : Prop where
  commits : commitsOf l <+: (deliveredOf l).map SourceMessage.next
  own : ∀ a msg b tp x, l = a ++ pulled msg :: b → ⟨.commit tp, x⟩ ∈ Kafka.own b → tp = msg.next
  interrupted : ∀ a msg b secs, l = a ++ pulled msg :: b → stopped secs ∈ Kafka.own b →
    commitsOf b = []
  settled : ∀ a msg b tp x c, l = a ++ pulled msg :: b ++ ⟨.commit tp, x⟩ :: c →
    Settled msg (Kafka.own b)

variable {l seg rest a b : Deeds H} {msg : SourceMessage} {tp : TopicPartition} {payload : String}

/-! ## Lists with one delivery at their head -/

/-- Nothing of a stretch of the loop between a delivery and the commit. -/
def Between (l : Deeds H) : Prop := ∀ d ∈ l, selects d = false ∧ commitsOf [d] = []

theorem Between.deliveredOf (h : Between l) : deliveredOf l = [] := by
  rw [Kafka.deliveredOf, List.filterMap_eq_nil_iff]
  rintro ⟨c, x⟩ hd
  have hsel := (h _ hd).1
  cases c with
  | select => cases hsel
  | _ => rfl

theorem Between.commitsOf (h : Between l) : commitsOf l = [] := by
  rw [Kafka.commitsOf, List.filterMap_eq_nil_iff]
  rintro ⟨c, x⟩ hd
  have hcom := (h _ hd).2
  cases c with
  | commit => cases hcom
  | _ => rfl

theorem Between.own (h : Between l) : own l = l := List.takeWhile_eq_self_iff.2 fun d hd => by
    rw [(h d hd).1]; rfl

theorem Between.not_pulled (h : Between l) : pulled msg ∉ l := fun hm => by cases (h _ hm).1

theorem Between.not_commit (h : Between l) {x : Except Unit Unit} :
    (⟨.commit tp, x⟩ : Deed (broker H)) ∉ l := fun hm => by
  cases (h _ hm).2

theorem Between.left (h : Between (a ++ b)) : Between a :=
    fun d hd => h d (List.mem_append_left b hd)

theorem own_append (h : Between seg) : own (seg ++ rest) = seg ++ own rest :=
  List.takeWhile_append_of_pos fun d hd => by rw [(h d hd).1]; rfl

/-- The place of an element that is not in the first part. -/
theorem split_skip {α : Type} {seg rest a b : List α} {x : α} (hx : x ∉ seg)
    (h : seg ++ rest = a ++ x :: b) :
    ∃ a', a = seg ++ a' ∧ rest = a' ++ x :: b := by
  induction seg generalizing a with
  | nil => exact ⟨a, rfl, h⟩
  | cons y seg ih =>
    simp only [List.mem_cons, not_or] at hx
    cases a with
    | nil => exact absurd (List.cons.inj h).1.symm hx.1
    | cons z a =>
      obtain ⟨rfl, htail⟩ := List.cons.inj h
      obtain ⟨a', rfl, hrest⟩ := ih hx.2 htail
      exact ⟨a', rfl, hrest⟩

theorem Settled.mono (h : Settled msg seg) (hf : ∀ p, failuresOf p rest = 0) :
    Settled msg (seg ++ rest) := by
  cases h with
  | undecodable h => exact .undecodable h
  | handled p h hl => exact .handled p h (List.mem_append_left _ hl)
  | refused p e h hl => exact .refused p e h (List.mem_append_left _ hl)
  | failed p h hl =>
    refine .failed p h ?_
    have happ : failuresOf p (seg ++ rest) = failuresOf p seg + failuresOf p rest :=
      List.countP_append
    rw [happ, hf p, hl, Nat.add_zero]

/-! ## A message -/

/-- What follows a transient failure. -/
def again (payload : String) : ℕ → Io H Resolution
  | 0 => return .commit
  | left + 1 => do
    let stop ← exec (M := broker H) (.backoff (1 <<< (maxAttempts - (left + 1) - 1)))
    if stop then return .shutdown else attempts payload left

theorem attempts_eq (payload : String) (left : ℕ) : (attempts payload left : Io H Resolution) =
    exec (M := broker H) (.handle payload) >>= fun r =>
      match r with
      | .ok () => return .commit
      | .error (.poison _) => return .commit
      | .error (.transient _) => again payload left := by
  unfold attempts again
  cases left <;> rfl

/-- Nothing but handler calls and backoffs so far; and where they lead to the commit, no shutdown
came and the payload was handled, refused, or failed `n` times. -/
def Tried (payload : String) (n : ℕ) (l : Deeds H) (r : Io H Resolution) : Prop :=
  Between l ∧ (r = .ret .commit → (∀ secs, stopped secs ∉ l) ∧
    (⟨.handle payload, .ok ()⟩ ∈ l ∨ (∃ reason, ⟨.handle payload, .error (.poison reason)⟩ ∈ l) ∨
      failuresOf payload l = n))

theorem Tried.nil {n : ℕ} {c : Cmd} {k : c.Reply → Io H Resolution} :
    Tried payload n ([] : Deeds H) (.call (M := broker H) c k) := ⟨nofun, nofun⟩

/-- One attempt. -/
theorem attempt_tried {n left : ℕ} {r : Io H Resolution} (h : (attempts payload left).Trail l r)
    (hk : ∀ l', (again payload left).Trail l' r → Tried payload n l' r) :
    Tried payload (n + 1) l r := by
  rw [attempts_eq] at h
  rcases Trail.of_exec h with ⟨rfl, k', rfl⟩ | ⟨x, l', rfl, h'⟩
  · exact .nil
  -- done, given up, or tried once more
  match x, h' with
  | .ok (), h' =>
    obtain ⟨rfl, rfl⟩ := Trail.of_ret h'
    refine ⟨List.forall_mem_singleton.2 ⟨rfl, rfl⟩,
      fun _ => ⟨fun secs => ?_, .inl List.mem_cons_self⟩⟩
    exact List.not_mem_cons_of_ne_of_not_mem nofun List.not_mem_nil
  | .error (.poison reason), h' =>
    obtain ⟨rfl, rfl⟩ := Trail.of_ret h'
    refine ⟨List.forall_mem_singleton.2 ⟨rfl, rfl⟩, fun _ =>
      ⟨fun secs => ?_, .inr (.inl ⟨reason, List.mem_cons_self⟩)⟩⟩
    exact List.not_mem_cons_of_ne_of_not_mem nofun List.not_mem_nil
  | .error (.transient reason), h' =>
    obtain ⟨hb, hr⟩ := hk l' h'
    refine ⟨List.forall_mem_cons.2 ⟨⟨rfl, rfl⟩, hb⟩, fun hc => ?_⟩
    obtain ⟨hstop, hdone⟩ := hr hc
    refine ⟨fun secs => List.not_mem_cons_of_ne_of_not_mem nofun (hstop secs), ?_⟩
    rcases hdone with hok | ⟨e, he⟩ | hn
    · exact .inl (List.mem_cons_of_mem _ hok)
    · exact .inr (.inl ⟨e, List.mem_cons_of_mem _ he⟩)
    · refine .inr (.inr ?_)
      rw [← hn]
      exact List.countP_cons_of_pos (decide_eq_true rfl)

/-- **The retry loop.** -/
theorem attempts_tried {left : ℕ} {r : Io H Resolution} (h : (attempts payload left).Trail l r) :
    Tried payload (left + 1) l r := by
  induction left generalizing l with
  | zero =>
    refine attempt_tried h fun l' h' => ?_
    obtain ⟨rfl, rfl⟩ := Trail.of_ret h'
    exact ⟨nofun, fun _ => ⟨fun _ => List.not_mem_nil, .inr (.inr rfl)⟩⟩
  | succ left ih =>
    refine attempt_tried h fun l' h' => ?_
    rcases Trail.of_exec h' with ⟨rfl, k, rfl⟩ | ⟨stop, l'', rfl, h''⟩
    · exact .nil
    cases stop with
    | true =>
      obtain ⟨rfl, rfl⟩ := Trail.of_ret h''
      exact ⟨List.forall_mem_singleton.2 ⟨rfl, rfl⟩, nofun⟩
    | false =>
      obtain ⟨hb, hr⟩ := ih h''
      refine ⟨List.forall_mem_cons.2 ⟨⟨rfl, rfl⟩, hb⟩, fun hc => ?_⟩
      obtain ⟨hstop, hdone⟩ := hr hc
      refine ⟨fun secs => List.not_mem_cons_of_ne_of_not_mem (fun heq => by cases heq)
        (hstop secs), ?_⟩
      rcases hdone with hok | ⟨e, he⟩ | hn
      · exact .inl (List.mem_cons_of_mem _ hok)
      · exact .inr (.inl ⟨e, List.mem_cons_of_mem _ he⟩)
      · exact .inr (.inr (by rw [← hn]; rfl))

/-- A message that is to be committed is settled. -/
theorem resolve_trail {r : Io H Resolution} (h : (resolve msg).Trail l r) :
    Between l ∧ (r = .ret .commit → (∀ secs, stopped secs ∉ l) ∧ Settled msg l) := by
  unfold resolve at h
  split at h
  · next payload hp =>
    obtain ⟨hb, hr⟩ := attempts_tried h
    refine ⟨hb, fun hc => ?_⟩
    obtain ⟨hstop, hok | ⟨e, he⟩ | hn⟩ := hr hc
    · exact ⟨hstop, .handled payload hp hok⟩
    · exact ⟨hstop, .refused payload e hp he⟩
    · exact ⟨hstop, .failed payload hp hn⟩
  · next hp =>
    obtain ⟨rfl, rfl⟩ := Trail.of_ret h
    exact ⟨nofun, fun _ => ⟨fun _ => List.not_mem_nil, .undecodable hp⟩⟩

/-! ## The loop -/

theorem InOrder.nil : InOrder ([] : Deeds H) where
  commits := List.prefix_rfl
  own a msg b tp x h := by simp at h
  interrupted a msg b secs h := by simp at h
  settled a msg b tp x c h := by simp at h

/-- The loop wakes up to something that is no message. -/
theorem InOrder.wake {w : Arrival} (h : InOrder l) (hw : ∀ msg, w ≠ .next (some msg)) :
    InOrder (⟨.select, w⟩ :: l) := by
  have hne : ∀ msg, (⟨.select, w⟩ : Deed (broker H)) ≠ pulled msg :=
    fun msg heq => hw msg (by cases heq; rfl)
  have hdel : deliveredOf (⟨.select, w⟩ :: l) = deliveredOf l := by
    match w, hw with
    | .changed _, _ => rfl
    | .next none, _ => rfl
    | .next (some msg), hw => exact absurd rfl (hw msg)
  have hsplit : ∀ {a msg b}, ⟨.select, w⟩ :: l = a ++ pulled msg :: b →
      ∃ a', l = a' ++ pulled msg :: b := by
    intro a msg b heq
    have hnot : pulled msg ∉ ([⟨.select, w⟩] : Deeds H) :=
      fun hm => hne msg (List.mem_singleton.1 hm).symm
    obtain ⟨a', -, hl⟩ := split_skip hnot heq
    exact ⟨a', hl⟩
  refine ⟨by rw [hdel]; exact h.commits, fun a msg b tp x heq => ?_, fun a msg b secs heq => ?_,
    fun a msg b tp x c heq => ?_⟩
  · obtain ⟨a', hl⟩ := hsplit heq
    exact h.own a' msg b tp x hl
  · obtain ⟨a', hl⟩ := hsplit heq
    exact h.interrupted a' msg b secs hl
  · rw [List.append_assoc, List.cons_append] at heq
    obtain ⟨a', hl⟩ := hsplit heq
    exact h.settled a' msg b tp x c (by rw [hl, List.append_assoc, List.cons_append])

/-- A message that is not resolved yet, or was given back. -/
theorem InOrder.unresolved (hb : Between seg) : InOrder (pulled msg :: seg) := by
  have hsplit : ∀ {a msg' b}, pulled msg :: seg = a ++ pulled msg' :: b → b = seg := by
    intro a msg' b heq
    cases a with
    | nil => exact (List.cons.inj heq).2.symm
    | cons d a =>
      have hm : pulled msg' ∈ seg := by
        rw [(List.cons.inj heq).2]
        exact List.mem_append_right _ List.mem_cons_self
      exact absurd hm hb.not_pulled
  have hcom : commitsOf (pulled msg :: seg) = [] := hb.commitsOf
  refine ⟨by rw [hcom]; exact List.nil_prefix, fun a msg' b tp x heq hc => ?_,
    fun a msg' b secs heq _ => ?_,
    fun a msg' b tp x c heq => ?_⟩
  · rw [hsplit heq, hb.own] at hc
    exact absurd hc hb.not_commit
  · rw [hsplit heq]
    exact hb.commitsOf
  · rw [List.append_assoc, List.cons_append] at heq
    have hm : (⟨.commit tp, x⟩ : Deed (broker H)) ∈ seg := by
      rw [← hsplit heq]
      exact List.mem_append_right _ List.mem_cons_self
    exact absurd hm hb.not_commit

section round
variable {x : Except Unit Unit}

/-- The deliveries of a round and what follows it. -/
theorem round_split {msg' : SourceMessage} (hb : Between seg)
    (h : pulled msg :: (seg ++ ⟨.commit msg.next, x⟩ :: rest) = a ++ pulled msg' :: b) :
    (msg' = msg ∧ b = seg ++ ⟨.commit msg.next, x⟩ :: rest) ∨
    ∃ a', rest = a' ++ pulled msg' :: b := by
  cases a with
  | nil =>
    obtain ⟨hmsg, hb'⟩ := List.cons.inj h
    cases hmsg
    exact .inl ⟨rfl, hb'.symm⟩
  | cons d a =>
    have hnot : pulled msg' ∉ seg ++ [⟨.commit msg.next, x⟩] := fun hm => by
      rcases List.mem_append.1 hm with hm | hm
      · exact hb.not_pulled hm
      · cases List.mem_singleton.1 hm
    have htail := (List.cons.inj h).2
    rw [List.append_cons] at htail
    obtain ⟨a', -, hr⟩ := split_skip hnot htail
    exact .inr ⟨a', hr⟩

theorem round_commits (hb : Between seg) :
    commitsOf (pulled msg :: (seg ++ ⟨.commit msg.next, x⟩ :: rest)) = msg.next ::
    commitsOf rest := by
  have happ : commitsOf (seg ++ ⟨.commit msg.next, x⟩ :: rest) = commitsOf seg ++ msg.next ::
      commitsOf rest :=
    List.filterMap_append
  rw [hb.commitsOf] at happ
  exact happ

theorem round_delivered (hb : Between seg) :
    deliveredOf (pulled msg :: (seg ++ ⟨.commit msg.next, x⟩ :: rest)) =
    msg :: deliveredOf rest := by
  have happ : deliveredOf (seg ++ ⟨.commit msg.next, x⟩ :: rest) = deliveredOf seg ++
      deliveredOf rest :=
    List.filterMap_append
  rw [hb.deliveredOf] at happ
  exact congrArg (msg :: ·) happ

theorem round_own (hb : Between seg) (hown : own rest = []) :
    own (seg ++ ⟨.commit msg.next, x⟩ :: rest) = seg ++ [⟨.commit msg.next, x⟩] := by
  rw [own_append hb]
  unfold own at hown ⊢
  rw [List.takeWhile_cons_of_pos rfl, hown]

theorem own_left (h : own (a ++ b) = []) : own a = [] := by
  cases a with
  | nil => rfl
  | cons d a =>
    unfold own at h ⊢
    rw [List.cons_append, List.takeWhile_cons] at h
    rw [List.takeWhile_cons]
    split at h
    · cases h
    · next hd => rw [if_neg hd]

/-- At a commit in the round or after it, the round's message is settled. -/
theorem round_settled {c : Deeds H} {y : Except Unit Unit} (hb : Between seg)
    (hset : Settled msg seg) (hown : own rest = [])
    (h : seg ++ ⟨.commit msg.next, x⟩ :: rest = b ++ ⟨.commit tp, y⟩ :: c) :
    Settled msg (own b) := by
  obtain ⟨b', rfl, htail⟩ := split_skip hb.not_commit h
  rw [own_append hb]
  cases b' with
  | nil => exact hset.mono fun _ => rfl
  | cons d b' =>
    obtain ⟨rfl, rfl⟩ := List.cons.inj htail
    have hnil : own b' = [] := own_left hown
    have hsingle : own (⟨.commit msg.next, x⟩ :: b') = [⟨.commit msg.next, x⟩] := by
      unfold own at hnil ⊢
      rw [List.takeWhile_cons_of_pos rfl, hnil]
    rw [hsingle]
    exact hset.mono fun _ => rfl

/-- **A round of the loop**: a delivery, what settles it, its commit. -/
theorem InOrder.round (hb : Between seg) (hstop : ∀ secs, stopped secs ∉ seg)
    (hset : Settled msg seg)
    (hrest : InOrder rest) (hown : Kafka.own rest = []) :
    InOrder (pulled msg :: (seg ++ ⟨.commit msg.next, x⟩ :: rest)) := by
  refine ⟨?_, fun a msg' b tp y heq hc => ?_, fun a msg' b secs heq hs => ?_,
    fun a msg' b tp y c heq => ?_⟩
  · rw [round_commits hb, round_delivered hb]
    exact List.cons_prefix_cons.2 ⟨rfl, hrest.commits⟩
  · rcases round_split hb heq with ⟨rfl, rfl⟩ | ⟨a', hr⟩
    · rw [round_own hb hown] at hc
      rcases List.mem_append.1 hc with hc | hc
      · exact absurd hc hb.not_commit
      · cases List.mem_singleton.1 hc
        rfl
    · exact hrest.own a' msg' b tp y hr hc
  · rcases round_split hb heq with ⟨rfl, rfl⟩ | ⟨a', hr⟩
    · rw [round_own hb hown] at hs
      rcases List.mem_append.1 hs with hs | hs
      · exact absurd hs (hstop secs)
      · cases List.mem_singleton.1 hs
    · exact hrest.interrupted a' msg' b secs hr hs
  · rw [List.append_assoc, List.cons_append] at heq
    rcases round_split hb heq with ⟨rfl, hb'⟩ | ⟨a', hr⟩
    · exact round_settled hb hset hown hb'.symm
    · exact hrest.settled a' msg' b tp y c (by rw [hr, List.append_assoc, List.cons_append])

end round

/-- The loop begins each round with a select. -/
theorem run_own {n : ℕ} {r : Io H Unit} (h : (run n).Trail l r) : own l = [] := by
  cases n with
  | zero =>
    obtain ⟨rfl, -⟩ := Trail.of_ret h
    rfl
  | succ n =>
    unfold run at h
    rcases Trail.of_exec h with ⟨rfl, -⟩ | ⟨w, l', rfl, -⟩
    · rfl
    · rfl

/-- **The loop**, whatever its commands answer. -/
theorem run_inOrder {n : ℕ} {r : Io H Unit} (h : (run n).Trail l r) : InOrder l := by
  induction n generalizing l with
  | zero =>
    obtain ⟨rfl, -⟩ := Trail.of_ret h
    exact .nil
  | succ n ih =>
    -- one round handles one message; the rest of the trail is that of the next rounds
    unfold run at h
    rcases Trail.of_exec h with ⟨rfl, -⟩ | ⟨w, l', rfl, h'⟩
    · exact .nil
    match w, h' with
    | .changed true, h' =>
      obtain ⟨rfl, -⟩ := Trail.of_ret h'
      exact .wake .nil nofun
    | .changed false, h' => exact (ih h').wake nofun
    | .next none, h' =>
      obtain ⟨rfl, -⟩ := Trail.of_ret h'
      exact .wake .nil nofun
    | .next (some msg), h' =>
      rcases Trail.of_bind h' with ⟨p, hp, -⟩ | ⟨res, l₁, l₂, rfl, h1, h2⟩
      · exact .unresolved (resolve_trail hp).1
      obtain ⟨hb, hr⟩ := resolve_trail h1
      cases res with
      | shutdown =>
        obtain ⟨rfl, -⟩ := Trail.of_ret h2
        rw [List.append_nil]
        exact .unresolved hb
      | commit =>
        obtain ⟨hstop, hset⟩ := hr rfl
        rcases Trail.of_exec h2 with ⟨rfl, -⟩ | ⟨x, l₃, rfl, h3⟩
        · rw [List.append_nil]
          exact .unresolved hb
        · exact .round hb hstop hset (ih h3) (run_own h3)

end

/-! ## The rows of the log -/

section
variable {L : AuditLib} {log : AuditLog} {row r : AuditRow} {payload : String} {id : Uuid} {n : ℕ}

/-- The primary key. -/
def UniqueIds (log : AuditLog) : Prop := (log.map AuditRow.id).Nodup

theorem UniqueIds.one (h : UniqueIds log) (hr : r ∈ log) :
    (log.filter fun r' => r'.id = r.id).length = 1 := by
  have hcount : (log.map AuditRow.id).count r.id = 1 :=
    List.count_eq_one_of_mem h (List.mem_map_of_mem hr)
  rw [List.count_eq_countP, List.countP_map] at hcount
  rw [← List.countP_eq_length_filter, ← hcount]
  exact List.countP_congr fun r' _ => by simp

theorem AuditLog.mem_insert (h : r ∈ log) : r ∈ log.insert row := by
  unfold AuditLog.insert
  split
  · exact h
  · exact List.mem_append_left _ h

theorem AuditLog.insert_has (log : AuditLog) (row : AuditRow) :
    ∃ r ∈ log.insert row, r.id = row.id := by
  unfold AuditLog.insert
  split
  · next h =>
    obtain ⟨r, hr, hid⟩ := List.any_eq_true.1 h
    exact ⟨r, hr, of_decide_eq_true hid⟩
  · exact ⟨row, List.mem_append_right _ List.mem_cons_self, rfl⟩

theorem UniqueIds.insert (h : UniqueIds log) : UniqueIds (log.insert row) := by
  unfold AuditLog.insert
  split
  · exact h
  · next hnew =>
    unfold UniqueIds
    rw [List.map_append, List.nodup_append]
    refine ⟨h, List.nodup_singleton _, ?_⟩
    rintro _ ha _ hb rfl
    obtain ⟨r, hr, hid⟩ := List.mem_map.1 ha
    rw [List.mem_singleton.1 hb] at hid
    exact hnew (List.any_eq_true.2 ⟨r, hr, decide_eq_true hid⟩)

theorem insertRow_cases (row : AuditRow) (n : ℕ) (log : AuditLog) :
    insertRow row n log = (.ok (), log.insert row) ∨
      ∃ e, insertRow row n log = (.error e, log) ∨
        insertRow row n log = (.error e, log.insert row) := by
  unfold insertRow
  split
  · exact .inl rfl
  · exact .inr ⟨_, .inl rfl⟩
  · exact .inr ⟨_, .inl rfl⟩
  · exact .inr ⟨_, .inr rfl⟩

/-- **What the handler does**: it inserts the event's row, or fails, and then the row may be there
or not. -/
theorem handle_cases (payload : String) (n : ℕ) (log : AuditLog) :
    (∃ row, auditRow L payload (n / 4) = .ok row ∧
      handleAuditEvent L payload n log = (.ok (), log.insert row)) ∨
      ∃ e log', handleAuditEvent L payload n log = (.error e, log') ∧
        (log' = log ∨ ∃ row, log' = log.insert row) := by
  unfold handleAuditEvent
  split
  · exact .inr ⟨_, _, rfl, .inl rfl⟩
  · next row hrow =>
    rcases insertRow_cases row n log with h | ⟨e, h | h⟩
    · rw [h]
      exact .inl ⟨row, hrow, rfl⟩
    · rw [h]
      exact .inr ⟨_, _, rfl, .inl rfl⟩
    · rw [h]
      exact .inr ⟨_, _, rfl, .inr ⟨row, rfl⟩⟩

/-- A row is under the id of its envelope. -/
theorem auditRow_id (h : auditRow L payload n = .ok row) (hid : payloadId L payload = some id) :
    row.id = id := by
  obtain ⟨event, hparse, h⟩ := bind_eq_ok h
  obtain ⟨action, -, h⟩ := bind_eq_ok h
  cases h
  unfold payloadId at hid
  split at hid
  · rename_i event' hparse'
    rw [hparse'] at hparse
    cases hparse
    change (eventId L event).getD n = id
    rw [hid]
    rfl
  · cases hid

theorem handle_unique (h : UniqueIds log) : UniqueIds (handleAuditEvent L payload n log).2 := by
  rcases handle_cases (L := L) payload n log with ⟨row, -, heq⟩ | ⟨e, log', heq, rfl | ⟨row, rfl⟩⟩
  · rw [heq]
    exact h.insert
  · rw [heq]
    exact h
  · rw [heq]
    exact h.insert

theorem handle_keeps (h : r ∈ log) : r ∈ (handleAuditEvent L payload n log).2 := by
  rcases handle_cases (L := L) payload n log with ⟨row, -, heq⟩ | ⟨e, log', heq, rfl | ⟨row, rfl⟩⟩
  · rw [heq]
    exact AuditLog.mem_insert h
  · rw [heq]
    exact h
  · rw [heq]
    exact AuditLog.mem_insert h

theorem handle_records (hok : (handleAuditEvent L payload n log).1 = .ok ())
    (hid : payloadId L payload = some id) :
    ∃ r ∈ (handleAuditEvent L payload n log).2, r.id = id := by
  rcases handle_cases (L := L) payload n log with ⟨row, hrow, heq⟩ | ⟨e, log', heq, -⟩
  · rw [heq, ← auditRow_id hrow hid]
    exact log.insert_has row
  · rw [heq] at hok
    cases hok

/-! ## The log over a run -/

/-- Consumers over the database, with what they have done. -/
abbrev Recording (L : AuditLib) := Sys (broker (pool L)) Unit Unit ℕ × (ℕ → Deeds (pool L))

def auditLog (x : Recording L) : AuditLog := x.1.state.2

/-- Every event that was handled has its row, and it is the only one with its id. -/
def Recorded (x : Recording L) : Prop :=
  UniqueIds (auditLog x) ∧
    ∀ t payload id, ⟨.handle payload, .ok ()⟩ ∈ x.2 t → payloadId L payload = some id →
      ∃ r ∈ auditLog x, r.id = id

/-- A command by which the log only grows, and which handles nothing or records what it handles. -/
theorem Recorded.deed {x y : Recording L} {t : ℕ} {d : Deed (broker (pool L))} (h : Recorded x)
    (hy : y.2 = Function.update x.2 t (x.2 t ++ [d])) (huniq : UniqueIds (auditLog y))
    (hgrow : ∀ r ∈ auditLog x, r ∈ auditLog y)
    (hd : ∀ payload id, d = ⟨.handle payload, .ok ()⟩ → payloadId L payload = some id →
      ∃ r ∈ auditLog y, r.id = id) :
    Recorded y := by
  refine ⟨huniq, fun u payload id hm hid => ?_⟩
  rw [hy] at hm
  by_cases hu : u = t
  · rw [hu, Function.update_self] at hm
    rcases List.mem_append.1 hm with hm | hm
    · obtain ⟨r, hr, hrid⟩ := h.2 t payload id hm hid
      exact ⟨r, hgrow r hr, hrid⟩
    · exact hd payload id (List.mem_singleton.1 hm).symm hid
  · rw [Function.update_of_ne hu] at hm
    obtain ⟨r, hr, hrid⟩ := h.2 u payload id hm hid
    exact ⟨r, hgrow r hr, hrid⟩

theorem recorded_step {x y : Recording L} {e : Event (broker (pool L)) ℕ} (hx : Recorded x)
    (h : (consumers (pool L)).trailed.step e x = some y) : Recorded y := by
  rcases Service.trailed_cases h with ⟨t, q, rfl, -, rfl⟩ |
      ⟨t, n, q, c, k, a, x', rfl, -, hexec, rfl⟩ | ⟨v, rfl, rfl⟩
  · exact hx
  · cases c with
    | handle payload =>
      cases hexec
      refine hx.deed rfl (handle_unique hx.1) (fun r => handle_keeps) fun p id hd hid => ?_
      obtain ⟨hp, ha⟩ := Sigma.mk.inj hd
      cases hp
      exact handle_records (eq_of_heq ha) hid
    | select =>
      obtain ⟨w, -, heq⟩ := Option.map_eq_some_iff.1 hexec
      cases heq
      exact hx.deed rfl hx.1 (fun _ hr => hr) fun p id hd => by cases hd
    | backoff secs =>
      cases hexec
      exact hx.deed rfl hx.1 (fun _ hr => hr) fun p id hd => by cases hd
    | commit tp =>
      cases hexec
      exact hx.deed rfl hx.1 (fun _ hr => hr) fun p id hd => by cases hd
  · exact hx

end

/-- **A consumer never commits past a message that is not settled, and an event that was
handled is recorded once**, whatever is delivered, however often, and wherever consumers
crash or are stopped. -/
theorem audit_exact (L : AuditLib) :
    (∀ (H : Handler) (x₀ : (broker H).State) (y : _), (consumers H).trailed.Reachable
      (Service.fresh x₀) y → ∀ t, InOrder (y.2 t)) ∧
    ∀ (log : AuditLog) (w : Option Arrival) (y : Recording L), UniqueIds log →
      (consumers (pool L)).trailed.Reachable (Service.fresh (w, log)) y →
        ∀ t payload id, ⟨.handle payload, .ok ()⟩ ∈ y.2 t → payloadId L payload = some id →
          ((auditLog y).filter fun r => r.id = id).length = 1 := by
  refine ⟨fun H x₀ y h t => ?_, fun log w y huniq h t payload id hm hid => ?_⟩
  · cases hc : y.1.call t with
    | some c => exact run_inOrder ((Service.trail_of_reach h t).1 c hc)
    | none =>
      rw [(Service.trail_of_reach h t).2 hc]
      exact .nil
  · have hfirst : Recorded (L := L) (Service.fresh (w, log)) :=
      ⟨huniq, fun _ _ _ hm => absurd hm List.not_mem_nil⟩
    have hrec : Recorded y := h.inv (fun x e y hx he _ => recorded_step hx he) hfirst
    obtain ⟨r, hr, rfl⟩ := hrec.2 t payload id hm hid
    exact hrec.1.one hr

/-! ## A redelivery after a crash -/

def sampleId : String := "00000000-0000-0000-0000-000000000007"

def samplePayload : String :=
  "\x7b\"event_id\":\"00000000-0000-0000-0000-000000000007\",\"event_type\":\"order_created\"\x7d"

def sampleLib : AuditLib where
  parseJson s :=
    if s = samplePayload then .ok (.obj [("event_id", .str sampleId),
      ("event_type", .str "order_created")])
    else .error "expected value"
  parseUuid s := if s = sampleId then some 7 else none
  showError _ := "connection closed"

def sampleMessage : SourceMessage := ⟨"dreamfly.orders.created", 0, 41, some samplePayload.toUTF8⟩

def sampleDelivery : Event (broker (pool sampleLib)) ℕ := .env (Arrival.next (some sampleMessage))

/-- The first consumer handles the message and crashes; the second gets it again, handles it
at its second attempt and commits it. -/
def redelivery : Recording sampleLib :=
  (consumers (pool sampleLib)).trailed.after
    ([.start 0 3, sampleDelivery] ++ Event.steps 0 0 2 ++ [.start 1 3, sampleDelivery] ++
      Event.steps 1 0 1 ++ Event.steps 1 2 1 ++ Event.steps 1 0 3) (Service.fresh (none, []))

/-- The sample was handled. -/
def sampleHandled : Deed (broker (pool sampleLib)) → Bool
  | ⟨.handle p, .ok ()⟩ => p = samplePayload
  | _ => false

theorem mem_of_sampleHandled {l : List (Deed (broker (pool sampleLib)))}
    (h : l.any sampleHandled = true) :
    ⟨.handle samplePayload, .ok ()⟩ ∈ l := by
  obtain ⟨⟨c, a⟩, hd, hp⟩ := List.any_eq_true.1 h
  cases c with
  | handle p =>
    rcases a with _ | _
    · cases hp
    · have hsame : p = samplePayload := of_decide_eq_true hp
      rw [← hsame]
      exact hd
  | _ => cases hp

theorem audit_exact_redelivered :
    InOrder (redelivery.2 1) ∧ commitsOf (redelivery.2 1) = [⟨"dreamfly.orders.created", 0, 42⟩] ∧
      ((auditLog redelivery).filter fun r => r.id = 7).length = 1 := by
  refine ⟨(audit_exact sampleLib).1 _ _ _ (Lts.reachable_after _) 1, by decide +kernel, ?_⟩
  have hany : (redelivery.2 0).any sampleHandled = true := by decide +kernel
  exact (audit_exact sampleLib).2 [] none _ List.nodup_nil (Lts.reachable_after _) 0 samplePayload 7
    (mem_of_sampleHandled hany)
    (by decide +kernel)

end DreamFly.Kafka
