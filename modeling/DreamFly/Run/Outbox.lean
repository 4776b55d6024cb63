import DreamFly.Kafka.Outbox

/-!
# The outbox over whole runs

* `outbox_keeps`: a drain publishes rows it has claimed, and marks rows it has sent.
* `Move`: what one command does to the table and to the record of the run.
* `Inv`: what holds of both in every reachable state.
-/

namespace DreamFly.Kafka.Outbox

open Conc Code
open Txn (Table)

variable {L : OutboxLib}

/-! ## What a call may do next -/

/-- The rows a call has claimed, and those it has sent. -/
abbrev Phase := List Uuid × List Uuid

def Stmt.allowed (σ : Phase) : Stmt → Prop
  | .markPublished id => id ∈ σ.2
  | .markFailed _ _ delay => delay ≤ maxRetryDelay
  | _ => True

def afterClaim (σ : Phase) : Except DbError (List ClaimedRow) → Phase
  | .ok rows => (rows.map ClaimedRow.id, σ.2)
  | .error _ => σ

def afterPublish (σ : Phase) (id : Uuid) : PublishResult → Phase
  | .ok => (σ.1, id :: σ.2)
  | _ => σ

inductive Gives (L : OutboxLib) (σ : Phase) : (c : (table L).Cmd) →
    ((table L).Reply c → Phase) → Prop
  | sql (s : Stmt) (h : s.allowed σ) : Gives L σ (Cmd.sql s) fun _ => σ
  | claim : Gives L σ Cmd.claim (afterClaim σ)
  | publish (id : Uuid) (topic key body : String) (h : id ∈ σ.1) :
  Gives L σ (Cmd.publish id topic key body) (afterPublish σ id)
  | newId : Gives L σ Cmd.newId fun _ => σ
  | clock : Gives L σ Cmd.clock fun _ => σ

@[reducible] def protocol (L : OutboxLib) : Protocol (table L) Error Unit where
  Phase := Phase
  gives := Gives L
  ends _ _ := True

/-- The program keeps to the protocol and claims and sends nothing. -/
abbrev Io.Stays {α : Type} (p : Io L α) (σ : Phase) : Prop :=
  Code.Follows (protocol L) (fun _ σ' => σ' = σ) σ p

theorem sql_stays {s : Stmt} {σ : Phase} (h : s.allowed σ) : (sql L s).Stays σ := by
  unfold sql
  refine Follows.exec (.sql s h) fun r => ?_
  cases r with
  | ok u => exact (rfl : σ = σ)
  | error e => trivial

theorem forEach_stays {α : Type} {f : α → Io L Unit} {as : List α} {σ : Phase}
    (h : ∀ a ∈ as, (f a).Stays σ) :
    (forEach L f as).Stays σ := by
  induction as with
  | nil => exact (rfl : σ = σ)
  | cons a as ih =>
    refine Follows.bind (h a List.mem_cons_self) ?_
    rintro _ σ' rfl
    exact ih fun b hb => h b (List.mem_cons_of_mem a hb)

theorem insertEventTx_stays (event : NewEvent) (σ : Phase) : (insertEventTx L event).Stays σ := by
  unfold insertEventTx
  refine Follows.exec .newId fun eventId => ?_
  refine Follows.exec .clock fun timestamp => ?_
  refine Follows.check (fun _ _ => trivial) fun payload _ => ?_
  refine Follows.exec .newId fun id => ?_
  exact sql_stays trivial

theorem produce_keeps (events : List NewEvent) (commits : Bool) (σ : Phase) :
    (produce L events commits).Keeps (protocol L) σ := by
  unfold produce
  refine Follows.bind (sql_stays trivial) ?_
  rintro _ σ' rfl
  refine Follows.bind (Follows.tryCatch (forEach_stays
    fun event _ => insertEventTx_stays event _) ?_) ?_
  · exact fun e σ'' _ => Follows.bind (sql_stays trivial) fun _ _ _ => trivial
  · intro _ σ'' _
    split
    · exact Follows.mono (sql_stays trivial) fun _ _ _ => trivial
    · exact Follows.mono (sql_stays trivial) fun _ _ _ => trivial

theorem publishBatch_follows {outcome : BatchOutcome} {rows : List ClaimedRow} {σ : Phase}
    (hsent : ∀ id ∈ outcome.published, id ∈ σ.2)
    (hrows : ∀ r ∈ rows, r.id ∈ σ.1) :
    (publishBatch L outcome rows).Follows (protocol L)
    (fun o σ' => ∀ id ∈ o.published, id ∈ σ'.2) σ := by
  induction rows generalizing outcome σ with
  | nil => exact hsent
  | cons row rows ih =>
    unfold publishBatch
    split
    · exact ih hsent fun r hr => hrows r (List.mem_cons_of_mem row hr)
    · next body hbody =>
      refine Follows.exec (.publish _ _ _ _ (hrows row List.mem_cons_self)) fun r => ?_
      have hrest : ∀ r ∈ rows, r.id ∈ σ.1 := fun r hr => hrows r (List.mem_cons_of_mem row hr)
      cases r with
      | ok =>
        refine ih (fun id hid => ?_) hrest
        rcases List.mem_append.1 hid with hid | hid
        · exact List.mem_cons_of_mem _ (hsent id hid)
        · rw [List.mem_singleton.1 hid]
          exact List.mem_cons_self
      | err e => exact ih hsent hrest
      | elapsed => exact hsent

theorem retryDelay_le (attempts : ℕ) : retryDelay attempts ≤ maxRetryDelay := min_le_right _ _

theorem settle_stays {outcome : BatchOutcome} {σ : Phase}
    (hsent : ∀ id ∈ outcome.published, id ∈ σ.2) : (settle L outcome).Stays σ := by
  unfold settle
  refine Follows.bind (sql_stays trivial) ?_
  rintro _ σ' rfl
  refine Follows.bind (forEach_stays fun id hid => sql_stays (hsent id hid)) ?_
  rintro _ σ' rfl
  refine Follows.bind (forEach_stays fun f _ => sql_stays (retryDelay_le _)) ?_
  rintro _ σ' rfl
  exact sql_stays trivial

theorem drainOnce_keeps : (drainOnce L).Keeps (protocol L) ([], []) := by
  unfold drainOnce
  refine Follows.bind (sql_stays trivial) ?_
  rintro _ σ rfl
  refine Follows.exec .claim fun r => ?_
  refine Follows.check (fun _ _ => trivial) fun rows hr => ?_
  split
  · trivial
  · have hrows : r = .ok rows := by
      cases r with
      | ok rows' => exact congrArg Except.ok (Except.ok.inj hr)
      | error e => cases hr
    rw [hrows]
    refine Follows.bind (publishBatch_follows nofun fun row hrow => ?_) fun outcome σ hsent => ?_
    · exact List.mem_map_of_mem ((List.mem_insertionSort _).1 hrow)
    · exact Follows.mono (settle_stays hsent) fun _ _ _ => trivial

/-- **Every call keeps to the protocol.** -/
theorem outbox_keeps (q : Req) : ((outbox L).prog q).Keeps (protocol L) ([], []) := by
  cases q with
  | produce events commits => exact produce_keeps events commits _
  | drain => exact drainOnce_keeps

/-! ## The record of a run -/

/-- What leaves a trace: a claim with its NOW(), a publish with its result, a commit. -/
inductive Fact
  | claimed (t : ℕ) (ids : List Uuid) (now : ℤ)
  | published (id : Uuid) (r : PublishResult)
  | committed (writes : List Write)

abbrev History := List Fact

def happened (L : OutboxLib) (x : Store) (t n : ℕ) : Cmd → History
  | .claim =>
    match x.tx.lookup t with
    | some tx => if n = 1 then [] else [.claimed t ((x.claimable t tx.start).map Prod.fst) tx.start]
    | none => []
  | .publish id _ _ _ => [.published id (publishResult L n)]
  | .sql .commit =>
    match x.tx.lookup t with
    | some tx => if n = 1 then [] else [.committed tx.writes]
    | none => []
  | _ => []

abbrev OutboxSys (L : OutboxLib) := Sys (table L) Error Unit Req

def history (γ : History) (s : OutboxSys L) (e : Event (table L) Req) (_ : OutboxSys L) : History :=
  match e with
  | .step t n =>
    match (s.call t).bind fun c => c.prog.next with
    | some c => γ ++ happened L s.state t n c
    | none => γ
  | _ => γ

/-- The outbox with the record of its run. -/
abbrev recorded (L : OutboxLib) : Lts (OutboxSys L × History) (Event (table L) Req) :=
  (outbox L).lts.noting history

/-- An outbox without rows. -/
def emptyOutbox (L : OutboxLib) (now : ℤ) : OutboxSys L × History := (Sys.init ⟨now, ∅, ∅⟩, [])

/-- The transaction that inserts row `id` has committed. -/
def Inserted (γ : History) (id : Uuid) : Prop := ∃ ws row, .committed ws ∈ γ ∧ .insert id row ∈ ws

/-- A failed publish of row `id` was recorded. -/
def Failed (γ : History) (id : Uuid) : Prop := ∃ ws reason next, .committed ws ∈ γ ∧
    .failed id reason next ∈ ws

theorem Inserted.append {γ : History} {id : Uuid} (h : Inserted γ id) (δ : History) :
    Inserted (γ ++ δ) id := by
  obtain ⟨ws, row, hws, hrow⟩ := h
  exact ⟨ws, row, List.mem_append_left δ hws, hrow⟩

theorem Failed.append {γ : History} {id : Uuid} (h : Failed γ id) (δ : History) :
    Failed (γ ++ δ) id := by
  obtain ⟨ws, reason, next, hws, hf⟩ := h
  exact ⟨ws, reason, next, List.mem_append_left δ hws, hf⟩

/-! ## What a command does -/

/-- A write as the calls make them: a new row that is due at once, a mark for a row that was
sent, a retry within the longest delay. -/
def Write.Sound (σ : Phase) (tx : Tx) : Write → Prop
  | .insert _ row => row.publishedAt = none ∧ row.nextAttemptAt = tx.start
  | .published id _ => id ∈ σ.2
  | .failed _ _ next => next ≤ tx.start + maxRetryDelay

/-- **What one command of call `t` does** to the table and the record. -/
inductive Move (L : OutboxLib) (x : Store) (t : ℕ) (σ : Phase) : Store → History → Phase → Prop
  | quiet (tx : Table ℕ Tx) (htx : ∀ u y, tx.lookup u = some y → x.tx.lookup u = some y) :
  Move L x t σ { x with tx := tx } [] σ
  | begin : Move L x t σ { x with tx := x.tx.insert t ⟨x.now, []⟩ } [] σ
  | write (tx : Tx) (w : Write) (htx : x.tx.lookup t = some tx) (hfree : x.locked t w.id = false)
      (hnew : ∀ row, w = .insert w.id row → (x.seenBy tx).lookup w.id = none) (hw : w.Sound σ tx) :
        Move L x t σ (x.write t tx w) [] σ
  | commit (tx : Tx) (htx : x.tx.lookup t = some tx) : Move L x t σ (x.commit t tx)
    [.committed tx.writes] σ
  | claim (tx : Tx) (htx : x.tx.lookup t = some tx) (σ' : Phase)
      (hσ : σ' = σ ∨ σ' = ((x.claimable t tx.start).map Prod.fst, σ.2)) :
    Move L x t σ (x.claim t tx) [.claimed t ((x.claimable t tx.start).map Prod.fst) tx.start] σ'
  | publish (id : Uuid) (hid : id ∈ σ.1) (r : PublishResult) : Move L x t σ x [.published id r]
    (afterPublish σ id r)

variable {x x' : Store} {t n : ℕ} {σ : Phase}

theorem lookup_erase {tx : Table ℕ Tx} {u : ℕ} {y : Tx} (h : (tx.erase t).lookup u = some y) :
    tx.lookup u = some y := by
  by_cases hu : u = t
  · rw [hu, AList.lookup_erase] at h
    cases h
  · rwa [AList.lookup_erase_ne hu] at h

theorem Move.close : Move L x t σ (x.close t) [] σ := .quiet _ fun _ _ => lookup_erase

theorem Move.same : Move L x t σ x [] σ := .quiet x.tx fun _ _ h => h

theorem statement_move {f : Tx → Except DbError Store} {r : Except DbError Unit}
    (h : statement x t n f = (r, x'))
    (hf : ∀ tx x₁, x.tx.lookup t = some tx → f tx = .ok x₁ → Move L x t σ x₁ [] σ) :
    Move L x t σ x' [] σ := by
  unfold statement at h
  split at h
  · cases h
    exact .same
  next tx htx =>
  split at h
  · cases h
    exact .close
  split at h
  · next x₁ hx₁ =>
    cases h
    exact hf tx _ htx hx₁
  · cases h
    exact .close

theorem sql_move {s : Stmt} {r : Except DbError Unit} (hs : s.allowed σ)
    (h : x.sql t n s = some (r, x')) :
    Move L x t σ x' (happened L x t n (.sql s)) σ := by
  cases s with
  | begin =>
    dsimp only [Store.sql] at h
    split at h
    · cases h
      exact .begin
    · cases h
      exact .same
  | commit =>
    dsimp only [Store.sql, happened] at h ⊢
    split at h
    · next htx =>
      cases h
      rw [htx]
      exact .same
    · next tx htx =>
      rw [htx]
      dsimp only
      split
      · next hn =>
        rw [if_pos hn] at h
        cases h
        exact .close
      · next hn =>
        rw [if_neg hn] at h
        cases h
        exact .commit tx htx
  | rollback =>
    dsimp only [Store.sql] at h
    cases h
    exact .close
  | insert id topic key payload =>
    dsimp only [Store.sql] at h
    split at h
    · cases h
    · next hfree =>
      refine statement_move (Option.some.inj h) fun tx x₁ htx hx₁ => ?_
      unfold Store.insert at hx₁
      split at hx₁
      · cases hx₁
      · next hnone =>
        cases hx₁
        exact .write tx _ htx (eq_false_of_ne_true hfree)
          (fun _ _ => Option.not_isSome_iff_eq_none.1 hnone) ⟨rfl, rfl⟩
  | markPublished id =>
    dsimp only [Store.sql] at h
    split at h
    · cases h
    · next hfree =>
      refine statement_move (Option.some.inj h) fun tx x₁ htx hx₁ => ?_
      unfold Store.markPublished at hx₁
      split at hx₁
      · cases hx₁
        exact .write tx _ htx (eq_false_of_ne_true hfree) nofun hs
      · cases hx₁
        exact .same
  | markFailed id reason delay =>
    dsimp only [Store.sql] at h
    split at h
    · cases h
    · next hfree =>
      refine statement_move (Option.some.inj h) fun tx x₁ htx hx₁ => ?_
      unfold Store.markFailed at hx₁
      split at hx₁
      · split at hx₁
        · cases hx₁
          exact .write tx _ htx (eq_false_of_ne_true hfree) nofun (Int.add_le_add_left hs tx.start)
        · cases hx₁
      · cases hx₁
        exact .same

/-- **What the next command of a call does.** -/
theorem exec_move {c : Cmd} {f : c.Reply → Phase} {r : c.Reply} (hg : Gives L σ c f)
    (h : (table L).exec t c n x = some (r, x')) : Move L x t σ x' (happened L x t n c) (f r) := by
  cases hg with
  | sql s hs => exact sql_move hs h
  | claim =>
    change some (x.runClaim t n) = some (r, x') at h
    have h := Option.some.inj h
    dsimp only [Store.runClaim, happened] at h ⊢
    split at h
    · next htx =>
      cases h
      rw [htx]
      exact .same
    · next tx htx =>
      rw [htx]
      dsimp only
      by_cases h1 : n = 1
      · have h0 : n ≠ 0 := by omega
        rw [if_neg h0, if_pos h1] at h
        rw [if_pos h1]
        cases h
        exact .close
      · rw [if_neg h1] at h ⊢
        split at h
        · cases h
          refine .claim tx htx _ (.inr ?_)
          simp only [afterClaim, claimed, List.map_map]
          rfl
        · cases h
          exact .claim tx htx _ (.inl rfl)
  | publish id topic key body hid =>
    cases h
    exact .publish id hid _
  | newId =>
    cases h
    exact .same
  | clock =>
    cases h
    exact .same

/-! ## Rows -/

section rows
variable {id : Uuid} {r : Row} {o : Option Row} {rows : Table Uuid Row} {ws : List Write} {tx : Tx}

/-- What a write makes of the row with a given id. -/
def Write.on (id : Uuid) (o : Option Row) : Write → Option Row
  | .insert k row => if id = k then some row else o
  | .published k at_ => if id = k then o.map fun r => { r with publishedAt := some at_ } else o
  | .failed k reason next =>
    if id = k then
      o.map fun r =>
        { r with attempts := r.attempts + 1, lastError := some reason, nextAttemptAt := next }
    else o

theorem lookup_apply (rows : Table Uuid Row) (w : Write) :
    (w.apply rows).lookup id = w.on id (rows.lookup id) := by
  cases w with
  | insert k row =>
    dsimp only [Write.apply, Write.on]
    split
    · next h => rw [h, AList.lookup_insert]
    · next h => exact AList.lookup_insert_ne h
  | published k at_ =>
    dsimp only [Write.apply, Write.on]
    rw [Table.lookup_modify]
    split
    · next h => rw [h]
    · rfl
  | failed k reason next =>
    dsimp only [Write.apply, Write.on]
    rw [Table.lookup_modify]
    split
    · next h => rw [h]
    · rfl

theorem lookup_writes (rows : Table Uuid Row) (ws : List Write) :
    (ws.foldl Write.apply rows).lookup id = ws.foldl (Write.on id) (rows.lookup id) := by
  induction ws generalizing rows with
  | nil => rfl
  | cons w ws ih => rw [List.foldl_cons, List.foldl_cons, ih, lookup_apply]

theorem Write.on_isSome (w : Write) (h : o.isSome) : (w.on id o).isSome := by
  cases w with
  | insert k row =>
    dsimp only [Write.on]
    split
    · rfl
    · exact h
  | published k at_ =>
    dsimp only [Write.on]
    split
    · rwa [Option.isSome_map]
    · exact h
  | failed k reason next =>
    dsimp only [Write.on]
    split
    · rwa [Option.isSome_map]
    · exact h

/-- No row is deleted. -/
theorem writes_isSome (h : o.isSome) : (ws.foldl (Write.on id) o).isSome := by
  induction ws generalizing o with
  | nil => exact h
  | cons w ws ih => exact ih (w.on_isSome h)

/-- One write, seen from the row it leaves: whether it is published, and when it is due. -/
theorem Write.on_some {w : Write} (h : w.on id o = some r) :
    ((∃ r₀, o = some r₀ ∧ r.nextAttemptAt = r₀.nextAttemptAt ∧ r.publishedAt = r₀.publishedAt) ∨
      (∃ r₀ at_, o = some r₀ ∧ r.nextAttemptAt = r₀.nextAttemptAt ∧ w = .published id at_) ∨
      (∃ r₀ reason, o = some r₀ ∧ r.publishedAt = r₀.publishedAt ∧
        w = .failed id reason r.nextAttemptAt) ∨
      w = .insert id r) := by
  cases w with
  | insert k row =>
    dsimp only [Write.on] at h
    split at h
    · next hk =>
      cases h
      exact .inr (.inr (.inr (by rw [hk])))
    · exact .inl ⟨r, h, rfl, rfl⟩
  | published k at_ =>
    dsimp only [Write.on] at h
    split at h
    · next hk =>
      obtain ⟨r₀, ho, rfl⟩ := Option.map_eq_some_iff.1 h
      exact .inr (.inl ⟨r₀, at_, ho, rfl, by rw [hk]⟩)
    · exact .inl ⟨r, h, rfl, rfl⟩
  | failed k reason next =>
    dsimp only [Write.on] at h
    split at h
    · next hk =>
      obtain ⟨r₀, ho, rfl⟩ := Option.map_eq_some_iff.1 h
      exact .inr (.inr (.inl ⟨r₀, reason, ho, rfl, by rw [hk]⟩))
    · exact .inl ⟨r, h, rfl, rfl⟩

/-- A row was there before or is inserted. -/
theorem writes_origin (h : (ws.foldl (Write.on id) o).isSome) : o.isSome ∨
    ∃ row, .insert id row ∈ ws := by
  induction ws generalizing o with
  | nil => exact .inl h
  | cons w ws ih =>
    rcases ih h with h' | ⟨row, hrow⟩
    · obtain ⟨r₁, hr₁⟩ := Option.isSome_iff_exists.1 h'
      rcases Write.on_some hr₁ with ⟨r₀, ho, -⟩ | ⟨r₀, at_, ho, -⟩ | ⟨r₀, reason, ho, -⟩ | rfl
      · exact .inl (by rw [ho]; rfl)
      · exact .inl (by rw [ho]; rfl)
      · exact .inl (by rw [ho]; rfl)
      · exact .inr ⟨r₁, List.mem_cons_self⟩
    · exact .inr ⟨row, List.mem_cons_of_mem w hrow⟩

/-- When a row is due: as before, as it was inserted, or as a failure says. -/
theorem writes_next (h : ws.foldl (Write.on id) o = some r) :
    (∃ r₀, o = some r₀ ∧ r.nextAttemptAt = r₀.nextAttemptAt) ∨
    (∃ row, .insert id row ∈ ws ∧ r.nextAttemptAt = row.nextAttemptAt) ∨
      ∃ reason, .failed id reason r.nextAttemptAt ∈ ws := by
  induction ws generalizing o with
  | nil => exact .inl ⟨r, h, rfl⟩
  | cons w ws ih =>
    rcases ih h with ⟨r₁, hr₁, hnext⟩ | ⟨row, hrow, hnext⟩ | ⟨reason, hf⟩
    · rcases Write.on_some hr₁ with ⟨r₀, ho, hn, -⟩ | ⟨r₀, at_, ho, hn, -⟩ |
          ⟨r₀, reason, ho, -, rfl⟩ | rfl
      · exact .inl ⟨r₀, ho, hnext.trans hn⟩
      · exact .inl ⟨r₀, ho, hnext.trans hn⟩
      · exact .inr (.inr ⟨reason, by rw [hnext]; exact List.mem_cons_self⟩)
      · exact .inr (.inl ⟨r₁, List.mem_cons_self, hnext⟩)
    · exact .inr (.inl ⟨row, List.mem_cons_of_mem w hrow, hnext⟩)
    · exact .inr (.inr ⟨reason, List.mem_cons_of_mem w hf⟩)

/-- A published row was published before, marked, or inserted so. -/
theorem writes_published (h : ws.foldl (Write.on id) o = some r) (hp : r.publishedAt.isSome) :
    (∃ r₀, o = some r₀ ∧ r₀.publishedAt.isSome) ∨ (∃ at_, .published id at_ ∈ ws) ∨
      ∃ row, .insert id row ∈ ws ∧ row.publishedAt.isSome := by
  induction ws generalizing o with
  | nil => exact .inl ⟨r, h, hp⟩
  | cons w ws ih =>
    rcases ih h with ⟨r₁, hr₁, hp₁⟩ | ⟨at_, ha⟩ | ⟨row, hrow, hp⟩
    · rcases Write.on_some hr₁ with ⟨r₀, ho, -, hpub⟩ | ⟨r₀, at_, ho, -, rfl⟩ |
          ⟨r₀, reason, ho, hpub, -⟩ | rfl
      · exact .inl ⟨r₀, ho, by rwa [← hpub]⟩
      · exact .inr (.inl ⟨at_, List.mem_cons_self⟩)
      · exact .inl ⟨r₀, ho, by rwa [← hpub]⟩
      · exact .inr (.inr ⟨r₁, List.mem_cons_self, hp₁⟩)
    · exact .inr (.inl ⟨at_, List.mem_cons_of_mem w ha⟩)
    · exact .inr (.inr ⟨row, List.mem_cons_of_mem w hrow, hp⟩)

theorem lookup_commit (x : Store) (t : ℕ) (tx : Tx) :
    (x.commit t tx).rows.lookup id = tx.writes.foldl (Write.on id) (x.rows.lookup id) :=
    lookup_writes _ _

/-- The rows a claim takes are put off, the others are left alone. -/
theorem lookup_lend (l : List (Uuid × Row)) (rows : Table Uuid Row) (next : ℤ) :
    (l.foldl (fun rows e => Store.lend rows e.1 next) rows).lookup id =
      if id ∈ l.map Prod.fst then (rows.lookup id).map fun r =>
        { r with nextAttemptAt := next } else rows.lookup id := by
  induction l generalizing rows with
  | nil => rfl
  | cons e l ih =>
    rw [List.foldl_cons, ih, Store.lend, Table.lookup_modify]
    by_cases hid : id = e.1
    · have hmem : id ∈ (e :: l).map Prod.fst := hid ▸ List.mem_cons_self
      rw [if_pos hid, if_pos hmem, ← hid]
      split
      · rw [Option.map_map]
        rfl
      · rfl
    · have hmem : id ∈ (e :: l).map Prod.fst ↔ id ∈ l.map Prod.fst := by
        rw [List.map_cons, List.mem_cons, or_iff_right hid]
      simp only [hid, hmem, if_false]

theorem lookup_claim (x : Store) (t : ℕ) (tx : Tx) :
    (x.claim t tx).rows.lookup id =
      if id ∈ (x.claimable t tx.start).map Prod.fst then (x.rows.lookup id).map fun r =>
        { r with nextAttemptAt := tx.start + lease }
      else x.rows.lookup id := lookup_lend _ _ _

/-- A row that is claimed is there and was due. -/
theorem claimable_row {x : Store} {t : ℕ} {now : ℤ} (h : id ∈ (x.claimable t now).map Prod.fst) :
    ∃ r, x.rows.lookup id = some r ∧ r.nextAttemptAt ≤ now := by
  obtain ⟨⟨k, r⟩, hm, rfl⟩ := List.mem_map.1 h
  have hdue := (List.mem_insertionSort _).1 (List.mem_of_mem_take hm)
  obtain ⟨hr, hd⟩ := Table.mem_only.1 hdue
  exact ⟨r, hr, (of_decide_eq_true hd).2.1⟩

end rows

/-! ## What holds in every reachable state -/

section inv
variable {γ δ : History} {σ' : Phase}

/-- What a write may rest on when its transaction commits. -/
def Write.Covered (γ : History) (tx : Tx) : Write → Prop
  | .insert _ row => row.publishedAt = none ∧ row.nextAttemptAt = tx.start
  | .published id _ => .published id .ok ∈ γ
  | .failed _ _ next => next ≤ tx.start + maxRetryDelay

theorem Write.Covered.append {w : Write} {tx : Tx} (h : w.Covered γ tx) (δ : History) :
    w.Covered (γ ++ δ) tx := by
  cases w with
  | published id at_ => exact List.mem_append_left δ h
  | insert id row => exact h
  | failed id reason next => exact h

/-- Open transactions write different rows, and insert rows that are not there. -/
structure TxInv (x : Store) (γ : History) : Prop where
  start : ∀ t tx, x.tx.lookup t = some tx → tx.start ≤ x.now
  covered : ∀ t tx, x.tx.lookup t = some tx → ∀ w ∈ tx.writes, w.Covered γ tx
  apart : ∀ t u tx tx', t ≠ u → x.tx.lookup t = some tx → x.tx.lookup u = some tx' →
    ∀ w ∈ tx.writes, ∀ w' ∈ tx'.writes, w.id ≠ w'.id
  fresh : ∀ t tx, x.tx.lookup t = some tx → ∀ id row, .insert id row ∈ tx.writes →
    x.rows.lookup id = none

/-- What a call has claimed and sent. -/
structure PhaseOk (x : Store) (γ : History) (σ : Phase) : Prop where
  claimed : ∀ id ∈ σ.1, (x.rows.lookup id).isSome
  sent : ∀ id ∈ σ.2, .published id .ok ∈ γ

theorem not_locked {u : ℕ} {tx : Tx} {id : Uuid} (h : x.locked t id = false) (hu : u ≠ t)
    (htx : x.tx.lookup u = some tx) :
    ∀ w ∈ tx.writes, w.id ≠ id := by
  intro w hw hid
  refine Bool.eq_false_iff.1 h (List.any_eq_true.2 ⟨(u, tx), Table.mem_rows.2 htx,
    decide_eq_true ⟨hu, ?_⟩⟩)
  exact List.any_eq_true.2 ⟨w, hw, decide_eq_true hid⟩

/-- Transactions end, and no row appears that another one inserts. -/
theorem TxInv.fewer {z : Store} (h : TxInv x γ) (hnow : z.now = x.now)
    (htx : ∀ u y, z.tx.lookup u = some y → x.tx.lookup u = some y)
    (hrows : ∀ u y id row, z.tx.lookup u = some y → .insert id row ∈ y.writes →
      x.rows.lookup id = none → z.rows.lookup id = none)
    (δ : History) : TxInv z (γ ++ δ) where
  start u y hy := hnow ▸ h.start u y (htx u y hy)
  covered u y hy w hw := (h.covered u y (htx u y hy) w hw).append δ
  apart u v y y' huv hy hy' := h.apart u v y y' huv (htx u y hy) (htx v y' hy')
  fresh u y hy id row hrow := hrows u y id row hy hrow (h.fresh u y (htx u y hy) id row hrow)

theorem TxInv.begin (h : TxInv x γ) : TxInv { x with tx := x.tx.insert t ⟨x.now, []⟩ } γ := by
  have hold : ∀ u y, (x.tx.insert t ⟨x.now, []⟩).lookup u = some y → y = ⟨x.now, []⟩ ∨
      x.tx.lookup u = some y := by
    intro u y hy
    by_cases hu : u = t
    · rw [hu, AList.lookup_insert] at hy
      exact .inl (Option.some.inj hy).symm
    · rw [AList.lookup_insert_ne hu] at hy
      exact .inr hy
  refine ⟨fun u y hy => ?_, fun u y hy w hw => ?_, fun u v y y' huv hy hy' w hw w' hw' => ?_,
    fun u y hy id row hrow => ?_⟩
  · rcases hold u y hy with rfl | hy
    · exact le_refl x.now
    · exact h.start u y hy
  · rcases hold u y hy with rfl | hy
    · cases hw
    · exact h.covered u y hy w hw
  · rcases hold u y hy with rfl | hy
    · cases hw
    rcases hold v y' hy' with rfl | hy'
    · cases hw'
    exact h.apart u v y y' huv hy hy' w hw w' hw'
  · rcases hold u y hy with rfl | hy
    · cases hrow
    · exact h.fresh u y hy id row hrow

theorem TxInv.write {tx : Tx} {w : Write} (h : TxInv x γ) (hσ : PhaseOk x γ σ)
    (htx : x.tx.lookup t = some tx)
    (hfree : x.locked t w.id = false) (hnew : ∀ row, w = .insert w.id row →
      (x.seenBy tx).lookup w.id = none) (hw : w.Sound σ tx) :
    TxInv (x.write t tx w) γ := by
  -- only the transaction of the writer has a new write
  have hold : ∀ u y, (x.write t tx w).tx.lookup u = some y →
      (u = t ∧ y = { tx with writes := tx.writes ++ [w] }) ∨ (u ≠ t ∧ x.tx.lookup u = some y) := by
    intro u y hy
    by_cases hu : u = t
    · rw [hu, Store.write, AList.lookup_insert] at hy
      exact .inl ⟨hu, (Option.some.inj hy).symm⟩
    · rw [Store.write, AList.lookup_insert_ne hu] at hy
      exact .inr ⟨hu, hy⟩
  have hcov : w.Covered γ tx := by
    cases w with
    | insert id row => exact hw
    | published id at_ => exact hσ.sent id hw
    | failed id reason next => exact hw
  refine ⟨fun u y hy => ?_, fun u y hy v hv => ?_, fun u u' y y' huv hy hy' v hv v' hv' => ?_,
    fun u y hy id row hrow => ?_⟩
  · rcases hold u y hy with ⟨rfl, rfl⟩ | ⟨-, hy⟩
    · exact h.start u tx htx
    · exact h.start u y hy
  · rcases hold u y hy with ⟨rfl, rfl⟩ | ⟨-, hy⟩
    · rcases List.mem_append.1 hv with hv | hv
      · exact h.covered u tx htx v hv
      · rw [List.mem_singleton.1 hv]
        exact hcov
    · exact h.covered u y hy v hv
  · -- two transactions never write one row: the later one would wait for its lock
    rcases hold u y hy with ⟨rfl, rfl⟩ | ⟨hu, hold₁⟩
    · rcases hold u' y' hy' with ⟨rfl, -⟩ | ⟨hu', hold'⟩
      · exact absurd rfl huv
      rcases List.mem_append.1 hv with hv | hv
      · exact h.apart u u' tx y' huv htx hold' v hv v' hv'
      · rw [List.mem_singleton.1 hv]
        exact fun heq => not_locked hfree hu' hold' v' hv' heq.symm
    · rcases hold u' y' hy' with ⟨rfl, rfl⟩ | ⟨-, hold'⟩
      · rcases List.mem_append.1 hv' with hv' | hv'
        · exact h.apart u u' y tx huv hold₁ htx v hv v' hv'
        · rw [List.mem_singleton.1 hv']
          exact not_locked hfree hu hold₁ v hv
      · exact h.apart u u' y y' huv hold₁ hold' v hv v' hv'
  · rcases hold u y hy with ⟨rfl, rfl⟩ | ⟨-, hy⟩
    · rcases List.mem_append.1 hrow with hrow | hrow
      · exact h.fresh u tx htx id row hrow
      · have hwi := List.mem_singleton.1 hrow
        subst hwi
        have hnone := hnew row rfl
        change (tx.writes.foldl Write.apply x.rows).lookup id = none at hnone
        rw [lookup_writes] at hnone
        change x.rows.lookup id = none
        by_contra hsome
        have : (tx.writes.foldl (Write.on id) (x.rows.lookup id)).isSome :=
          writes_isSome (Option.isSome_iff_ne_none.2 hsome)
        rw [hnone] at this
        cases this
    · exact h.fresh u y hy id row hrow

/-- **Every command keeps the transactions apart.** -/
theorem TxInv.move (h : TxInv x γ) (hσ : PhaseOk x γ σ) (hm : Move L x t σ x' δ σ') :
    TxInv x' (γ ++ δ) := by
  cases hm with
  | quiet tx htx =>
    exact h.fewer (z := { x with tx := tx }) rfl htx (fun _ _ _ _ _ _ hn => hn) _
  | begin =>
    rw [List.append_nil]
    exact h.begin
  | write tx w htx hfree hnew hw =>
    rw [List.append_nil]
    exact h.write hσ htx hfree hnew hw
  | publish id hid r => exact h.fewer rfl (fun _ _ hy => hy) (fun _ _ _ _ _ _ hn => hn) _
  | claim tx htx σ' hσ' =>
    refine h.fewer (z := x.claim t tx) rfl (fun _ _ => lookup_erase) (fun u y id row _ _ hn => ?_) _
    rw [lookup_claim, hn]
    exact ite_self _
  | commit tx htx =>
    refine h.fewer (z := x.commit t tx) rfl (fun _ _ => lookup_erase)
      (fun u y id row hy hrow hn => ?_) _
    have hut : u ≠ t := by
      rintro rfl
      rw [Store.commit, Store.close, AList.lookup_erase] at hy
      cases hy
    rw [lookup_commit, hn]
    by_contra hsome
    rcases writes_origin (Option.isSome_iff_ne_none.2 hsome) with hnone | ⟨row', hrow'⟩
    · cases hnone
    · exact h.apart u t y tx hut (lookup_erase hy) htx _ hrow _ hrow' rfl

/-- Rows and the record: what is published was sent, what is there was inserted, what was tried
is there, what was claimed is still there. -/
structure RowInv (x : Store) (γ : History) : Prop where
  sent : ∀ id r, x.rows.lookup id = some r → r.publishedAt.isSome → .published id .ok ∈ γ
  inserted : ∀ id, (x.rows.lookup id).isSome → Inserted γ id
  tried : ∀ id r, .published id r ∈ γ → Inserted γ id
  held : ∀ t ids now, .claimed t ids now ∈ γ → ∀ id ∈ ids, (x.rows.lookup id).isSome

/-- **No command deletes a row.** -/
theorem Move.kept (hm : Move L x t σ x' δ σ') {id : Uuid} (h : (x.rows.lookup id).isSome) :
    (x'.rows.lookup id).isSome := by
  cases hm with
  | quiet tx htx => exact h
  | begin => exact h
  | write tx w htx hfree hnew hw => exact h
  | publish id hid r => exact h
  | claim tx htx σ' hσ' =>
    rw [lookup_claim]
    split
    · rwa [Option.isSome_map]
    · exact h
  | commit tx htx =>
    rw [lookup_commit]
    exact writes_isSome h

theorem RowInv.move (ht : TxInv x γ) (h : RowInv x γ) (hσ : PhaseOk x γ σ)
    (hm : Move L x t σ x' δ σ') : RowInv x' (γ ++ δ) := by
  have hkept : ∀ id, (x.rows.lookup id).isSome → (x'.rows.lookup id).isSome := fun id => hm.kept
  -- rows change by a claim or a commit, a publish only adds to the journal
  cases hm with
  | quiet tx htx =>
    rw [List.append_nil]
    exact ⟨h.sent, h.inserted, h.tried, h.held⟩
  | begin =>
    rw [List.append_nil]
    exact ⟨h.sent, h.inserted, h.tried, h.held⟩
  | write tx w htx hfree hnew hw =>
    rw [List.append_nil]
    exact ⟨h.sent, h.inserted, h.tried, h.held⟩
  | publish k hk r =>
    refine ⟨fun id r hr hp => List.mem_append_left _ (h.sent id r hr hp),
      fun id hr => (h.inserted id hr).append _,
      fun id r' hp => ?_, fun u ids now hc => ?_⟩
    · rcases List.mem_append.1 hp with hp | hp
      · exact (h.tried id r' hp).append _
      · cases List.mem_singleton.1 hp
        exact (h.inserted k (hσ.claimed k hk)).append _
    · rcases List.mem_append.1 hc with hc | hc
      · exact h.held u ids now hc
      · cases List.mem_singleton.1 hc
  | claim tx htx σ' hσ' =>
    refine ⟨fun id r hr hp => ?_, fun id hr => ?_, fun id r' hp => ?_,
      fun u ids now hc id hid => hkept id ?_⟩
    · rw [lookup_claim] at hr
      split at hr
      · obtain ⟨r₀, hr₀, rfl⟩ := Option.map_eq_some_iff.1 hr
        exact List.mem_append_left _ (h.sent id r₀ hr₀ hp)
      · exact List.mem_append_left _ (h.sent id r hr hp)
    · rw [lookup_claim] at hr
      refine (h.inserted id ?_).append _
      split at hr
      · rwa [Option.isSome_map] at hr
      · exact hr
    · rcases List.mem_append.1 hp with hp | hp
      · exact (h.tried id r' hp).append _
      · cases List.mem_singleton.1 hp
    · rcases List.mem_append.1 hc with hc | hc
      · exact h.held u ids now hc id hid
      · cases List.mem_singleton.1 hc
        obtain ⟨r, hr, -⟩ := claimable_row hid
        rw [hr]
        rfl
  | commit tx htx =>
    refine ⟨fun id r hr hp => ?_, fun id hr => ?_, fun id r' hp => ?_,
      fun u ids now hc id hid => hkept id ?_⟩
    · rw [lookup_commit] at hr
      rcases writes_published hr hp with ⟨r₀, hr₀, hp₀⟩ | ⟨at_, ha⟩ | ⟨row, hrow, hp₀⟩
      · exact List.mem_append_left _ (h.sent id r₀ hr₀ hp₀)
      · exact List.mem_append_left _ (ht.covered t tx htx _ ha)
      · rw [(ht.covered t tx htx _ hrow).1] at hp₀
        cases hp₀
    · rw [lookup_commit] at hr
      rcases writes_origin hr with hr | ⟨row, hrow⟩
      · exact (h.inserted id hr).append _
      · exact ⟨tx.writes, row, List.mem_append_right _ List.mem_cons_self, hrow⟩
    · rcases List.mem_append.1 hp with hp | hp
      · exact (h.tried id r' hp).append _
      · cases List.mem_singleton.1 hp
    · rcases List.mem_append.1 hc with hc | hc
      · exact h.held u ids now hc id hid
      · cases List.mem_singleton.1 hc

/-- A place in a list with one element more: it is the last one, or a place in the list. -/
theorem snoc_split {α : Type} {l a b : List α} {f c : α} (h : l ++ [f] = a ++ c :: b) :
    (b = [] ∧ f = c ∧ l = a) ∨ ∃ b', b = b' ++ [f] ∧ l = a ++ c :: b' := by
  rcases List.eq_nil_or_concat b with rfl | ⟨b', f', rfl⟩
  · obtain ⟨hl, hf⟩ := List.append_inj' h rfl
    exact .inl ⟨rfl, (List.cons.inj hf).1, hl⟩
  · rw [List.concat_eq_append, ← List.cons_append, ← List.append_assoc] at h
    obtain ⟨hl, hf⟩ := List.append_inj' h rfl
    exact .inr ⟨b', by rw [List.concat_eq_append, (List.cons.inj hf).1], hl⟩

/-- A claimed row is not due before its lease is over, and not claimed again before, unless a
failed publish of it was recorded since. -/
structure LeaseInv (x : Store) (γ : History) : Prop where
  leases : ∀ h₁ t ids now h₂, γ = h₁ ++ .claimed t ids now :: h₂ → ∀ id ∈ ids, ¬Failed h₂ id →
    ∀ r, x.rows.lookup id = some r → now + lease ≤ r.nextAttemptAt
  spaced : ∀ h₁ t ids now h₂ t' ids' now' h₃, γ = h₁ ++ .claimed t ids now :: h₂ ++
    .claimed t' ids' now' :: h₃ →
    ∀ id, id ∈ ids → id ∈ ids' → now' < now + lease → Failed h₂ id

theorem LeaseInv.quiet (h : LeaseInv x γ) (hrows : x'.rows = x.rows) : LeaseInv x' γ where
  leases h₁ t ids now h₂ heq id hid hf r hr := h.leases h₁ t ids now h₂ heq id hid hf r (hrows ▸ hr)
  spaced := h.spaced

/-- When rows claimed before are due after a command with a trace: still not before their lease
is over, unless it records a failure. -/
theorem LeaseInv.snoc {f : Fact} (h : LeaseInv x γ) (hr : RowInv x γ)
    (hrow : ∀ id r', x'.rows.lookup id = some r' → ¬Failed [f] id → ∀ r, x.rows.lookup id = some r →
      ∀ due, due ≤ r.nextAttemptAt → due ≤ r'.nextAttemptAt)
    (hlast : ∀ t ids now, f = .claimed t ids now → ∀ id ∈ ids,
      (∀ r', x'.rows.lookup id = some r' → now + lease ≤ r'.nextAttemptAt) ∧
      ∃ r, x.rows.lookup id = some r ∧ r.nextAttemptAt ≤ now) :
    LeaseInv x' (γ ++ [f]) := by
  refine ⟨fun h₁ t ids now h₂ heq id hid hf r' hr' => ?_,
    fun h₁ t ids now h₂ t' ids' now' h₃ heq id hid hid' hlt => ?_⟩
  · rcases snoc_split heq with ⟨rfl, hfc, rfl⟩ | ⟨b, rfl, rfl⟩
    · exact (hlast t ids now hfc id hid).1 r' hr'
    · have hmem : .claimed t ids now ∈ h₁ ++ .claimed t ids now :: b :=
        List.mem_append_right _ List.mem_cons_self
      obtain ⟨r, hrow₀⟩ := Option.isSome_iff_exists.1 (hr.held t ids now hmem id hid)
      have hold := h.leases h₁ t ids now b rfl id hid (fun hf' => hf (hf'.append _)) r hrow₀
      refine hrow id r' hr' (fun hf' => hf ?_) r hrow₀ _ hold
      obtain ⟨ws, reason, next, hws, hfail⟩ := hf'
      exact ⟨ws, reason, next, List.mem_append_right _ hws, hfail⟩
  · rcases snoc_split heq with ⟨rfl, hfc, rfl⟩ | ⟨b, rfl, rfl⟩
    · by_contra hf
      obtain ⟨-, r, hrow₀, hdue⟩ := hlast t' ids' now' hfc id hid'
      have hold := h.leases h₁ t ids now h₂ rfl id hid hf r hrow₀
      omega
    · exact h.spaced h₁ t ids now h₂ t' ids' now' b rfl id hid hid' hlt

theorem LeaseInv.move (ht : TxInv x γ) (hr : RowInv x γ) (h : LeaseInv x γ)
    (hm : Move L x t σ x' δ σ') : LeaseInv x' (γ ++ δ) := by
  cases hm with
  | quiet tx htx =>
    rw [List.append_nil]
    exact h.quiet rfl
  | begin =>
    rw [List.append_nil]
    exact h.quiet rfl
  | write tx w htx hfree hnew hw =>
    rw [List.append_nil]
    exact h.quiet rfl
  | publish k hk res =>
    refine h.snoc hr (fun id r' hr' _ r hr₀ due hdue => ?_) nofun
    rw [hr₀] at hr'
    cases hr'
    exact hdue
  | claim tx htx σ' hσ' =>
    refine h.snoc hr (fun id r' hr' _ r hr₀ due hdue => ?_) fun u ids now hf id hid => ?_
    · rw [lookup_claim, hr₀] at hr'
      split at hr'
      · next hid =>
        obtain ⟨r₁, hr₁, hle⟩ := claimable_row hid
        rw [hr₀] at hr₁
        cases hr₁
        cases hr'
        have hpos : (0 : ℤ) ≤ lease := by decide
        change due ≤ tx.start + lease
        omega
      · cases hr'
        exact hdue
    · cases hf
      obtain ⟨r, hr₀, hle⟩ := claimable_row hid
      refine ⟨fun r' hr' => ?_, r, hr₀, hle⟩
      rw [lookup_claim, if_pos hid, hr₀] at hr'
      cases hr'
      exact le_refl (tx.start + lease)
  | commit tx htx =>
    refine h.snoc hr (fun id r' hr' hf r hr₀ due hdue => ?_) nofun
    rw [lookup_commit] at hr'
    -- of the writes only a failure moves the next attempt, and the journal has it
    rcases writes_next hr' with ⟨r₁, hr₁, hnext⟩ | ⟨row, hrow, -⟩ | ⟨reason, hfail⟩
    · rw [hr₀] at hr₁
      cases hr₁
      rwa [hnext]
    · rw [ht.fresh t tx htx id row hrow] at hr₀
      cases hr₀
    · exact absurd ⟨tx.writes, reason, r'.nextAttemptAt, List.mem_cons_self, hfail⟩ hf

/-- **When a command sets a row's next attempt**, it is not far off. -/
theorem Move.next (ht : TxInv x γ) (hm : Move L x t σ x' δ σ') {id : Uuid} {r' : Row}
    (hr' : x'.rows.lookup id = some r')
    (hset : (x.rows.lookup id).map Row.nextAttemptAt ≠ some r'.nextAttemptAt) : r'.nextAttemptAt ≤
    x'.now + max lease maxRetryDelay := by
  have hmax : (0 : ℤ) ≤ max lease maxRetryDelay := by decide
  have hlease : lease ≤ max lease maxRetryDelay := le_max_left _ _
  have hretry : maxRetryDelay ≤ max lease maxRetryDelay := le_max_right _ _
  -- the next attempt moves by a claim or by a committed failure
  cases hm with
  | quiet tx htx => exact absurd (congrArg (Option.map Row.nextAttemptAt) hr') hset
  | begin => exact absurd (congrArg (Option.map Row.nextAttemptAt) hr') hset
  | write tx w htx hfree hnew hw => exact absurd (congrArg (Option.map Row.nextAttemptAt) hr') hset
  | publish k hk res => exact absurd (congrArg (Option.map Row.nextAttemptAt) hr') hset
  | claim tx htx σ' hσ' =>
    have hstart := ht.start t tx htx
    rw [lookup_claim] at hr'
    split at hr'
    · obtain ⟨r, -, rfl⟩ := Option.map_eq_some_iff.1 hr'
      change tx.start + lease ≤ x.now + max lease maxRetryDelay
      omega
    · exact absurd (congrArg (Option.map Row.nextAttemptAt) hr') hset
  | commit tx htx =>
    have hstart := ht.start t tx htx
    rw [lookup_commit] at hr'
    change r'.nextAttemptAt ≤ x.now + max lease maxRetryDelay
    rcases writes_next hr' with ⟨r₁, hr₁, hnext⟩ | ⟨row, hrow, hnext⟩ | ⟨reason, hfail⟩
    · rw [hr₁, hnext] at hset
      exact absurd rfl hset
    · have hdue := (ht.covered t tx htx _ hrow).2
      omega
    · have hcov : r'.nextAttemptAt ≤ tx.start + maxRetryDelay := ht.covered t tx htx _ hfail
      omega

end inv

/-! ## Runs -/

/-- What holds in every reachable state. -/
structure Inv (y : OutboxSys L × History) : Prop where
  txs : TxInv y.1.state y.2
  rows : RowInv y.1.state y.2
  leases : LeaseInv y.1.state y.2
  calls : Service.Conforms (fun _ => protocol L) (fun _ _ σ => PhaseOk y.1.state y.2 σ) y.1

theorem inv_empty (now : ℤ) : Inv (emptyOutbox L now) where
  txs := ⟨nofun, nofun, nofun, nofun⟩
  rows := ⟨nofun, nofun, nofun, nofun⟩
  leases := ⟨fun h₁ t ids now h₂ h =>
    absurd h (List.append_ne_nil_of_right_ne_nil h₁ (List.cons_ne_nil _ _)).symm,
    fun h₁ t ids now h₂ t' ids' now' h₃ h =>
      absurd h (List.append_ne_nil_of_right_ne_nil _ (List.cons_ne_nil _ _)).symm⟩
  calls t c h := by
    rw [emptyOutbox, Sys.call_init] at h
    cases h

/-- A command of a call, with what it does and its trace. -/
theorem gave_move {x y : OutboxSys L × History} {t n : ℕ} {q : Req}
    {p p' : Code (table L) Error Unit} {c : (table L).Cmd}
    {r : (table L).Reply c} {σ : Phase} {f : (table L).Reply c → Phase} {z : Store}
    (hg : Service.Gave (fun _ => protocol L) x.1 y.1 t n q p p' c r σ f z)
    (h : (recorded L).step (.step t n) x = some y) :
    Move L x.1.state t σ y.1.state (happened L x.1.state t n c) (f r) ∧
    y.2 = x.2 ++ happened L x.1.state t n c := by
  constructor
  · rw [hg.state]
    exact exec_move hg.gives hg.exec
  · rw [(Lts.noting_step.1 h).2]
    simp only [history, hg.call, Option.bind_some, hg.next]

/-- What a step is: it does not concern the table, it is one command of a call, or time passes
or a connection is lost. -/
theorem recorded_cases {x y : OutboxSys L × History} {e : Event (table L) Req} (hx : Inv x)
    (h : (recorded L).step e x = some y) :
    ((∀ t n, e ≠ .step t n) ∧ y.1.state = x.1.state ∧ y.2 = x.2) ∨
    (∃ t σ σ' δ, PhaseOk x.1.state x.2 σ ∧ Move L x.1.state t σ y.1.state δ σ' ∧ y.2 = x.2 ++ δ) ∨
    ((∀ t n, e ≠ .step t n) ∧ (∃ v, y.1.state = (table L).env v x.1.state) ∧ y.2 = x.2) := by
  obtain ⟨hstep, hnote⟩ := Lts.noting_step.1 h
  rcases hx.calls.step_cases hstep with ⟨t, q, rfl, -, hy⟩ |
      ⟨t, n, q, p, p', c, r, σ, f, z, rfl, hok, hg⟩ | ⟨v, rfl, hy⟩
  · exact .inl ⟨nofun, by rw [hy, Sys.set_state], hnote⟩
  · obtain ⟨hm, hδ⟩ := gave_move hg h
    exact .inr (.inl ⟨t, σ, f r, _, hok, hm, hδ⟩)
  · exact .inr (.inr ⟨nofun, ⟨v, by rw [hy]⟩, hnote⟩)

theorem PhaseOk.later {x x' : Store} {γ : History} {σ : Phase} (h : PhaseOk x γ σ) (δ : History)
    (hkept : ∀ id, (x.rows.lookup id).isSome → (x'.rows.lookup id).isSome) :
    PhaseOk x' (γ ++ δ) σ where
  claimed id hid := hkept id (h.claimed id hid)
  sent id hid := List.mem_append_left δ (h.sent id hid)

/-- The call that gives the command knows what it has claimed and sent. -/
theorem PhaseOk.move {x x' : Store} {γ δ : History} {σ σ' : Phase} {t : ℕ} (h : PhaseOk x γ σ)
    (hm : Move L x t σ x' δ σ') :
    PhaseOk x' (γ ++ δ) σ' := by
  have hlater : PhaseOk x' (γ ++ δ) σ := h.later δ fun id => hm.kept
  have hkept : ∀ id, (x.rows.lookup id).isSome → (x'.rows.lookup id).isSome := fun id => hm.kept
  cases hm with
  | claim tx htx σ' hσ' =>
    rcases hσ' with rfl | rfl
    · exact hlater
    · refine ⟨fun id hid => hkept id ?_, hlater.sent⟩
      obtain ⟨r, hr, -⟩ := claimable_row hid
      rw [hr]
      rfl
  | publish id hid r =>
    cases r with
    | ok =>
      refine ⟨hlater.claimed, fun k hk => ?_⟩
      rcases List.mem_cons.1 hk with rfl | hk
      · exact List.mem_append_right γ List.mem_cons_self
      · exact hlater.sent k hk
    | err e => exact hlater
    | elapsed => exact hlater
  | _ => exact hlater

/-- What happens by itself leaves the rows alone. -/
theorem TxInv.env {x : Store} {γ : History} (h : TxInv x γ) (v : Env) :
    TxInv ((table L).env v x) γ := by
  cases v with
  | tick n =>
    refine ⟨fun t tx htx => ?_, h.covered, h.apart, h.fresh⟩
    have hle := h.start t tx htx
    change tx.start ≤ x.now + n
    omega
  | lost t =>
    rw [← List.append_nil γ]
    exact h.fewer (z := x.close t) rfl (fun _ _ => lookup_erase) (fun _ _ _ _ _ _ hn => hn) []

theorem env_rows (x : Store) (v : Env) : ((table L).env v x).rows = x.rows := by
  cases v with
  | tick n => rfl
  | lost t => rfl

/-- **Every step keeps the invariant.** -/
theorem inv_step {x y : OutboxSys L × History} {e : Event (table L) Req} (hx : Inv x)
    (h : (recorded L).step e x = some y) : Inv y := by
  have hstart : ∀ t q, e = .start t q → ∃ σ, PhaseOk y.1.state y.2 σ ∧
      ((outbox L).prog q).Keeps (protocol L) σ :=
    fun t q _ => ⟨([], []), ⟨nofun, nofun⟩, outbox_keeps q⟩
  have hstep := (Lts.noting_step.1 h).1
  rcases recorded_cases hx h with ⟨hne, hstate, hnote⟩ | ⟨t, σ, σ', δ, hok, hm, hnote⟩ |
      ⟨hne, ⟨v, hstate⟩, hnote⟩
  · refine ⟨by rw [hstate, hnote]; exact hx.txs, by rw [hstate, hnote]; exact hx.rows,
      by rw [hstate, hnote]; exact hx.leases, ?_⟩
    refine hx.calls.step hstep hstart (fun u c σ _ _ _ hσ => ?_) fun t n q p p' c r σ f z heq =>
      absurd heq (hne t n)
    rw [hstate, hnote]
    exact hσ
  · refine ⟨by rw [hnote]; exact hx.txs.move hok hm,
      by rw [hnote]; exact hx.rows.move hx.txs hok hm,
      by rw [hnote]; exact hx.leases.move hx.txs hx.rows hm, ?_⟩
    -- the others keep what they know, since rows and journal only grow
    refine hx.calls.step hstep hstart (fun u c σ₁ _ _ _ hσ => ?_)
      fun t' n' q p p' c r σ₁ f z heq hσ hg => ?_
    · rw [hnote]
      exact hσ.later δ fun id => hm.kept
    · subst heq
      obtain ⟨hm', hnote'⟩ := gave_move hg h
      rw [hnote']
      exact hσ.move hm'
  · have hrows : y.1.state.rows = x.1.state.rows := hstate ▸ env_rows x.1.state v
    refine ⟨by rw [hstate, hnote]; exact hx.txs.env v,
      ?_, by rw [hnote]; exact hx.leases.quiet hrows, ?_⟩
    · rw [hnote]
      exact ⟨fun id r hr => hx.rows.sent id r (hrows ▸ hr), fun id hr =>
        hx.rows.inserted id (hrows ▸ hr), hx.rows.tried,
        fun u ids now hc id hid => hrows ▸ hx.rows.held u ids now hc id hid⟩
    · refine hx.calls.step hstep hstart (fun u c σ _ _ _ hσ => ?_) fun t n q p p' c r σ f z heq =>
        absurd heq (hne t n)
      rw [hnote]
      exact ⟨fun id hid => hrows ▸ hσ.claimed id hid, hσ.sent⟩

/-! ## The outbox -/

/-- A committed row. -/
def row (y : OutboxSys L × History) (id : Uuid) : Option Row := y.1.state.rows.lookup id

/-- **Nothing is lost, and nothing is marked as sent that was not**, whatever the order of steps,
wherever a drain crashes and whatever comes of a publish: a published row was sent before; a row
that was tried is one whose transaction has committed; no row is deleted, and whatever sets its
next attempt sets it near; and a claimed row is claimed again only after its lease, or after a
failed publish of it was recorded. -/
theorem outbox_safe (L : OutboxLib) (now : ℤ) {y : OutboxSys L × History}
    (h : (recorded L).Reachable (emptyOutbox L now) y) :
    (∀ id r, row y id = some r → r.publishedAt.isSome → .published id .ok ∈ y.2) ∧
    (∀ id r, .published id r ∈ y.2 → Inserted y.2 id) ∧
    (∀ e z, (recorded L).step e y = some z → ∀ id, (row y id).isSome → (row z id).isSome) ∧
    (∀ e z, (recorded L).step e y = some z → ∀ id r, row z id = some r →
      (row y id).map Row.nextAttemptAt ≠ some r.nextAttemptAt →
      r.nextAttemptAt ≤ z.1.state.now + max lease maxRetryDelay) ∧
    ∀ h₁ t ids now h₂ t' ids' now' h₃, y.2 = h₁ ++ .claimed t ids now :: h₂ ++
      .claimed t' ids' now' :: h₃ →
      ∀ id, id ∈ ids → id ∈ ids' → now' < now + lease → Failed h₂ id := by
  have hy : Inv y := h.inv (fun x e y hx he _ => inv_step hx he) (inv_empty now)
  refine ⟨hy.rows.sent, hy.rows.tried, fun e z hz id hr => ?_, fun e z hz id r hr hset => ?_,
    hy.leases.spaced⟩
  · rcases recorded_cases hy hz with ⟨-, hstate, -⟩ | ⟨t, σ, σ', δ, -, hm, -⟩ | ⟨-, ⟨v, hstate⟩, -⟩
    · rw [row, hstate]
      exact hr
    · exact hm.kept hr
    · rw [row, hstate, env_rows]
      exact hr
  · rcases recorded_cases hy hz with ⟨-, hstate, -⟩ | ⟨t, σ, σ', δ, -, hm, -⟩ | ⟨-, ⟨v, hstate⟩, -⟩
    · rw [row, hstate] at hr
      exact absurd (congrArg (Option.map Row.nextAttemptAt) hr) hset
    · exact hm.next hy.txs hr hset
    · rw [row, hstate, env_rows] at hr
      exact absurd (congrArg (Option.map Row.nextAttemptAt) hr) hset

/-! ## A retry within the lease -/

def sampleLib : OutboxLib where
  toText _ := .ok "\x7b\x7d"
  showUuid _ := "00000000-0000-0000-0000-000000000005"
  showInstant _ := "1970-01-01T00:00:00Z"
  showKafka _ := "Message production error"

def sampleEvent : NewEvent := ⟨"dreamfly.orders.created", "order_created", "k", .ok (.obj []), none⟩

/-- Row 7 is inserted at time 0 and claimed by drain 1, whose publish fails. -/
def failedDrain : List (Event (table sampleLib) Req) :=
  [.start 0 (.produce [sampleEvent] true), .step 0 0, .step 0 5, .step 0 0, .step 0 7, .step 0 0,
    .step 0 0,
    .start 1 .drain, .step 1 0, .step 1 0, .step 1 2, .step 1 0, .step 1 0, .step 1 0]

def threeSeconds : Event (table sampleLib) Req := .env (Env.tick 3)

/-- Drain 2 claims it three seconds later. -/
def retried : OutboxSys sampleLib × History :=
  (recorded sampleLib).after (failedDrain ++ [threeSeconds, .start 2 .drain, .step 2 0, .step 2 0])
    (emptyOutbox sampleLib 0)

theorem retried_history : ∃ h₁ h₂, retried.2 = h₁ ++ .claimed 1 [7] 0 :: h₂ ++
    [.claimed 2 [7] 3] := by
  exact ⟨[.committed _], [.published 7 (.err "Message production error"), .committed _], rfl⟩

theorem outbox_safe_retried : ∃ h₁ h₂, retried.2 = h₁ ++ .claimed 1 [7] 0 :: h₂ ++
    [.claimed 2 [7] 3] ∧ Failed h₂ 7 := by
  obtain ⟨h₁, h₂, heq⟩ := retried_history
  obtain ⟨-, -, -, -, hspaced⟩ := outbox_safe sampleLib 0 (Lts.reachable_after (failedDrain ++ _))
  exact ⟨h₁, h₂, heq, hspaced h₁ 1 [7] 0 h₂ 2 [7] 3 [] heq 7 List.mem_cons_self List.mem_cons_self
    (by decide)⟩

/-- **The lease of a claim does not outlive a failed publish**: the row is claimed by another drain
while the lease has not expired. -/
theorem lease_cut_short :
    ¬∀ y, (recorded sampleLib).Reachable (emptyOutbox sampleLib 0) y →
      ∀ h₁ t ids now h₂ t' ids' now' h₃, y.2 = h₁ ++ .claimed t ids now :: h₂ ++
        .claimed t' ids' now' :: h₃ →
        ∀ id, id ∈ ids → id ∈ ids' → t' ≠ t → now + lease ≤ now' := by
  intro h
  obtain ⟨h₁, h₂, heq⟩ := retried_history
  have hle := h retried (Lts.reachable_after _) h₁ 1 [7] 0 h₂ 2 [7] 3
    [] heq 7 List.mem_cons_self List.mem_cons_self (by decide)
  exact absurd hle (by decide)

end DreamFly.Kafka.Outbox
