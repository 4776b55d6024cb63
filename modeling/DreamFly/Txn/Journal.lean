import DreamFly.Txn.Stages
import DreamFly.Txn.Yields

/-!
# The journal of a run

Every commit of a run, in order: whose it was, what it wrote over which store, and what
the call answered right after it.

* `journal_linked`: the entries lead from the first store to the last.
* `journal_meets`: each entry is a commit that its request's contract describes.
* `Prog.Closes`, `recorded`: of calls that are one transaction each, whose answer follows
  the commit, the journal has one entry for each that has committed, with its answer.
-/

namespace Txn

variable {S : Schema} {E A Q α β : Type}

/-- What a program that is over has ended with. -/
def Prog.outcome : Prog S E α → Option (Except E α)
  | .ret a => some (.ok a)
  | .fail e => some (.error e)
  | _ => none

/-- A commit. -/
structure Entry (S : Schema) (E A Q : Type) where
  call : ℕ
  req : Q
  writes : List (Write S)
  reply : Option (Except E A)
  before : Store S

/-- The store it left. -/
def Entry.after (x : Entry S E A Q) : Store S := Store.overlay x.writes x.before

/-- The commit that an event is. -/
def Sys.entry (s : Sys S E A Q) : Event Q → Option (Entry S E A Q)
  | .step t _ =>
    (s.call t).bind fun c => match c.prog with
      | .commit k => some ⟨t, c.req, c.ws, k.outcome, s.db⟩
      | _ => none
  | _ => none

/-- The journal after an event. -/
def journal (γ : List (Entry S E A Q)) (s : Sys S E A Q) (e : Event Q) (_ : Sys S E A Q) :
    Option (List (Entry S E A Q)) :=
  some (γ ++ (s.entry e).toList)

/-- A run from `d` reaches `s`, and `γ` is its journal. -/
abbrev Service.Journaled (V : Service S E A Q) (ok : Sys S E A Q → Event Q → Sys S E A Q → Prop)
    (d : Store S) (s : Sys S E A Q)
    (γ : List (Entry S E A Q)) : Prop :=
  V.RecReach journal ok (Sys.init d, []) (s, γ)

variable {V : Service S E A Q} {ok : Sys S E A Q → Event Q → Sys S E A Q → Prop} {d d₁ d' : Store S}
  {s s' : Sys S E A Q}
  {γ γ₁ γ₂ : List (Entry S E A Q)} {x : Entry S E A Q} {e : Event Q}

/-- **What an event is to the journal**: nothing, or a commit. -/
theorem entry_cases (h : V.step e s = some s') :
    (s.entry e = none ∧ s'.db = s.db) ∨
      ∃ t n c k, e = .step t n ∧ s.call t = some c ∧ c.prog = .commit k ∧
        s' = s.set t (c.endTx k true) (c.sees s.db) ∧
        s.entry e = some ⟨t, c.req, c.ws, k.outcome, s.db⟩ := by
  rcases step_cases h with ⟨t, q, rfl, -, rfl⟩ | ⟨t, n, c, c', d', rfl, hc, ha, rfl⟩ |
      ⟨t, c, rfl, -, -, rfl⟩
  · exact .inl ⟨rfl, rfl⟩
  · have hentry : s.entry (.step t n) = match c.prog with
        | .commit k => some ⟨t, c.req, c.ws, k.outcome, s.db⟩
        | _ => none := by rw [Sys.entry, hc]; rfl
    -- only a commit changes the store
    cases hp : c.prog with
    | commit k =>
      rw [hp] at hentry
      simp only [Call.advance, hp] at ha
      cases ha
      exact .inr ⟨t, n, c, k, rfl, hc, hp, rfl, hentry⟩
    | _ =>
      rw [hp] at hentry
      refine .inl ⟨hentry, ?_⟩
      rcases (advance_inv ha).2.2 with h | ⟨_, _, _, _, _, h, _⟩ | ⟨_, _, _, h, _⟩ | ⟨k, hk, -⟩ |
          ⟨_, _, _, h, _⟩
      · exact h.1
      · exact h
      · exact h
      · rw [hp] at hk; cases hk
      · exact h
  · exact .inl ⟨rfl, rfl⟩

/-- The last event of a run with its journal. -/
theorem journaled_induct {P : Sys S E A Q → List (Entry S E A Q) → Prop} (h0 : P (Sys.init d) [])
    (hstep : ∀ s γ e s', V.Journaled ok d s γ → V.step e s = some s' → ok s e s' → P s γ →
      P s' (γ ++ (s.entry e).toList))
    (h : V.Journaled ok d s γ) : P s γ := by
  suffices H : ∀ y, V.RecReach journal ok (Sys.init d, []) y → P y.1 y.2 from H _ h
  intro y hy
  induction hy with
  | refl => exact h0
  | @tail y z hr hst ih =>
    obtain ⟨e, he, hg, hok⟩ := hst
    rw [← Option.some.inj hg]
    exact hstep y.1 y.2 e z.1 hr he hok ih

/-- The state and the journal after a list of events; nothing where one of them cannot happen. -/
def Service.journalAfter (V : Service S E A Q) (es : List (Event Q)) (d : Store S) :
    Sys S E A Q × List (Entry S E A Q) :=
  (V.runRec journal es (Sys.init d, [])).getD (Sys.init d, [])

theorem journaled_after (hok : ∀ s e s', ok s e s') (es : List (Event Q)) (d : Store S) :
    V.Journaled ok d (V.journalAfter es d).1 (V.journalAfter es d).2 := by
  unfold Service.journalAfter
  cases h : V.runRec journal es (Sys.init d, []) with
  | none => exact .refl
  | some y => exact .of_run hok h

/-- The same, when every step passes the test `T`. -/
theorem journaled_checks {T : Sys S E A Q → Event Q → Sys S E A Q → Bool} {es : List (Event Q)}
    (h : V.checks T es (Sys.init d) = true) :
    V.Journaled (fun a e b => T a e b = true) d (V.journalAfter es d).1
      (V.journalAfter es d).2 := by
  suffices H : ∀ (es : List (Event Q)) (x : Sys S E A Q × List (Entry S E A Q)),
      V.checks T es x.1 = true →
      ∃ y, V.runRec journal es x = some y ∧ V.RecReach journal (fun a e b => T a e b = true) x y by
    obtain ⟨y, hy, hr⟩ := H es (Sys.init d, []) h
    unfold Service.journalAfter
    rw [hy]
    exact hr
  intro es
  induction es with
  | nil => exact fun x _ => ⟨x, rfl, .refl⟩
  | cons e es ih =>
    intro x hx
    unfold Service.checks at hx
    split at hx
    · cases hx
    next s₁ he =>
    rw [Bool.and_eq_true] at hx
    obtain ⟨y, hy, hr⟩ := ih (s₁, x.2 ++ (x.1.entry e).toList) hx.2
    exact ⟨y, by rw [Service.runRec, he]; exact hy, .head ⟨e, he, rfl, hx.1⟩ hr⟩

/-- The journal grows at its end. -/
theorem journal_grows (h : V.RecReach journal ok (s, γ₁) (s', γ)) : ∃ γ₂, γ = γ₁ ++ γ₂ := by
  suffices H : ∀ y, V.RecReach journal ok (s, γ₁) y → ∃ γ₂, y.2 = γ₁ ++ γ₂ from H _ h
  intro y hy
  induction hy with
  | refl => exact ⟨[], (List.append_nil γ₁).symm⟩
  | tail _ hst ih =>
    obtain ⟨e, -, hg, -⟩ := hst
    obtain ⟨γ₂, hγ⟩ := ih
    exact ⟨_, by rw [← Option.some.inj hg, hγ, List.append_assoc]⟩

/-- A call of a run began in it. -/
theorem journaled_start {t : ℕ} {c : Call S E A Q} (h : V.Journaled ok d s γ)
    (hc : s.call t = some c) :
    ∃ s₀ γ₀, V.Journaled ok d s₀ γ₀ ∧ V.RecReach journal ok (s₀, γ₀) (s, γ) ∧
      s₀.call t = some (V.fresh c.req s₀.db) ∧
      c.born = s₀.db := by
  suffices H : ∀ y, V.RecReach journal ok (Sys.init d, []) y → ∀ c, y.1.call t = some c →
      ∃ s₀ γ₀, V.Journaled ok d s₀ γ₀ ∧ V.RecReach journal ok (s₀, γ₀) y ∧
        s₀.call t = some (V.fresh c.req s₀.db) ∧
        c.born = s₀.db from H _ h c hc
  intro y hy
  induction hy with
  | refl => exact fun c hc => by rw [Sys.call_init] at hc; cases hc
  | @tail y z hr hst ih =>
    intro c hc
    have hlast : V.RecReach journal ok y z := .single hst
    obtain ⟨e, he, -⟩ := hst
    rcases call_before he hc with hfresh | ⟨c₁, hc₁, hreq, hborn⟩
    · exact ⟨z.1, z.2, hr.trans hlast, .refl, by rw [hc]; exact congrArg some hfresh,
        congrArg Call.born hfresh⟩
    · obtain ⟨s₀, γ₀, h1, h2, h3, h4⟩ := ih c₁ hc₁
      exact ⟨s₀, γ₀, h1, h2.trans hlast, hreq ▸ h3, hborn.trans h4⟩

/-! ## From store to store -/

/-- The entries lead from `d` to `d'`. -/
def Linked : Store S → List (Entry S E A Q) → Store S → Prop
  | d, [], d' => d' = d
  | d, x :: γ, d' => x.before = d ∧ Linked x.after γ d'

theorem Linked.append (h : Linked d γ₁ d₁) (h' : Linked d₁ γ₂ d') : Linked d (γ₁ ++ γ₂) d' := by
  induction γ₁ generalizing d with
  | nil => cases h; exact h'
  | cons x γ₁ ih => exact ⟨h.1, ih h.2⟩

theorem Linked.split (h : Linked d (γ₁ ++ γ₂) d') : ∃ d₁, Linked d γ₁ d₁ ∧ Linked d₁ γ₂ d' := by
  induction γ₁ generalizing d with
  | nil => exact ⟨d, rfl, h⟩
  | cons x γ₁ ih =>
    obtain ⟨d₁, h1, h2⟩ := ih h.2
    exact ⟨d₁, ⟨h.1, h1⟩, h2⟩

theorem Linked.unique (h : Linked d γ d₁) (h' : Linked d γ d') : d₁ = d' := by
  induction γ generalizing d with
  | nil => cases h; cases h'; rfl
  | cons x γ ih => exact ih h.2 h'.2

/-- The stores around an entry. -/
theorem Linked.at_entry (h : Linked d (γ₁ ++ x :: γ₂) d') : Linked d γ₁ x.before ∧
    Linked x.after γ₂ d' := by
  obtain ⟨d₁, h1, h2⟩ := h.split
  exact ⟨h2.1 ▸ h1, h2.2⟩

/-- What every entry keeps, all of them keep. -/
theorem Linked.inv {P : Store S → Prop} (hP : ∀ x ∈ γ, P x.before → P x.after) (h : Linked d γ d')
    (h0 : P d) : P d' := by
  induction γ generalizing d with
  | nil => cases h; exact h0
  | cons x γ ih =>
    exact ih (fun y hy => hP y (List.mem_cons_of_mem x hy)) h.2 (hP x List.mem_cons_self (h.1 ▸ h0))

/-- What holds at the end and not at the start has come true by an entry. -/
theorem Linked.since {P : Store S → Prop} (h : Linked d γ d') (h0 : ¬ P d) (h1 : P d') :
    ∃ γ₁ x γ₂, γ = γ₁ ++ x :: γ₂ ∧ ¬ P x.before ∧ P x.after := by
  induction γ generalizing d with
  | nil => cases h; exact absurd h1 h0
  | cons x γ ih =>
    by_cases hx : P x.after
    · exact ⟨[], x, γ, rfl, h.1 ▸ h0, hx⟩
    · obtain ⟨γ₁, y, γ₂, rfl, h2, h3⟩ := ih h.2 hx
      exact ⟨x :: γ₁, y, γ₂, rfl, h2, h3⟩

theorem journal_linked (h : V.Journaled ok d s γ) : Linked d γ s.db := by
  refine journaled_induct (P := fun s γ => Linked d γ s.db) rfl (fun s γ e s' _ he _ ih => ?_) h
  rcases entry_cases he with ⟨hn, hdb⟩ | ⟨t, n, c, k, -, hc, hk, rfl, hn⟩
  · rw [hn, hdb, Option.toList_none, List.append_nil]; exact ih
  · rw [hn]
    exact ih.append ⟨rfl, rfl⟩

/-- **Each entry is a commit that the contract describes.** -/
theorem journal_meets {D : Discipline S} {C : Contract V D}
    (hOK : ∀ s₁, V.Reach ok (Sys.init d) s₁ → s₁.OK C)
    (h : V.Journaled ok d s γ) :
    ∀ x ∈ γ, ∃ σ : Pt S, σ.now = x.before ∧ σ.db = x.after ∧ σ.ws = x.writes ∧
      (C.oblig x.req).commit σ := by
  refine journaled_induct (P := fun _ γ => ∀ x ∈ γ, ∃ σ : Pt S, σ.now = x.before ∧ σ.db = x.after ∧
    σ.ws = x.writes ∧
    (C.oblig x.req).commit σ) (fun x hx => by cases hx) (fun s γ e s' hr he _ ih x hx => ?_) h
  rcases List.mem_append.1 hx with hx | hx
  · exact ih x hx
  rcases entry_cases he with ⟨hn, -⟩ | ⟨t, n, c, k, -, hc, hk, rfl, hn⟩
  · rw [hn] at hx; cases hx
  · rw [hn] at hx
    cases List.mem_singleton.1 hx
    obtain ⟨start, -, ho⟩ := (hOK s hr.reach).commit ⟨hc, k, hk, rfl⟩
    exact ⟨c.pt start s.db, rfl, rfl, rfl, ho⟩

/-! ## Calls that answer with their commit -/

/-- From pending writes `ws` on the program commits at most once, and is over then: its
writes and its answer are as `R` says. Without a commit it ends as `N` and `X` say. -/
def Prog.Closes (R : List (Write S) → Except E α → Prop) (N : List (Write S) → α → Prop)
    (X : List (Write S) → E → Prop) :
    List (Write S) → Prog S E α → Prop
  | ws, .ret a => N ws a
  | ws, .fail e => X ws e
  | ws, .view k => ∀ v, (k v).Closes R N X ws
  | ws, .lock _ _ k => k.Closes R N X ws
  | ws, .fresh _ _ k => ∀ n, (k n).Closes R N X ws
  | ws, .pick k => ∀ n, (k n).Closes R N X ws
  | ws, .write w k => k.Closes R N X (ws ++ [w])
  | ws, .commit k => ∃ r, k.outcome = some r ∧ R ws r
  | _, .rollback _ k => k.Closes R N X []

/-- A piece that does not commit. -/
abbrev Prog.Inner (M : List (Write S) → α → Prop) (X : List (Write S) → E → Prop)
    (ws : List (Write S)) (p : Prog S E α) : Prop :=
  p.Closes (fun _ _ => False) M X ws

variable {R : List (Write S) → Except E β → Prop} {N : List (Write S) → β → Prop}
  {M M' : List (Write S) → α → Prop}
  {X X' : List (Write S) → E → Prop} {ws : List (Write S)} {p : Prog S E α}

namespace Prog

theorem Inner.handle {okk : α → Prog S E β} {err : E → Prog S E β} (h : p.Inner M X ws)
    (hok : ∀ ws a, M ws a → (okk a).Closes R N X' ws) (herr : ∀ ws e, X ws e →
      (err e).Closes R N X' ws) :
    (p.handle okk err).Closes R N X' ws := by
  induction p generalizing ws with
  | ret a => exact hok ws a h
  | fail e => exact herr ws e h
  | view k ih => exact fun v => ih v (h v)
  | lock r m k ih => exact ih h
  | fresh t key k ih => exact fun n => ih n (h n)
  | pick k ih => exact fun n => ih n (h n)
  | write w k ih => exact ih h
  | commit k ih =>
    obtain ⟨r, -, hr⟩ := h
    exact hr.elim
  | rollback e k ih => exact ih h

theorem Inner.bind {k : α → Prog S E β} (h : p.Inner M X ws)
    (hok : ∀ ws a, M ws a → (k a).Closes R N X' ws)
    (herr : ∀ ws e, X ws e → X' ws e) : (p >>= k).Closes R N X' ws :=
  h.handle hok herr

/-- A transaction, and an answer to its result. -/
theorem Inner.atomically {k : α → Prog S E β} (h : p.Inner M X ws)
    (hok : ∀ ws a, M ws a → ∃ r, (k a).outcome = some r ∧ R ws r)
    (herr : ∀ ws e, X ws e → X' [] e) :
    (p.atomically >>= k).Closes R N X' ws := by
  rw [Prog.bind_eq, Prog.atomically, Prog.handle_handle]
  exact h.handle hok herr

theorem Inner.imp (h : p.Inner M X ws) (hM : ∀ ws a, M ws a → M' ws a)
    (hX : ∀ ws e, X ws e → X' ws e) : p.Inner M' X' ws := by
  induction p generalizing ws with
  | ret a => exact hM _ _ h
  | fail e => exact hX _ _ h
  | view k ih => exact fun v => ih v (h v)
  | lock r m k ih => exact ih h
  | fresh t key k ih => exact fun n => ih n (h n)
  | pick k ih => exact fun n => ih n (h n)
  | write w k ih => exact ih h
  | commit k ih =>
    obtain ⟨r, -, hr⟩ := h
    exact hr.elim
  | rollback e k ih => exact ih h

/-- The answer, in another form. -/
theorem Closes.map {R : List (Write S) → Except E α → Prop} {R' : List (Write S) → Except E β →
    Prop} {N : List (Write S) → α → Prop}
    {N' : List (Write S) → β → Prop} {f : α → β} (h : p.Closes R N X ws)
    (hR : ∀ ws r, R ws r → R' ws (r.map f))
    (hN : ∀ ws a, N ws a → N' ws (f a)) : (p >>= fun a => pure (f a)).Closes R' N' X ws := by
  rw [Prog.bind_eq]
  induction p generalizing ws with
  | ret a => exact hN ws a h
  | fail e => exact h
  | view k ih => exact fun v => ih v (h v)
  | lock r m k ih => exact ih h
  | fresh t key k ih => exact fun n => ih n (h n)
  | pick k ih => exact fun n => ih n (h n)
  | write w k ih => exact ih h
  | commit k ih =>
    obtain ⟨r, ho, hr⟩ := h
    refine ⟨r.map f, ?_, hR ws r hr⟩
    cases k with
    | ret a => cases ho; rfl
    | fail e => cases ho; rfl
    | _ => cases ho
  | rollback e k ih => exact ih h

/-! ### Statements -/

section statements
variable {t : S.Tbl} {key : S.Key t} {m : Mode}

theorem Inner.orFail {o : Option α} {e : E} (he : X ws e) :
    (Prog.orFail o e).Inner (fun ws' a => ws' = ws ∧ o = some a) X ws := by
  cases o with
  | none => exact he
  | some a => exact ⟨rfl, rfl⟩

theorem Inner.ensure {c : Bool} {e : E} (he : X ws e) :
    (Prog.ensure c e).Inner (fun ws' _ => ws' = ws ∧ c = true) X ws := by
  cases c with
  | false => exact he
  | true => exact ⟨rfl, rfl⟩

theorem Inner.lockRes (r : Res S) (m : Mode) :
    (Prog.lockRes r m : Prog S E Unit).Inner (fun ws' _ => ws' = ws) X ws := rfl

theorem Inner.choose : (Prog.choose : Prog S E ℕ).Inner (fun ws' _ => ws' = ws) X ws := fun _ => rfl

theorem Inner.put (w : Write S) : (Prog.put w : Prog S E Unit).Inner
    (fun ws' _ => ws' = ws ++ [w]) X ws := rfl

theorem Inner.read (q : Store S → α) :
    (Prog.read q : Prog S E α).Inner (fun ws' _ => ws' = ws) X ws := fun _ => rfl

theorem Inner.claim (r : Res S) (taken : Store S → Bool) :
    (Prog.claim r taken : Prog S E Bool).Inner (fun ws' _ => ws' = ws) X ws :=
  fun _ => rfl

theorem Inner.recheck (t : S.Tbl) (key : S.Key t) (q : S.Row t → Bool) (m : Mode) :
    (Prog.recheck t key q m : Prog S E (Option (S.Row t))).Inner (fun ws' _ => ws' = ws) X ws :=
    fun _ => rfl

theorem Inner.references {e : E} (he : X ws e) :
    (Prog.references t key e).Inner (fun ws' _ => ws' = ws) X ws := by
  unfold Prog.references
  refine (Inner.read _).bind (fun ws' r hw => ?_) fun _ _ h => h
  subst hw
  cases r with
  | none => exact he
  | some r => exact Inner.lockRes _ _

theorem Inner.selectFor (q : S.Row t → Bool) (m : Mode) :
    (Prog.selectFor t key q m : Prog S E (Option (S.Row t))).Inner
      (fun ws' _ => ws' = ws) X ws := by
  unfold Prog.selectFor
  refine (Inner.read _).bind (fun ws' r hw => ?_) fun _ _ h => h
  subst hw
  split
  · exact rfl
  · exact Inner.recheck t key q m

/-- An UPDATE that finds no row writes nothing. -/
theorem Inner.updateRow (q : S.Row t → Bool) (f : S.Row t → S.Row t) :
    (Prog.updateRow t key q f : Prog S E (Option (S.Row t))).Inner
      (fun ws' o => ws' = if o.isSome then ws ++ [.mod t key (onlyIf q f)] else ws) X ws := by
  unfold Prog.updateRow
  refine (Inner.selectFor q _).bind (fun ws' o hw => ?_) fun _ _ h => h
  subst hw
  cases o with
  | none => exact rfl
  | some r => exact rfl

theorem Inner.writeEach (q : S.Key t → S.Row t → Bool) (m : Mode) (w : S.Key t → Write S)
    (ks : List (S.Key t)) :
    (Prog.writeEach t q m w ks : Prog S E _).Inner (fun ws' rs => ws' =
      ws ++ (rs.map Prod.fst).map w) X ws := by
  induction ks generalizing ws with
  | nil => exact (List.append_nil ws).symm
  | cons k ks ih =>
    unfold Prog.writeEach
    refine (Inner.recheck t k (q k) m).bind (fun ws' o hw => ?_) fun _ _ h => h
    subst hw
    cases o with
    | none => exact ih
    | some r =>
      refine (Inner.put (w k)).bind (fun ws' _ hw => ?_) fun _ _ h => h
      subst hw
      refine ih.bind (fun ws' rs hw => ?_) fun _ _ h => h
      exact hw.trans (List.append_assoc _ _ _)

/-- A DELETE writes a deletion of each row it found. -/
theorem Inner.deleteAll (q : S.Key t → S.Row t → Bool) :
    (Prog.deleteAll t q : Prog S E _).Inner (fun ws' rs =>
      ws' = ws ++ (rs.map Prod.fst).map fun k => .del t k) X ws := by
  unfold Prog.deleteAll
  refine (Inner.read _).bind (fun ws' hits hw => ?_) fun _ _ h => h
  subst hw
  refine Inner.choose.bind (fun ws' n hw => ?_) fun _ _ h => h
  subst hw
  exact Inner.writeEach q .update _ _

end statements

end Prog

/-- What a piece has written, beside what it is specified to do. -/
theorem Yields.inner {D : Discipline S} {O : Oblig S E} {σ : Pt S} {F : E → Prop}
    {R : α → Pt S → Prop}
    (h : Yields D O σ p F R) (hi : p.Inner M X σ.ws) : Yields D O σ p F fun a σ' => R a σ' ∧
    M σ'.ws a := by
  suffices H : ∀ (Q : α → Pt S → Prop) (Z : E → Pt S → Prop) (σ : Pt S), p.Inner M X σ.ws →
      Txn.wp D O Q Z p σ →
      Txn.wp D O (fun a σ' => Q a σ' ∧ M σ'.ws a) Z p σ from
    wp_mono (fun _ _ ⟨⟨hl, hR⟩, hM⟩ => ⟨hl, hR, hM⟩) (fun _ _ h => h) p σ (H _ _ σ hi h)
  intro Q Z
  clear h hi
  induction p with
  | ret a => exact fun σ hi h => ⟨h, hi⟩
  | fail e => exact fun σ _ h => h
  | view k ih => exact fun σ hi h v hs hv hm => ih v σ (hi v) (h v hs hv hm)
  | lock r m k ih => exact fun σ hi h => ⟨h.1, ih _ hi h.2⟩
  | fresh t key k ih => exact fun σ hi h n h1 h2 h3 => ih n _ (hi n) (h n h1 h2 h3)
  | pick k ih => exact fun σ hi h n => ih n σ (hi n) (h n)
  | write w k ih => exact fun σ hi h => ⟨h.1, ih _ hi h.2⟩
  | commit k ih =>
    intro σ hi
    obtain ⟨r, -, hr⟩ := hi
    exact hr.elim
  | rollback e k ih => exact fun σ hi h => ⟨h.1, fun d hd => ih _ hi (h.2 d hd)⟩

/-! ### The calls in the journal -/

section recorded
variable {R : Q → List (Write S) → Except E A → Prop} {N : Q → List (Write S) → A → Prop}
  {X : Q → List (Write S) → E → Prop}
  {c : Call S E A Q} {t : ℕ}

/-- What the journal has of calls that are one transaction each. -/
structure Recorded (R : Q → List (Write S) → Except E A → Prop) (N : Q → List (Write S) → A → Prop)
    (X : Q → List (Write S) → E → Prop)
    (s : Sys S E A Q) (γ : List (Entry S E A Q)) : Prop where
  answered : ∀ x ∈ γ, ∃ r, x.reply = some r ∧ R x.req x.writes r
  calls : ∀ x ∈ γ, ∃ c, s.call x.call = some c ∧ c.req = x.req ∧ c.committed = true
  once : (γ.map Entry.call).Nodup
  committed : ∀ t c, s.call t = some c → c.committed = true →
    ∃ x ∈ γ, x.call = t ∧ x.req = c.req ∧ x.reply = c.prog.outcome ∧ x.reply.isSome
  pending : ∀ t c, s.call t = some c → c.committed = false → c.prog.Closes (R c.req) (N c.req)
    (X c.req) c.ws

/-- An operation that commits nothing keeps a program closing. -/
theorem closes_advance {R : List (Write S) → Except E A → Prop} {N : List (Write S) → A → Prop}
    {X : List (Write S) → E → Prop}
    {c c' : Call S E A Q} {busy : Res S → Mode → Bool} {n : ℕ} (h : c.prog.Closes R N X c.ws)
    (ha : c.advance busy n d = some (d', c')) (hn : c.prog.isCommit = false) :
    c'.prog.Closes R N X c'.ws ∧ c'.committed = c.committed := by
  unfold Call.advance at ha
  split at ha
  · cases ha
  · cases ha
  case h_3 k hk =>
    cases ha
    rw [hk] at h
    exact ⟨h _, rfl⟩
  case h_4 r m k hk =>
    split at ha
    · cases ha
    · cases ha
      rw [hk] at h
      exact ⟨h, rfl⟩
  case h_5 t key k hk =>
    simp only at ha
    split at ha
    · cases ha
    · cases ha
      rw [hk] at h
      exact ⟨h n, rfl⟩
  case h_6 k hk =>
    cases ha
    rw [hk] at h
    exact ⟨h n, rfl⟩
  case h_7 w k hk =>
    cases ha
    rw [hk] at h
    exact ⟨h, rfl⟩
  case h_8 k hk =>
    rw [hk] at hn
    cases hn
  case h_9 x k hk =>
    cases ha
    rw [hk] at h
    exact ⟨h, rfl⟩

/-- A program that is over cannot go on. -/
theorem advance_of_outcome {c : Call S E A Q} {busy : Res S → Mode → Bool} {n : ℕ}
    (h : c.prog.outcome.isSome) :
    c.advance busy n d = none := by
  unfold Call.advance
  cases hp : c.prog with
  | ret a => rfl
  | fail e => rfl
  | _ => rw [hp] at h; cases h

theorem finished_of_outcome {c : Call S E A Q} (h : c.prog.outcome.isSome) : c.finished = true := by
  unfold Call.finished
  cases hp : c.prog with
  | ret a => rfl
  | fail e => rfl
  | _ => rw [hp] at h; cases h

theorem Recorded.uncommitted (h : Recorded R N X s γ) (hc : s.call t = some c)
    (ho : c.prog.outcome = none) : c.committed = false := by
  by_contra hcom
  obtain ⟨x, -, -, -, hreply, hsome⟩ := h.committed t c hc (by simpa using hcom)
  rw [hreply, ho] at hsome
  cases hsome

/-- An event without a commit, after which call `t` is `c`. -/
theorem Recorded.set {c' : Call S E A Q} (h : Recorded R N X s γ) (hc : ∀ c, s.call t = some c →
    c.committed = false)
    (hcom : c'.committed = false) (hp : c'.prog.Closes (R c'.req) (N c'.req) (X c'.req) c'.ws) :
    Recorded R N X (s.set t c' d) γ where
  answered := h.answered
  calls x hx := by
    obtain ⟨c₀, hc₀, hreq, hcom₀⟩ := h.calls x hx
    have hne : x.call ≠ t := fun he => by rw [he] at hc₀; rw [hc c₀ hc₀] at hcom₀; cases hcom₀
    exact ⟨c₀, by rw [Sys.call_set_ne _ hne, hc₀], hreq, hcom₀⟩
  once := h.once
  committed u c₀ hu hcom₀ := by
    rw [Sys.call_set] at hu
    split at hu
    · cases hu
      rw [hcom] at hcom₀
      cases hcom₀
    · exact h.committed u c₀ hu hcom₀
  pending u c₀ hu hcom₀ := by
    rw [Sys.call_set] at hu
    split at hu
    · cases hu
      exact hp
    · exact h.pending u c₀ hu hcom₀

/-- A commit. -/
theorem Recorded.commit {k : Prog S E A} (h : Recorded R N X s γ) (hc : s.call t = some c)
    (hk : c.prog = .commit k) :
    Recorded R N X (s.set t (c.endTx k true) d) (γ ++ [⟨t, c.req, c.ws, k.outcome, s.db⟩]) := by
  have hcom := h.uncommitted hc (by rw [hk]; rfl)
  have hclose := h.pending t c hc hcom
  rw [hk] at hclose
  obtain ⟨r, hr, hR⟩ := hclose
  -- a call commits once: it has no entry yet
  have hnew : ∀ x ∈ γ, x.call ≠ t := by
    intro x hx he
    obtain ⟨c₀, hc₀, -, hcom₀⟩ := h.calls x hx
    rw [he, hc] at hc₀
    cases hc₀
    rw [hcom] at hcom₀
    cases hcom₀
  refine ⟨fun x hx => ?_, fun x hx => ?_, ?_, fun u c₀ hu hcom₀ => ?_, fun u c₀ hu hcom₀ => ?_⟩
  · rcases List.mem_append.1 hx with hx | hx
    · exact h.answered x hx
    · cases List.mem_singleton.1 hx
      exact ⟨r, hr, hR⟩
  · rcases List.mem_append.1 hx with hx | hx
    · obtain ⟨c₀, hc₀, hreq, hcom₀⟩ := h.calls x hx
      exact ⟨c₀, by rw [Sys.call_set_ne _ (hnew x hx), hc₀], hreq, hcom₀⟩
    · cases List.mem_singleton.1 hx
      exact ⟨_, Sys.call_set_self .., rfl, rfl⟩
  · rw [List.map_append, List.map_singleton, ← List.concat_eq_append, List.nodup_concat]
    exact ⟨fun hm => (List.mem_map.1 hm).elim fun x hx => hnew x hx.1 hx.2, h.once⟩
  · rw [Sys.call_set] at hu
    split at hu
    next hut =>
      cases hu
      exact ⟨_, List.mem_append_right _ List.mem_cons_self, hut.symm, rfl, rfl, by rw [hr]; rfl⟩
    · obtain ⟨x, hx, hrest⟩ := h.committed u c₀ hu hcom₀
      exact ⟨x, List.mem_append_left _ hx, hrest⟩
  · rw [Sys.call_set] at hu
    split at hu
    · cases hu
      cases hcom₀
    · exact h.pending u c₀ hu hcom₀

/-- **The journal has each call that has committed once, with its answer.** -/
theorem recorded (hV : ∀ q, (V.prog q).Closes (R q) (N q) (X q) []) (hcrash : ∀ q, X q [] V.crash)
    (h : V.Journaled ok d s γ) :
    Recorded R N X s γ := by
  have hinit : Recorded R N X (Sys.init d) [] := by
    refine ⟨fun _ hx => (nomatch hx), fun _ hx => (nomatch hx), List.nodup_nil, fun t c hc => ?_,
      fun t c hc => ?_⟩
    all_goals
      rw [Sys.call_init] at hc
      cases hc
  refine journaled_induct (P := fun s γ => Recorded R N X s γ) hinit
    (fun s γ e s' _ he _ ih => ?_) h
  rcases entry_cases he with ⟨hn, -⟩ | ⟨t, n, c, k, -, hc, hk, rfl, hn⟩
  · rw [hn, Option.toList_none, List.append_nil]
    rcases step_cases he with ⟨t, q, rfl, hnone, rfl⟩ | ⟨t, n, c, c', d', rfl, hc, ha, rfl⟩ |
        ⟨t, c, rfl, hc, hf, rfl⟩
    · exact ih.set (fun c hc => by rw [hnone] at hc; cases hc) rfl (hV q)
    · have ho : c.prog.outcome = none := by
        by_contra ho
        rw [advance_of_outcome (Option.isSome_iff_ne_none.2 ho)] at ha
        cases ha
      have hcom := ih.uncommitted hc ho
      -- an event without an entry is no commit
      have hcommit : c.prog.isCommit = false := by
        cases hp : c.prog with
        | commit k =>
          rw [Sys.entry, hc, Option.bind_some, hp] at hn
          cases hn
        | _ => rfl
      obtain ⟨hp, hcom'⟩ := closes_advance (ih.pending t c hc hcom) ha hcommit
      exact ih.set (fun c₀ hc₀ => by rw [hc] at hc₀; cases hc₀; exact hcom) (hcom'.trans hcom)
        (by rw [(advance_inv ha).1]; exact hp)
    · have ho : c.prog.outcome = none := by
        by_contra ho
        rw [finished_of_outcome (Option.isSome_iff_ne_none.2 ho)] at hf
        cases hf
      have hcom := ih.uncommitted hc ho
      exact ih.set (fun c₀ hc₀ => by rw [hc] at hc₀; cases hc₀; exact hcom) hcom (hcrash c.req)
  · rw [hn]
    exact ih.commit hc hk

end recorded

end Txn
