import DreamFly.Txn.Sound
import DreamFly.Txn.Yields

/-!
# Services of which the commits matter

Of many services only two things are to be shown: that every write is made under the
locks it needs, and what the commits do (`Commits`).

* `plainContract`: the contract of such a service.
* `plain_inv`: what every commit keeps holds in every reachable state.
* `rowLocks`: the discipline that relies on row locks and nothing else.
-/

namespace Txn

variable {S : Schema} {E A Q α β : Type}

/-- Row locks and nothing else. -/
def rowLocks (S : Schema) : Discipline S := (Protect.all []).discipline

theorem rowLocks_covers {L : Locks (Res S)} {w : Write S} (h : Holds L w.res .noKeyUpdate) :
    (rowLocks S).Covers L w :=
  ⟨h, fun _ hP => (nomatch hP)⟩

/-- A write is made under its locks; `C` holds where the transaction commits. -/
def plainly (D : Discipline S) (C : Pt S → Prop) : Oblig S E where
  write σ w := D.Covers σ.held w
  lock _ _ _ := True
  commit := C
  rollback _ _ := True

/-- The specification of a piece of a transaction; it may fail anywhere. -/
abbrev Plain (D : Discipline S) (C : Pt S → Prop) (σ : Pt S) (p : Prog S E α)
    (R : α → Pt S → Prop) : Prop :=
  Yields D (plainly D C) σ p (fun _ => True) R

/-- A whole program, of which only the commits matter. -/
abbrev Commits (D : Discipline S) (C : Pt S → Prop) (p : Prog S E α) (σ : Pt S) : Prop :=
  wp D (plainly D C) (fun _ _ => True) (fun _ _ => True) p σ

variable {D : Discipline S} {C : Pt S → Prop} {σ : Pt S} {p : Prog S E α} {R : α → Pt S → Prop}

theorem plain_checked {r : Except E α} (h : ∀ a, r = .ok a → R a σ) :
    Plain D C σ (Prog.checked r) R :=
  .checked h fun _ _ => trivial

theorem plain_checked_same {r : Except E α} : Plain D C σ (Prog.checked r) fun a σ' => σ' = σ ∧
    r = .ok a :=
  plain_checked fun _ h => ⟨rfl, h⟩

namespace Plain

/-- A piece that leaves the pending store alone. -/
def Quiet (D : Discipline S) (C : Pt S → Prop) (p : Prog S E α) : Prop :=
  ∀ σ, Plain D C σ p fun _ σ' => σ'.db = σ.db

theorem Quiet.bind {k : α → Prog S E β} (h : Quiet D C p) (hk : ∀ a, Quiet D C (k a)) :
    Quiet D C (p >>= k) :=
  fun σ => Yields.bind (h σ) fun a σ₁ _ h₁ => (hk a σ₁).imp (fun _ _ _ h₂ => h₂.trans h₁)
    fun _ h => h

theorem Quiet.ret (a : α) : Quiet (E := E) D C (.ret a) := fun _ => .ret rfl

theorem Quiet.orFail (o : Option α) (e : E) : Quiet D C (Prog.orFail o e) :=
    fun _ => .orFail (fun _ _ => rfl) trivial

theorem Quiet.ensure (c : Bool) (e : E) : Quiet D C (Prog.ensure c e) :=
    fun _ => .ensure (fun _ => rfl) trivial

theorem Quiet.checked (r : Except E α) : Quiet D C (Prog.checked r) :=
    fun _ => plain_checked fun _ _ => rfl

theorem Quiet.read (q : Store S → α) : Quiet (E := E) D C (Prog.read q) :=
    fun _ => .read fun _ _ _ => rfl

theorem Quiet.lockRes (r : Res S) (m : Mode) : Quiet (E := E) D C (Prog.lockRes r m) :=
  fun _ => (Yields.lockRes trivial).imp (fun _ _ _ h => by rw [h]; rfl) fun _ h => h

theorem Quiet.claim (r : Res S) (taken : Store S → Bool) :
    Quiet (E := E) D C (Prog.claim r taken) :=
  (Quiet.lockRes r .update).bind fun _ => Quiet.read taken

theorem Quiet.references (t : S.Tbl) (k : S.Key t) (e : E) : Quiet D C (Prog.references t k e) :=
  fun _ => (Yields.references trivial trivial).imp (fun _ _ _ h => by rw [h]; rfl) fun _ h => h

/-- A piece that changes the tables `ts` at most. -/
def Within (D : Discipline S) (C : Pt S → Prop) (ts : List S.Tbl) (p : Prog S E α) : Prop :=
  ∀ σ, Plain D C σ p fun _ σ' => Only ts σ.db σ'.db

section within
variable {ts : List S.Tbl} {t : S.Tbl}

theorem Quiet.within (h : Quiet D C p) : Within D C ts p :=
  fun σ => (h σ).imp (fun _ _ _ h => by rw [h]; exact .refl _ _) fun _ h => h

theorem Within.bind {k : α → Prog S E β} (h : Within D C ts p) (hk : ∀ a, Within D C ts (k a)) :
    Within D C ts (p >>= k) :=
  fun σ => Yields.bind (h σ) fun a σ₁ _ h₁ => (hk a σ₁).imp (fun _ _ _ h₂ => h₁.trans h₂)
    fun _ h => h

theorem Within.each {f : α → Prog S E β} {l : List α} (h : ∀ a ∈ l, Within D C ts (f a)) :
    Within D C ts (Prog.each f l) := by
  intro σ
  refine (Yields.each_unit (P := fun _ => Only ts) fun a ha σ' _ => h a ha σ').imp
    (fun _ σ' _ hc => ?_) fun _ h => h
  exact hc.inv (I := Only ts σ.db) (fun _ _ _ _ hab ha => ha.trans hab) (.refl _ _)

theorem Within.insert {key : ℕ → S.Key t} {row : ℕ → S.Row t} (ht : t ∈ ts) :
    Within (E := E) (rowLocks S) C ts (Prog.insert t key row) := by
  refine fun σ => (Yields.insert fun n => rowLocks_covers (holds_acquire _ _ _)).imp
    (fun _ σ' _ h => ?_) fun _ h => h
  rw [h.2.2.2]
  exact Only.write (w := .add t _ _) σ.db ht

theorem Within.updateRow {k : S.Key t} {q : S.Row t → Bool} {f : S.Row t → S.Row t} (ht : t ∈ ts) :
    Within (E := E) (rowLocks S) C ts (Prog.updateRow t k q f) := by
  refine fun σ => (Yields.updateRow trivial fun _ _ hh => rowLocks_covers hh).imp
    (fun _ σ' _ h => ?_) fun _ h => h
  rcases h with ⟨-, h⟩ | ⟨_, -, -, -, -, h⟩
  · rw [h]; exact .refl _ _
  · rw [h]; exact Only.write _ ht

theorem Within.updateAll {q : S.Key t → S.Row t → Bool} {f : S.Row t → S.Row t} (ht : t ∈ ts) :
    Within (E := E) (rowLocks S) C ts (Prog.updateAll t q f) := by
  refine fun σ => (Yields.updateAll (fun _ _ => trivial) fun _ _ _ hh => rowLocks_covers hh).imp
    (fun _ _ _ h => ?_) fun _ h => h
  exact h.1.only.mono (List.cons_subset.2 ⟨ht, List.nil_subset _⟩)

theorem Within.deleteAll {q : S.Key t → S.Row t → Bool} (ht : t ∈ ts) :
    Within (E := E) (rowLocks S) C ts (Prog.deleteAll t q) := by
  refine fun σ => (Yields.deleteAll (fun _ _ => trivial) fun _ _ _ hh => rowLocks_covers
    (hh.weaken (by decide))).imp
    (fun _ _ _ h => ?_) fun _ h => h
  exact h.1.mono (List.cons_subset.2 ⟨ht, List.nil_subset _⟩)

end within

end Plain

/-- A transaction commits what its body ends with. -/
theorem commits_atomically (h : Plain D C σ p R) (hC : ∀ a σ', σ.Later σ' → R a σ' → C σ') :
    Commits D C p.atomically σ :=
  (wp_atomically p σ).2 (h.wp (fun a σ' hl hr => ⟨hC a σ' hl hr, fun _ _ => trivial⟩)
    fun _ _ _ _ => ⟨trivial, fun _ _ => trivial⟩)

/-- A part that commits nothing, and then the rest. -/
theorem commits_bind {k : α → Prog S E β} (h : Plain D C σ p R) (hk : ∀ a σ', σ.Later σ' → R a σ' →
    Commits D C (k a) σ') :
    Commits D C (p >>= k) σ :=
  h.bind_wp hk fun _ _ _ _ => trivial

theorem commits_map {f : α → β} (h : Commits D C p σ) :
    Commits D C (p >>= fun a => pure (f a)) σ := by
  rw [Commits, wp_bind]
  exact h

/-- A transaction, and what comes after it. -/
theorem commits_then {k : α → Prog S E β} (h : Plain D C σ p R) (hC : ∀ a σ', σ.Later σ' →
    R a σ' → C σ')
    (hk : ∀ a σ', Commits D C (k a) σ') : Commits D C (p.atomically >>= k) σ := by
  rw [Commits, wp_bind]
  exact (wp_atomically p σ).2
    (h.wp (fun a σ' hl hr => ⟨hC a σ' hl hr, fun _ _ => hk a _⟩) fun _ _ _ _ => ⟨trivial,
      fun _ _ => trivial⟩)

theorem Plain.Quiet.commits (h : Plain.Quiet D C p) : Commits D C p σ :=
  (h σ).wp (fun _ _ _ _ => trivial) fun _ _ _ _ => trivial

theorem commits_imp {C' : Pt S → Prop} (hC : ∀ σ, C σ → C' σ) (h : Commits D C p σ) :
    Commits D C' p σ := by
  refine wp_oblig ?_ ?_ ?_ ?_ p σ h
  · exact fun _ _ hw => hw
  · exact fun _ _ _ _ => trivial
  · exact hC
  · exact fun _ _ _ => trivial

/-! ## The contract -/

variable {V : Service S E A Q} {W : Q → Prop} {ok : Sys S E A Q → Event Q → Sys S E A Q → Prop}
  {s s' : Sys S E A Q}
  {c : Call S E A Q} {d : Store S} {t : ℕ}

/-- The contract of a service each of whose requests commits as `C` says. -/
def plainContract {C : Q → Pt S → Prop} (h : ∀ q d d', D.rel [] d d' →
    Commits D (C q) (V.prog q) (.begin d d' false)) :
    Contract V D where
  oblig q := plainly D (C q)
  post _ _ _ _ := True
  err _ _ _ _ := True
  covers _ _ _ h := h
  crash _ _ _ := trivial
  meets := h

variable {C : Q → Pt S → Prop} {h : ∀ q d d', D.rel [] d d' →
  Commits D (C q) (V.prog q) (.begin d d' false)}

/-- A commit in a state that keeps the contract. -/
theorem plain_commit (hs : s.OK (plainContract h)) (hcs : CommitStep s t c s') :
    ∃ σ : Pt S, σ.now = s.db ∧ σ.db = s'.db ∧ σ.held = c.held ∧ σ.ws = c.ws ∧
      σ.committed = c.committed ∧ C c.req σ := by
  obtain ⟨start, -, hcom⟩ := hs.commit hcs
  obtain ⟨-, k, -, rfl⟩ := hcs
  exact ⟨c.pt start s.db, rfl, rfl, rfl, rfl, rfl, hcom⟩

variable (hmore : ∀ L a b, D.more.rel L a b)
include hmore

/-- Every reachable state keeps the contract. -/
theorem plain_ok (hr : V.Reach ok (Sys.init d) s) : s.OK (plainContract h) :=
  reach_ok (fun _ _ _ _ _ _ _ _ _ _ => hmore _ _ _) (ok_init d) hr

/-- **What every commit keeps holds in every reachable state**, where only some requests
are let in. -/
theorem plain_inv {P : Store S → Prop} (h : ∀ q d d', D.rel [] d d' →
    Commits D (C q) (V.prog q) (.begin d d' false))
    (h0 : P d) (hP : ∀ q σ, W q → D.rel [] σ.now σ.db → C q σ → P σ.now → P σ.db)
    (hr : V.ReachOf W (Sys.init d) s) : P s.db :=
  reach_inv_of (C := plainContract h) (fun _ => plain_ok hmore) h0
    (fun t c hc => by rw [Sys.call_init] at hc; cases hc)
    (fun q σ hw hrel ho => hP q σ hw hrel ho) hr

end Txn
