import Mathlib.Order.WithBot
import DreamFly.Txn.Sound
import DreamFly.Txn.Yields

/-!
# Who waits for whom

A deadlock is a circle of calls each of which asks for a lock that the next one holds. It
is ruled out by what the calls hold where they ask: if every call asks for resources in the
order of one rank, nobody waits in a circle.

* `Contract.also`: a contract that also says what a call holds where it asks for a lock.
* `Climbs`: a call that asks in the order of a rank.
* `waits_acyclic`: calls that climb do not wait for each other in a circle.
-/

namespace Txn

variable {S : Schema} {E A Q α β : Type} {D : Discipline S} {O : Oblig S E} {V : Service S E A Q}
  {L : Locks (Res S) → Res S → Mode → Prop} {P : α → Pt S → Prop} {X : E → Pt S → Prop}

/-! ## What is held where a lock is asked for -/

/-- `L` holds of the locks held wherever another is asked for. -/
def asking (L : Locks (Res S) → Res S → Mode → Prop) : Oblig S E where
  write _ _ := True
  lock σ r m := L σ.held r m
  commit _ := True
  rollback _ _ := True

def Oblig.also (O : Oblig S E) (L : Locks (Res S) → Res S → Mode → Prop) : Oblig S E :=
  { O with lock := fun σ r m => O.lock σ r m ∧ L σ.held r m }

/-- A whole program, of which only matters what it holds where it asks. -/
abbrev Asks (D : Discipline S) (L : Locks (Res S) → Res S → Mode → Prop) (p : Prog S E α)
    (σ : Pt S) : Prop :=
  wp D (asking L) (fun _ _ => True) (fun _ _ => True) p σ

theorem wp_also (p : Prog S E α) : ∀ σ, wp D O P X p σ → Asks D L p σ →
    wp D (O.also L) P X p σ := by
  induction p with
  | ret a => exact fun σ h _ => h
  | fail e => exact fun σ h _ => h
  | view k ih => exact fun σ h h' v hs hv hm => ih v σ (h v hs hv hm) (h' v hs hv hm)
  | lock r m k ih => exact fun σ h h' => ⟨fun hn => ⟨h.1 hn, h'.1 hn⟩, ih _ h.2 h'.2⟩
  | fresh t key k ih => exact fun σ h h' n h1 h2 h3 => ih n _ (h n h1 h2 h3) (h' n h1 h2 h3)
  | pick k ih => exact fun σ h h' n => ih n σ (h n) (h' n)
  | write w k ih => exact fun σ h h' => ⟨h.1, ih _ h.2 h'.2⟩
  | commit k ih => exact fun σ h h' => ⟨h.1, fun d hd => ih _ (h.2 d hd) (h'.2 d hd)⟩
  | rollback e k ih => exact fun σ h h' => ⟨h.1, fun d hd => ih _ (h.2 d hd) (h'.2 d hd)⟩

/-- Every program asks for something. -/
theorem asks_any (hL : ∀ h r m, L h r m) (p : Prog S E α) : ∀ σ, Asks D L p σ := by
  induction p with
  | ret a => exact fun _ => trivial
  | fail e => exact fun _ => trivial
  | view k ih => exact fun σ v _ _ _ => ih v σ
  | lock r m k ih => exact fun σ => ⟨fun _ => hL _ _ _, ih _⟩
  | fresh t key k ih => exact fun σ n _ _ _ => ih n _
  | pick k ih => exact fun σ n => ih n σ
  | write w k ih => exact fun σ => ⟨trivial, ih _⟩
  | commit k ih => exact fun σ => ⟨trivial, fun d _ => ih _⟩
  | rollback e k ih => exact fun σ => ⟨trivial, fun d _ => ih _⟩

theorem Asks.imp {L' : Locks (Res S) → Res S → Mode → Prop} {p : Prog S E α} {σ : Pt S}
    (hL : ∀ h r m, L h r m → L' h r m)
    (h : Asks D L p σ) : Asks D L' p σ := by
  refine wp_oblig ?_ ?_ ?_ ?_ p σ h
  · exact fun _ _ _ => trivial
  · exact fun _ _ _ h => hL _ _ _ h
  · exact fun _ _ => trivial
  · exact fun _ _ _ => trivial

theorem asks_atomically {p : Prog S E α} {σ : Pt S} (h : Asks D L p σ) : Asks D L p.atomically σ :=
  (wp_atomically p σ).2 (wp_mono (fun _ _ _ => ⟨trivial, fun _ _ => trivial⟩)
    (fun _ _ _ => ⟨trivial, fun _ _ => trivial⟩) p σ h)

/-- A contract that also says what a request holds where it asks for a lock. -/
def Contract.also (C : Contract V D) (L : Q → Locks (Res S) → Res S → Mode → Prop)
    (h : ∀ q d d', Asks D (L q) (V.prog q) (.begin d d' false)) : Contract V D where
  oblig q := (C.oblig q).also (L q)
  post := C.post
  err := C.err
  covers := C.covers
  crash := C.crash
  meets q d d' hd := wp_also _ _ (C.meets q d d' hd) (h q d d')

/-! ## Climbing -/

/-- Asking in the order of `φ`: a resource at `⊤` is only ever locked for a reference, and
every other one that is held lies below the one asked for. -/
structure Climbs [LT β] (φ : Res S → WithTop β) (h : Locks (Res S)) (r : Res S)
    (m : Mode) : Prop where
  asked : φ r = ⊤ → m = .keyShare
  held : ∀ x ∈ h, φ x.1 = ⊤ → x.2 = .keyShare
  above : ∀ x ∈ h, φ x.1 = ⊤ ∨ φ x.1 < φ r

/-- All that is held but references is in `own`. -/
def Owns (φ : Res S → WithTop β) (own : List (Res S)) (h : Locks (Res S)) : Prop :=
  ∀ x ∈ h, φ x.1 = ⊤ ∧ x.2 = .keyShare ∨ φ x.1 ≠ ⊤ ∧ x.1 ∈ own

section own
variable {φ : Res S → WithTop β} {own : List (Res S)} {h : Locks (Res S)} {r : Res S} {m : Mode}

theorem owns_nil : Owns φ [] ([] : Locks (Res S)) := fun _ hx => nomatch hx

/-- One more reference. -/
theorem Owns.refer (ho : Owns φ own h) (hr : φ r = ⊤) : Owns φ own (acquire h r .keyShare) := by
  intro x hx
  rcases mem_acquire hx with rfl | hx
  · exact .inl ⟨hr, rfl⟩
  · exact ho x hx

/-- One more resource of its own. -/
theorem Owns.take (ho : Owns φ own h) (hr : φ r ≠ ⊤) : Owns φ (own ++ [r]) (acquire h r m) := by
  intro x hx
  rcases mem_acquire hx with rfl | hx
  · exact .inr ⟨hr, by simp⟩
  · exact (ho x hx).imp_right fun h => ⟨h.1, List.mem_append_left _ h.2⟩

variable [LT β]

theorem Owns.climbs_refer (ho : Owns φ own h) (hr : φ r = ⊤) : Climbs φ h r .keyShare where
  asked _ := rfl
  held x hx htop := ((ho x hx).resolve_right fun h => h.1 htop).2
  above x hx := (ho x hx).imp (·.1) fun h => by
    rw [hr]
    exact WithTop.lt_top_iff_ne_top.2 h.1

theorem Owns.climbs (ho : Owns φ own h) (hr : φ r ≠ ⊤) (hb : ∀ o ∈ own, φ o < φ r) :
    Climbs φ h r m where
  asked htop := absurd htop hr
  held x hx htop := ((ho x hx).resolve_right fun h => h.1 htop).2
  above x hx := (ho x hx).imp (·.1) fun h => hb _ h.2

end own

/-- The waits-for graph between the calls of some kind. -/
def WaitsAmong (W : Q → Prop) (s : Sys S E A Q) (t u : ℕ) : Prop :=
  WaitsFor s t u ∧ (∃ c, s.call t = some c ∧ W c.req) ∧ ∃ c, s.call u = some c ∧ W c.req

variable [Preorder β] {C : Contract V D} {φ : Res S → WithTop β} {s : Sys S E A Q} {W : Q → Prop}
  {L : Q → Locks (Res S) → Res S → Mode → Prop} {h : ∀ q d d', Asks D (L q) (V.prog q)
    (.begin d d' false)}

/-- The rank of what a call asks for. -/
def wantedRank (φ : Res S → WithTop β) (s : Sys S E A Q) (t : ℕ) : WithTop β :=
  ((s.call t).bind fun c => c.prog.wanted).elim ⊤ fun x => φ x.1

/-- Two calls of the kind, by what the one wants and the other holds. -/
theorem waitsAmong_of {t u : ℕ} {r : Res S} {m m' : Mode} {c c' : Call S E A Q}
    (hc : s.call t = some c) (hc' : s.call u = some c')
    (hne : t ≠ u) (hw : c.prog.wanted = some (r, m)) (hm : (r, m') ∈ c'.held)
    (hcf : m.conflicts m' = true)
    (h : W c.req) (h' : W c'.req) : WaitsAmong W s t u :=
  ⟨⟨c, c', r, m, m', hc, hc', hne, hw, hm, hcf⟩, ⟨c, hc, h⟩, c', hc', h'⟩

/-- A call that waits climbs. -/
theorem WaitsAmong.climbs (hs : s.OK (C.also L h))
    (hL : ∀ t c, s.call t = some c → c.finished = false → W c.req → ∀ h' r m, L c.req h' r m →
      Climbs φ h' r m) {t u : ℕ} (hw : WaitsAmong W s t u) :
    ∃ c c' r m m', s.call t = some c ∧ s.call u = some c' ∧ (r, m') ∈ c'.held ∧
      m.conflicts m' = true ∧
      wantedRank φ s t = φ r ∧ Climbs φ c.held r m := by
  obtain ⟨hw, ⟨c₀, hc₀, hkind⟩, -⟩ := hw
  obtain ⟨c, c', r, m, m', k, start, hc, hc', -, hp, hm, hcf, -, ho⟩ := hs.waits hw
  cases hc₀.symm.trans hc
  have hopen : c₀.finished = false := by
    unfold Call.finished
    rw [hp]
  refine ⟨c₀, c', r, m, m', hc, hc', hm, hcf, ?_, hL t c₀ hc hopen hkind _ _ _ ho.2⟩
  unfold wantedRank
  rw [hc, Option.bind_some, hp]
  rfl

/-- **Calls that climb do not wait for each other in a circle.** -/
theorem waits_acyclic (hs : s.OK (C.also L h))
    (hL : ∀ t c, s.call t = some c → c.finished = false → W c.req → ∀ h' r m, L c.req h' r m →
      Climbs φ h' r m) (t : ℕ) :
    ¬ Relation.TransGen (WaitsAmong W s) t t := by
  refine acyclic_of_lt (wantedRank φ s) (fun w x y z _ hxy hyz => ?_) t
  obtain ⟨c, c', r, m, m', -, hc', hm, hcf, hrank, hc⟩ := hxy.climbs hs hL
  obtain ⟨c₁, -, r₁, m₁, -, hc₁, -, -, -, hrank₁, hclimb⟩ := hyz.climbs hs hL
  cases hc'.symm.trans hc₁
  rw [hrank, hrank₁]
  refine (hclimb.above _ hm).resolve_left fun htop => ?_
  -- two references do not exclude each other
  have hm' : m' = .keyShare := hclimb.held _ hm htop
  rw [hc.asked htop, hm'] at hcf
  cases hcf

end Txn
