import DreamFly.Txn.Sound
import DreamFly.Txn.Yields

/-!
# What a piece can write at all

The tables a piece of a transaction writes can be read off its code, without a word
about locks.

* `Prog.Confined T`: only the tables `T` are written; `Yields.confined` makes it a frame.
* `Yields.updateAll_snapshot`: an UPDATE of a table that the transaction has not written
  yet: which of its rows the snapshot can have missed.
* `Contract.and`: a second obligation for the calls of a service, shown apart from the first.
-/

namespace Txn

variable {S : Schema} {E A Q α β : Type} {T T' : List S.Tbl} {p : Prog S E α}

/-! ## Confined pieces -/

namespace Prog

/-- Every write is to one of the tables `T`, and the transaction does not end. -/
def Confined (T : List S.Tbl) : Prog S E α → Prop
  | ret _ | fail _ => True
  | view k => ∀ v, (k v).Confined T
  | lock _ _ k => k.Confined T
  | fresh _ _ k | pick k => ∀ n, (k n).Confined T
  | write w k => w.tbl ∈ T ∧ k.Confined T
  | commit _ | rollback _ _ => False

namespace Confined

theorem bind {k : α → Prog S E β} (h : p.Confined T) (hk : ∀ a, (k a).Confined T) :
    (p >>= k).Confined T := by
  rw [bind_eq]
  induction p with
  | ret a => exact hk a
  | fail e => trivial
  | view k ih => exact fun v => ih v (h v)
  | lock r m k ih => exact ih h
  | fresh t key k ih => exact fun n => ih n (h n)
  | pick k ih => exact fun n => ih n (h n)
  | write w k ih => exact ⟨h.1, ih h.2⟩
  | commit k | rollback e k => exact h.elim

theorem ret (a : α) : (.ret a : Prog S E α).Confined T := trivial

theorem each {f : α → Prog S E β} {l : List α} (h : ∀ a ∈ l, (f a).Confined T) :
    (Prog.each f l).Confined T := by
  induction l with
  | nil => trivial
  | cons a l ih =>
    exact (h a List.mem_cons_self).bind fun b =>
      (ih fun x hx => h x (List.mem_cons_of_mem a hx)).bind fun bs => trivial

section statements
variable {t : S.Tbl} {k : S.Key t} {m : Mode}

theorem orFail {o : Option α} {e : E} : (Prog.orFail o e : Prog S E α).Confined T := by
  cases o with
  | none => trivial
  | some a => trivial

theorem ensure {b : Bool} {e : E} : (Prog.ensure b e : Prog S E Unit).Confined T := by
  cases b with
  | false => trivial
  | true => trivial

theorem checked {r : Except E α} : (Prog.checked r : Prog S E α).Confined T := by
  cases r with
  | ok a => trivial
  | error e => trivial

theorem read {q : Store S → α} : (Prog.read q : Prog S E α).Confined T := fun _ => trivial

theorem put {w : Write S} (h : w.tbl ∈ T) : (Prog.put w : Prog S E Unit).Confined T := ⟨h, trivial⟩

theorem claim {r : Res S} {taken : Store S → Bool} :
    (Prog.claim r taken : Prog S E Bool).Confined T := fun _ => trivial

theorem references {e : E} : (Prog.references t k e : Prog S E Unit).Confined T := by
  refine read.bind fun r => ?_
  cases r with
  | none => trivial
  | some r => trivial

theorem recheck {q : S.Row t → Bool} : (Prog.recheck t k q m : Prog S E _).Confined T :=
    fun _ => trivial

theorem selectFor {q : S.Row t → Bool} : (Prog.selectFor t k q m : Prog S E _).Confined T := by
  refine read.bind fun r => ?_
  split
  · trivial
  · exact recheck

theorem lockEach {q : S.Key t → S.Row t → Bool} (ks : List (S.Key t)) :
    (Prog.lockEach t q m ks : Prog S E _).Confined T := by
  induction ks with
  | nil => trivial
  | cons k ks ih => exact recheck.bind fun r => ih.bind fun rs => trivial

theorem selectAllFor {q : S.Key t → S.Row t → Bool} {le : S.Key t × S.Row t →
    S.Key t × S.Row t → Bool} :
    (Prog.selectAllFor t q le m : Prog S E _).Confined T :=
  read.bind fun _ => lockEach _

theorem insert {key : ℕ → S.Key t} {row : ℕ → S.Row t} (h : t ∈ T) :
    (Prog.insert t key row : Prog S E ℕ).Confined T :=
  fun _ => ⟨h, trivial⟩

theorem updateRow {q : S.Row t → Bool} {f : S.Row t → S.Row t} (h : t ∈ T) :
    (Prog.updateRow t k q f : Prog S E _).Confined T := by
  refine selectFor.bind fun r => ?_
  cases r with
  | none => trivial
  | some r => exact (put (w := .mod t k _) h).bind fun _ => trivial

theorem writeEach {q : S.Key t → S.Row t → Bool} {w : S.Key t → Write S} (h : ∀ k, (w k).tbl ∈ T)
    (ks : List (S.Key t)) :
    (Prog.writeEach t q m w ks : Prog S E _).Confined T := by
  induction ks with
  | nil => trivial
  | cons k ks ih =>
    refine recheck.bind fun r => ?_
    cases r with
    | none => exact ih
    | some r => exact (put (h k)).bind fun _ => ih.bind fun rs => trivial

theorem updateAll {q : S.Key t → S.Row t → Bool} {f : S.Row t → S.Row t} (h : t ∈ T) :
    (Prog.updateAll t q f : Prog S E _).Confined T :=
  read.bind fun _ => bind (p := Prog.choose) (fun _ => trivial) fun _ => writeEach (fun _ => h) _

theorem deleteAll {q : S.Key t → S.Row t → Bool} (h : t ∈ T) :
    (Prog.deleteAll t q : Prog S E _).Confined T :=
  read.bind fun _ => bind (p := Prog.choose) (fun _ => trivial) fun _ => writeEach (fun _ => h) _

end statements

end Confined

end Prog

/-! ## What follows for the pending writes -/

/-- `σ'` has pending what `σ` had, and writes to the tables `T`. -/
def Pt.Wrote (T : List S.Tbl) (σ σ' : Pt S) : Prop :=
  ∃ vs, σ'.ws = σ.ws ++ vs ∧ σ'.db = Store.overlay vs σ.db ∧ ∀ w ∈ vs, w.tbl ∈ T

namespace Pt.Wrote

variable {σ σ' σ'' : Pt S}

theorem refl (σ : Pt S) : Wrote T σ σ := ⟨[], (List.append_nil _).symm, rfl, fun _ h => (nomatch h)⟩

theorem trans (h : Wrote T σ σ') (h' : Wrote T σ' σ'') : Wrote T σ σ'' := by
  obtain ⟨vs, hws, hdb, hvs⟩ := h
  obtain ⟨vs', hws', hdb', hvs'⟩ := h'
  refine ⟨vs ++ vs', ?_, ?_, fun w hw => ?_⟩
  · rw [hws', hws, List.append_assoc]
  · rw [hdb', hdb, Store.overlay_append]
  · rcases List.mem_append.1 hw with hw | hw
    · exact hvs w hw
    · exact hvs' w hw

theorem mono (hs : T ⊆ T') (h : Wrote T σ σ') : Wrote T' σ σ' := by
  obtain ⟨vs, hws, hdb, hvs⟩ := h
  exact ⟨vs, hws, hdb, fun w hw => hs (hvs w hw)⟩

theorem only (h : Wrote T σ σ') : Only T σ.db σ'.db := by
  obtain ⟨vs, -, hdb, hvs⟩ := h
  rw [hdb]
  exact Only.writes hvs _

/-- Nothing was pending before: over any store the writes are to `T`. -/
theorem overlay (h : Wrote T σ σ') (hσ : σ.ws = []) (d : Store S) :
    Only T d (Store.overlay σ'.ws d) := by
  obtain ⟨vs, hws, -, hvs⟩ := h
  rw [hws, hσ, List.nil_append]
  exact Only.writes hvs d

end Pt.Wrote

variable {D : Discipline S} {O : Oblig S E} {σ : Pt S} {F : E → Prop} {R : α → Pt S → Prop}

/-- **A confined piece writes its tables**, beside what it is specified to do. -/
theorem Yields.confined (h : Yields D O σ p F R) (hp : p.Confined T) :
    Yields D O σ p F fun a σ' => R a σ' ∧ σ.Wrote T σ' := by
  suffices H : ∀ (Q : α → Pt S → Prop) (Z : E → Pt S → Prop) (σ : Pt S), Txn.wp D O Q Z p σ →
      Txn.wp D O (fun a σ' => Q a σ' ∧ σ.Wrote T σ') Z p σ from
    wp_mono (fun _ _ ⟨⟨hl, hR⟩, hw⟩ => ⟨hl, hR, hw⟩) (fun _ _ h => h) p σ (H _ _ σ h)
  intro Q Z
  clear h
  induction p with
  | ret a => exact fun σ h => ⟨h, .refl σ⟩
  | fail e => exact fun σ h => h
  | view k ih => exact fun σ h v hs hv hm => ih v (hp v) σ (h v hs hv hm)
  | lock r m k ih => exact fun σ h => ⟨h.1, ih hp _ h.2⟩
  | fresh t key k ih => exact fun σ h n h1 h2 h3 => ih n (hp n) _ (h n h1 h2 h3)
  | pick k ih => exact fun σ h n => ih n (hp n) σ (h n)
  | write w k ih =>
    refine fun σ h => ⟨h.1, wp_mono (fun a σ' ⟨hq, hw⟩ => ⟨hq, ?_⟩)
      (fun _ _ h => h) _ _ (ih hp.2 _ h.2)⟩
    refine Pt.Wrote.trans ⟨[w], rfl, rfl, fun x hx => ?_⟩ hw
    rw [List.mem_singleton.1 hx]
    exact hp.1
  | commit k | rollback e k => exact hp.elim

/-! ## Loose contracts -/

/-- Nothing is asked but `C` where the transaction commits. -/
def loosely (C : Pt S → Prop) : Oblig S E where
  write _ _ := True
  lock _ _ _ := True
  commit := C
  rollback _ _ := True

/-- The specification of a piece, without a word about its locks. -/
abbrev Loosely (D : Discipline S) (C : Pt S → Prop) (σ : Pt S) (p : Prog S E α)
    (R : α → Pt S → Prop) : Prop :=
  Yields D (loosely C) σ p (fun _ => True) R

variable {C : Pt S → Prop}

theorem wp_loosely {Q : α → Pt S → Prop} {X : E → Pt S → Prop} (hC : ∀ σ, O.commit σ → C σ)
    (h : Txn.wp D O Q X p σ) :
    Txn.wp D (loosely C) Q X p σ := by
  refine wp_oblig ?_ ?_ ?_ ?_ p σ h
  · exact fun _ _ _ => trivial
  · exact fun _ _ _ _ => trivial
  · exact hC
  · exact fun _ _ _ => trivial

/-- A specification with obligations on the locks is one without. -/
theorem Yields.loosely (h : Yields D O σ p F R) (hC : ∀ σ, O.commit σ → C σ) : Loosely D C σ p R :=
  wp_loosely hC (h.imp (fun _ _ _ h => h) fun _ _ => trivial)

/-- A confined piece, of which nothing else is known. -/
theorem Prog.Confined.loosely (h : p.Confined T) : Loosely D C σ p fun _ σ' => σ.Wrote T σ' := by
  have hp : Loosely D C σ p fun _ _ => True := by
    suffices H : ∀ σ' : Pt S, σ.Later σ' → Txn.wp D (Txn.loosely C)
        (fun _ σ'' => σ.Later σ'' ∧ True)
        (fun _ σ'' => σ.Later σ'' ∧ True) p σ' from H σ (.refl σ)
    induction p with
    | ret a => exact fun σ' hl => ⟨hl, trivial⟩
    | fail e => exact fun σ' hl => ⟨hl, trivial⟩
    | view k ih => exact fun σ' hl v _ _ _ => ih v (h v) σ' hl
    | lock r m k ih => exact fun σ' hl => ⟨fun _ => trivial, ih h _ (hl.trans (σ'.later_grant r m))⟩
    | fresh t key k ih => exact fun σ' hl n _ _ _ => ih n (h n) _ (hl.trans (σ'.later_grant _ _))
    | pick k ih => exact fun σ' hl n => ih n (h n) σ' hl
    | write w k ih => exact fun σ' hl => ⟨trivial, ih h.2 _ (hl.trans (σ'.later_write w))⟩
    | commit k | rollback e k => exact h.elim
  exact (hp.confined h).imp (fun _ _ _ h => h.2) fun _ h => h

/-- An UPDATE of a table of which nothing is pending: the rows that its snapshot showed are
updated, and the snapshot was a committed store. -/
theorem Yields.updateAll_snapshot {t : S.Tbl} {q : S.Key t → S.Row t → Bool} {f : S.Row t → S.Row t}
    (hws : ∀ d, (Store.overlay σ.ws d) t = d t) :
    Loosely (E := E) D C σ (Prog.updateAll t q f) fun _ σ' => Edited t q f σ.db σ'.db ∧
      ∃ v₀, D.rel σ.held (Store.overlay σ.ws v₀) σ.db ∧ D.more.rel σ.held v₀ σ.now ∧
        ∀ k r r', v₀.get t k = some r → q k r = true →
        σ.db.get t k = some r' → q k r' = true → σ'.db.get t k = some (f r') := by
  unfold Prog.updateAll
  refine Yields.bind (R := fun hits σ' => σ' = σ ∧ ∃ v₀, D.rel σ.held (Store.overlay σ.ws v₀) σ.db ∧
    D.more.rel σ.held v₀ σ.now ∧
    hits = ((Store.overlay σ.ws v₀).sel t q).map Prod.fst)
      (Yields.snapshot fun v₀ _ hv hm => ⟨rfl, v₀, hv, hm, rfl⟩)
    fun hits σ₁ _ ⟨h₁, v₀, hv, hm, hhits⟩ => ?_
  subst h₁
  refine Yields.bind (R := fun _ σ' => σ' = σ₁) (fun n => ⟨.refl σ₁, rfl⟩) fun n σ₂ _ h₂ => ?_
  subst h₂
  have hperm := arrange_perm n hits
  have hnodup : (arrange n hits).Nodup := by
    rw [hperm.nodup_iff, hhits]
    exact Store.sel_keys_nodup _ t q
  refine wp_writeEach (w := fun k => .mod t k (onlyIf (q k) f)) (by decide)
    (fun _ => rfl) hnodup (fun _ _ _ _ _ _ _ _ => trivial)
    (fun _ _ _ _ _ _ _ _ => trivial) ?_
  have hfound := found_keys_sublist σ₂.db t q (arrange n hits)
  have hget : ∀ k, ((σ₂.grants t .noKeyUpdate (arrange n hits)).writes
      ((σ₂.db.found t q (arrange n hits)).map fun e => .mod t e.1 (onlyIf (q e.1) f))).db.get t k =
      if k ∈ (σ₂.db.found t q (arrange n hits)).map Prod.fst then
        (σ₂.db.get t k).map (onlyIf (q k) f) else σ₂.db.get t k := by
    intro k
    have he : (σ₂.db.found t q (arrange n hits)).map (fun e => Write.mod t e.1 (onlyIf (q e.1) f)) =
        ((σ₂.db.found t q (arrange n hits)).map Prod.fst).map fun k =>
          .mod t k (onlyIf (q k) f) := by rw [List.map_map]; rfl
    rw [Pt.writes_db, Pt.grants_db, he, get_mods (hfound.nodup hnodup)]
  refine ⟨(Pt.later_grants _ _ _ _).trans (Pt.later_writes _ _), ⟨?_, fun k => ?_⟩, v₀, hv, hm,
    fun k r r' hr hq hr' hq' => ?_⟩
  · rw [Pt.writes_db, Pt.grants_db]
    refine Only.writes (fun w hw => ?_) _
    obtain ⟨e, -, rfl⟩ := List.mem_map.1 hw
    exact List.mem_singleton.2 rfl
  · rw [hget]
    split
    · next hk =>
      obtain ⟨⟨k', r⟩, hin, rfl⟩ := List.mem_map.1 hk
      obtain ⟨-, hg, hq⟩ := mem_found.1 hin
      exact .inr ⟨r, hg, hq, by simp only [hg, Option.map_some, onlyIf_pos hq]⟩
    · exact .inl rfl
  · have hkeep : (Store.overlay σ₂.ws v₀).get t k = v₀.get t k := by
      unfold Store.get
      rw [hws]
    have hk : k ∈ arrange n hits := by
      rw [hperm.mem_iff, hhits]
      exact List.mem_map.2 ⟨(k, r), Store.mem_sel.2 ⟨hkeep.trans hr, hq⟩, rfl⟩
    rw [hget, if_pos (List.mem_map.2 ⟨(k, r'), mem_found.2 ⟨hk, hr', hq'⟩, rfl⟩), hr',
      Option.map_some, onlyIf_pos hq']

/-! ## Two obligations at once -/

/-- Both obligations. -/
def Oblig.and (O O' : Oblig S E) : Oblig S E where
  write σ w := O.write σ w ∧ O'.write σ w
  lock σ r m := O.lock σ r m ∧ O'.lock σ r m
  commit σ := O.commit σ ∧ O'.commit σ
  rollback e σ := O.rollback e σ ∧ O'.rollback e σ

/-- A program that meets two obligations meets both at once. -/
theorem wp_and {O' : Oblig S E} {Q Q' : α → Pt S → Prop} {X X' : E → Pt S → Prop} (p : Prog S E α) :
    ∀ σ, wp D O Q X p σ →
    wp D O' Q' X' p σ → wp D (O.and O') (fun a σ => Q a σ ∧ Q' a σ) (fun e σ => X e σ ∧
      X' e σ) p σ := by
  induction p with
  | ret a | fail e => exact fun σ h h' => ⟨h, h'⟩
  | view k ih => exact fun σ h h' v hs hv hm => ih v σ (h v hs hv hm) (h' v hs hv hm)
  | lock r m k ih => exact fun σ h h' => ⟨fun hn => ⟨h.1 hn, h'.1 hn⟩, ih _ h.2 h'.2⟩
  | fresh t key k ih => exact fun σ h h' n h1 h2 h3 => ih n _ (h n h1 h2 h3) (h' n h1 h2 h3)
  | pick k ih => exact fun σ h h' n => ih n σ (h n) (h' n)
  | write w k ih => exact fun σ h h' => ⟨⟨h.1, h'.1⟩, ih _ h.2 h'.2⟩
  | commit k ih => exact fun σ h h' => ⟨⟨h.1, h'.1⟩, fun d hd => ih _ (h.2 d hd) (h'.2 d hd)⟩
  | rollback e k ih => exact fun σ h h' => ⟨⟨h.1, h'.1⟩, fun d hd => ih _ (h.2 d hd) (h'.2 d hd)⟩

/-- The contract `K`, and another obligation of the same programs. -/
def Contract.and {V : Service S E A Q} (K : Contract V D) (O' : Q → Oblig S E)
    (h : ∀ q d d', D.rel [] d d' → wp D (O' q) (fun _ _ => True) (fun _ _ => True) (V.prog q)
      (.begin d d' false)) :
    Contract V D where
  oblig q := (K.oblig q).and (O' q)
  post := K.post
  err := K.err
  covers q σ w hw := K.covers q σ w hw.1
  crash := K.crash
  meets q d d' hd := wp_mono (fun _ _ h => h.1) (fun _ _ h => h.1) _ _
    (wp_and _ _ (K.meets q d d' hd) (h q d d' hd))

end Txn
