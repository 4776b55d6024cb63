import Mathlib.Data.Option.Basic

/-!
# Two kinds of names in one place

A directory of records with a key and a slug, and a lookup that takes either: what
reads as a key is a key, everything else a slug, up to letter case, unless reading it
panics (`Directory.Looks`).

* `Directory.Addressed`: what such a lookup is for.
* `addressed_iff`: where slugs are unique, it does it if and only if no slug reads as a
  key that leads elsewhere, and none of a public record panics.
* `Fits`: a slug that is read, and as no key but its own record's; such slugs stay harmless
  whatever becomes of the other records (`Fit.unambiguous`).
-/

namespace Names

variable {K R : Type}

/-- What a text reads as: a key, a slug, or nothing because reading it panics. -/
inductive Read (K : Type)
  | key (k : K)
  | slug
  | panic
deriving DecidableEq

/-- How a name is read: as a key, and up to letter case. -/
structure Reading (K : Type) where
  parse : String → Read K
  lower : String → String

/-- The same name, but for letter case. -/
def Reading.Same (P : Reading K) (p q : String) : Prop := P.lower p = P.lower q

/-- Records under their keys; the public ones can be looked up. -/
structure Directory (K R : Type) where
  get : K → Option R
  slug : R → String
  isPublic : R → Bool

/-- The slug of the record under `k` is read in every letter case, and as no other key. -/
def Reading.Fits (P : Reading K) (k : K) (slug : String) : Prop := ∀ p, P.Same p slug →
    P.parse p = .slug ∨ P.parse p = .key k

namespace Directory

/-- The public record under a key. -/
def shown (D : Directory K R) (k : K) : Option R := (D.get k).filter D.isPublic

variable (D : Directory K R) (P : Reading K) (look : String → Option (K × R))

/-- `look` reads its parameter as a key first, and as a slug otherwise. -/
structure Looks : Prop where
  key : ∀ p k, P.parse p = .key k → look p = (D.shown k).map fun r => (k, r)
  found : ∀ p x, P.parse p = .slug → look p = some x → D.shown x.1 = some x.2 ∧
    P.Same p (D.slug x.2)
  missing : ∀ p k r, P.parse p = .slug → look p = none → D.shown k = some r → ¬ P.Same p (D.slug r)
  dead : ∀ p, P.parse p = .panic → look p = none

/-- Every public record is found by its slug, in any letter case, and by its key, and
nobody's slug leads to another record. -/
structure Addressed : Prop where
  bySlug : ∀ k r p, D.shown k = some r → P.Same p (D.slug r) → look p = some (k, r)
  byKey : ∀ k r p, D.shown k = some r → P.parse p = .key k → look p = some (k, r)
  noOther : ∀ k r p x, D.get k = some r → P.Same p (D.slug r) → look p = some x → x.1 = k

/-- No two records have the same slug. -/
def Unique : Prop := ∀ k r k' r', D.get k = some r → D.get k' = some r' →
    P.Same (D.slug r) (D.slug r') → k = k'

/-- A slug that reads as the key of something else is that of a record that is not
public, and leads nowhere; one that panics is that of a record that is not public. -/
structure Unambiguous : Prop where
  key : ∀ k r p i, D.get k = some r → P.Same p (D.slug r) → P.parse p = .key i → i = k ∨
    D.isPublic r = false ∧ D.shown i = none
  read : ∀ k r p, D.get k = some r → P.Same p (D.slug r) → P.parse p = .panic → D.isPublic r = false

/-- Every slug is read, and as no key but its own. -/
def Fit : Prop := ∀ k r, D.get k = some r → P.Fits k (D.slug r)

variable {D P look} {k : K} {r : R}

theorem shown_some : D.shown k = some r ↔ D.get k = some r ∧ D.isPublic r = true :=
    Option.filter_eq_some_iff

/-- A lookup that takes the first record that a search by slug finds. -/
theorem Looks.of_search (rows : String → List (K × R)) (hkey : ∀ p k, P.parse p = .key k →
    look p = (D.shown k).map fun r => (k, r))
    (hslug : ∀ p, P.parse p = .slug → look p = (rows p).head?) (hdead : ∀ p, P.parse p = .panic →
      look p = none)
    (hrows : ∀ p x, x ∈ rows p ↔ D.shown x.1 = some x.2 ∧ P.Same p (D.slug x.2)) :
    D.Looks P look where
  key := hkey
  dead := hdead
  found p x hp hx := (hrows p x).1 (List.mem_of_mem_head? (by rw [← hslug p hp]; exact hx))
  missing p k r hp hx hr hs := by
    rw [hslug p hp, List.head?_eq_none_iff] at hx
    have hm : (k, r) ∈ rows p := (hrows p (k, r)).2 ⟨hr, hs⟩
    rw [hx] at hm
    cases hm

theorem Fit.unambiguous (h : D.Fit P) : D.Unambiguous P where
  key k r p i hr hp hi := by
    rcases h k r hr p hp with hs | hk
    · rw [hi] at hs
      cases hs
    · rw [hi] at hk
      exact .inl (Read.key.inj hk)
  read k r p hr hp hi := by
    rcases h k r hr p hp with hs | hk
    · rw [hi] at hs
      cases hs
    · rw [hi] at hk
      cases hk

/-- Records come and go; the ones that were not there before bring slugs that fit. -/
theorem Fit.step {D' : Directory K R} (h : D.Fit P) (hnew : ∀ k r, D'.get k = some r →
    D.get k = some r ∧ D'.slug r = D.slug r ∨
    P.Fits k (D'.slug r)) : D'.Fit P := by
  intro k r hr
  rcases hnew k r hr with ⟨hold, hs⟩ | hfit
  · rw [hs]; exact h k r hold
  · exact hfit

/-- A slug that reads as a slug only fits everywhere. -/
theorem fits_of_slug {slug : String} (h : ∀ p, P.Same p slug → P.parse p = .slug) : P.Fits k slug :=
  fun p hp => .inl (h p hp)

theorem Addressed.unambiguous (hl : D.Looks P look) (h : D.Addressed P look) : D.Unambiguous P where
  key k r p i hr hp hi := by
    have hlook := hl.key p i hi
    cases hpub : D.isPublic r with
    | true =>
      -- the slug of a public record leads to it, and to the record under `i`
      have hfound := h.bySlug k r p (shown_some.2 ⟨hr, hpub⟩) hp
      rw [hlook, Option.map_eq_some_iff] at hfound
      obtain ⟨r', -, he⟩ := hfound
      exact .inl (congrArg Prod.fst he)
    | false =>
      cases hi' : D.shown i with
      | none => exact .inr ⟨rfl, rfl⟩
      | some r' =>
        rw [hi'] at hlook
        exact .inl (h.noOther k r p (i, r') hr hp hlook)
  read k r p hr hp hi := by
    cases hpub : D.isPublic r with
    | true =>
      have hfound := h.bySlug k r p (shown_some.2 ⟨hr, hpub⟩) hp
      rw [hl.dead p hi] at hfound
      cases hfound
    | false => rfl

theorem Unambiguous.addressed (hu : D.Unique P) (hl : D.Looks P look) (h : D.Unambiguous P) :
    D.Addressed P look where
  bySlug k r p hr hp := by
    obtain ⟨hg, hpub⟩ := shown_some.1 hr
    cases hi : P.parse p with
    | panic =>
      have hn := h.read k r p hg hp hi
      rw [hpub] at hn
      cases hn
    | key i =>
      -- the id it reads as is its own, or of no record that is shown
      rcases h.key k r p i hg hp hi with rfl | ⟨hn, -⟩
      · rw [hl.key p i hi, hr]; rfl
      · rw [hpub] at hn; cases hn
    | slug =>
      cases hx : look p with
      | none => exact absurd hp (hl.missing p k r hi hx hr)
      | some x =>
        obtain ⟨hs, hp'⟩ := hl.found p x hi hx
        have hk : x.1 = k := hu _ _ _ _ (shown_some.1 hs).1 hg (hp'.symm.trans hp)
        rw [hk, hr] at hs
        cases x
        cases hk
        cases hs
        rfl
  byKey k r p hr hi := by rw [hl.key p k hi, hr]; rfl
  noOther k r p x hr hp hx := by
    cases hi : P.parse p with
    | panic =>
      rw [hl.dead p hi] at hx
      cases hx
    | slug =>
      obtain ⟨hs, hp'⟩ := hl.found p x hi hx
      exact hu _ _ _ _ (shown_some.1 hs).1 hr (hp'.symm.trans hp)
    | key i =>
      rw [hl.key p i hi, Option.map_eq_some_iff] at hx
      obtain ⟨r', hr', rfl⟩ := hx
      rcases h.key k r p i hr hp hi with hik | ⟨-, hn⟩
      · exact hik
      · rw [hn] at hr'; cases hr'

/-- **A lookup serves every public record under its own names if and only if the names
are unambiguous.** -/
theorem addressed_iff (hu : D.Unique P) (hl : D.Looks P look) : D.Addressed P look ↔
    D.Unambiguous P :=
  ⟨fun h => h.unambiguous hl, fun h => h.addressed hu hl⟩

end Directory

end Names
