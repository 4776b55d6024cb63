import DreamFly.Content.Pages
import DreamFly.Txn.Plain

/-!
# Pages, proved

What each request does to the tables where it commits (`PageReq.Edits`, `PageReq.edits`):
a create request adds the row that its body says, a partial update changes the row as its
body says, and neither touches any other row.
-/

namespace DreamFly.Content

open Txn Prog

/-- The transaction added this row to `t`. -/
def Added (t : PageTbl) (row : t.Row) (σ : Pt Pages) : Prop :=
  ∃ k, σ.now.get t k = none ∧ σ.db = σ.now.apply (.add t k row)

/-- The transaction changed row `id` of `t` by `f`. -/
def Modified (t : PageTbl) (id : Uuid) (f : t.Row → t.Row) (σ : Pt Pages) : Prop :=
  ∃ r, σ.now.get t id = some r ∧ σ.db = σ.now.apply (.mod t id f)

/-- What a request does where it commits. -/
def PageReq.Edits (L : Letters) : PageReq → Pt Pages → Prop
  | .createPost authorId req, σ => req.validate = [] ∧ ∃ category, Added .posts
      ⟨authorId, req.title, req.slug.getD (slugify L req.title), req.content, req.excerpt, category,
        .draft, req.coverImage, none⟩ σ
  | .updatePost id _ req _, σ =>
    ∃ category status publishedAt, Modified .posts id (req.apply category status publishedAt) σ
  | .createVenue req, σ => req.validate = [] ∧ Added .venues
      ⟨req.categoryId, req.name, req.slug.getD (slugify L req.name), req.description, req.features,
        req.imageUrl, true⟩ σ
  | .updateVenue id req, σ => Modified .venues id req.apply σ
  | .createCoach req, σ =>
    req.validate = [] ∧ Added .coaches ⟨req.userId, req.title, req.bio, req.experience,
      req.specialties,
      req.certifications, req.isActive.getD true, req.displayOrder.getD 0, req.slug, req.photoUrl⟩ σ
  | .updateCoach id req, σ => Modified .coaches id req.apply σ
  | .updateMe userId req _, σ => req.validate = [] ∧ Modified .users userId req.apply σ

section pieces
variable {C : Pt Pages → Prop} {σ : Pt Pages} {L : Letters}

theorem takeEntry_quiet (u : PageUniq) (taken : Store Pages → Bool) (e : AppError) :
    Plain.Quiet (rowLocks Pages) C (takeEntry u taken e) :=
  (Plain.Quiet.claim _ _).bind fun b => Plain.Quiet.ensure (!b) e

theorem takeCoachSlug_quiet (id : Option Uuid) (slug : Option String) :
    Plain.Quiet (rowLocks Pages) C (takeCoachSlug id slug) := by
  cases slug with
  | none => exact Plain.Quiet.ret ()
  | some slug => exact takeEntry_quiet _ _ _

theorem referencesCategory_quiet (id : Option Uuid) :
    Plain.Quiet (rowLocks Pages) C (referencesCategory id) := by
  cases id with
  | none => exact Plain.Quiet.ret ()
  | some id => exact Plain.Quiet.references _ _ _

theorem postEntries_quiet (id : Uuid) (slug : Option String) (r : Post) :
    Plain.Quiet (rowLocks Pages) C (postEntries L id slug r) := by
  cases slug with
  | none => exact Plain.Quiet.ret ()
  | some slug =>
    exact (Plain.Quiet.ensure _ _).bind fun _ => (Plain.Quiet.lockRes _ _).bind fun _ =>
      takeEntry_quiet _ _ _

theorem venueEntries_quiet (id : Uuid) (req : UpdateVenueRequest) (r : Venue) :
    Plain.Quiet (rowLocks Pages) C (venueEntries L id req r) := by
  refine Plain.Quiet.bind ?_ fun _ => referencesCategory_quiet _
  unfold venueSlugEntries
  cases req.slug with
  | none => exact Plain.Quiet.ret ()
  | some slug =>
    exact (Plain.Quiet.ensure _ _).bind fun _ => (Plain.Quiet.lockRes _ _).bind fun _ =>
      takeEntry_quiet _ _ _

theorem coachEntries_quiet (id : Uuid) (slug : Option (Option String)) (r : Coach) :
    Plain.Quiet (rowLocks Pages) C (coachEntries id slug r) := by
  cases slug with
  | none => exact Plain.Quiet.ret ()
  | some slug =>
    refine (Plain.Quiet.ensure _ _).bind fun _ => Plain.Quiet.bind ?_ fun _ =>
      takeCoachSlug_quiet _ _
    cases hs : r.slug with
    | none => exact Plain.Quiet.ret ()
    | some old => exact Plain.Quiet.lockRes _ _

/-- A new row, after checks that change nothing. -/
theorem insertRow_plain {t : PageTbl} {row : t.Row} (hσ : σ.db = σ.now) :
    Plain (rowLocks Pages) C σ (insertRow t row) fun _ σ' => Added t row σ' := by
  refine Yields.bind (Yields.insert fun n => rowLocks_covers (holds_acquire _ _ _))
    fun n σ₁ hl ⟨hn, _, _, h₁⟩ => .pure ⟨n, ?_, ?_⟩
  · rw [hl.now]; exact hn
  · rw [hl.now, ← hσ, h₁]; rfl

theorem updateReturning_plain {t : PageTbl} {id : Uuid} {entries : t.Row → Tx Unit}
    {f : t.Row → t.Row} {e : AppError}
    (hσ : σ.db = σ.now) (he : ∀ r, Plain.Quiet (rowLocks Pages) C (entries r)) :
    Plain (rowLocks Pages) C σ (updateReturning t id entries f >>= fun r => orFail r e) fun _ σ' =>
      Modified t id f σ' := by
  refine Yields.bind (R := fun o σ' => o.isSome = true → Modified t id f σ') ?_ fun o σ' _ h =>
    .orFail (fun a ha => h (by rw [ha]; rfl)) trivial
  refine Yields.bind (Yields.selectFor (m := .noKeyUpdate) (by decide) trivial)
    fun r σ₁ hl₁ ⟨hd₁, hr⟩ => ?_
  cases r with
  | none => exact .pure fun h => (nomatch h)
  | some r =>
    obtain ⟨hh, hg, -⟩ := hr r rfl
    refine Yields.bind (he r σ₁) fun _ σ₂ hl₂ hd₂ => ?_
    refine Yields.bind (Yields.put (rowLocks_covers (hl₂.holds hh))) fun _ σ₃ hl₃ h₃ =>
      .pure fun _ => ⟨r, ?_, ?_⟩
    · rw [hl₃.now, hl₂.now, hl₁.now, ← hσ]; exact hg
    · rw [hl₃.now, hl₂.now, hl₁.now, ← hσ, ← hd₁, ← hd₂, h₃]; rfl

end pieces

variable {L : Letters} {d d' : Store Pages}

/-- **Every request does where it commits what `Edits` says.** -/
theorem PageReq.edits (q : PageReq) : Commits (rowLocks Pages) (q.Edits L) ((pages L).prog q)
    (.begin d d' false) := by
  cases q with
  | createPost authorId req =>
    refine commits_map (commits_bind (R := fun _ σ' => validated req.validate = .ok () ∧
      σ' = .begin d d' false)
      (plain_checked fun _ h => ⟨h, rfl⟩) fun _ σ₁ _ ⟨hv, h₁⟩ => ?_)
    subst h₁
    refine commits_bind (R := fun _ σ' => σ' = .begin d d' false)
      (.orFail (fun _ _ => rfl) trivial) fun category σ₂ _ h₂ => ?_
    subst h₂
    refine commits_atomically (R := fun _ σ' => Added .posts _ σ') ?_ fun _ _ _ h =>
      ⟨validated_ok hv, category, h⟩
    -- checks, unique entries and references write nothing; the row is the only write
    refine Yields.bind (Plain.Quiet.ensure _ _ _) fun _ σ₃ h3 hd₃ => ?_
    refine Yields.bind (takeEntry_quiet _ _ _ _) fun _ σ₄ h4 hd₄ => ?_
    refine Yields.bind (Plain.Quiet.references _ _ _ _) fun _ σ₅ h5 hd₅ => insertRow_plain ?_
    rw [hd₅, hd₄, hd₃, h5.now, h4.now, h3.now]; rfl
  | updatePost id auth req now =>
    refine commits_map (commits_bind (R := fun _ σ' => σ' = .begin d d' false)
      (plain_checked fun _ _ => rfl) fun _ σ₁ _ h₁ => ?_)
    subst h₁
    refine commits_bind (R := fun _ σ' => σ' = .begin d d' false)
      -- what comes before the transaction reads and checks
      (.read fun _ _ _ => rfl) fun existing σ₂ _ h₂ => ?_
    subst h₂
    refine commits_bind (R := fun _ σ' => σ' = .begin d d' false)
      (.orFail (fun _ _ => rfl) trivial) fun existing σ₃ _ h₃ => ?_
    subst h₃
    refine commits_bind (R := fun _ σ' => σ' = .begin d d' false)
      (plain_checked fun _ _ => rfl) fun _ σ₄ _ h₄ => ?_
    subst h₄
    refine commits_bind (R := fun _ σ' => σ' = .begin d d' false)
      (plain_checked fun _ _ => rfl) fun category σ₅ _ h₅ => ?_
    subst h₅
    refine commits_bind (R := fun _ σ' => σ' = .begin d d' false)
      (plain_checked fun _ _ => rfl) fun status σ₆ _ h₆ => ?_
    subst h₆
    exact commits_atomically (updateReturning_plain rfl (postEntries_quiet _ _)) fun _ _ _ h =>
      ⟨_, _, _, h⟩
  | createVenue req =>
    refine commits_map (commits_bind (R := fun _ σ' => validated req.validate = .ok () ∧
      σ' = .begin d d' false)
      (plain_checked fun _ h => ⟨h, rfl⟩) fun _ σ₁ _ ⟨hv, h₁⟩ => ?_)
    subst h₁
    refine commits_atomically (R := fun _ σ' => Added .venues _ σ') ?_ fun _ _ _ h =>
      ⟨validated_ok hv, h⟩
    refine Yields.bind (Plain.Quiet.ensure _ _ _) fun _ σ₂ h2 hd₂ => ?_
    refine Yields.bind (takeEntry_quiet _ _ _ _) fun _ σ₃ h3 hd₃ => ?_
    refine Yields.bind (referencesCategory_quiet _ _) fun _ σ₄ h4 hd₄ => insertRow_plain ?_
    rw [hd₄, hd₃, hd₂, h4.now, h3.now, h2.now]; rfl
  | updateVenue id req =>
    refine commits_map (commits_bind (R := fun _ σ' => σ' = .begin d d' false)
      (plain_checked fun _ _ => rfl) fun _ σ₁ _ h₁ => ?_)
    subst h₁
    exact commits_atomically (updateReturning_plain rfl (venueEntries_quiet _ _)) fun _ _ _ h => h
  | createCoach req =>
    refine commits_map (commits_bind (R := fun _ σ' => validated req.validate = .ok () ∧
      σ' = .begin d d' false)
      (plain_checked fun _ h => ⟨h, rfl⟩) fun _ σ₁ _ ⟨hv, h₁⟩ => ?_)
    subst h₁
    refine commits_bind (R := fun _ σ' => σ' = .begin d d' false)
      (.read fun _ _ _ => rfl) fun user σ₂ _ h₂ => ?_
    subst h₂
    refine commits_bind (R := fun _ σ' => σ' = .begin d d' false)
      (.orFail (fun _ _ => rfl) trivial) fun user σ₃ _ h₃ => ?_
    subst h₃
    refine commits_atomically (R := fun _ σ' => Added .coaches _ σ') ?_ fun _ _ _ h =>
      ⟨validated_ok hv, h⟩
    refine Yields.bind (takeEntry_quiet _ _ _ _) fun _ σ₄ h4 hd₄ => ?_
    refine Yields.bind (takeCoachSlug_quiet _ _ _) fun _ σ₅ h5 hd₅ => ?_
    refine Yields.bind (Plain.Quiet.references _ _ _ _) fun _ σ₆ h6 hd₆ => insertRow_plain ?_
    rw [hd₆, hd₅, hd₄, h6.now, h5.now, h4.now]; rfl
  | updateCoach id req =>
    refine commits_map (commits_bind (R := fun _ σ' => σ' = .begin d d' false)
      (plain_checked fun _ _ => rfl) fun _ σ₁ _ h₁ => ?_)
    subst h₁
    exact commits_atomically (updateReturning_plain rfl (coachEntries_quiet _ _)) fun _ _ _ h => h
  | updateMe userId req today =>
    refine commits_map (commits_bind (R := fun _ σ' => validated req.validate = .ok () ∧
      σ' = .begin d d' false)
      (plain_checked fun _ h => ⟨h, rfl⟩) fun _ σ₁ _ ⟨hv, h₁⟩ => ?_)
    subst h₁
    refine commits_bind (R := fun _ σ' => σ' = .begin d d' false)
      (plain_checked fun _ _ => rfl) fun _ σ₂ _ h₂ => ?_
    subst h₂
    exact commits_atomically (updateReturning_plain rfl fun _ => Plain.Quiet.ret ()) fun _ _ _ h =>
      ⟨validated_ok hv, h⟩

end DreamFly.Content
