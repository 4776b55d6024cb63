import DreamFly.Proof.Pages

/-!
# Stored URLs are harmless

What each request leaves in the URL column of its row (`PageReq.Leaves`). A create
request and a profile edit leave a checked URL. The partial updates of posts, venues and
coaches store theirs unchecked: the columns stay harmless exactly as long as every such
update brings a URL that the check would have accepted.
-/

namespace DreamFly.Content

open Txn Prog

/-- The URL column of a table. -/
def urlOf : (t : PageTbl) → t.Row → Option String
  | .posts, r => r.coverImage
  | .venues, r => r.imageUrl
  | .venueCategories, _ => none
  | .coaches, r => r.photoUrl
  | .users, r => r.avatarUrl

/-- Every stored URL is harmless, except the avatars of `d₀` that no request has written. -/
def Safe (d₀ d : Store Pages) : Prop :=
  ∀ t k r, d.get t k = some r → ∀ url, urlOf t r = some url →
    Harmless url ∨ t = .users ∧ ∃ r₀, d₀.get t k = some r₀ ∧ urlOf t r₀ = some url

/-! ## What a request stores -/

/-- The transaction added a row of `t` with this URL. -/
def Created (t : PageTbl) (url : Option String) (σ : Pt Pages) : Prop :=
  ∃ k r, urlOf t r = url ∧ σ.now.get t k = none ∧ σ.db = σ.now.apply (.add t k r)

/-- The transaction changed row `id` of `t`, and its URL if one is given. -/
def Changed (t : PageTbl) (id : Uuid) (url : Option (Option String)) (σ : Pt Pages) : Prop :=
  ∃ r f, σ.now.get t id = some r ∧ urlOf t (f r) = url.getD (urlOf t r) ∧
    σ.db = σ.now.apply (.mod t id f)

/-- What a request does to its row where it commits. -/
def PageReq.Leaves : PageReq → Pt Pages → Prop
  | .createPost _ req, σ => req.validate = [] ∧ Created .posts req.coverImage σ
  | .updatePost id _ req _, σ => Changed .posts id req.coverImage σ
  | .createVenue req, σ => req.validate = [] ∧ Created .venues req.imageUrl σ
  | .updateVenue id req, σ => Changed .venues id req.imageUrl σ
  | .createCoach req, σ => req.validate = [] ∧ Created .coaches req.photoUrl σ
  | .updateCoach id req, σ => Changed .coaches id req.photoUrl σ
  | .updateMe userId req _, σ =>
    req.validate = [] ∧ Changed .users userId (req.avatarUrl.map some) σ

section
variable {t : PageTbl} {id : Uuid} {row : t.Row} {f : t.Row → t.Row} {url : Option (Option String)}
  {σ : Pt Pages} {L : Letters}
  {q : PageReq}

theorem Added.created (h : Added t row σ) : Created t (urlOf t row) σ :=
  let ⟨k, hk, hdb⟩ := h
  ⟨k, row, rfl, hk, hdb⟩

theorem Modified.changed (h : Modified t id f σ) (hf : ∀ r, urlOf t (f r) = url.getD (urlOf t r)) :
    Changed t id url σ :=
  let ⟨r, hr, hdb⟩ := h
  ⟨r, f, hr, hf r, hdb⟩

theorem PageReq.Edits.leaves (h : q.Edits L σ) : q.Leaves σ := by
  cases q with
  | createPost authorId req =>
    obtain ⟨hv, category, h⟩ := h
    exact ⟨hv, h.created⟩
  | updatePost id auth req now =>
    obtain ⟨category, status, publishedAt, h⟩ := h
    exact h.changed fun _ => rfl
  | createVenue | createCoach => exact ⟨h.1, h.2.created⟩
  | updateVenue | updateCoach => exact Modified.changed h fun _ => rfl
  | updateMe userId req today =>
    refine ⟨h.1, h.2.changed fun r => ?_⟩
    -- a profile edit cannot clear the avatar
    show (req.avatarUrl.orElse fun _ => r.avatarUrl) = _
    cases req.avatarUrl <;> rfl

end

variable {L : Letters} {d d' d₀ : Store Pages} {s s' : Sys Pages AppError PageReply PageReq} {t : ℕ}
  {c : Call Pages AppError PageReply PageReq}

/-- **Every request leaves in its row what `Leaves` says.** -/
theorem PageReq.commits (q : PageReq) : Commits (rowLocks Pages) q.Leaves ((pages L).prog q)
    (.begin d d' false) :=
  commits_imp (fun _ h => h.leaves) q.edits

/-! ## The URL columns -/

/-- The URL that a partial update sets passes the check it does not go through. -/
def PageReq.BringsValid : PageReq → Prop
  | .updatePost _ _ req _ =>
    ∀ url, req.coverImage = some (some url) → validateStoredUrl url = .ok ()
  | .updateVenue _ req => ∀ url, req.imageUrl = some (some url) → validateStoredUrl url = .ok ()
  | .updateCoach _ req => ∀ url, req.photoUrl = some (some url) → validateStoredUrl url = .ok ()
  | _ => True

theorem valid_of_optional {field url : String} {u : Option String}
    (h : optional (urlCheck field) u = []) (hu : u = some url) :
    validateStoredUrl url = .ok () := by
  subst hu
  exact urlCheck_nil.1 h

variable {σ : Pt Pages} {tbl : PageTbl}

theorem Created.safe {url : Option String} (h : Created tbl url σ)
    (hv : ∀ u, url = some u → validateStoredUrl u = .ok ())
    (hs : Safe d₀ σ.now) : Safe d₀ σ.db := by
  obtain ⟨k, r, rfl, hnew, hdb⟩ := h
  rw [hdb]
  intro t' k' r' hg u hu
  by_cases ht : t' = tbl
  · subst ht
    rw [Store.get_add] at hg
    split at hg
    · rw [hnew] at hg
      cases hg
      exact .inl ((harmless_iff u).2 (hv u hu))
    · exact hs t' k' r' hg u hu
  · rw [Store.get_apply_other _ ht] at hg
    exact hs t' k' r' hg u hu

theorem Changed.safe {id : Uuid} {url : Option (Option String)} (h : Changed tbl id url σ)
    (hv : ∀ u, url = some (some u) → validateStoredUrl u = .ok ()) (hs : Safe d₀ σ.now) :
    Safe d₀ σ.db := by
  obtain ⟨r, f, hr, hf, hdb⟩ := h
  rw [hdb]
  intro t' k' r' hg u hu
  by_cases ht : t' = tbl
  · subst ht
    rw [Store.get_mod] at hg
    split at hg
    next hk =>
      subst hk
      rw [hr] at hg
      cases hg
      rw [hf] at hu
      cases url with
      | none => exact hs t' k' r hr u hu
      | some url => exact .inl ((harmless_iff u).2 (hv u (by rw [← hu]; rfl)))
    · exact hs t' k' r' hg u hu
  · rw [Store.get_apply_other _ ht] at hg
    exact hs t' k' r' hg u hu

/-- A URL that the check refuses, set outside `users`, stays in its row. -/
theorem Changed.harmful {id : Uuid} {u : String} (h : Changed tbl id (some (some u)) σ)
    (ht : tbl ≠ .users)
    (hv : ¬ validateStoredUrl u = .ok ()) : ¬ Safe d₀ σ.db := by
  obtain ⟨r, f, hr, hf, hdb⟩ := h
  intro hs
  have hg : σ.db.get tbl id = some (f r) := by rw [hdb, Store.get_mod, if_pos rfl, hr]; rfl
  rcases hs tbl id (f r) hg u hf with hu | ⟨ht', -⟩
  · exact hv hu.valid
  · exact ht ht'

theorem PageReq.Leaves.safe {q : PageReq} (h : q.Leaves σ) (hq : q.BringsValid)
    (hs : Safe d₀ σ.now) : Safe d₀ σ.db := by
  cases q with
  | createPost authorId req =>
    exact h.2.safe (fun u hu => valid_of_optional (List.append_eq_nil_iff.1 h.1).2 hu) hs
  | createVenue req =>
    exact h.2.safe (fun u hu => valid_of_optional (List.append_eq_nil_iff.1 h.1).2 hu) hs
  | createCoach req =>
    exact h.2.safe (fun u hu => valid_of_optional (List.append_eq_nil_iff.1 h.1).2 hu) hs
  | updateMe userId req today =>
    refine h.2.safe (fun u hu => valid_of_optional (List.append_eq_nil_iff.1 h.1).2 ?_) hs
    simpa using hu
  | updatePost | updateVenue | updateCoach => exact Changed.safe h hq hs

theorem PageReq.Leaves.harmful {q : PageReq} (h : q.Leaves σ) (hq : ¬ q.BringsValid) :
    ¬ Safe d₀ σ.db := by
  cases q with
  | updatePost id auth req now =>
    simp only [BringsValid, not_forall] at hq
    obtain ⟨u, hu, hv⟩ := hq
    have h : Changed .posts id req.coverImage σ := h
    rw [hu] at h
    exact h.harmful (by decide) hv
  | updateVenue id req =>
    simp only [BringsValid, not_forall] at hq
    obtain ⟨u, hu, hv⟩ := hq
    have h : Changed .venues id req.imageUrl σ := h
    rw [hu] at h
    exact h.harmful (by decide) hv
  | updateCoach id req =>
    simp only [BringsValid, not_forall] at hq
    obtain ⟨u, hu, hv⟩ := hq
    have h : Changed .coaches id req.photoUrl σ := h
    rw [hu] at h
    exact h.harmful (by decide) hv
  | createPost | createVenue | createCoach | updateMe => exact absurd trivial hq

/-- **Stored URLs are harmless as long as every partial update brings a valid one**: then
they are in every reachable state, and where an update brings another one and commits,
they are not. -/
theorem stored_urls_harmless (h0 : Safe d d) :
    (∀ s, (pages L).ReachOf PageReq.BringsValid (Sys.init d) s → Safe d s.db) ∧
    ∀ s t c s', (pages L).Reachable (Sys.init d) s → CommitStep s t c s' → ¬ c.req.BringsValid →
      ¬ Safe d s'.db := by
  refine ⟨fun s h => ?_, fun s t c s' h hcs hq => ?_⟩
  · exact plain_inv (fun _ _ _ => trivial) (fun q _ _ _ => q.commits) h0
      (fun q σ hq _ hl hs => hl.safe hq hs) h
  · obtain ⟨σ, -, hdb, -, -, -, hl⟩ := plain_commit (plain_ok (h := fun q _ _ _ => q.commits)
      (fun _ _ _ => trivial) h) hcs
    rw [← hdb]
    exact hl.harmful hq

def asciiLetters : Letters := ⟨String.toLower, String.toLower⟩

/-- One user, no pages. -/
def samplePages : Store Pages := Store.overlay [.add .users 1 ⟨"ann", none, false, none, none,
    none⟩] fun _ => ∅

theorem samplePages_safe : Safe samplePages samplePages := by
  intro t k r hk url hu
  cases t with
  | users => exact .inr ⟨rfl, r, hk, hu⟩
  | _ => cases hk

/-- User 1 writes a post with a cover; the post is 104. -/
def samplePost : List (Event PageReq) :=
  .start 0 (.createPost 1 ⟨"Opening", none, "We open.", none, "event",
    some "https://example.com/a.png"⟩) :: Event.steps 0 100 7

theorem stored_urls_harmless_post :
    let s := (pages asciiLetters).after samplePost (Sys.init samplePages)
    Safe samplePages s.db ∧ (s.db.get .posts 104).map Post.coverImage =
      some (some "https://example.com/a.png") := by
  have hreach : (pages asciiLetters).ReachOf PageReq.BringsValid (Sys.init samplePages)
      ((pages asciiLetters).after samplePost (Sys.init samplePages)) := by
    refine Service.reach_after fun e he _ _ t q hq => ?_
    rcases List.mem_cons.1 he with rfl | he
    · cases hq; trivial
    · obtain ⟨i, -, rfl⟩ := List.mem_map.1 he
      cases hq
  exact ⟨(stored_urls_harmless samplePages_safe).1 _ hreach, by decide +kernel⟩

/-- The author then gives the post another cover, by a partial update. -/
def sampleEdit : List (Event PageReq) :=
  samplePost ++ .start 1 (.updatePost 104 ⟨1, []⟩ ⟨none, none, none, none, none, none,
    some (some "javascript:alert(1)")⟩ 0) ::
    Event.steps 1 200 6

/-- **A partial update stores a script.** -/
theorem script_stored :
    let s := (pages asciiLetters).after sampleEdit (Sys.init samplePages)
    Safe samplePages samplePages ∧ (pages asciiLetters).Reachable (Sys.init samplePages) s ∧
      (s.db.get .posts 104).map Post.coverImage = some (some "javascript:alert(1)") ∧
      ¬ Safe samplePages s.db := by
  have hcover : (((pages asciiLetters).after sampleEdit
      (Sys.init samplePages)).db.get .posts 104).map Post.coverImage =
      some (some "javascript:alert(1)") := by decide +kernel
  refine ⟨samplePages_safe, Service.reachable_after _, hcover, fun hs => ?_⟩
  obtain ⟨r, hr, hu⟩ := Option.map_eq_some_iff.1 hcover
  rcases hs .posts 104 r hr _ hu with hh | ⟨ht, -⟩
  · exact absurd hh.valid (by decide +kernel)
  · cases ht

end DreamFly.Content
