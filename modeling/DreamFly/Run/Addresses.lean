import DreamFly.Names.Directory
import DreamFly.Proof.Courses
import DreamFly.Run.Urls
import DreamFly.Txn.Answer

/-!
# Public records under their own addresses

The public page of a post and of a course is looked up by one parameter, which is read as
an id first and as a slug otherwise. What slugs the requests bring is not checked against
this: a slug, given or derived from a title, may itself read as an id, or make the reading
panic. As long as none does, except that it reads as the id of its own record, every
published post and every active course is found by its slug in any letter case and by its
id, and by nobody else's slug.
-/

namespace DreamFly

open Txn Prog Names
open Content (Letters ParseUuid Pages Post PageReq)
open Courses (Timetable CourseReq)

/-- Ids as the library reads them, letter case as the database folds it. -/
def reading (L : Letters) (parse : ParseUuid) : Reading Uuid := ⟨parse, L.lower⟩

variable {L : Letters} {parse : ParseUuid}

/-! ## The two directories -/

def postsOf (d : Store Pages) : Directory Uuid Post :=
  ⟨d.get .posts, Post.slug, fun r => r.status = .published⟩

def coursesOf (d : Store Timetable) : Directory Uuid Courses.Course :=
  ⟨d.get .courses, Courses.Course.slug, Courses.Course.isActive⟩

/-- What the public lookup of a post answers. -/
def lookUpPost (L : Letters) (parse : ParseUuid) (d : Store Pages) (param : String) :
    Option (Uuid × Post) :=
  (Content.getPublishedBySlugOrId L parse param).bind fun p => p.answered d

/-- What the public lookup of a course answers, but for its slots. -/
def lookUpCourse (L : Letters) (parse : ParseUuid) (d : Store Timetable) (param : String) :
    Option (Uuid × Courses.Course) :=
  ((Courses.getActiveCourseBySlugOrId L parse param).bind fun p => p.answered d).map fun c =>
    (c.id, c.course)

theorem postsOf_looks (d : Store Pages) : (postsOf d).Looks (reading L parse)
    (lookUpPost L parse d) := by
  refine .of_search (fun p => d.sel .posts fun _ r => L.lower r.slug = L.lower p ∧
    r.status = .published) ?_ ?_ ?_ ?_
  · intro p k hp
    have hp : parse p = .key k := hp
    simp only [lookUpPost, Content.getPublishedBySlugOrId, hp, answered_bind, answered_read,
      answered_orFail, Option.bind_eq_bind,
      Option.bind_some, Option.pure_def]
    rfl
  · intro p hp
    have hp : parse p = .slug := hp
    simp only [lookUpPost, Content.getPublishedBySlugOrId, hp, answered_bind, answered_read,
      answered_orFail, Option.bind_eq_bind,
      Option.bind_some, Option.pure_def]
    rfl
  · intro p hp
    have hp : parse p = .panic := hp
    simp only [lookUpPost, Content.getPublishedBySlugOrId, hp, Option.bind_eq_bind,
      Option.bind_none]
  · intro p x
    rw [Store.mem_sel, Directory.shown_some, decide_eq_true_eq]
    show _ ↔ (_ ∧ decide _ = true) ∧ L.lower p = L.lower x.2.slug
    rw [decide_eq_true_eq]
    exact ⟨fun ⟨hg, hs, hp⟩ => ⟨⟨hg, hp⟩, hs.symm⟩, fun ⟨⟨hg, hp⟩, hs⟩ => ⟨hg, hs.symm, hp⟩⟩

/-- The slots that are read after the course fail nothing. -/
theorem courseDetail_answered (course : Option (Uuid × Courses.Course)) (d : Store Timetable) :
    (course.bind fun c => (Courses.courseDetail c).answered d).map (fun c => (c.id, c.course)) =
    course := by
  cases course <;> rfl

theorem coursesOf_looks (d : Store Timetable) : (coursesOf d).Looks (reading L parse)
    (lookUpCourse L parse d) := by
  refine .of_search (fun p => d.sel .courses fun _ c => L.lower c.slug = L.lower p ∧
    c.isActive) ?_ ?_ ?_ ?_
  · intro p k hp
    have hp : parse p = .key k := hp
    simp only [lookUpCourse, Courses.getActiveCourseBySlugOrId, hp, answered_bind, answered_read,
      answered_orFail,
      Option.bind_eq_bind, Option.bind_some, Option.pure_def]
    exact courseDetail_answered _ d
  · intro p hp
    have hp : parse p = .slug := hp
    simp only [lookUpCourse, Courses.getActiveCourseBySlugOrId, hp, answered_bind, answered_read,
      answered_orFail,
      Option.bind_eq_bind, Option.bind_some, Option.pure_def]
    exact courseDetail_answered _ d
  · intro p hp
    have hp : parse p = .panic := hp
    simp only [lookUpCourse, Courses.getActiveCourseBySlugOrId, hp, Option.bind_eq_bind,
      Option.bind_none, Option.map_none]
  · intro p x
    rw [Store.mem_sel, Directory.shown_some, decide_eq_true_eq]
    exact ⟨fun ⟨hg, hs, hp⟩ => ⟨⟨hg, hp⟩, hs.symm⟩, fun ⟨⟨hg, hp⟩, hs⟩ => ⟨hg, hs.symm, hp⟩⟩

/-! ## Slugs that fit -/

/-- Every slug that a request brings is read, in any letter case, and as no id unless it is the
id of the record that it is given to. -/
def Content.PageReq.SlugFits (L : Letters) (parse : ParseUuid) : PageReq → Prop
  | .createPost _ req =>
    ∀ p, (reading L parse).Same p (req.slug.getD (Content.slugify L req.title)) → parse p = .slug
  | .updatePost id _ req _ => ∀ slug, req.slug = some slug → (reading L parse).Fits id slug
  | _ => True

def Courses.CourseReq.SlugFits (L : Letters) (parse : ParseUuid) : CourseReq → Prop
  | .createCourse req =>
    ∀ p, (reading L parse).Same p (req.slug.getD (Content.slugify L req.name)) → parse p = .slug
  | .updateCourse id req _ => ∀ slug, req.slug = some slug → (reading L parse).Fits id slug
  | _ => True

/-- A slug after an update: the one given, or the one that was there. -/
theorem fits_getD {P : Reading Uuid} {id : Uuid} {given : Option String} {old : String}
    (hg : ∀ slug, given = some slug → P.Fits id slug)
    (ho : P.Fits id old) : P.Fits id (given.getD old) := by
  cases given with
  | none => exact ho
  | some slug => exact hg slug rfl

theorem Content.PageReq.Edits.fit {q : PageReq} {σ : Pt Pages} (h : q.Edits L σ)
    (hq : q.SlugFits L parse)
    (hf : (postsOf σ.now).Fit (reading L parse)) : (postsOf σ.db).Fit (reading L parse) := by
  have hother : ∀ w : Write Pages, w.tbl ≠ .posts → σ.db = σ.now.apply w →
      (postsOf σ.db).Fit (reading L parse) := by
    intro w hw hdb
    refine hf.step fun k r hr => .inl ⟨?_, rfl⟩
    have hr : σ.db.get .posts k = some r := hr
    rwa [hdb, Store.get_apply_other _ (Ne.symm hw)] at hr
  cases q with
  | createPost authorId req =>
    obtain ⟨-, category, k, hk, hdb⟩ := h
    refine hf.step fun x r hr => ?_
    have hr : σ.db.get .posts x = some r := hr
    rw [hdb, Store.get_add, hk] at hr
    split at hr
    · cases hr
      exact .inr (Directory.fits_of_slug hq)
    · exact .inl ⟨hr, rfl⟩
  | updatePost id auth req now =>
    obtain ⟨category, status, publishedAt, r₀, hr₀, hdb⟩ := h
    refine hf.step fun x r hr => ?_
    have hr : σ.db.get .posts x = some r := hr
    rw [hdb, Store.get_mod] at hr
    split at hr
    next hx =>
      subst hx
      rw [hr₀] at hr
      cases hr
      exact .inr (fits_getD hq (hf x r₀ hr₀))
    · exact .inl ⟨hr, rfl⟩
  | createVenue | createCoach =>
    obtain ⟨-, k, -, hdb⟩ := h
    exact hother _ (by simp [Write.tbl]) hdb
  | updateVenue | updateCoach =>
    obtain ⟨r, -, hdb⟩ := h
    exact hother _ (by simp [Write.tbl]) hdb
  | updateMe userId req today =>
    obtain ⟨-, r, -, hdb⟩ := h
    exact hother _ (by simp [Write.tbl]) hdb

theorem Courses.CourseReq.Edits.fit {q : CourseReq} {σ : Pt Timetable} (h : q.Edits L σ)
    (hq : q.SlugFits L parse)
    (hf : (coursesOf σ.now).Fit (reading L parse)) : (coursesOf σ.db).Fit (reading L parse) := by
  have hcal : CourseTbl.courses ∉ calendar := by decide
  cases q with
  | createCourse req =>
    obtain ⟨level, ages, k, hk, hdb⟩ := h
    refine hf.step fun x c hc => ?_
    have hc : σ.db.get .courses x = some c := hc
    rw [hdb.get hcal, Store.get_add, hk] at hc
    split at hc
    · cases hc
      exact .inr (Directory.fits_of_slug hq)
    · exact .inl ⟨hc, rfl⟩
  | updateCourse id req today =>
    obtain ⟨level, c₀, hc₀, hdb⟩ := h
    refine hf.step fun x c hc => ?_
    have hc : σ.db.get .courses x = some c := hc
    rw [hdb.get hcal, Store.get_mod] at hc
    split at hc
    next hx =>
      subst hx
      rw [hc₀] at hc
      cases hc
      exact .inr (fits_getD hq (hf x c₀ hc₀))
    · exact .inl ⟨hc, rfl⟩
  | materializeRange | insertLeave | bookMakeup | markAttendance =>
    refine hf.step fun x c hc => .inl ⟨?_, rfl⟩
    have hc : σ.db.get .courses x = some c := hc
    have h : Only calendar σ.now σ.db := h
    rwa [h.get hcal] at hc

/-! ## The addresses -/

/-- **Every public record is reachable by its own address as long as every slug that a
request brings reads as a slug**: in every run of such requests. In a single store of
unique slugs it is so if and only if the slugs are unambiguous. -/
theorem public_addresses (parseTime : Courses.ParseTime) :
    (∀ d s, (postsOf d).Fit (reading L parse) → (Content.pages L).ReachOf (PageReq.SlugFits L parse)
      (Sys.init d) s →
      (postsOf s.db).Unique (reading L parse) → (postsOf s.db).Addressed (reading L parse)
      (lookUpPost L parse s.db)) ∧
    (∀ d s, (coursesOf d).Fit (reading L parse) →
      (Courses.courses L parseTime).ReachOf (CourseReq.SlugFits L parse) (Sys.init d) s →
      (coursesOf s.db).Unique (reading L parse) → (coursesOf s.db).Addressed (reading L parse)
      (lookUpCourse L parse s.db)) ∧
    (∀ d, (postsOf d).Unique (reading L parse) →
      ((postsOf d).Addressed (reading L parse) (lookUpPost L parse d) ↔
        (postsOf d).Unambiguous (reading L parse))) ∧
    ∀ d, (coursesOf d).Unique (reading L parse) →
      ((coursesOf d).Addressed (reading L parse) (lookUpCourse L parse d) ↔
        (coursesOf d).Unambiguous (reading L parse)) := by
  refine ⟨fun d s hd hr hu => ?_, fun d s hd hr hu => ?_, fun d hu =>
    Directory.addressed_iff hu (postsOf_looks d),
    fun d hu => Directory.addressed_iff hu (coursesOf_looks d)⟩
  · have hfit : (postsOf s.db).Fit (reading L parse) :=
      plain_inv (P := fun e => (postsOf e).Fit (reading L parse)) (fun _ _ _ => trivial)
        (fun q _ _ _ => q.edits (L := L)) hd
        (fun q σ hq _ he hf => he.fit hq hf) hr
    exact hfit.unambiguous.addressed hu (postsOf_looks s.db)
  · have hfit : (coursesOf s.db).Fit (reading L parse) :=
      plain_inv (P := fun e => (coursesOf e).Fit (reading L parse)) (fun _ _ _ => trivial)
        (fun q _ _ _ => q.edits (L := L)) hd
        (fun q σ hq _ he hf => he.fit hq hf) hr
    exact hfit.unambiguous.addressed hu (coursesOf_looks s.db)

/-! ## Two catalogues -/

open Content (asciiLetters parseUuid parseUuid_length parseUuid_panic samplePages samplePost)

theorem postsOf_unique {d : Store Pages}
    (h : ∀ x ∈ (d .posts).rows, ∀ y ∈ (d .posts).rows, L.lower x.2.slug = L.lower y.2.slug →
      x.1 = y.1) :
    (postsOf d).Unique (reading L parse) :=
  fun k r k' r' hr hr' => h (k, r) (Table.mem_rows.2 hr) (k', r') (Table.mem_rows.2 hr')

theorem coursesOf_unique {d : Store Timetable}
    (h : ∀ x ∈ (d .courses).rows, ∀ y ∈ (d .courses).rows, L.lower x.2.slug = L.lower y.2.slug →
      x.1 = y.1) :
    (coursesOf d).Unique (reading L parse) :=
  fun k r k' r' hr hr' => h (k, r) (Table.mem_rows.2 hr) (k', r') (Table.mem_rows.2 hr')

theorem toLower_eq (s : String) : s.toLower = s.map Char.toLower := rfl

/-- A slug shorter than an id and without a brace at its beginning reads as a slug. -/
theorem short_unread {slug : String} (h : slug.length < 32)
    (hb : slug.toLower.toList.head? ≠ some '\x7b') (p : String)
    (hp : (reading asciiLetters parseUuid).Same p slug) : parseUuid p = .slug := by
  have hlower : p.toLower = slug.toLower := hp
  have hl : p.length = slug.length := by
    have := congrArg String.length hlower
    simpa only [toLower_eq, String.length_map] using this
  cases hi : parseUuid p with
  | slug => rfl
  | key i =>
    have := parseUuid_length hi
    omega
  | panic =>
    refine absurd ?_ hb
    rw [← hlower, toLower_eq, String.toList_map, List.head?_map, parseUuid_panic hi]
    rfl

/-- The post, then published by its author. -/
def samplePublished : List (Event PageReq) :=
  samplePost ++ .start 1 (.updatePost 104 ⟨1, []⟩ ⟨none, none, none, none, none, some "published",
    none⟩ 0) :: Event.steps 1 200 6

def newCourse (name : String) : CourseReq :=
  .createCourse ⟨name, none, "beginner", none, 60, 100000, 10, none, none, none, none, none, none,
    false, none⟩

/-- One course, 102, that derives its slug from its name. -/
def sampleCourse : List (Event CourseReq) := .start 0 (newCourse "Balance Beam") ::
    Event.steps 0 100 6

def noCourses : Store Timetable := fun _ => ∅

/-- The courses, with no time of day ever read. -/
def sampleCourses : Service Timetable AppError Courses.CourseReply CourseReq :=
  Courses.courses asciiLetters fun _ => none

theorem public_addresses_balance :
    let s := (Content.pages asciiLetters).after samplePublished (Sys.init samplePages)
    let u := sampleCourses.after sampleCourse (Sys.init noCourses)
    (postsOf s.db).Addressed (reading asciiLetters parseUuid)
      (lookUpPost asciiLetters parseUuid s.db) ∧
      (coursesOf u.db).Addressed (reading asciiLetters parseUuid)
        (lookUpCourse asciiLetters parseUuid u.db) ∧
      (lookUpPost asciiLetters parseUuid s.db "opening").map Prod.fst = some 104 ∧
      (lookUpCourse asciiLetters parseUuid u.db "balance-beam").map Prod.fst = some 102 := by
  -- both slugs are too short for an id
  have hposts : (Content.pages asciiLetters).ReachOf (PageReq.SlugFits asciiLetters parseUuid)
      (Sys.init samplePages)
      ((Content.pages asciiLetters).after samplePublished (Sys.init samplePages)) := by
    refine Service.reach_after fun e he _ _ t q hq => ?_
    simp only [samplePublished, samplePost, List.cons_append, List.mem_cons, List.mem_append] at he
    rcases he with rfl | he | rfl | he
    · cases hq
      exact short_unread (by decide +kernel) (by decide +kernel)
    · obtain ⟨i, -, rfl⟩ := List.mem_map.1 he
      cases hq
    · cases hq
      exact fun slug hs => nomatch hs
    · obtain ⟨i, -, rfl⟩ := List.mem_map.1 he
      cases hq
  have hcourses : sampleCourses.ReachOf (CourseReq.SlugFits asciiLetters parseUuid)
      (Sys.init noCourses)
      (sampleCourses.after sampleCourse (Sys.init noCourses)) := by
    refine Service.reach_after fun e he _ _ t q hq => ?_
    rcases List.mem_cons.1 he with rfl | he
    · cases hq
      exact short_unread (by decide +kernel) (by decide +kernel)
    · obtain ⟨i, -, rfl⟩ := List.mem_map.1 he
      cases hq
  have hnoPosts : (postsOf samplePages).Fit (reading asciiLetters parseUuid) := by
    intro k r hr
    cases hr
  have hnoCourses : (coursesOf noCourses).Fit (reading asciiLetters parseUuid) := by
    intro k r hr
    cases hr
  have h := @public_addresses asciiLetters parseUuid fun _ => none
  refine ⟨h.1 _ _ hnoPosts hposts (postsOf_unique ?_),
    h.2.1 _ _ hnoCourses hcourses (coursesOf_unique ?_), ?_, ?_⟩
  all_goals decide +kernel

/-- The second course is named after the first one's id, the third after nobody's. -/
def sampleDigits : List (Event CourseReq) :=
  sampleCourse ++ .start 1 (newCourse "00000000000000000000000000000066") :: Event.steps 1 200 6 ++
    .start 2 (newCourse "ffffffff ffff ffff ffff ffffffffffff") :: Event.steps 2 300 6

/-- **The second course's page shows the first one, the third has no page**: their names
make slugs that read as ids. -/
theorem addresses_taken :
    let s := sampleCourses.after sampleDigits (Sys.init noCourses)
    sampleCourses.Reachable (Sys.init noCourses) s ∧ (∀ k, noCourses.get .courses k = none) ∧
      (coursesOf s.db).Unique (reading asciiLetters parseUuid) ∧
      ((coursesOf s.db).shown 202).map Courses.Course.slug =
      some "00000000000000000000000000000066" ∧
      (lookUpCourse asciiLetters parseUuid s.db "00000000000000000000000000000066").map Prod.fst =
      some 102 ∧
      ((coursesOf s.db).shown 302).map Courses.Course.slug =
      some "ffffffff-ffff-ffff-ffff-ffffffffffff" ∧
      lookUpCourse asciiLetters parseUuid s.db "ffffffff-ffff-ffff-ffff-ffffffffffff" = none ∧
      ¬ (coursesOf s.db).Addressed (reading asciiLetters parseUuid)
        (lookUpCourse asciiLetters parseUuid s.db) := by
  have hrun : ∀ s, s = (sampleCourses.after sampleDigits (Sys.init noCourses)).db →
      (∀ x ∈ (s .courses).rows, ∀ y ∈ (s .courses).rows, asciiLetters.lower x.2.slug =
        asciiLetters.lower y.2.slug → x.1 = y.1) ∧
      ((coursesOf s).shown 202).map Courses.Course.slug = some "00000000000000000000000000000066" ∧
      (lookUpCourse asciiLetters parseUuid s "00000000000000000000000000000066").map Prod.fst =
      some 102 ∧
      ((coursesOf s).shown 302).map Courses.Course.slug =
      some "ffffffff-ffff-ffff-ffff-ffffffffffff" ∧
      lookUpCourse asciiLetters parseUuid s "ffffffff-ffff-ffff-ffff-ffffffffffff" = none := by
    rintro _ rfl
    decide +kernel
  obtain ⟨hu, h202, hserved, h302, hnone⟩ := hrun _ rfl
  refine ⟨Service.reachable_after _, fun _ => rfl, coursesOf_unique hu, h202, hserved, h302, hnone,
    fun h => ?_⟩
  -- by its own slug the third one would have to be found
  obtain ⟨c, hc, hs⟩ := Option.map_eq_some_iff.1 h302
  have hfound := h.bySlug 302 c "ffffffff-ffff-ffff-ffff-ffffffffffff" hc
    (by rw [Reading.Same, ← hs]; rfl)
  rw [hnone] at hfound
  cases hfound

end DreamFly
