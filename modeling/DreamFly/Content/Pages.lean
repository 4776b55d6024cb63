import DreamFly.Base
import DreamFly.Content.Urls
import DreamFly.Txn.Sql
import DreamFly.Txn.Sys
import Mathlib.Data.List.Sort

/-!
# Pages

Posts, venues, coach profiles and users' own profiles: the requests that create and
edit them, with the checks their bodies go through and the statements that store them.
A field of a partial update that can be set to NULL is doubly optional: not given,
given as null, or given a value.
-/

namespace DreamFly.Content

open Txn Prog

/-! ## Tables -/

inductive PostCategory
  | announcement
  | article
  | promotion
  | event
deriving DecidableEq, Repr

inductive PostStatus
  | draft
  | published
  | archived
deriving DecidableEq, Repr

structure Post where
  authorId : Uuid
  title : String
  slug : String
  content : String
  excerpt : Option String
  category : PostCategory
  status : PostStatus
  coverImage : Option String
  publishedAt : Option Instant
deriving DecidableEq, Repr

structure Venue where
  categoryId : Option Uuid
  name : String
  slug : String
  description : Option String
  features : List String
  imageUrl : Option String
  isActive : Bool
deriving DecidableEq, Repr

structure Coach where
  userId : Uuid
  title : String
  bio : Option String
  experience : Option String
  specialties : List String
  certifications : List String
  isActive : Bool
  displayOrder : ℤ
  slug : Option String
  photoUrl : Option String
deriving DecidableEq, Repr

/-- The columns of `users` that a profile edit touches; `preferences` is a JSON text. -/
structure Profile where
  name : String
  phone : Option String
  phoneVerified : Bool
  avatarUrl : Option String
  preferences : Option String
  birthDate : Option ℤ
deriving DecidableEq, Repr

inductive PageTbl
  | posts
  | venues
  | venueCategories
  | coaches
  | users
deriving DecidableEq, Repr

inductive PageUniq
  | postSlug (lowerSlug : String)
  | venueSlug (lowerSlug : String)
  | coachSlug (slug : String)
  | coachUser (userId : Uuid)
deriving DecidableEq, Repr

@[reducible] def PageTbl.Row : PageTbl → Type
  | .posts => Post
  | .venues => Venue
  | .venueCategories => Unit
  | .coaches => Coach
  | .users => Profile

@[reducible] def Pages : Schema where
  Tbl := PageTbl
  Key := fun _ => Uuid
  Row := PageTbl.Row
  Uniq := PageUniq

abbrev Tx := Prog Pages AppError

/-- Letter case beyond ASCII: `to_lowercase` of the language, `LOWER` of the database. -/
structure Letters where
  toLowercase : String → String
  lower : String → String

/-! ## Checks of a request's fields -/

structure FieldError where
  field : String
  message : String
deriving DecidableEq, Repr

def lengthCheck (field : String) (min max : ℕ) (s : String) : List FieldError :=
  if min ≤ s.length ∧ s.length ≤ max then [] else [⟨field, "length"⟩]

def urlCheck (field url : String) : List FieldError :=
  match validateStoredUrl url with
  | .ok () => []
  | .error code => [⟨field, code⟩]

/-- A field that may be left out is checked where it is given. -/
def optional (check : String → List FieldError) (s : Option String) : List FieldError :=
  (s.map check).getD []

/-- One line of JSON, the fields in order. -/
def formatValidationErrors (errors : List FieldError) : String :=
  let sorted := errors.insertionSort fun a b => a.field ≤ b.field
  "\x7b" ++ ",".intercalate (sorted.map fun e => "\"" ++ e.field ++ "\":[\"" ++ e.message ++
    "\"]") ++ "\x7d"

/-- What a validated body goes through before its handler sees it. -/
def validated (errors : List FieldError) : Except AppError Unit :=
  if errors.isEmpty then .ok () else .error (.validation (formatValidationErrors errors))

theorem validated_ok {errors : List FieldError} (h : validated errors = .ok ()) : errors = [] := by
  unfold validated at h
  split at h
  next he => exact List.isEmpty_iff.1 he
  · cases h

/-- A URL field that passed its check. -/
theorem urlCheck_nil {field url : String} : urlCheck field url = [] ↔
    validateStoredUrl url = .ok () := by
  unfold urlCheck
  split
  next h => simp [h]
  next h => simp [h]

/-! ## Statements

`INSERT` and `UPDATE … RETURNING` of one row. A column limit that the row breaks is an
error of the database. -/

/-- The entry of a unique index that a row is about to take. -/
def takeEntry (u : PageUniq) (taken : Store Pages → Bool) (e : AppError) : Tx Unit := do
  let b ← claim (S := Pages) (.uniq u) taken
  ensure (!b) e

def someRow (t : PageTbl) (p : Uuid → t.Row → Bool) (d : Store Pages) : Bool := !(d.sel t p).isEmpty

def takePostSlug (L : Letters) (id : Option Uuid) (slug : String) : Tx Unit :=
  takeEntry (.postSlug (L.lower slug)) (someRow .posts fun k r => some k ≠ id ∧
    L.lower r.slug = L.lower slug)
    (.conflict "post slug already exists")

def takeVenueSlug (L : Letters) (id : Option Uuid) (slug : String) (e : AppError) : Tx Unit :=
  takeEntry (.venueSlug (L.lower slug)) (someRow .venues fun k r => some k ≠ id ∧
    L.lower r.slug = L.lower slug) e

/-- NULL takes no entry. -/
def takeCoachSlug (id : Option Uuid) (slug : Option String) : Tx Unit :=
  match slug with
  | none => return ()
  | some slug =>
    takeEntry (.coachSlug slug) (someRow .coaches fun k r => some k ≠ id ∧ r.slug = some slug)
      (.conflict ("coach slug '" ++ slug ++ "' already exists"))

def insertRow (t : PageTbl) (row : t.Row) : Tx t.Row := do
  let _ ← insert (S := Pages) t id fun _ => row
  return row

/-- UPDATE … WHERE id RETURNING *: `entries` checks the new row against the columns and
the unique indexes. -/
def updateReturning (t : PageTbl) (id : Uuid) (entries : t.Row → Tx Unit) (f : t.Row → t.Row) :
    Tx (Option t.Row) := do
  match ← selectFor (S := Pages) t id (fun _ => true) .noKeyUpdate with
  | none => return none
  | some r => do
    entries r
    put (S := Pages) (.mod t id f)
    return some (f r)

/-! ## Posts -/

namespace PostCategory

def all : List PostCategory := [.announcement, .article, .promotion, .event]

def asStr : PostCategory → String
  | .announcement => "announcement"
  | .article => "article"
  | .promotion => "promotion"
  | .event => "event"

def fromStr (L : Letters) (s : String) : Option PostCategory := all.find? fun v =>
    v.asStr = L.toLowercase s

end PostCategory

namespace PostStatus

def all : List PostStatus := [.draft, .published, .archived]

def asStr : PostStatus → String
  | .draft => "draft"
  | .published => "published"
  | .archived => "archived"

def fromStr (L : Letters) (s : String) : Option PostStatus := all.find? fun v =>
    v.asStr = L.toLowercase s

end PostStatus

def invalidCategoryMessage : String :=
  "invalid category, must be one of: " ++ ", ".intercalate (PostCategory.all.map PostCategory.asStr)

def invalidStatusMessage : String :=
  "invalid status, must be one of: " ++ ", ".intercalate (PostStatus.all.map PostStatus.asStr)

def isAsciiAlphanumeric (c : Char) : Bool := c.isAlphanum

/-- Runs of letters and digits, joined by single dashes. -/
def slugify (L : Letters) (input : String) : String :=
  let chars := (L.toLowercase input).toList.map fun c => if isAsciiAlphanumeric c then c else '-'
  "-".intercalate (((chars.splitOn '-').filter fun s => !s.isEmpty).map String.ofList)

structure CreatePostRequest where
  title : String
  slug : Option String
  content : String
  excerpt : Option String
  category : String
  coverImage : Option String
deriving DecidableEq, Repr

def CreatePostRequest.validate (req : CreatePostRequest) : List FieldError :=
  lengthCheck "title" 1 200 req.title ++ optional (lengthCheck "slug" 0 200) req.slug ++
    lengthCheck "content" 1 100000 req.content ++ optional
      (lengthCheck "excerpt" 0 500) req.excerpt ++
    lengthCheck "category" 1 50 req.category ++ optional (urlCheck "cover_image") req.coverImage

structure UpdatePostRequest where
  title : Option String
  slug : Option String
  content : Option String
  excerpt : Option (Option String)
  category : Option String
  status : Option String
  coverImage : Option (Option String)
deriving DecidableEq, Repr

/-- The doubly optional fields carry no check. -/
def UpdatePostRequest.validate (req : UpdatePostRequest) : List FieldError :=
  optional (lengthCheck "title" 1 200) req.title ++ optional (lengthCheck "slug" 0 200) req.slug ++
    optional (lengthCheck "content" 1 100000) req.content ++
    optional (lengthCheck "category" 0 50) req.category ++
    optional (lengthCheck "status" 0 50) req.status

variable (L : Letters)

def createPost (authorId : Uuid) (req : CreatePostRequest) : Tx Post := do
  checked (validated req.validate)
  let category ← orFail (PostCategory.fromStr L req.category) (.validation invalidCategoryMessage)
  let slug := req.slug.getD (slugify L req.title)
  atomically do
    ensure (slug.length ≤ 200) (.database .outOfRange)
    takePostSlug L none slug
    references (S := Pages) .users authorId (.database (.foreignKey "users"))
    insertRow .posts ⟨authorId, req.title, slug, req.content, req.excerpt, category, .draft,
      req.coverImage, none⟩

/-- Only the first transition into `published` stamps the time. -/
def shouldStampPublishedAt (newStatus : Option PostStatus) (existing : Option Instant) : Bool :=
  newStatus = some .published ∧ existing.isNone

def UpdatePostRequest.apply (req : UpdatePostRequest) (category : Option PostCategory)
    (status : Option PostStatus)
    (publishedAt : Option (Option Instant)) (r : Post) : Post where
  authorId := r.authorId
  title := req.title.getD r.title
  slug := req.slug.getD r.slug
  content := req.content.getD r.content
  excerpt := req.excerpt.getD r.excerpt
  category := category.getD r.category
  status := status.getD r.status
  coverImage := req.coverImage.getD r.coverImage
  publishedAt := publishedAt.getD r.publishedAt

/-- A new slug gives up the old entry of the index and takes the new one. -/
def postEntries (id : Uuid) (slug : Option String) (r : Post) : Tx Unit :=
  match slug with
  | none => return ()
  | some slug => do
    ensure (slug.length ≤ 200) (.database .outOfRange)
    lockRes (S := Pages) (.uniq (.postSlug (L.lower r.slug))) .update
    takePostSlug L (some id) slug

def updatePost (id : Uuid) (auth : AuthUser) (req : UpdatePostRequest) (now : Instant) :
    Tx Post := do
  checked (validated req.validate)
  let existing ← read (S := Pages) (·.get .posts id)
  let existing ← orFail existing (.notFound "post not found")
  checked (auth.ownsOrAdmin existing.authorId "you can only update your own posts")
  let category ← checked (req.category.mapM fun s =>
    match PostCategory.fromStr L s with
    | some c => .ok c
    | none => .error (.validation invalidCategoryMessage))
  let status ← checked (req.status.mapM fun s =>
    match PostStatus.fromStr L s with
    | some st => .ok st
    | none => .error (.validation invalidStatusMessage))
  let publishedAt := if shouldStampPublishedAt status existing.publishedAt then
    some (some now) else none
  atomically do
    let post ← updateReturning .posts id (postEntries L id req.slug)
        (req.apply category status publishedAt)
    orFail post (.notFound "post not found")

/-! ## Venues -/

structure CreateVenueRequest where
  name : String
  slug : Option String
  categoryId : Option Uuid
  description : Option String
  features : List String
  imageUrl : Option String
deriving DecidableEq, Repr

def CreateVenueRequest.validate (req : CreateVenueRequest) : List FieldError :=
  lengthCheck "name" 1 100 req.name ++ optional (lengthCheck "slug" 0 200) req.slug ++
    optional (lengthCheck "description" 0 2000) req.description ++
    optional (urlCheck "image_url") req.imageUrl

structure UpdateVenueRequest where
  name : Option String
  slug : Option String
  categoryId : Option (Option Uuid)
  description : Option (Option String)
  features : Option (List String)
  imageUrl : Option (Option String)
  isActive : Option Bool
deriving DecidableEq, Repr

def UpdateVenueRequest.validate (req : UpdateVenueRequest) : List FieldError :=
  optional (lengthCheck "name" 1 100) req.name ++ optional (lengthCheck "slug" 0 200) req.slug

def venueSlugTaken (slug : String) : AppError :=
  .conflict ("venue slug '" ++ slug ++ "' already exists")

def referencesCategory (categoryId : Option Uuid) : Tx Unit :=
  match categoryId with
  | none => return ()
  | some id =>
    references (S := Pages) .venueCategories id (.database (.foreignKey "venue_categories"))

def createVenue (req : CreateVenueRequest) : Tx Venue := do
  checked (validated req.validate)
  let slug := req.slug.getD (slugify L req.name)
  atomically do
    ensure (slug.length ≤ 100) (.database .outOfRange)
    takeVenueSlug L none slug (venueSlugTaken slug)
    referencesCategory req.categoryId
    insertRow .venues ⟨req.categoryId, req.name, slug, req.description, req.features,
      req.imageUrl, true⟩

def UpdateVenueRequest.apply (req : UpdateVenueRequest) (r : Venue) : Venue where
  categoryId := req.categoryId.getD r.categoryId
  name := req.name.getD r.name
  slug := req.slug.getD r.slug
  description := req.description.getD r.description
  features := req.features.getD r.features
  imageUrl := req.imageUrl.getD r.imageUrl
  isActive := req.isActive.getD r.isActive

def venueSlugEntries (id : Uuid) (slug : Option String) (r : Venue) : Tx Unit :=
  match slug with
  | none => return ()
  | some slug => do
    ensure (slug.length ≤ 100) (.database .outOfRange)
    lockRes (S := Pages) (.uniq (.venueSlug (L.lower r.slug))) .update
    takeVenueSlug L (some id) slug (venueSlugTaken slug)

def venueEntries (id : Uuid) (req : UpdateVenueRequest) (r : Venue) : Tx Unit := do
  venueSlugEntries L id req.slug r
  referencesCategory (req.categoryId.getD none)

def updateVenue (id : Uuid) (req : UpdateVenueRequest) : Tx Venue := do
  checked (validated req.validate)
  atomically do
    let venue ← updateReturning .venues id (venueEntries L id req) req.apply
    orFail venue (.notFound "venue not found")

/-! ## Coaches -/

structure CreateCoachRequest where
  userId : Uuid
  title : String
  bio : Option String
  experience : Option String
  specialties : List String
  certifications : List String
  isActive : Option Bool
  displayOrder : Option ℤ
  slug : Option String
  photoUrl : Option String
deriving DecidableEq, Repr

def CreateCoachRequest.validate (req : CreateCoachRequest) : List FieldError :=
  lengthCheck "title" 1 100 req.title ++ optional (lengthCheck "bio" 0 5000) req.bio ++
    optional (lengthCheck "experience" 0 5000) req.experience ++
    optional (lengthCheck "slug" 0 100) req.slug ++
    optional (urlCheck "photo_url") req.photoUrl

structure UpdateCoachRequest where
  title : Option String
  bio : Option (Option String)
  experience : Option (Option String)
  specialties : Option (List String)
  certifications : Option (List String)
  isActive : Option Bool
  displayOrder : Option ℤ
  slug : Option (Option String)
  photoUrl : Option (Option String)
deriving DecidableEq, Repr

def UpdateCoachRequest.validate (req : UpdateCoachRequest) : List FieldError :=
  optional (lengthCheck "title" 1 100) req.title

/-- The coach profile of an existing user, who gets the role in the same transaction. -/
def createCoach (req : CreateCoachRequest) : Tx Coach := do
  checked (validated req.validate)
  let user ← read (S := Pages) (·.get .users req.userId)
  let _ ← orFail user (.notFound "user not found")
  atomically do
    takeEntry (.coachUser req.userId) (someRow .coaches fun _ r => r.userId = req.userId)
      (.conflict "user is already a coach")
    takeCoachSlug none req.slug
    references (S := Pages) .users req.userId (.database (.foreignKey "users"))
    insertRow .coaches ⟨req.userId, req.title, req.bio, req.experience, req.specialties,
      req.certifications,
      req.isActive.getD true, req.displayOrder.getD 0, req.slug, req.photoUrl⟩

def UpdateCoachRequest.apply (req : UpdateCoachRequest) (r : Coach) : Coach where
  userId := r.userId
  title := req.title.getD r.title
  bio := req.bio.getD r.bio
  experience := req.experience.getD r.experience
  specialties := req.specialties.getD r.specialties
  certifications := req.certifications.getD r.certifications
  isActive := req.isActive.getD r.isActive
  displayOrder := req.displayOrder.getD r.displayOrder
  slug := req.slug.getD r.slug
  photoUrl := req.photoUrl.getD r.photoUrl

def releaseCoachSlug (slug : Option String) : Tx Unit :=
  match slug with
  | none => return ()
  | some slug => lockRes (S := Pages) (.uniq (.coachSlug slug)) .update

def coachEntries (id : Uuid) (slug : Option (Option String)) (r : Coach) : Tx Unit :=
  match slug with
  | none => return ()
  | some slug => do
    ensure (slug.all fun s => s.length ≤ 100) (.database .outOfRange)
    releaseCoachSlug r.slug
    takeCoachSlug (some id) slug

def updateCoach (id : Uuid) (req : UpdateCoachRequest) : Tx Coach := do
  checked (validated req.validate)
  atomically do
    let coach ← updateReturning .coaches id (coachEntries id req.slug) req.apply
    orFail coach (.notFound "coach not found")

/-! ## One's own profile -/

structure UpdateProfileRequest where
  name : Option String
  phone : Option String
  avatarUrl : Option String
  preferences : Option String
  birthDate : Option (Option ℤ)
deriving DecidableEq, Repr

def UpdateProfileRequest.validate (req : UpdateProfileRequest) : List FieldError :=
  optional (lengthCheck "name" 2 100) req.name ++ optional (lengthCheck "phone" 8 20) req.phone ++
    optional (urlCheck "avatar_url") req.avatarUrl

/-- 1900-01-01, in days from 1970-01-01. -/
def earliestBirthDate : ℤ := -25567

def birthDateRangeError (date today : ℤ) : Option String :=
  if date < earliestBirthDate then some "birth_date must not be before 1900-01-01"
  else if date > today then some "birth_date cannot be in the future"
  else none

/-- A phone number that is really changed has to be verified again. -/
def UpdateProfileRequest.apply (req : UpdateProfileRequest) (r : Profile) : Profile where
  name := req.name.getD r.name
  phone := req.phone.orElse fun _ => r.phone
  phoneVerified := if req.phone.isSome ∧ req.phone ≠ r.phone then false else r.phoneVerified
  avatarUrl := req.avatarUrl.orElse fun _ => r.avatarUrl
  preferences := req.preferences.orElse fun _ => r.preferences
  birthDate := req.birthDate.getD r.birthDate

/-- Only a date that is set is checked; clearing it always goes through. -/
def checkBirthDate (birthDate : Option (Option ℤ)) (today : ℤ) : Except AppError Unit :=
  match birthDate with
  | some (some date) =>
    (birthDateRangeError date today).elim (.ok ()) fun msg => .error (.validation msg)
  | _ => .ok ()

def updateMe (userId : Uuid) (req : UpdateProfileRequest) (today : ℤ) : Tx Profile := do
  checked (validated req.validate)
  checked (checkBirthDate req.birthDate today)
  atomically do
    let user ← updateReturning .users userId (fun _ => return ()) req.apply
    orFail user (.database .rowNotFound)

/-! ## Requests -/

inductive PageReq
  | createPost (authorId : Uuid) (req : CreatePostRequest)
  | updatePost (id : Uuid) (auth : AuthUser) (req : UpdatePostRequest) (now : Instant)
  | createVenue (req : CreateVenueRequest)
  | updateVenue (id : Uuid) (req : UpdateVenueRequest)
  | createCoach (req : CreateCoachRequest)
  | updateCoach (id : Uuid) (req : UpdateCoachRequest)
  | updateMe (userId : Uuid) (req : UpdateProfileRequest) (today : ℤ)

inductive PageReply
  | post (r : Post)
  | venue (r : Venue)
  | coach (r : Coach)
  | profile (r : Profile)

def PageReq.prog : PageReq → Tx PageReply
  | .createPost authorId req => do return .post (← Content.createPost L authorId req)
  | .updatePost id auth req now => do return .post (← Content.updatePost L id auth req now)
  | .createVenue req => do return .venue (← Content.createVenue L req)
  | .updateVenue id req => do return .venue (← Content.updateVenue L id req)
  | .createCoach req => do return .coach (← Content.createCoach req)
  | .updateCoach id req => do return .coach (← Content.updateCoach id req)
  | .updateMe userId req today => do return .profile (← Content.updateMe userId req today)

def pages : Service Pages AppError PageReply PageReq where
  prog := PageReq.prog L
  crash := .database .connection

end DreamFly.Content
