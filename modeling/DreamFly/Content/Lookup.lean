import DreamFly.Content.Pages
import DreamFly.Names.Directory

/-!
# Looking up a post

The public page of a post is asked for by one parameter, an id or a slug: a parameter that
reads as an id is an id (`getPublishedBySlugOrId`). Where the library for ids panics over the
parameter, so does the lookup.
-/

namespace DreamFly.Content

open Txn Prog

/-- A path parameter read as an id, as the library for ids does. -/
abbrev ParseUuid := String → Names.Read Uuid

/-! ## Ids as texts -/

/-- The value of a digit, of either case. -/
def hexDigit (c : Char) : Option ℕ :=
  if '0' ≤ c ∧ c ≤ '9' then some (c.toNat - '0'.toNat)
  else if 'a' ≤ c ∧ c ≤ 'f' then some (c.toNat - 'a'.toNat + 10)
  else if 'A' ≤ c ∧ c ≤ 'F' then some (c.toNat - 'A'.toNat + 10)
  else none

def hexNumber (digits : List Char) : Option ℕ :=
  digits.foldlM (fun n c => (hexDigit c).map (16 * n + ·)) 0

/-- 32 digits. -/
def parseSimple (s : List Char) : Option Uuid := if s.length = 32 then hexNumber s else none

/-- Groups of 8, 4, 4, 4 and 12 digits. -/
def parseHyphenated (s : List Char) : Option Uuid :=
  let digits := s.filter (· ≠ '-')
  if s.length = 36 ∧ digits.length = 32 ∧ [8, 13, 18, 23].all (fun i => s[i]? = some '-') then
    hexNumber digits else none

/-- An id, if there is one. -/
def idOr (failure : Names.Read Uuid) : Option Uuid → Names.Read Uuid
  | some id => .key id
  | none => failure

/-- The four spellings of an id: plain digits, hyphenated, hyphenated in braces and as a URN.
Braces that hold no id are taken to panic, as `{}` and `{x}` do. -/
def parseUuid : ParseUuid := fun s =>
  let chars := s.toList
  if chars.take 9 = "urn:uuid:".toList then idOr .slug (parseHyphenated (chars.drop 9))
  else if chars.head? = some '\x7b' ∧ chars.getLast? = some '\x7d' then
    idOr .panic (parseHyphenated (chars.drop 1).dropLast)
  else idOr .slug ((parseSimple chars).orElse fun _ => parseHyphenated chars)

theorem parseSimple_length {s : List Char} {id : Uuid} (h : parseSimple s = some id) :
    s.length = 32 := by
  unfold parseSimple at h
  split at h
  next hl => exact hl
  · cases h

theorem parseHyphenated_length {s : List Char} {id : Uuid} (h : parseHyphenated s = some id) :
    s.length = 36 := by
  unfold parseHyphenated at h
  dsimp only at h
  split at h
  next hl => exact hl.1
  · cases h

theorem idOr_key {failure : Names.Read Uuid} {o : Option Uuid} {id : Uuid}
    (hf : ∀ i, failure ≠ .key i) (h : idOr failure o = .key id) :
    o = some id := by
  cases o with
  | some i => exact congrArg some (Names.Read.key.inj h)
  | none => exact absurd h (hf id)

theorem idOr_slug_ne {o : Option Uuid} : idOr .slug o ≠ .panic := by
  cases o <;> intro h <;> cases h

/-- No text that is shorter than its digits reads as an id. -/
theorem parseUuid_length {s : String} {id : Uuid} (h : parseUuid s = .key id) : 32 ≤ s.length := by
  rw [← String.length_toList]
  unfold parseUuid at h
  dsimp only at h
  split at h
  · have := parseHyphenated_length (idOr_key (by intro i he; cases he) h)
    rw [List.length_drop] at this
    omega
  · split at h
    · have := parseHyphenated_length (idOr_key (by intro i he; cases he) h)
      rw [List.length_dropLast, List.length_drop] at this
      omega
    · have h := idOr_key (by intro i he; cases he) h
      cases hs : parseSimple s.toList with
      | some i => exact (parseSimple_length hs).ge
      | none =>
        rw [hs] at h
        have := parseHyphenated_length h
        omega

/-- Only a brace at the beginning can make it panic. -/
theorem parseUuid_panic {s : String} (h : parseUuid s = .panic) : s.toList.head? = some '\x7b' := by
  unfold parseUuid at h
  dsimp only at h
  split at h
  · exact absurd h idOr_slug_ne
  · split at h
    next hbrace => exact hbrace.1
    · exact absurd h idOr_slug_ne

example : parseUuid "urn:uuid:00000000-0000-0000-0000-00000000006B" = .key 107 := by decide +kernel

/-! ## The public lookup -/

/-- SELECT … FROM published_posts WHERE id. -/
def findPublishedById (id : Uuid) (d : Store Pages) : Option (Uuid × Post) :=
  ((d.get .posts id).filter (·.status = .published)).map fun r => (id, r)

variable (L : Letters)

/-- SELECT … FROM published_posts WHERE LOWER(slug) = LOWER($1). -/
def findPublishedBySlug (slug : String) (d : Store Pages) : Option (Uuid × Post) :=
  (d.sel .posts fun _ r => L.lower r.slug = L.lower slug ∧ r.status = .published).head?

/-- Nothing where reading the parameter panics. -/
def getPublishedBySlugOrId (parse : ParseUuid) (param : String) : Option (Tx (Uuid × Post)) := do
  let find ← match parse param with
    | .key id => some (findPublishedById id)
    | .slug => some (findPublishedBySlug L param)
    | .panic => none
  return do
    let post ← read (S := Pages) find
    orFail post (.notFound "post not found")

end DreamFly.Content
