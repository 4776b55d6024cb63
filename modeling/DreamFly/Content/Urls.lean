import Mathlib.Data.List.DropRight

/-!
# Stored URLs

The check that URL fields of requests go through before they are stored, so that a
page which shows one never runs it as a script. Only `http` and `https` get past it.
-/

namespace DreamFly

/-- `to_ascii_lowercase`. -/
def asciiLowercase (s : String) : List Char := s.toList.map Char.toLower

/-- `split_once`: what stands before and after the first `sep`. -/
def splitOnce (sep : List Char) : List Char → Option (List Char × List Char)
  | [] => if sep.isEmpty then some ([], []) else none
  | c :: cs =>
    if sep.isPrefixOf (c :: cs) then some ([], (c :: cs).drop sep.length)
    else (splitOnce sep cs).map fun x => (c :: x.1, x.2)

/-- The host of a lowercased URL, without a port. -/
def hostPart (lower : List Char) : List Char :=
  ((splitOnce "://".toList lower).elim [] fun x => x.2.takeWhile (· ≠ '/')).rdropWhile fun c =>
    c = ':' || c.isDigit

def hasHttpScheme (url : String) : Bool :=
  "https://".toList.isPrefixOf (asciiLowercase url) || "http://".toList.isPrefixOf
    (asciiLowercase url)

/-- Check a stored URL field; an error is the code of the refusal. -/
def validateStoredUrl (url : String) : Except String Unit :=
  if url.isEmpty then .ok ()
  else if url.utf8ByteSize > 2048 then .error "url_too_long"
  else if !hasHttpScheme url then .error "url_scheme_not_allowed"
  else if ["localhost".toList, "127.0.0.1".toList, "::1".toList, "[::1]".toList].contains
    (hostPart (asciiLowercase url)) then
    .error "url_loopback_not_allowed"
  else .ok ()

example : validateStoredUrl "HTTPS://example.com" = .ok () := by decide +kernel
example : validateStoredUrl "JaVaScRiPt:alert(1)" = .error "url_scheme_not_allowed" := by
    decide +kernel

/-- The scheme of a URL: what stands before the first colon, in lower case. -/
def urlScheme (url : String) : Option (List Char) :=
  (splitOnce [':'] (asciiLowercase url)).map Prod.fst

/-- A URL that a page may show: none of it is run as a script. -/
structure Harmless (url : String) : Prop where
  valid : validateStoredUrl url = .ok ()
  http : url = "" ∨ hasHttpScheme url = true
  scheme : ∀ s, urlScheme url = some s → s = "http".toList ∨ s = "https".toList
  short : url.utf8ByteSize ≤ 2048

/-- Whatever comes after it, an accepted prefix settles the scheme. -/
theorem urlScheme_of_http {url : String} (h : hasHttpScheme url = true) :
    urlScheme url = some "https".toList ∨ urlScheme url = some "http".toList := by
  unfold urlScheme
  simp only [hasHttpScheme, Bool.or_eq_true, List.isPrefixOf_iff_prefix] at h
  rcases h with ⟨rest, hrest⟩ | ⟨rest, hrest⟩
  · exact .inl (by rw [← hrest]; rfl)
  · exact .inr (by rw [← hrest]; rfl)

/-- **What the check accepts is harmless.** -/
theorem harmless_iff (url : String) : Harmless url ↔ validateStoredUrl url = .ok () := by
  refine ⟨Harmless.valid, fun h => ?_⟩
  have hv := h
  unfold validateStoredUrl at h
  split at h
  next he =>
    have hnil : url = "" := String.isEmpty_iff.1 he
    subst hnil
    exact ⟨hv, .inl rfl, fun s hs => (nomatch hs), by decide⟩
  split at h
  · cases h
  next hlen =>
    split at h
    · cases h
    next hs =>
      have hs : hasHttpScheme url = true := by simpa using hs
      refine ⟨hv, .inr hs, fun s hs' => ?_, by omega⟩
      rcases urlScheme_of_http hs with hsch | hsch
      · rw [hsch] at hs'; cases hs'; exact .inr rfl
      · rw [hsch] at hs'; cases hs'; exact .inl rfl

end DreamFly
