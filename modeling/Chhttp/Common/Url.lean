import Chhttp.Common.Text
import Chhttp.Lib.Loop

/-!
# URLs and query strings

Percent decoding, query parsing and the URL functions of `common.cpp`.  `parse_url` and
`resolve_url` call each other in the source: a relative input is resolved against the base, and
resolving parses the base, which must then be absolute.  The common part, parsing an input that
has a scheme, is `parseAbsoluteUrl` here.
-/

namespace Chhttp

open ListSearch

/-- The value of a hexadecimal digit in a percent escape. -/
def hexValue (c : UInt8) : Option ℕ := digitOf 16 c

/-- The scanning loop of `url_decode`. -/
def urlDecodeLoop (plusAsSpace : Bool) : Bytes → Result Bytes
  | [] => .ok []
  | c :: rest =>
    if c == 0x25 then
      match rest with
      | high :: low :: tail =>
        match hexValue high, hexValue low with
        | some h, some l =>
          match urlDecodeLoop plusAsSpace tail with
          | .ok out => .ok (UInt8.ofNat (h * 16 + l) :: out)
          | .error e => .error e
        | _, _ => .error { code := .invalidUrl, message := "Invalid percent escape" }
      | _ => .error { code := .invalidUrl, message := "Truncated percent escape" }
    else
      match urlDecodeLoop plusAsSpace rest with
      | .ok out => .ok ((if plusAsSpace && c == 0x2b then sp else c) :: out)
      | .error e => .error e

/-- `url_decode`: a value without escapes is copied. -/
def urlDecode (value : Bytes) (plusAsSpace : Bool := false) : Result Bytes :=
  if !value.contains 0x25 && (!plusAsSpace || !value.contains 0x2b) then .ok value
  else urlDecodeLoop plusAsSpace value

/-- `parse_query`: the parts between `&`, split at their first `=`.  A part whose key or value does
not decode is dropped. -/
def parseQuery (query : Bytes) : List (Bytes × Bytes) :=
  let query := if query.head? = some 0x3f then query.tail else query
  (query.splitOn 0x26).filterMap fun part =>
    if part.isEmpty then none
    else
      let key := part.takeWhile (· != 0x3d)
      let value := if part.contains 0x3d then (part.dropWhile (· != 0x3d)).tail else []
      match urlDecode key true, urlDecode value true with
      | .ok k, .ok v => some (k, v)
      | _, _ => none

/-- An ASCII letter. -/
def isAlpha (c : UInt8) : Bool :=
  (decide (0x61 ≤ c) && decide (c ≤ 0x7a)) || (decide (0x41 ≤ c) && decide (c ≤ 0x5a))

/-- An ASCII digit. -/
def isDigit (c : UInt8) : Bool := decide (0x30 ≤ c) && decide (c ≤ 0x39)

/-- `has_url_scheme`: a letter and further scheme characters up to the first colon. -/
def hasUrlScheme (value : Bytes) : Bool :=
  match find [colon] value with
  | none => false
  | some 0 => false
  | some (n + 1) =>
    (value.head?.map isAlpha).getD false &&
      ((value.drop 1).take n).all fun c =>
        isAlpha c || isDigit c || c == 0x2b || c == 0x2d || c == 0x2e

/-- Drop the last segment of the output, with its slash. -/
def popSegment (output : Bytes) : Bytes :=
  match findLast slash output with
  | none => []
  | some n => output.take n

/-- One iteration of `remove_dot_segments`, on the remaining path and the output. -/
def removeDotStep (s : Bytes × Bytes) : Loop.Next (Bytes × Bytes) Bytes :=
  let (path, output) := s
  if path.isEmpty then .leave output
  else if (bytes "../").isPrefixOf path then .again (path.drop 3, output)
  else if (bytes "./").isPrefixOf path then .again (path.drop 2, output)
  else if (bytes "/./").isPrefixOf path then .again (path.drop 2, output)
  else if path = bytes "/." then .again (bytes "/", output)
  else if (bytes "/../").isPrefixOf path then .again (path.drop 3, popSegment output)
  else if path = bytes "/.." then .again (bytes "/", popSegment output)
  else if path = bytes "." ∨ path = bytes ".." then .again ([], output)
  else
    let count :=
      (findFrom [slash] path (if path.head? = some slash then 1 else 0)).getD path.length
    .again (path.drop count, output ++ path.take count)

/-- Every iteration of `remove_dot_segments` shortens the path.  It is why the loop of
`remove_dot_segments` ends on every path. -/
lemma removeDotStep_decreases :
    Loop.Decreases removeDotStep fun s : Bytes × Bytes => s.1.length := by
  rintro ⟨path, output⟩ ⟨path', output'⟩ h
  simp only [removeDotStep] at h
  have hpos : path ≠ [] → 0 < path.length := List.length_pos_of_ne_nil
  split_ifs at h with h1 h2 h3 h4 h5 h6 h7 h8 h9 <;> cases h <;>
    simp only [List.isEmpty_iff] at h1
  · have := hpos h1; simp; omega
  · have := hpos h1; simp; omega
  · have := hpos h1; simp; omega
  · subst h5; simp [bytes]
  · have := hpos h1; simp; omega
  · subst h7; simp [bytes]
  · have := hpos h1; simpa using this
  · have hlen := hpos h1
    have hcount : 0 < (findFrom [slash] path 1).getD path.length := by
      cases hf : findFrom [slash] path 1 with
      | none => simpa using hlen
      | some n =>
        obtain ⟨m, -, rfl⟩ := Option.map_eq_some_iff.mp hf
        simp
    simp only [List.length_drop]
    omega
  · have hlen := hpos h1
    have hcount : 0 < (findFrom [slash] path 0).getD path.length := by
      rw [findFrom_zero]
      cases hf : find [slash] path with
      | none => simpa using hlen
      | some n =>
        rw [Option.getD_some]
        by_contra hn
        obtain rfl : n = 0 := by omega
        obtain ⟨a, b, rfl, -, ha⟩ := find_singleton_eq_some hf
        rw [List.length_eq_zero_iff] at ha
        exact h9 (by simp [ha])
    simp only [List.length_drop]
    omega

/-- `remove_dot_segments`: the loop that the standard gives, on the remaining input and the output.
-/
def removeDotSegments (path : Bytes) : Bytes :=
  Loop.run removeDotStep (fun s => s.1.length) removeDotStep_decreases (path, [])

/-- `ParsedUrl`. -/
structure ParsedUrl where
  scheme : Bytes
  host : Bytes
  port : ℕ
  target : Bytes
  secure : Bool
  deriving DecidableEq

/-- `ParsedUrl::authority`: the host, in brackets if it has a colon, and the port unless it is the
default one of the scheme. -/
def ParsedUrl.authority (url : ParsedUrl) : Bytes :=
  let bracketed := url.host.contains colon
  let defaultPort := (url.secure && url.port == 443) || (!url.secure && url.port == 80)
  (if bracketed then bytes "[" else []) ++ url.host ++ (if bracketed then bytes "]" else []) ++
    if defaultPort then [] else colon :: toChars 10 url.port

/-- `ParsedUrl::origin`: the scheme and the authority, by which the client tells one origin from
another. -/
def ParsedUrl.origin (url : ParsedUrl) : Bytes :=
  url.scheme ++ bytes "://" ++ url.authority

/-- The URL errors. -/
def urlError (message : String) : ErrorInfo := { code := .invalidUrl, message }

/-- The host and the port text of an authority. -/
def splitAuthority (authority : Bytes) : Result (Bytes × Bytes) :=
  if authority.head? = some 0x5b then
    match find [0x5d] authority with
    | none => .error (urlError "Malformed IPv6 URL host")
    | some bracket =>
      if bracket = 1 then .error (urlError "Malformed IPv6 URL host")
      else
        let host := (authority.drop 1).take (bracket - 1)
        if bracket + 1 < authority.length then
          if authority[bracket + 1]? = some colon then .ok (host, authority.drop (bracket + 2))
          else .error (urlError "Malformed URL authority")
        else .ok (host, [])
  else
    match findLast colon authority with
    | none => .ok (authority, [])
    | some n =>
      if find [colon] authority = some n then .ok (authority.take n, authority.drop (n + 1))
      else .error (urlError "IPv6 URL hosts must use brackets")

/-- The port of an authority, the default one of the scheme when none is given. -/
def parsePort (authority portText : Bytes) (secure : Bool) : Result ℕ :=
  if !portText.isEmpty then
    match fromChars 10 (2 ^ 32) portText with
    | none => .error (urlError "Invalid URL port")
    | some value =>
      if 65535 < value ∨ value = 0 then .error (urlError "Invalid URL port") else .ok value
  else if authority.getLast? = some colon then .error (urlError "URL port is empty")
  else .ok (if secure then 443 else 80)

/-- The request target of a URL: what follows the authority, up to the fragment. -/
def urlTarget (afterAuthority : Bytes) : Bytes :=
  let target :=
    if afterAuthority.head? = some 0x23 then []
    else afterAuthority.takeWhile (· != 0x23)
  if target.isEmpty then bytes "/"
  else if target.head? = some 0x3f then slash :: target
  else target

/-- `parse_url` once the input is known to have a scheme. -/
def parseAbsoluteUrl (complete : Bytes) : Result ParsedUrl :=
  if complete.any fun c => decide (c ≤ 0x20) || c == 0x7f then
    .error (urlError "URL contains whitespace or control characters")
  else
    match find (bytes "://") complete with
    | none => .error (urlError "Malformed URL scheme")
    | some 0 => .error (urlError "Malformed URL scheme")
    | some schemeEnd =>
      let scheme := lower (complete.take schemeEnd)
      let secure := scheme == bytes "https" || scheme == bytes "wss"
      if scheme ≠ bytes "http" ∧ scheme ≠ bytes "https" ∧ scheme ≠ bytes "ws" ∧
          scheme ≠ bytes "wss" then
        .error (urlError ("Unsupported URL scheme: " ++ text scheme))
      else
        let rest := complete.drop (schemeEnd + 3)
        let isTargetStart := fun c : UInt8 => c == slash || c == 0x3f || c == 0x23
        let authority := rest.takeWhile fun c => !isTargetStart c
        if authority.isEmpty || authority.contains 0x40 then
          .error (urlError "URL has an invalid authority")
        else
          match splitAuthority authority with
          | .error e => .error e
          | .ok (host, portText) =>
            if host.isEmpty then .error (urlError "URL has no host")
            else
              match parsePort authority portText secure with
              | .error e => .error e
              | .ok port =>
                .ok { scheme, host, port, secure,
                      target := urlTarget (rest.dropWhile fun c => !isTargetStart c) }

/-- `resolve_url`: the fragment is cut off, and the branches are those of the reference: absolute,
an authority, empty, a query, or a path. -/
def resolveUrl (base reference : Bytes) : Result Bytes :=
  let reference := reference.takeWhile (· != 0x23)
  if hasUrlScheme reference then .ok reference
  else
    match if hasUrlScheme base then parseAbsoluteUrl base
        else .error (urlError "URL has no scheme") with
    | .error e => .error e
    | .ok parsedBase =>
      if (bytes "//").isPrefixOf reference then
        .ok (parsedBase.scheme ++ bytes ":" ++ reference)
      else
        let origin := parsedBase.origin
        let basePath := parsedBase.target.takeWhile (· != 0x3f)
        if reference.isEmpty then .ok (origin ++ parsedBase.target)
        else if reference.head? = some 0x3f then .ok (origin ++ basePath ++ reference)
        else
          let combined :=
            if reference.head? = some slash then reference
            else
              (match findLast slash basePath with
                | none => []
                | some n => basePath.take (n + 1)) ++ reference
          .ok (origin ++ removeDotSegments (combined.takeWhile (· != 0x3f)) ++
            combined.dropWhile (· != 0x3f))

/-- `parse_url`: an absolute URL, or a reference that is resolved against the base. -/
def parseUrl (input : Bytes) (base : Bytes := []) : Result ParsedUrl :=
  if hasUrlScheme input then parseAbsoluteUrl input
  else if base.isEmpty then .error (urlError "URL has no scheme")
  else
    match resolveUrl base input with
    | .error e => .error e
    | .ok resolved => parseAbsoluteUrl resolved

example : removeDotSegments (bytes "/a/b/../c/./d") = bytes "/a/c/d" := by decide +kernel

end Chhttp
