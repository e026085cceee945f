import Chhttp.Common.Resolve

/-!
# URLs that are rebuilt from their parts

A redirect and a base URL are parsed, printed by `ParsedUrl::origin` and parsed again.  An accepted
URL is described by its parts (`parseAbsoluteUrl_iff`), and the printed parts are accepted as the
same URL unless the brackets that the parser removed are not put back: `authority` writes them only
around hosts with a colon, so that a host of the form `[x` behind a bracket is printed without its
closing one (`parseUrl_rebuild`).
-/

namespace Chhttp

open ListSearch

/-! ### Authorities -/

/-- What ends an authority. -/
def startsTarget (c : UInt8) : Bool := c == slash || c == 0x3f || c == 0x23

/-- The authority of a complete URL. -/
def authorityOf (complete : Bytes) : Bytes :=
  (complete.drop ((find (bytes "://") complete).getD 0 + 3)).takeWhile fun c => !startsTarget c

/-- An authority is read as this host and this port. -/
def ReadsAuthority (authority : Bytes) (secure : Bool) (host : Bytes) (port : ℕ) : Prop :=
  ∃ portText, splitAuthority authority = .ok (host, portText) ∧ host ≠ [] ∧
    parsePort authority portText secure = .ok port

/-- The port at the end of a printed authority. -/
def portSuffix (secure : Bool) (port : ℕ) : Bytes :=
  if (secure && port == 443) || (!secure && port == 80) then [] else colon :: toChars 10 port

/-- An authority with a bracketed host. -/
def bracketed (host suffix : Bytes) : Bytes := 0x5b :: (host ++ 0x5d :: suffix)

/-- An authority whose bracketed host starts with another bracket and has no colon.  The reader
takes the text between the outer brackets for the host, and the writer prints brackets only around a
host with a colon. -/
def doubledBracket (authority : Bytes) : Bool :=
  [0x5b, 0x5b].isPrefixOf authority && !(authority.takeWhile (· != 0x5d)).contains colon

/-- The two forms of a printed authority. -/
lemma authority_eq (url : ParsedUrl) :
    url.authority =
      if colon ∈ url.host then bracketed url.host (portSuffix url.secure url.port)
      else url.host ++ portSuffix url.secure url.port := by
  unfold ParsedUrl.authority portSuffix bracketed
  by_cases h : colon ∈ url.host <;> simp [h, bytes]

/-- A bracketed host starts with its bracket. -/
lemma head?_bracketed (host suffix : Bytes) : (bracketed host suffix).head? = some 0x5b := rfl

/-- The first closing bracket ends a bracketed host. -/
lemma find_bracketed {host : Bytes} (h : 0x5d ∉ host) (suffix : Bytes) :
    find [0x5d] (bracketed host suffix) = some (host.length + 1) := by
  have hmem : (0x5d : UInt8) ∉ 0x5b :: host := by simpa using h
  exact find_singleton_append hmem

/-- A bracketed host is read with the port behind it. -/
lemma splitAuthority_bracketed {host : Bytes} (hclosing : 0x5d ∉ host) (hne : host ≠ []) :
    splitAuthority (bracketed host []) = .ok (host, []) ∧
      ∀ portText, splitAuthority (bracketed host (colon :: portText)) = .ok (host, portText) := by
  have hlen : host.length + 1 ≠ 1 := by
    have := List.length_pos_iff.mpr hne
    omega
  have hhost : ∀ suffix,
      ((bracketed host suffix).drop 1).take (host.length + 1 - 1) = host := by
    intro suffix
    simp [bracketed]
  constructor
  · rw [splitAuthority, if_pos (head?_bracketed _ _), find_bracketed hclosing]
    dsimp only
    rw [if_neg hlen, if_neg (by simp [bracketed]), hhost]
  · intro portText
    have hcolon : (bracketed host (colon :: portText))[host.length + 1 + 1]? = some colon := by
      simp [bracketed]
    have hport : (bracketed host (colon :: portText)).drop (host.length + 1 + 2) = portText := by
      simp [bracketed, List.drop_append]
    rw [splitAuthority, if_pos (head?_bracketed _ _), find_bracketed hclosing]
    dsimp only
    rw [if_neg hlen, if_pos (by simp [bracketed]), if_pos hcolon, hhost, hport]

/-- A host without brackets is read with the port behind it. -/
lemma splitAuthority_plain {host : Bytes} (hcolon : colon ∉ host) (hne : host ≠ [])
    (hopening : host.head? ≠ some 0x5b) :
    splitAuthority host = .ok (host, []) ∧
      ∀ {portText : Bytes}, colon ∉ portText →
        splitAuthority (host ++ colon :: portText) = .ok (host, portText) := by
  constructor
  · rw [splitAuthority, if_neg hopening, (findLast_eq_none).mpr hcolon]
  · intro portText hport
    have hhead : (host ++ colon :: portText).head? ≠ some 0x5b := by
      rwa [List.head?_append_of_ne_nil _ hne]
    rw [splitAuthority, if_neg hhead, findLast_append hport]
    dsimp only
    rw [if_pos (find_singleton_append hcolon), List.take_left, ← List.drop_drop, List.drop_left]
    rfl

/-- A bracket that is not closed is refused. -/
lemma splitAuthority_unclosed {authority : Bytes} (hopening : authority.head? = some 0x5b)
    (hclosing : 0x5d ∉ authority) :
    splitAuthority authority = .error (urlError "Malformed IPv6 URL host") := by
  rw [splitAuthority, if_pos hopening, (find_singleton_eq_none).mpr hclosing]

/-- The forms of an authority that is accepted. -/
lemma splitAuthority_cases {authority host portText : Bytes}
    (h : splitAuthority authority = .ok (host, portText)) :
    (0x5d ∉ host ∧ ∃ suffix, authority = bracketed host suffix) ∨
      authority.head? ≠ some 0x5b ∧ colon ∉ host ∧ host <+: authority := by
  unfold splitAuthority at h
  by_cases hopening : authority.head? = some 0x5b
  · rw [if_pos hopening] at h
    cases hfind : find [0x5d] authority with
    | none =>
      rw [hfind] at h
      cases h
    | some bracket =>
      rw [hfind] at h
      dsimp only at h
      obtain ⟨a, b, rfl, hmem, rfl⟩ := find_singleton_eq_some hfind
      cases a with
      | nil => cases hopening
      | cons c a =>
        cases hopening
        have hhost : ((0x5b :: a ++ 0x5d :: b).drop 1).take ((0x5b :: a).length - 1) = a := by
          simp
        rw [hhost] at h
        split_ifs at h <;> cases h <;>
          exact .inl ⟨fun hclosing => hmem (List.mem_cons_of_mem _ hclosing), b, rfl⟩
  · rw [if_neg hopening] at h
    cases hfind : findLast colon authority with
    | none =>
      rw [hfind] at h
      cases h
      exact .inr ⟨hopening, (findLast_eq_none).mp hfind, List.prefix_rfl⟩
    | some n =>
      rw [hfind] at h
      dsimp only at h
      split_ifs at h with honly
      cases h
      obtain ⟨a, b, rfl, hmem, rfl⟩ := find_singleton_eq_some honly
      rw [List.take_left]
      exact .inr ⟨hopening, hmem, List.prefix_append _ _⟩

/-- Ports are not zero and fit into sixteen bits. -/
lemma parsePort_bounds {authority portText : Bytes} {secure : Bool} {port : ℕ}
    (h : parsePort authority portText secure = .ok port) : 0 < port ∧ port ≤ 65535 := by
  unfold parsePort at h
  by_cases hempty : (!portText.isEmpty) = true
  · rw [if_pos hempty] at h
    cases hvalue : fromChars 10 (2 ^ 32) portText with
    | none =>
      rw [hvalue] at h
      cases h
    | some value =>
      rw [hvalue] at h
      dsimp only at h
      split_ifs at h with hrange
      cases h
      omega
  · rw [if_neg hempty] at h
    split_ifs at h <;> cases h <;> decide

/-- A printed port is read back. -/
lemma parsePort_toChars (authority : Bytes) (secure : Bool) {port : ℕ} (hpos : 0 < port)
    (hmax : port ≤ 65535) : parsePort authority (toChars 10 port) secure = .ok port := by
  have hne : (!(toChars 10 port).isEmpty) = true := by
    simpa using toChars_ne_nil 10 port
  rw [parsePort, if_pos hne, fromChars_toChars (by decide) (by decide) (by omega)]
  dsimp only
  rw [if_neg (by omega)]

/-- A port that is not printed is the default one. -/
lemma parsePort_default {authority : Bytes} {secure : Bool} {port : ℕ}
    (hlast : authority.getLast? ≠ some colon)
    (hdefault : ((secure && port == 443) || (!secure && port == 80)) = true) :
    parsePort authority [] secure = .ok port := by
  rw [parsePort, if_neg (by simp), if_neg hlast]
  cases secure <;> simp_all

/-- A printed authority that is split at its host is read. -/
lemma readsAuthority_of_split {start host : Bytes} {secure : Bool} {port : ℕ} (hne : host ≠ [])
    (hpos : 0 < port) (hmax : port ≤ 65535) (hlast : start.getLast? ≠ some colon)
    (hdefault : splitAuthority start = .ok (host, []))
    (hport : ∀ port, splitAuthority (start ++ colon :: toChars 10 port) =
      .ok (host, toChars 10 port)) :
    ReadsAuthority (start ++ portSuffix secure port) secure host port := by
  unfold portSuffix
  split_ifs with h
  · rw [List.append_nil]
    exact ⟨[], hdefault, hne, parsePort_default hlast h⟩
  · exact ⟨_, hport port, hne, parsePort_toChars _ _ hpos hmax⟩

/-- A printed port has digits only. -/
lemma mem_portSuffix {secure : Bool} {port : ℕ} {c : UInt8} (h : c ∈ portSuffix secure port) :
    c = colon ∨ isDigit c = true := by
  unfold portSuffix at h
  split_ifs at h
  · cases h
  · rcases List.mem_cons.mp h with rfl | hmem
    · exact .inl rfl
    · obtain ⟨d, hd, rfl⟩ := List.mem_map.mp hmem
      have hdigit : ∀ d < 10, isDigit (digitByte d) = true := by decide
      exact .inr (hdigit d (Numeral.digits_lt (by decide) hd))

/-- A printed port has no bracket. -/
lemma not_mem_append_portSuffix {host : Bytes} (h : 0x5d ∉ host) {secure : Bool} {port : ℕ} :
    0x5d ∉ host ++ portSuffix secure port := by
  intro hmem
  rcases List.mem_append.mp hmem with hmem | hmem
  · exact h hmem
  · rcases mem_portSuffix hmem with heq | hdigit
    · exact absurd heq (by decide)
    · exact absurd hdigit (by decide)

/-- The doubled bracket of a bracketed host. -/
lemma doubledBracket_bracketed {host : Bytes} (hne : host ≠ []) (hclosing : 0x5d ∉ host)
    (suffix : Bytes) :
    doubledBracket (bracketed host suffix) = true ↔ host.head? = some 0x5b ∧ colon ∉ host := by
  have htake : (bracketed host suffix).takeWhile (· != 0x5d) = 0x5b :: host := by
    have hall : ∀ c ∈ 0x5b :: host, (c != 0x5d) = true := by
      intro c hc
      rw [bne_iff_ne]
      rintro rfl
      exact hclosing (by simpa using hc)
    have hsplit : bracketed host suffix = (0x5b :: host) ++ 0x5d :: suffix := rfl
    rw [hsplit, List.takeWhile_append_of_pos hall, List.takeWhile_cons_of_neg (by simp),
      List.append_nil]
  have hcolon : colon ∈ 0x5b :: host ↔ colon ∈ host := by
    simp [colon]
  have hopening : [0x5b, 0x5b].isPrefixOf (bracketed host suffix) = true ↔
      host.head? = some 0x5b := by
    cases host with
    | nil => exact absurd rfl hne
    | cons c rest =>
      simp only [bracketed, List.cons_append, List.isPrefixOf_iff_prefix, List.cons_prefix_cons,
        List.nil_prefix, List.head?_cons, Option.some.injEq, true_and, and_true]
      exact eq_comm
  rw [doubledBracket, htake, Bool.and_eq_true, hopening, Bool.not_eq_true', List.contains_eq_mem,
    decide_eq_false_iff_not, hcolon]

/-- An authority that does not start with a bracket. -/
lemma doubledBracket_of_head {authority : Bytes} (h : authority.head? ≠ some 0x5b) :
    doubledBracket authority = false := by
  cases authority with
  | nil => rfl
  | cons c rest =>
    have hfirst : (0x5b : UInt8) ≠ c := by
      rintro rfl
      exact h rfl
    simp [doubledBracket, hfirst]

/-- **Printed authorities.**  The authority that is printed for an accepted one is read as the same
host and port, unless it is the one with the doubled bracket. -/
lemma readsAuthority_authority {url : ParsedUrl} {authority : Bytes}
    (h : ReadsAuthority authority url.secure url.host url.port) :
    ReadsAuthority url.authority url.secure url.host url.port ↔ doubledBracket authority = false := by
  obtain ⟨portText, hsplit, hne, hport⟩ := h
  obtain ⟨hpos, hmax⟩ := parsePort_bounds hport
  have hdigits : ∀ port, colon ∉ toChars 10 port := by
    intro port hmem
    obtain ⟨d, hd, heq⟩ := List.mem_map.mp hmem
    have hdigit : ∀ d < 10, digitByte d ≠ colon := by decide
    exact hdigit d (Numeral.digits_lt (by decide) hd) heq
  have hplain : colon ∉ url.host → url.host.head? ≠ some 0x5b →
      ReadsAuthority url.authority url.secure url.host url.port := by
    intro hcolon hopening
    obtain ⟨halone, hwith⟩ := splitAuthority_plain hcolon hne hopening
    rw [authority_eq, if_neg hcolon]
    exact readsAuthority_of_split hne hpos hmax
      (fun hlast => hcolon (List.mem_of_getLast? hlast)) halone fun port => hwith (hdigits port)
  rcases splitAuthority_cases hsplit with ⟨hclosing, suffix, rfl⟩ | ⟨hopening, hcolon, hhost⟩
  · rw [← Bool.not_eq_true, doubledBracket_bracketed hne hclosing]
    by_cases hcolon : colon ∈ url.host
    · obtain ⟨halone, hwith⟩ := splitAuthority_bracketed hclosing hne
      have hprinted : bracketed url.host (portSuffix url.secure url.port) =
          bracketed url.host [] ++ portSuffix url.secure url.port := by
        simp [bracketed]
      have hlast : (bracketed url.host []).getLast? ≠ some colon := by
        rw [bracketed, ← List.cons_append, List.getLast?_append]
        simp [colon]
      rw [authority_eq, if_pos hcolon, hprinted]
      refine iff_of_true (readsAuthority_of_split hne hpos hmax hlast halone fun port => ?_)
        fun hdoubled => hdoubled.2 hcolon
      have happend : bracketed url.host [] ++ colon :: toChars 10 port =
          bracketed url.host (colon :: toChars 10 port) := by
        simp [bracketed]
      rw [happend]
      exact hwith _
    · by_cases hopening : url.host.head? = some 0x5b
      · refine iff_of_false ?_ fun hnot => hnot ⟨hopening, hcolon⟩
        rintro ⟨text, hprinted, -, -⟩
        rw [authority_eq, if_neg hcolon] at hprinted
        have hhead : (url.host ++ portSuffix url.secure url.port).head? = some 0x5b := by
          rw [List.head?_append_of_ne_nil _ hne, hopening]
        rw [splitAuthority_unclosed hhead (not_mem_append_portSuffix hclosing)] at hprinted
        cases hprinted
      · exact iff_of_true (hplain hcolon hopening) fun hdoubled => hopening hdoubled.1
  · have hhead : url.host.head? ≠ some 0x5b := by
      obtain ⟨rest, rfl⟩ := hhost
      rwa [List.head?_append_of_ne_nil _ hne] at hopening
    exact iff_of_true (hplain hcolon hhead) (doubledBracket_of_head hopening)

/-! ### The parts of an accepted URL -/

/-- A byte that a URL may hold. -/
def urlByte (c : UInt8) : Bool := decide (0x20 < c) && c != 0x7f

/-- The supported schemes. -/
def knownSchemes : List Bytes := [bytes "http", bytes "https", bytes "ws", bytes "wss"]

/-- The parts of an accepted URL and what is read from them.  The scheme is known, the authority has
no user information, host and port are read from the authority, and the target begins behind it. -/
structure UrlParts (url : ParsedUrl) (scheme authority after : Bytes) : Prop where
  schemeBytes : scheme.all urlByte = true
  authorityBytes : authority.all urlByte = true
  afterBytes : after.all urlByte = true
  scheme_eq : url.scheme = lower scheme
  known : url.scheme ∈ knownSchemes
  secure_eq : url.secure = (url.scheme == bytes "https" || url.scheme == bytes "wss")
  nonempty : authority ≠ []
  userinfo : 0x40 ∉ authority
  inAuthority : ∀ c ∈ authority, startsTarget c = false
  behindAuthority : ∀ c, after.head? = some c → startsTarget c = true
  reads : ReadsAuthority authority url.secure url.host url.port
  target_eq : url.target = urlTarget after

/-- A complete URL of these parts. -/
def joinUrl (scheme authority after : Bytes) : Bytes :=
  scheme ++ (bytes "://" ++ (authority ++ after))

/-- A scheme has no colon. -/
lemma UrlParts.colon_not_mem {url : ParsedUrl} {scheme authority after : Bytes}
    (h : UrlParts url scheme authority after) : colon ∉ scheme := by
  intro hmem
  have hlower : colon ∈ url.scheme := by
    rw [h.scheme_eq]
    exact List.mem_map.mpr ⟨colon, hmem, by decide⟩
  have hnone : ∀ s ∈ knownSchemes, colon ∉ s := by decide
  exact hnone _ h.known hlower

/-- A scheme is not empty. -/
lemma UrlParts.scheme_ne_nil {url : ParsedUrl} {scheme authority after : Bytes}
    (h : UrlParts url scheme authority after) : scheme ≠ [] := by
  rintro rfl
  have hnone : ∀ s ∈ knownSchemes, s ≠ [] := by decide
  exact hnone _ h.known h.scheme_eq

/-- The separator of a scheme is the first one. -/
lemma find_joinUrl {scheme : Bytes} (h : colon ∉ scheme) (authority after : Bytes) :
    find (bytes "://") (joinUrl scheme authority after) = some scheme.length := by
  have hskip : ∀ m < scheme.length,
      ¬bytes "://" <+: (joinUrl scheme authority after).drop m := by
    intro m hm hpre
    obtain ⟨tail, htail⟩ := hpre
    have hget : (joinUrl scheme authority after)[m]? = some colon := by
      rw [← List.head?_drop, ← htail]
      rfl
    rw [joinUrl, List.getElem?_append_left hm] at hget
    exact h (List.mem_of_getElem? hget)
  rw [joinUrl, find_append_of_skip hskip]
  have hzero : ∀ tail, find (bytes "://") (bytes "://" ++ tail) = some 0 := by
    intro tail
    exact (find_eq_some_iff).mpr ⟨Nat.zero_le _, List.prefix_append _ _, by simp⟩
  rw [hzero]
  simp

/-- What is behind the scheme. -/
lemma drop_joinUrl (scheme authority after : Bytes) :
    (joinUrl scheme authority after).drop (scheme.length + 3) = authority ++ after := by
  rw [joinUrl, ← List.drop_drop, List.drop_left]
  rfl

/-- An authority ends where the target starts. -/
lemma takeWhile_authority {authority after : Bytes}
    (hin : ∀ c ∈ authority, startsTarget c = false)
    (hbehind : ∀ c, after.head? = some c → startsTarget c = true) :
    (authority ++ after).takeWhile (fun c => !startsTarget c) = authority ∧
      (authority ++ after).dropWhile (fun c => !startsTarget c) = after := by
  have hall : ∀ c ∈ authority, (!startsTarget c) = true := by
    intro c hc
    rw [hin c hc]
    rfl
  rw [List.takeWhile_append_of_pos hall, List.dropWhile_append_of_pos hall]
  cases after with
  | nil => simp
  | cons c rest =>
    have hfirst := hbehind c rfl
    simp [hfirst]

/-- What `parse_url` does behind the scheme. -/
def readBehindScheme (scheme rest : Bytes) : Result ParsedUrl :=
  let secure := scheme == bytes "https" || scheme == bytes "wss"
  let authority := rest.takeWhile fun c => !startsTarget c
  if authority.isEmpty || authority.contains 0x40 then
    .error (urlError "URL has an invalid authority")
  else
    match splitAuthority authority with
    | .error e => .error e
    | .ok (host, portText) =>
      if host.isEmpty then .error (urlError "URL has no host")
      else
        match parsePort authority portText secure with
        | .error e => .error e
        | .ok port =>
          .ok { scheme, host, port, secure,
                target := urlTarget (rest.dropWhile fun c => !startsTarget c) }

/-- What `parse_url` does before the authority. -/
lemma parseAbsoluteUrl_eq_ok {complete : Bytes} {url : ParsedUrl} :
    parseAbsoluteUrl complete = .ok url ↔
      complete.all urlByte = true ∧ ∃ n, find (bytes "://") complete = some (n + 1) ∧
        lower (complete.take (n + 1)) ∈ knownSchemes ∧
          readBehindScheme (lower (complete.take (n + 1))) (complete.drop (n + 1 + 3)) = .ok url := by
  have hbytes : (complete.any fun c => decide (c ≤ 0x20) || c == 0x7f) = !complete.all urlByte := by
    rw [List.all_eq_not_any_not, Bool.not_not]
    congr 1
    funext c
    simp [urlByte, ← UInt8.not_le, bne]
  have hknown : ∀ s : Bytes, (s ≠ bytes "http" ∧ s ≠ bytes "https" ∧ s ≠ bytes "ws" ∧
      s ≠ bytes "wss") ↔ s ∉ knownSchemes := by
    intro s
    simp [knownSchemes]
  unfold parseAbsoluteUrl
  rw [hbytes]
  by_cases hclean : complete.all urlByte = true
  · rw [hclean, if_neg (by simp)]
    refine Iff.trans ?_ (and_iff_right rfl).symm
    cases hfind : find (bytes "://") complete with
    | none => simp
    | some schemeEnd =>
      cases schemeEnd with
      | zero => simp
      | succ n =>
        change (if _ then _ else readBehindScheme (lower (complete.take (n + 1)))
          (complete.drop (n + 1 + 3))) = _ ↔ _
        by_cases hscheme : lower (complete.take (n + 1)) ∈ knownSchemes
        · rw [if_neg fun hnot => (hknown _).mp hnot hscheme]
          constructor
          · exact fun h => ⟨n, rfl, hscheme, h⟩
          · rintro ⟨m, hm, -, h⟩
            cases hm
            exact h
        · rw [if_pos ((hknown _).mpr hscheme)]
          refine iff_of_false (by simp) ?_
          rintro ⟨m, hm, hknown, -⟩
          cases hm
          exact hscheme hknown
  · rw [Bool.eq_false_iff.mpr hclean, if_pos (by simp)]
    simp

/-- What is accepted behind the scheme. -/
lemma readBehindScheme_eq_ok {scheme authority after : Bytes} {url : ParsedUrl}
    (hin : ∀ c ∈ authority, startsTarget c = false)
    (hbehind : ∀ c, after.head? = some c → startsTarget c = true) :
    readBehindScheme scheme (authority ++ after) = .ok url ↔
      authority ≠ [] ∧ 0x40 ∉ authority ∧ url.scheme = scheme ∧
        url.secure = (scheme == bytes "https" || scheme == bytes "wss") ∧
          ReadsAuthority authority url.secure url.host url.port ∧ url.target = urlTarget after := by
  obtain ⟨htake, hdrop⟩ := takeWhile_authority hin hbehind
  unfold readBehindScheme
  dsimp only
  rw [htake, hdrop]
  constructor
  · intro h
    by_cases hinvalid : (authority.isEmpty || authority.contains 0x40) = true
    · rw [if_pos hinvalid] at h
      cases h
    rw [if_neg hinvalid] at h
    simp only [Bool.or_eq_true, List.isEmpty_iff, List.contains_eq_mem, decide_eq_true_eq,
      not_or] at hinvalid
    cases hsplit : splitAuthority authority with
    | error e =>
      rw [hsplit] at h
      cases h
    | ok split =>
      obtain ⟨host, portText⟩ := split
      rw [hsplit] at h
      dsimp only at h
      by_cases hhost : host.isEmpty = true
      · rw [if_pos hhost] at h
        cases h
      rw [if_neg hhost] at h
      rw [List.isEmpty_iff] at hhost
      cases hport : parsePort authority portText (scheme == bytes "https" || scheme == bytes "wss") with
      | error e =>
        rw [hport] at h
        cases h
      | ok port =>
        rw [hport] at h
        cases h
        exact ⟨hinvalid.1, hinvalid.2, rfl, rfl, ⟨portText, hsplit, hhost, hport⟩, rfl⟩
  · rintro ⟨hne, huser, hscheme, hsecure, ⟨portText, hsplit, hhost, hport⟩, htarget⟩
    have hinvalid : ¬(authority.isEmpty || authority.contains 0x40) = true := by
      simp [hne, huser]
    rw [if_neg hinvalid, hsplit]
    dsimp only
    rw [if_neg (by simpa using hhost), ← hsecure, hport]
    dsimp only
    rw [← hscheme, ← htarget]

/-- **Accepted URLs.**  `parse_url` accepts what has these parts.  The parts are a scheme, an
authority up to the first byte that starts a target, and what follows; no byte of the text is a
space, a control character or DEL. -/
theorem parseAbsoluteUrl_iff {complete : Bytes} {url : ParsedUrl} :
    parseAbsoluteUrl complete = .ok url ↔
      ∃ scheme authority after, complete = joinUrl scheme authority after ∧
        UrlParts url scheme authority after := by
  rw [parseAbsoluteUrl_eq_ok]
  constructor
  · rintro ⟨hclean, n, hfind, hknown, hread⟩
    have hjoin : complete = joinUrl (complete.take (n + 1))
        ((complete.drop (n + 1 + 3)).takeWhile fun c => !startsTarget c)
        ((complete.drop (n + 1 + 3)).dropWhile fun c => !startsTarget c) := by
      rw [joinUrl, List.takeWhile_append_dropWhile]
      exact eq_of_find hfind
    have hin : ∀ c ∈ (complete.drop (n + 1 + 3)).takeWhile fun c => !startsTarget c,
        startsTarget c = false := by
      intro c hc
      simpa using List.mem_takeWhile_imp hc
    have hbehind : ∀ c, ((complete.drop (n + 1 + 3)).dropWhile fun c => !startsTarget c).head? =
        some c → startsTarget c = true := by
      intro c hc
      rcases head?_afterAuthority _ c hc with rfl | rfl | rfl <;> rfl
    rw [← List.takeWhile_append_dropWhile (p := fun c => !startsTarget c)
      (l := complete.drop (n + 1 + 3)), readBehindScheme_eq_ok hin hbehind] at hread
    obtain ⟨hne, huser, hscheme, hsecure, hreads, htarget⟩ := hread
    -- the check of the characters covers the whole text, so it splits with the text
    have hparts := hclean
    rw [hjoin, joinUrl, List.all_append, List.all_append, List.all_append, Bool.and_eq_true,
      Bool.and_eq_true, Bool.and_eq_true] at hparts
    exact ⟨_, _, _, hjoin,
      { schemeBytes := hparts.1
        authorityBytes := hparts.2.2.1
        afterBytes := hparts.2.2.2
        scheme_eq := hscheme
        known := by rwa [hscheme]
        secure_eq := by rw [hsecure, hscheme]
        nonempty := hne
        userinfo := huser
        inAuthority := hin
        behindAuthority := hbehind
        reads := hreads
        target_eq := htarget }⟩
  · rintro ⟨scheme, authority, after, rfl, h⟩
    have hclean : (joinUrl scheme authority after).all urlByte = true := by
      have hmark : (bytes "://").all urlByte = true := by decide
      rw [joinUrl, List.all_append, List.all_append, List.all_append, h.schemeBytes, hmark,
        h.authorityBytes, h.afterBytes]
      rfl
    -- a scheme is not empty: the source takes `://` at the front for malformed
    obtain ⟨n, hlen⟩ : ∃ n, scheme.length = n + 1 :=
      ⟨scheme.length - 1, by have := List.length_pos_iff.mpr h.scheme_ne_nil; omega⟩
    have hscheme : (joinUrl scheme authority after).take (n + 1) = scheme := by
      rw [joinUrl, ← hlen, List.take_left]
    have hrest : (joinUrl scheme authority after).drop (n + 1 + 3) = authority ++ after := by
      rw [← hlen, drop_joinUrl]
    refine ⟨hclean, n, ?_, ?_, ?_⟩
    · rw [find_joinUrl h.colon_not_mem, hlen]
    · rw [hscheme, ← h.scheme_eq]
      exact h.known
    · rw [hscheme, hrest, ← h.scheme_eq,
        readBehindScheme_eq_ok h.inAuthority h.behindAuthority]
      exact ⟨h.nonempty, h.userinfo, rfl, h.secure_eq, h.reads, h.target_eq⟩

/-- The authority is where it is looked for. -/
lemma authorityOf_joinUrl {scheme authority after : Bytes} (hcolon : colon ∉ scheme)
    (hin : ∀ c ∈ authority, startsTarget c = false)
    (hbehind : ∀ c, after.head? = some c → startsTarget c = true) :
    authorityOf (joinUrl scheme authority after) = authority := by
  rw [authorityOf, find_joinUrl hcolon, Option.getD_some, drop_joinUrl]
  exact (takeWhile_authority hin hbehind).1

/-! ### Printing and parsing -/

/-- Every part of a printed authority is from the host or is punctuation or a digit. -/
lemma mem_authority {url : ParsedUrl} {c : UInt8} (h : c ∈ url.authority) :
    c ∈ url.host ∨ c = 0x5b ∨ c = 0x5d ∨ c = colon ∨ isDigit c = true := by
  have hsuffix : c ∈ portSuffix url.secure url.port → c = colon ∨ isDigit c = true := mem_portSuffix
  rw [authority_eq] at h
  split_ifs at h
  · rw [bracketed, List.mem_cons, List.mem_append, List.mem_cons] at h
    tauto
  · rw [List.mem_append] at h
    tauto

/-- The host is part of the authority. -/
lemma mem_of_mem_host {authority : Bytes} {secure : Bool} {host : Bytes} {port : ℕ}
    (h : ReadsAuthority authority secure host port) {c : UInt8} (hc : c ∈ host) : c ∈ authority := by
  obtain ⟨portText, hsplit, -, -⟩ := h
  rcases splitAuthority_cases hsplit with ⟨-, suffix, rfl⟩ | ⟨-, -, hpre⟩
  · exact List.mem_cons_of_mem _ (List.mem_append_left _ hc)
  · exact hpre.subset hc

/-- A property of the bytes of an authority that punctuation and digits have as well. -/
lemma authority_all {url : ParsedUrl} {authority : Bytes} {p : UInt8 → Prop}
    (hread : ReadsAuthority authority url.secure url.host url.port) (h : ∀ c ∈ authority, p c)
    (hopening : p 0x5b) (hclosing : p 0x5d) (hcolon : p colon)
    (hdigit : ∀ c, isDigit c = true → p c) : ∀ c ∈ url.authority, p c := by
  intro c hc
  rcases mem_authority hc with hhost | rfl | rfl | rfl | hd
  · exact h c (mem_of_mem_host hread hhost)
  · exact hopening
  · exact hclosing
  · exact hcolon
  · exact hdigit c hd

/-- A target without a fragment that starts with a slash is its own target. -/
lemma urlTarget_of_path {target : Bytes} (hslash : target.head? = some slash) (h : 0x23 ∉ target) :
    urlTarget target = target := by
  obtain ⟨rest, rfl⟩ := List.head?_eq_some_iff.mp hslash
  have hall : ∀ c ∈ slash :: rest, (c != 0x23) = true := by
    intro c hc
    rw [bne_iff_ne]
    rintro rfl
    exact h hc
  have hwhole : (slash :: rest).takeWhile (· != 0x23) = slash :: rest := by
    rw [List.takeWhile_eq_self_iff]
    exact hall
  have hfragment : (slash :: rest).head? ≠ some 0x23 := by
    simp [slash]
  have hquery : (slash :: rest).head? ≠ some 0x3f := by
    simp [slash]
  unfold urlTarget
  dsimp only
  rw [if_neg hfragment, hwhole, if_neg (by simp), if_neg hquery]

/-- A target is what stands before the fragment, with a slash put before a query. -/
lemma mem_urlTarget {after : Bytes} {c : UInt8} (h : c ∈ urlTarget after) :
    c = slash ∨ c ∈ after ∧ c ≠ 0x23 := by
  have hcut : c ∈ (if after.head? = some 0x23 then [] else after.takeWhile (· != 0x23)) →
      c ∈ after ∧ c ≠ 0x23 := by
    intro hc
    split_ifs at hc
    · cases hc
    · exact ⟨(List.takeWhile_prefix _).subset hc, by simpa using List.mem_takeWhile_imp hc⟩
  unfold urlTarget at h
  dsimp only at h
  generalize (if after.head? = some 0x23 then [] else after.takeWhile (· != 0x23)) = target at h hcut
  split_ifs at h with hempty hquery
  · exact .inl (by simpa [bytes, slash] using h)
  · exact (List.mem_cons.mp h).imp id hcut
  · exact .inr (hcut h)

/-- The target of an accepted URL. -/
lemma UrlParts.target {url : ParsedUrl} {scheme authority after : Bytes}
    (h : UrlParts url scheme authority after) :
    url.target.head? = some slash ∧ 0x23 ∉ url.target ∧ url.target.all urlByte = true ∧
      urlTarget url.target = url.target := by
  have hhead : url.target.head? = some slash := by
    rw [h.target_eq]
    refine head?_urlTarget fun c hc => ?_
    have := h.behindAuthority c hc
    simpa [startsTarget, or_assoc] using this
  have hfragment : 0x23 ∉ url.target := by
    intro hmem
    rw [h.target_eq] at hmem
    rcases mem_urlTarget hmem with heq | ⟨-, hne⟩
    · exact absurd heq (by decide)
    · exact hne rfl
  refine ⟨hhead, hfragment, List.all_eq_true.mpr fun c hc => ?_, urlTarget_of_path hhead hfragment⟩
  rw [h.target_eq] at hc
  rcases mem_urlTarget hc with rfl | ⟨hmem, -⟩
  · decide
  · exact List.all_eq_true.mp h.afterBytes c hmem

/-- A digit is a byte of a URL that does not end an authority. -/
lemma isDigit_spec {c : UInt8} (h : isDigit c = true) :
    urlByte c = true ∧ startsTarget c = false ∧ c ≠ 0x40 := by
  simp only [isDigit, Bool.and_eq_true, decide_eq_true_eq] at h
  obtain ⟨hlow, hhigh⟩ := h
  have hne : ∀ d : UInt8, d < 0x30 ∨ 0x39 < d → c ≠ d := by
    rintro d (hd | hd) rfl
    · exact absurd hlow (UInt8.not_le.mpr hd)
    · exact absurd hhigh (UInt8.not_le.mpr hd)
  have hspace : (0x20 : UInt8) < c := UInt8.lt_of_lt_of_le (by decide) hlow
  refine ⟨?_, ?_, hne _ (by decide)⟩
  · simp [urlByte, hspace, hne 0x7f (by decide)]
  · simp [startsTarget, hne slash (by decide), hne 0x3f (by decide), hne 0x23 (by decide)]

/-- Nothing in a printed authority ends it. -/
lemma UrlParts.inAuthority_authority {url : ParsedUrl} {scheme authority after : Bytes}
    (h : UrlParts url scheme authority after) : ∀ c ∈ url.authority, startsTarget c = false :=
  authority_all h.reads h.inAuthority (by decide) (by decide) (by decide)
    fun _ hc => (isDigit_spec hc).2.1

/-- The authority behind a printed origin. -/
lemma UrlParts.authorityOf_origin {url : ParsedUrl} {scheme authority after : Bytes}
    (h : UrlParts url scheme authority after) {target : Bytes} (htarget : target.head? = some slash) :
    authorityOf (url.origin ++ target) = url.authority := by
  have hnone : ∀ s ∈ knownSchemes, colon ∉ s := by decide
  have hjoin : url.origin ++ target = joinUrl url.scheme url.authority target := by
    rw [ParsedUrl.origin, joinUrl, List.append_assoc, List.append_assoc]
  have hbehind : ∀ c, target.head? = some c → startsTarget c = true := by
    intro c hc
    rw [htarget, Option.some.injEq] at hc
    subst hc
    rfl
  rw [hjoin, authorityOf_joinUrl (hnone _ h.known) h.inAuthority_authority hbehind]

/-- The parts of a printed URL.  The authority is printed in normal form, and the parser has to read
the same host and port from that. -/
lemma UrlParts.rebuild {url : ParsedUrl} {scheme authority after : Bytes}
    (h : UrlParts url scheme authority after)
    (hread : ReadsAuthority url.authority url.secure url.host url.port) :
    UrlParts url url.scheme url.authority url.target := by
  obtain ⟨hhead, hfragment, hbytes, htarget⟩ := h.target
  have hknown : ∀ s ∈ knownSchemes, lower s = s ∧ s.all urlByte = true := by decide
  obtain ⟨hlower, hscheme⟩ := hknown _ h.known
  have huser : ∀ c ∈ url.authority, c ≠ 0x40 := by
    refine authority_all h.reads ?_ (by decide) (by decide) (by decide)
      fun c hc => (isDigit_spec hc).2.2
    rintro c hc rfl
    exact h.userinfo hc
  obtain ⟨portText, hsplit, hne, hport⟩ := hread
  refine
    { schemeBytes := hscheme
      authorityBytes := List.all_eq_true.mpr (authority_all h.reads
        (List.all_eq_true.mp h.authorityBytes) (by decide) (by decide) (by decide)
          fun c hc => (isDigit_spec hc).1)
      afterBytes := hbytes
      scheme_eq := hlower.symm
      known := h.known
      secure_eq := h.secure_eq
      nonempty := ?_
      userinfo := fun hmem => huser 0x40 hmem rfl
      inAuthority := h.inAuthority_authority
      behindAuthority := ?_
      reads := ⟨portText, hsplit, hne, hport⟩
      target_eq := htarget.symm }
  · rw [authority_eq]
    split_ifs
    · exact List.cons_ne_nil _ _
    · exact List.append_ne_nil_of_left_ne_nil hne _
  · intro c hc
    rw [hhead, Option.some.injEq] at hc
    subst hc
    rfl

/-- A URL that is printed. -/
def ParsedUrl.rebuilt (url : ParsedUrl) : Bytes := url.origin ++ url.target

/-- A printed URL has a scheme. -/
lemma hasUrlScheme_rebuilt {url : ParsedUrl} (h : url.scheme ∈ knownSchemes) :
    hasUrlScheme url.rebuilt = true := by
  have hknown : ∀ s ∈ knownSchemes, hasUrlScheme (s ++ bytes "://") = true := by decide
  rw [ParsedUrl.rebuilt, ParsedUrl.origin, List.append_assoc]
  exact hasUrlScheme_append (hknown _ h)

/-- What an accepted URL reads. -/
lemma reads_of_parseAbsoluteUrl {complete : Bytes} {url : ParsedUrl}
    (h : parseAbsoluteUrl complete = .ok url) :
    ReadsAuthority (authorityOf complete) url.secure url.host url.port := by
  obtain ⟨scheme, authority, after, rfl, hparts⟩ := (parseAbsoluteUrl_iff).mp h
  rw [authorityOf_joinUrl hparts.colon_not_mem hparts.inAuthority hparts.behindAuthority]
  exact hparts.reads

/-- **Printing and parsing.**  An accepted complete URL is printed as the same URL, unless its
authority is the one with the doubled bracket. -/
lemma parseUrl_rebuilt {complete : Bytes} {url : ParsedUrl}
    (h : parseAbsoluteUrl complete = .ok url) :
    parseUrl url.rebuilt = .ok url ↔ doubledBracket (authorityOf complete) = false := by
  rw [← readsAuthority_authority (reads_of_parseAbsoluteUrl h)]
  obtain ⟨scheme, authority, after, rfl, hparts⟩ := (parseAbsoluteUrl_iff).mp h
  rw [parseUrl, if_pos (hasUrlScheme_rebuilt hparts.known)]
  constructor
  · intro hrebuilt
    have hreads := reads_of_parseAbsoluteUrl hrebuilt
    rwa [ParsedUrl.rebuilt, hparts.authorityOf_origin hparts.target.1] at hreads
  · intro hread
    refine (parseAbsoluteUrl_iff).mpr ⟨_, _, _, ?_, hparts.rebuild hread⟩
    rw [ParsedUrl.rebuilt, ParsedUrl.origin, joinUrl, List.append_assoc, List.append_assoc]

/-! ### Inputs -/

/-- The authority that an input brings itself.  A reference that begins with a path takes that of
its base, which was accepted before. -/
def ownAuthority (input : Bytes) : Bytes :=
  if hasUrlScheme input then authorityOf input
  else if (bytes "//").isPrefixOf input then (input.drop 2).takeWhile fun c => !startsTarget c
  else []

/-- An origin that was printed and is accepted again has no doubled bracket. -/
lemma doubledBracket_authority {url : ParsedUrl} {authority : Bytes}
    (h : ReadsAuthority authority url.secure url.host url.port) {secure : Bool} {host : Bytes}
    {port : ℕ} (hread : ReadsAuthority url.authority secure host port) :
    doubledBracket url.authority = false := by
  obtain ⟨portText, hsplit, hne, -⟩ := h
  obtain ⟨portText', hsplit', -, -⟩ := hread
  by_cases hcolon : colon ∈ url.host
  · rcases splitAuthority_cases hsplit with ⟨hclosing, -⟩ | ⟨-, hnone, -⟩
    · rw [authority_eq, if_pos hcolon, ← Bool.not_eq_true, doubledBracket_bracketed hne hclosing]
      exact fun hdoubled => hdoubled.2 hcolon
    · exact absurd hcolon hnone
  · refine doubledBracket_of_head fun hopening => ?_
    rcases splitAuthority_cases hsplit with ⟨hclosing, -⟩ | ⟨hhead, -, rest, rfl⟩
    · have hunclosed : 0x5d ∉ url.authority := by
        intro hmem
        rw [authority_eq, if_neg hcolon] at hmem
        exact not_mem_append_portSuffix hclosing hmem
      rw [splitAuthority_unclosed hopening hunclosed] at hsplit'
      cases hsplit'
    · rw [authority_eq, if_neg hcolon, List.head?_append_of_ne_nil _ hne] at hopening
      rw [List.head?_append_of_ne_nil _ hne] at hhead
      exact hhead hopening

/-- The authority behind a scheme that was put before a reference. -/
lemma authorityOf_scheme {scheme : Bytes} (h : scheme ∈ knownSchemes) (rest : Bytes) :
    authorityOf (scheme ++ bytes ":" ++ (bytes "//" ++ rest)) =
      rest.takeWhile fun c => !startsTarget c := by
  have hnone : ∀ s ∈ knownSchemes, colon ∉ s := by decide
  have hjoin : scheme ++ bytes ":" ++ (bytes "//" ++ rest) = joinUrl scheme [] rest := by
    rw [List.append_assoc]
    rfl
  rw [hjoin, authorityOf, find_joinUrl (hnone _ h), Option.getD_some, drop_joinUrl]
  rfl

/-- A fragment is behind the authority. -/
lemma takeWhile_fragment (rest : Bytes) :
    (rest.takeWhile (· != 0x23)).takeWhile (fun c => !startsTarget c) =
      rest.takeWhile fun c => !startsTarget c := by
  rw [List.takeWhile_takeWhile]
  congr 1
  funext c
  by_cases hc : c = 0x23
  · subst hc
    rfl
  · simp [hc]

/-- A reference is resolved against a base that is accepted. -/
lemma base_of_resolveUrl {base input complete : Bytes} (hscheme : hasUrlScheme input = false)
    (h : resolveUrl base input = .ok complete) :
    ∃ parsedBase, parseUrl base = .ok parsedBase ∧
      ((bytes "//").isPrefixOf (input.takeWhile (· != 0x23)) = true →
        complete = parsedBase.scheme ++ bytes ":" ++ input.takeWhile (· != 0x23)) := by
  have hcut : hasUrlScheme (input.takeWhile (· != 0x23)) = false := by
    rw [← Bool.not_eq_true]
    intro hcut
    have hfull := @hasUrlScheme_append _ (input.dropWhile (· != 0x23)) hcut
    rw [List.takeWhile_append_dropWhile, hscheme] at hfull
    cases hfull
  unfold resolveUrl at h
  dsimp only at h
  rw [hcut, if_neg Bool.false_ne_true] at h
  by_cases hbase : hasUrlScheme base = true
  · rw [if_pos hbase] at h
    cases hparse : parseAbsoluteUrl base with
    | error e =>
      rw [hparse] at h
      cases h
    | ok parsedBase =>
      rw [hparse] at h
      refine ⟨parsedBase, by rw [parseUrl, if_pos hbase, hparse], fun hpre => ?_⟩
      dsimp only at h
      rw [if_pos hpre] at h
      cases h
      rfl
  · rw [if_neg hbase] at h
    cases h

/-- What an input is resolved to has a doubled bracket exactly when the input brings it. -/
lemma doubledBracket_complete {input base complete : Bytes} {url : ParsedUrl}
    (hscheme : hasUrlScheme input = false) (hresolve : resolveUrl base input = .ok complete)
    (h : parseAbsoluteUrl complete = .ok url) :
    doubledBracket (authorityOf complete) = doubledBracket (ownAuthority input) := by
  obtain ⟨parsedBase, hbase, hcomplete⟩ := base_of_resolveUrl hscheme hresolve
  obtain ⟨scheme, authority, after, -, hparts⟩ :=
    (parseAbsoluteUrl_iff).mp (parse_of_parseUrl hbase).2
  rw [ownAuthority, hscheme, if_neg Bool.false_ne_true]
  by_cases hauthority : (bytes "//").isPrefixOf input = true
  · rw [if_pos hauthority]
    obtain ⟨rest, rfl⟩ := List.isPrefixOf_iff_prefix.mp hauthority
    have hmark : ∀ c ∈ bytes "//", (c != 0x23) = true := by decide +kernel
    have hcut : (bytes "//" ++ rest).takeWhile (· != 0x23) =
        bytes "//" ++ rest.takeWhile (· != 0x23) := List.takeWhile_append_of_pos hmark
    rw [hcut] at hcomplete
    rw [hcomplete (List.isPrefixOf_iff_prefix.mpr (List.prefix_append _ _)),
      authorityOf_scheme hparts.known, takeWhile_fragment]
    rfl
  · rw [Bool.not_eq_true] at hauthority
    obtain ⟨hok, hslash⟩ := resolveUrl_eq hbase hscheme hauthority
    rw [hok, Except.ok.injEq] at hresolve
    subst hresolve
    have hreads := reads_of_parseAbsoluteUrl h
    rw [hparts.authorityOf_origin hslash] at hreads ⊢
    rw [hauthority, if_neg Bool.false_ne_true, doubledBracket_authority hparts.reads hreads]
    rfl

/-- Resolving fails on its base only. -/
lemma resolveUrl_isOk {base : Bytes} {url : ParsedUrl} (h : parseUrl base = .ok url)
    (reference : Bytes) : (resolveUrl base reference).isOk = true := by
  obtain ⟨hscheme, hparse⟩ := parse_of_parseUrl h
  unfold resolveUrl
  rw [if_pos hscheme, hparse]
  dsimp only
  split_ifs <;> rfl

/-- **Rebuilding.**  An accepted URL that is printed is accepted as the same URL, and every
reference resolves against it, exactly when the authority of the input is not the one with the
doubled bracket. Its target always starts with a slash and has no fragment, whitespace or control
character. -/
theorem parseUrl_rebuild {input base : Bytes} {url : ParsedUrl} (h : parseUrl input base = .ok url) :
    ((parseUrl (url.origin ++ url.target) = .ok url ∧
        ∀ reference, (resolveUrl (url.origin ++ url.target) reference).isOk = true) ↔
      doubledBracket (ownAuthority input) = false) ∧
    url.target.head? = some slash ∧ ∀ c ∈ url.target, c ≠ 0x23 ∧ 0x20 < c ∧ c ≠ 0x7f := by
  have hcomplete : ∃ complete, parseAbsoluteUrl complete = .ok url ∧
      doubledBracket (authorityOf complete) = doubledBracket (ownAuthority input) := by
    unfold parseUrl at h
    by_cases hscheme : hasUrlScheme input = true
    · rw [if_pos hscheme] at h
      exact ⟨input, h, by rw [ownAuthority, if_pos hscheme]⟩
    · rw [if_neg hscheme] at h
      split_ifs at h
      cases hresolve : resolveUrl base input with
      | error e =>
        rw [hresolve] at h
        cases h
      | ok complete =>
        rw [hresolve] at h
        exact ⟨complete, h, doubledBracket_complete (Bool.eq_false_iff.mpr hscheme) hresolve h⟩
  obtain ⟨complete, hparse, hdoubled⟩ := hcomplete
  obtain ⟨scheme, authority, after, -, hparts⟩ := (parseAbsoluteUrl_iff).mp hparse
  obtain ⟨hhead, hfragment, hbytes, -⟩ := hparts.target
  refine ⟨?_, hhead, fun c hc => ⟨?_, ?_⟩⟩
  · rw [← hdoubled, ← parseUrl_rebuilt hparse]
    exact ⟨fun hrebuilt => hrebuilt.1, fun hrebuilt => ⟨hrebuilt, resolveUrl_isOk hrebuilt⟩⟩
  · rintro rfl
    exact hfragment hc
  · simpa [urlByte] using List.all_eq_true.mp hbytes c hc

/-- A relative input with a fragment, against a base with a port. -/
theorem parseUrl_rebuild_of_relative :
    parseUrl (bytes "https://[::1]:8443/b?y") =
      .ok { scheme := bytes "https", host := bytes "::1", port := 8443, target := bytes "/b?y",
            secure := true } := by
  have h : parseUrl (bytes "../b?y#z") (bytes "https://[::1]:8443/a/c") =
      .ok { scheme := bytes "https", host := bytes "::1", port := 8443, target := bytes "/b?y",
            secure := true } := by decide +kernel
  have hrebuilt := ((parseUrl_rebuild h).1.mpr (by decide +kernel)).1
  rw [← hrebuilt]
  congr 1

/-- A host that starts with a bracket is accepted, and what is printed for it is not.  The source
prints brackets around a host with a colon, and the host `[a` has none: it is printed as it is, and
the reader looks for the closing bracket. -/
theorem not_parseUrl_rebuild :
    ¬∀ (input base : Bytes) (url : ParsedUrl), parseUrl input base = .ok url →
      parseUrl (url.origin ++ url.target) = .ok url := by
  intro h
  have haccepted : parseUrl (bytes "http://[[x]/") [] =
      .ok { scheme := bytes "http", host := bytes "[x", port := 80, target := bytes "/",
            secure := false } := by decide +kernel
  have hrefused := h _ _ _ haccepted
  revert hrefused
  decide +kernel

end Chhttp
