import Chhttp.Common.Base64
import Chhttp.Common.Message
import Chhttp.Common.Url
import Chhttp.Lib.Loop
import Chhttp.Lib.Run
import Chhttp.Protocol.Write

/-!
# Exchanges of the client

`request` is `AsyncClient::Impl::request` as far as the messages go that it writes: the hops of a
chain of redirects, the digest stage of a hop, and the attempts of an exchange.  An `Attempt` is all
that the network, the pool and the caller's callbacks contribute to one attempt; the attempts of a
call are an arbitrary sequence.

The recursion of `exchange` is the loop of `exchangeStep`, whose measure counts the attempts that
are left.  `history` lists the attempts of a call, each with the state of the exchange it was made
in.
-/

namespace Chhttp.AsyncClient

open Transition

/-! ### Options -/

/-- `AuthenticationType`. -/
inductive AuthenticationType where
  | none
  | basic
  | bearer
  | digest
  deriving DecidableEq

/-- `AuthenticationOptions`: the user and the password of Basic and Digest, or the token of Bearer.
-/
structure AuthenticationOptions where
  type : AuthenticationType := .none
  username : Bytes := []
  password : Bytes := []
  token : Bytes := []

/-- `ProxyOptions`: without a URL there is no proxy, and without a user name no credentials are sent
to it. -/
structure ProxyOptions where
  url : Bytes := []
  username : Bytes := []
  password : Bytes := []

/-- The fields of `ClientOptions` that exchanges use.  `acceptEncoding` says that responses are
decompressed, in a build that can. -/
structure ClientOptions where
  maxRedirects : ℕ := 10
  followRedirects : Bool := true
  keepAlive : Bool := true
  acceptEncoding : Bool := false
  defaultHeaders : Headers := []
  proxy : ProxyOptions := {}
  authentication : AuthenticationOptions := {}

/-- `basic_auth`. -/
def basicAuth (username password : Bytes) : Bytes :=
  bytes "Basic " ++ base64Text (username ++ bytes ":" ++ password)

example : basicAuth (bytes "user") (bytes "pw") = bytes "Basic dXNlcjpwdw==" := by decide +kernel

/-- `bearer_auth`. -/
def bearerAuth (token : Bytes) : Bytes := bytes "Bearer " ++ token

/-- The `Proxy-Authorization` value of a client. -/
def ProxyOptions.authorization (proxy : ProxyOptions) : Bytes :=
  basicAuth proxy.username proxy.password

/-- `idempotent_method`: the methods that the source sends again without being told to. -/
def idempotentMethod (method : Bytes) : Bool :=
  iequals method (bytes "GET") || iequals method (bytes "HEAD") || iequals method (bytes "OPTIONS")

/-- `redirect_status`. -/
def redirectStatus (status : ℤ) : Bool :=
  status == 301 || status == 302 || status == 303 || status == 307 || status == 308

/-! ### The start of an exchange -/

/-- The fields that an exchange may not add for an origin without automatic credentials.  These are
the fields that it erases when a redirect leads to another origin. -/
def isCredentialField (name : Bytes) : Bool :=
  iequals name (bytes "Authorization") || iequals name (bytes "Cookie")

/-- The loop over `default_headers`. -/
def addDefaults (allowAutomaticAuth : Bool) (headers : Headers) (defaults : Headers) : Headers :=
  defaults.foldl
    (fun headers item =>
      if !allowAutomaticAuth && isCredentialField item.1 then headers
      else if headers.contains item.1 then headers
      else headers.add item.1 item.2)
    headers

/-- The credentials of the options. -/
def addAuthentication (authentication : AuthenticationOptions) (headers : Headers) : Headers :=
  match authentication.type with
  | .basic =>
    headers.set (bytes "Authorization")
      (basicAuth authentication.username authentication.password)
  | .bearer => headers.set (bytes "Authorization") (bearerAuth authentication.token)
  | _ => headers

/-- The fields of a request at the start of an exchange. -/
def prepareHeaders (options : ClientOptions) (url : ParsedUrl) (allowAutomaticAuth : Bool)
    (headers : Headers) : Headers :=
  let headers := addDefaults allowAutomaticAuth headers options.defaultHeaders
  let headers := headers.set (bytes "Host") url.authority
  let headers :=
    if options.acceptEncoding && !headers.contains (bytes "Accept-Encoding") then
      headers.set (bytes "Accept-Encoding") (bytes "gzip, deflate, br, zstd")
    else headers
  let headers :=
    if allowAutomaticAuth && !headers.contains (bytes "Authorization") then
      addAuthentication options.authentication headers
    else headers
  if !options.proxy.url.isEmpty && !url.secure && !options.proxy.username.isEmpty then
    headers.set (bytes "Proxy-Authorization") options.proxy.authorization
  else headers

/-- The arguments of `exchange`, once it has prepared the request, and its attempt.  Attempts are
counted from zero; another one is made only where the request may be sent again. -/
structure ExchangeState where
  url : ParsedUrl
  request : Request
  redirects : ℕ
  digestAttempted : Bool
  allowAutomaticAuth : Bool
  attempt : ℕ := 0

/-- The start of `exchange`.  The default fields and the credentials are added here, once for each
hop. -/
def enter (options : ClientOptions) (url : ParsedUrl) (request : Request) (redirects : ℕ)
    (digestAttempted allowAutomaticAuth : Bool) : ExchangeState where
  url
  request := { request with
    headers := prepareHeaders options url allowAutomaticAuth request.headers
    keepAlive := options.keepAlive }
  redirects
  digestAttempted
  allowAutomaticAuth

/-! ### Attempts -/

/-- How an attempt ends: before the request is written, or in the middle of writing it, or in the
middle of reading the response, or with a response.  For a response with a digest challenge,
`authorization` is what `parse_digest_challenge` and `digest_auth` make of it, if the former
succeeds. -/
inductive AttemptOutcome where
  | notSent (error : ErrorInfo)
  | writeFailed (error : ErrorInfo)
  | readFailed (error : ErrorInfo) (responseStarted : Bool)
  | received (response : Response) (authorization : Option (Result Bytes))

/-- An attempt: whether `acquire` wrote a CONNECT request, whether the connection was pooled,
whether the request had been cancelled in the end, and its outcome. -/
structure Attempt where
  connects : Bool := false
  reused : Bool := false
  cancelled : Bool := false
  outcome : AttemptOutcome

/-- What becomes of an exchange after an attempt. -/
abbrev AttemptResult := Loop.Next ExchangeState (Result Response)

/-- The error of a cancelled request. -/
def cancelledError : ErrorInfo := { code := .cancelled, message := "Request cancelled" }

/-- A failed attempt is repeated once on another connection, if nothing has come back and the
request is safe to send again. -/
def retries (s : ExchangeState) (a : Attempt) : Bool :=
  a.reused && s.attempt == 0 && idempotentMethod s.request.method && s.request.bodyStream.isNone

/-- The method and the body that a redirect does not take along. -/
def rewriteMethod (status : ℤ) (request : Request) : Request :=
  if (status == 303 && !iequals request.method (bytes "HEAD")) ||
      ((status == 301 || status == 302) && iequals request.method (bytes "POST")) then
    { request with
      method := bytes "GET"
      body := []
      bodyStream := none
      bodyStreamLength := none
      headers := (((request.headers.erase (bytes "Content-Type")).erase
        (bytes "Content-Length")).erase (bytes "Transfer-Encoding")).erase (bytes "Expect") }
  else request

/-- The exchange of the next hop of a redirect. -/
def redirected (options : ClientOptions) (s : ExchangeState) (status : ℤ) (nextUrl : ParsedUrl) :
    ExchangeState :=
  let sameOrigin := nextUrl.origin == s.url.origin
  let request :=
    if sameOrigin then s.request
    else { s.request with
      headers := (s.request.headers.erase (bytes "Authorization")).erase (bytes "Cookie") }
  let request := { rewriteMethod status request with target := nextUrl.target }
  enter options nextUrl request (s.redirects + 1) false (sameOrigin && s.allowAutomaticAuth)

/-- A redirect to `location`. -/
def redirect (options : ClientOptions) (s : ExchangeState) (status : ℤ) (location : Bytes) :
    AttemptResult :=
  if options.maxRedirects ≤ s.redirects then
    .leave (.error { code := .redirectLimit, message := "HTTP redirect limit exceeded" })
  else
    match resolveUrl (s.url.origin ++ s.url.target) location with
    | .error e => .leave (.error e)
    | .ok resolved =>
      match parseUrl resolved with
      | .error e => .leave (.error e)
      | .ok nextUrl => .again (redirected options s status nextUrl)

/-- What follows a response without a digest stage. -/
def redirectOrReturn (options : ClientOptions) (s : ExchangeState) (response : Response) :
    AttemptResult :=
  if options.followRedirects && redirectStatus response.status &&
      response.headers.contains (bytes "Location") then
    redirect options s response.status ((findHeader response.headers (bytes "Location")).getD [])
  else .leave (.ok response)

/-- The exchange of the digest stage of a hop. -/
def authenticated (options : ClientOptions) (s : ExchangeState) (authorization : Bytes) :
    ExchangeState :=
  enter options s.url
    { s.request with headers := s.request.headers.set (bytes "Authorization") authorization }
    s.redirects true s.allowAutomaticAuth

/-- What follows a response. -/
def followResponse (options : ClientOptions) (s : ExchangeState) (response : Response)
    (authorization : Option (Result Bytes)) : AttemptResult :=
  if response.status == 401 && !s.digestAttempted && s.allowAutomaticAuth &&
      options.authentication.type == .digest then
    match authorization with
    | none => redirectOrReturn options s response
    | some (.error e) => .leave (.error e)
    | some (.ok value) => .again (authenticated options s value)
  else redirectOrReturn options s response

/-- One attempt of `exchange`, with what follows it. -/
def attemptStep (options : ClientOptions) (s : ExchangeState) (a : Attempt) : AttemptResult :=
  match a.outcome with
  | .notSent e => .leave (.error e)
  | .writeFailed e =>
    if a.cancelled then .leave (.error cancelledError)
    else if retries s a then .again { s with attempt := s.attempt + 1 }
    else .leave (.error e)
  | .readFailed e responseStarted =>
    if a.cancelled then .leave (.error cancelledError)
    else if !responseStarted && retries s a then .again { s with attempt := s.attempt + 1 }
    else .leave (.error e)
  | .received response authorization =>
    if a.cancelled then .leave (.error cancelledError)
    else followResponse options s response authorization

/-! ### Messages -/

/-- A request that was written, and whether it was addressed to the proxy or to the origin, directly
or through a tunnel. -/
structure Written where
  toProxy : Bool
  wireTarget : Bytes
  request : Request

/-- The fields of the head that `write_request` writes.  The theorems on credentials are about
these, since they are what leaves the process. -/
def Written.fields (m : Written) : Headers :=
  mergeFields (requestOverrides m.request) (requestOmitted m.request) m.request.headers

/-- They are the fields on the wire. -/
theorem Written.outboundHead {m : Written} {head : Bytes}
    (h : serializeRequest m.request m.wireTarget = .ok head) :
    OutboundHead head (requestStartLine m.request m.wireTarget) m.fields := by
  obtain ⟨hmethod, -, htarget, -, -, -, hserialize⟩ := serializeRequest_eq_ok h
  exact outboundHead_of_serializeHead (validHeaderValue_requestStartLine hmethod htarget) hserialize

/-- The names of the fields that `write_request` itself decides on. -/
def ownFields : List Bytes :=
  [bytes "Transfer-Encoding", bytes "Content-Length", bytes "Connection", bytes "User-Agent"]

/-- Every other field is written as the request has it.  So what is said about the fields of a
request is true of the wire, but for the fields that the client sets itself. -/
theorem Written.getAll_fields (m : Written) {name : Bytes} (hname : isOmitted ownFields name = false) :
    m.fields.getAll name = m.request.headers.getAll name := by
  simp only [isOmitted, ownFields, List.any_cons, List.any_nil, Bool.or_false,
    Bool.or_eq_false_iff] at hname
  obtain ⟨hcoding, hlength, hconnection, hagent⟩ := hname
  have hnone : overrideIndex (requestOverrides m.request) name = none := by
    rw [overrideIndex, List.findIdx?_eq_none_iff]
    intro o ho
    simp only [requestOverrides, List.mem_append] at ho
    rcases ho with (ho | ho) | ho <;> split_ifs at ho <;> simp at ho <;> subst ho <;> assumption
  have homitted : isOmitted (requestOmitted m.request) name = false := by
    simp only [requestOmitted]
    split_ifs <;> simp [isOmitted, hcoding, hlength]
  rw [Written.fields, getAll_mergeFields (distinct_requestOverrides _), hnone, homitted]
  rfl

/-- The CONNECT request of a tunnel. -/
def tunnelRequest (options : ClientOptions) (url : ParsedUrl) : Request where
  method := bytes "CONNECT"
  target := url.authority
  headers :=
    let headers := Headers.set [] (bytes "Host") url.authority
    if options.proxy.username.isEmpty then headers
    else headers.set (bytes "Proxy-Authorization") options.proxy.authorization

/-- The CONNECT request that an attempt writes to open a tunnel. -/
def tunnelled (options : ClientOptions) (s : ExchangeState) (a : Attempt) : List Written :=
  if a.connects && !options.proxy.url.isEmpty && s.url.secure then
    [{ toProxy := true
       wireTarget := s.url.authority
       request := tunnelRequest options s.url }]
  else []

/-- The request that an attempt writes. -/
def sent (options : ClientOptions) (s : ExchangeState) (a : Attempt) : List Written :=
  match a.outcome with
  | .notSent _ => []
  | _ =>
    let viaProxy := !options.proxy.url.isEmpty && !s.url.secure
    [{ toProxy := viaProxy
       wireTarget := if viaProxy then s.url.origin ++ s.url.target else s.url.target
       request := s.request }]

/-- All that an attempt writes. -/
def written (options : ClientOptions) (v : ExchangeState × Attempt) : List Written :=
  tunnelled options v.1 v.2 ++ sent options v.1 v.2

/-! ### Calls -/

/-- The attempts that an exchange has left. -/
def attemptsLeft (options : ClientOptions) (s : ExchangeState) : ℕ :=
  4 * (options.maxRedirects - s.redirects) + (if s.digestAttempted then 0 else 2) + (1 - s.attempt)

/-- The exchange goes on with another attempt. -/
def nextAttempt (options : ClientOptions) (s : ExchangeState) (a : Attempt) :
    Option ExchangeState :=
  match attemptStep options s a with
  | .again s => some s
  | .leave _ => none

/-- One iteration of the loop of a call, for a sequence of attempts; the state has the attempts so
far. -/
def exchangeStep (options : ClientOptions) (attempts : ℕ → Attempt)
    (v : ExchangeState × List (ExchangeState × Attempt)) :
    Loop.Next (ExchangeState × List (ExchangeState × Attempt))
      (Result Response × List (ExchangeState × Attempt)) :=
  let a := attempts v.2.length
  let history := v.2 ++ [(v.1, a)]
  match attemptStep options v.1 a with
  | .again s => .again (s, history)
  | .leave result => .leave (result, history)

/-- How an exchange goes on: the attempt is repeated on another connection, the request is sent
again with digest credentials, or a redirect is followed. -/
theorem attemptStep_again {options : ClientOptions} {s s' : ExchangeState} {a : Attempt}
    (h : attemptStep options s a = .again s') :
    (retries s a = true ∧ (∀ e, a.outcome ≠ .readFailed e true) ∧
      s' = { s with attempt := s.attempt + 1 }) ∨
    (∃ value, s.digestAttempted = false ∧ s.allowAutomaticAuth = true ∧
      s' = authenticated options s value) ∨
    ∃ status nextUrl, s.redirects < options.maxRedirects ∧
      s' = redirected options s status nextUrl := by
  have hredirect : ∀ response, redirectOrReturn options s response = .again s' →
      ∃ status nextUrl, s.redirects < options.maxRedirects ∧
        s' = redirected options s status nextUrl := by
    intro response hagain
    unfold redirectOrReturn redirect at hagain
    split_ifs at hagain with hlocation hlimit
    split at hagain
    · cases hagain
    · split at hagain
      · cases hagain
      · cases hagain
        exact ⟨_, _, by omega, rfl⟩
  unfold attemptStep at h
  split at h
  · cases h
  · rename_i e houtcome
    split_ifs at h with hcancelled hretried
    cases h
    exact Or.inl ⟨hretried, by simp [houtcome], rfl⟩
  · rename_i e started houtcome
    split_ifs at h with hcancelled hretried
    cases h
    rw [Bool.and_eq_true, Bool.not_eq_true'] at hretried
    exact Or.inl ⟨hretried.2, by simp [houtcome, hretried.1], rfl⟩
  · split_ifs at h
    unfold followResponse at h
    split_ifs at h with hdigest
    · split at h
      · exact Or.inr (Or.inr (hredirect _ h))
      · cases h
      · cases h
        simp only [Bool.and_eq_true, Bool.not_eq_true'] at hdigest
        exact Or.inr (Or.inl ⟨_, hdigest.1.1.2, hdigest.1.2, rfl⟩)
    · exact Or.inr (Or.inr (hredirect _ h))

/-- The next state is the one the attempt leads to. -/
lemma attemptStep_of_nextAttempt {options : ClientOptions} {s s' : ExchangeState} {a : Attempt}
    (h : nextAttempt options s a = some s') : attemptStep options s a = .again s' := by
  unfold nextAttempt at h
  split at h
  · rename_i t hagain
    cases h
    exact hagain
  · cases h

/-- A repeated attempt, a digest stage and a redirect all use up attempts. -/
lemma attemptsLeft_lt {options : ClientOptions} {s s' : ExchangeState} {a : Attempt}
    (h : attemptStep options s a = .again s') :
    attemptsLeft options s' < attemptsLeft options s := by
  obtain ⟨hretry, -, rfl⟩ | ⟨value, hdigest, -, rfl⟩ | ⟨status, nextUrl, hlimit, rfl⟩ :=
    attemptStep_again h
  · simp only [retries, Bool.and_eq_true, beq_iff_eq] at hretry
    simp only [attemptsLeft, hretry.1.1.2]
    omega
  · simp only [attemptsLeft, authenticated, enter, hdigest, if_true, Bool.false_eq_true, if_false]
    omega
  · simp only [attemptsLeft, redirected, enter, Bool.false_eq_true, if_false]
    split_ifs <;> omega

/-- Every iteration uses up an attempt. -/
lemma exchangeStep_decreases (options : ClientOptions) (attempts : ℕ → Attempt) :
    Loop.Decreases (exchangeStep options attempts) fun v => attemptsLeft options v.1 := by
  rintro ⟨s, history⟩ ⟨s', history'⟩ h
  unfold exchangeStep at h
  dsimp only at h
  split at h
  · rename_i hagain
    cases h
    exact attemptsLeft_lt hagain
  · cases h

/-- The exchanges of a call, from the first one on. -/
def exchange (options : ClientOptions) (attempts : ℕ → Attempt) (s : ExchangeState) :
    Result Response × List (ExchangeState × Attempt) :=
  Loop.run (exchangeStep options attempts) (fun v => attemptsLeft options v.1)
    (exchangeStep_decreases options attempts) (s, [])

/-- The checks of `request` before anything is sent. -/
def invalidRequest (request : Request) : Option ErrorInfo :=
  if request.bodyStream.isSome && !request.body.isEmpty then
    some { code := .invalidArgument
           message := "Configure either a buffered or streamed request body" }
  else if request.bodyStream.isNone && request.bodyStreamLength.isSome then
    some { code := .invalidArgument
           message := "A streamed body length requires a body producer" }
  else none

/-- `AsyncClient::Impl::request`, for a client with the base URL `base`. -/
def request (options : ClientOptions) (base : Result ParsedUrl) (request : Request)
    (attempts : ℕ → Attempt) : Result Response × List (ExchangeState × Attempt) :=
  match base with
  | .error e => (.error e, [])
  | .ok base =>
    match invalidRequest request with
    | some e => (.error e, [])
    | none =>
      match parseUrl request.target (base.origin ++ base.target) with
      | .error e => (.error e, [])
      | .ok url =>
        exchange options attempts
          (enter options url { request with target := url.target } 0 false true)

/-! ### Histories -/

/-- The attempts of an exchange are a run of the attempts that go on, and one more that ends it.
This lets the theorems speak of attempts in the order in which they were made. -/
theorem exchange_history (options : ClientOptions) (attempts : ℕ → Attempt) (s : ExchangeState) :
    ∃ trace t, Run (nextAttempt options) s trace t ∧
      (exchange options attempts s).2 = trace ++ [(t, attempts trace.length)] ∧
      attemptStep options t (attempts trace.length) = .leave (exchange options attempts s).1 := by
  refine Loop.run_induct (exchangeStep_decreases options attempts)
    (P := fun v result => Run (nextAttempt options) s v.2 v.1 → ∃ trace t,
      Run (nextAttempt options) s trace t ∧
      result.2 = trace ++ [(t, attempts trace.length)] ∧
      attemptStep options t (attempts trace.length) = .leave result.1) ?_ ?_ (s, []) Run.start
  · rintro ⟨t, trace⟩ result hleave hrun
    unfold exchangeStep at hleave
    dsimp only at hleave
    split at hleave
    · cases hleave
    · rename_i last hlast
      cases hleave
      exact ⟨trace, t, hrun, rfl, hlast⟩
  · rintro ⟨t, trace⟩ ⟨t', trace'⟩ result hagain ih hrun
    unfold exchangeStep at hagain
    dsimp only at hagain
    split at hagain
    · rename_i next hnext
      cases hagain
      exact ih (hrun.step (by rw [nextAttempt, hnext]))
    · cases hagain

/-- The attempts of a call: none, or those of its exchanges, which start with credentials allowed.
A call whose URL is refused makes none. -/
theorem request_history (options : ClientOptions) (base : Result ParsedUrl) (r : Request)
    (attempts : ℕ → Attempt) :
    (request options base r attempts).2 = [] ∨
      ∃ url target, request options base r attempts =
        exchange options attempts
          (enter options url { r with target := target } 0 false true) := by
  unfold request
  split
  · exact Or.inl rfl
  · split
    · exact Or.inl rfl
    · split
      · exact Or.inl rfl
      · rename_i url _
        exact Or.inr ⟨url, url.target, rfl⟩

end Chhttp.AsyncClient
