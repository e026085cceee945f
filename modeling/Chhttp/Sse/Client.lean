import Chhttp.Common.Headers
import Chhttp.Sse.Fragments

/-!
# The client of event streams

The loop of `SseClient::Impl::connect`: every iteration is one request, whose response head and data
go to callbacks, and after it has ended the client waits, and resumes with the id that its parser
holds.  An `Attempt` is what an iteration meets: the callbacks that the request would make, the
result of the request, what the handlers do, and the values of `running` that it reads.  When `stop`
sets `running` is the subject of `Chhttp.Sse.Stop`; here the values that are read are arbitrary.

The waits back off exponentially: after a retry time that the server gave, and from the initial one
on, each attempt that gives no other doubles the delay up to `max_retry` (`backoff`).
-/

namespace Chhttp.Sse

/-! ### The source -/

/-- `SseClientOptions`; times are in milliseconds.  The options of the parser and of the request are
left to the functions that use them. -/
structure SseClientOptions where
  reconnect : Bool := true
  initialRetry : ℤ := 3000
  maxRetry : ℤ := 30000
  lastEventId : Bytes := []

/-- What the callbacks of a request share.  They may be called for several heads, when the request
is redirected; only a head that opens the stream lets data through to the parser. -/
structure Receiving where
  parser : SseParser
  parserError : Option ErrorInfo := none
  headError : Option ErrorInfo := none
  streamHeadValid : Bool := false

/-- A response that the client follows elsewhere. -/
def isRedirect (head : ResponseHead) : Bool :=
  (head.status == 301 || head.status == 302 || head.status == 303 || head.status == 307 ||
    head.status == 308) && head.headers.contains (bytes "Location")

/-- The media type, without parameters. -/
def mediaType (head : ResponseHead) : Bytes :=
  trim ((lower ((findHeader head.headers (bytes "Content-Type")).getD [])).takeWhile (· != semicolon))

/-- The head of an event stream. -/
def opensStream (head : ResponseHead) : Bool :=
  !isRedirect head && (head.status == 200 && mediaType head == bytes "text/event-stream")

/-- `on_response_head`: redirects pass, and other responses must be a 200 with the media type of
event streams. -/
def onResponseHead (openHandler : ResponseHead → Option Thrown) (head : ResponseHead)
    (r : Receiving) : Bool × Receiving :=
  if isRedirect head then (true, r)
  else if head.status != 200 then
    (false, { r with
      headError := some
        { code := .protocol, message := "SSE endpoint returned HTTP " ++ toString head.status } })
  else if mediaType head != bytes "text/event-stream" then
    (false, { r with
      headError := some
        { code := .protocol, message := "SSE endpoint has an invalid Content-Type" } })
  else
    match openHandler head with
    | some thrown =>
      (false, { r with
        streamHeadValid := true
        headError := some (callbackFailed "SSE open callback failed" thrown) })
    | none => (true, { r with streamHeadValid := true })

/-- `on_data`; `running` is the value that it reads.  Data of a response that did not open the
stream is ignored. -/
def onData (data : Bytes) (running : Bool) (r : Receiving) : Bool × Receiving :=
  if !r.streamHeadValid then (true, r)
  else
    let parser := r.parser.feed data
    (parser.failed.isNone && running, { r with parser, parserError := parser.failed })

/-- The callbacks of a request.  Each may refuse, and the request then ends with the error that the
callback has noted. -/
inductive Callback where
  | head (head : ResponseHead)
  | data (data : Bytes) (running : Bool)

/-- One callback. -/
def Callback.call (openHandler : ResponseHead → Option Thrown) :
    Callback → Receiving → Bool × Receiving
  | .head responseHead, r => onResponseHead openHandler responseHead r
  | .data received running, r => onData received running r

/-- The callbacks of a request, which ends when one of them refuses. -/
def receive (openHandler : ResponseHead → Option Thrown) : List Callback → Receiving → Receiving
  | [], r => r
  | callback :: callbacks, r =>
    match callback.call openHandler r with
    | (true, r) => receive openHandler callbacks r
    | (false, r) => r

/-- What one iteration of the loop meets.  `running` is read when the request has ended, after the
parser was finished, at every turn of the wait, and by the loop itself. -/
structure Attempt where
  callbacks : List Callback := []
  result : Option ErrorInfo := none
  handlers : List SseEvent → Option Thrown := fun _ => none
  openHandler : ResponseHead → Option Thrown := fun _ => none
  runningAtEnd : Bool := true
  runningAfter : Bool := true
  runningWaiting : ℕ → Bool := fun _ => true
  runningNext : Bool := true

/-- The members of `SseClient::Impl`, where `headers` are those of its request, with what its parsers
have dispatched, the errors that it has reported, the retry times that its parsers had, and how long
it has slept: a list for each wait. -/
structure SseClient where
  options : SseClientOptions := {}
  headers : Headers := []
  retryDelay : ℤ := options.initialRetry
  lastId : Bytes := options.lastEventId
  received : List SseEvent := []
  reported : List ErrorInfo := []
  given : List (Option ℤ) := []
  slept : List (List ℤ) := []

/-- The wait, in intervals of at most 25 ms; `turn` counts the tests of `running`. -/
def intervals (running : ℕ → Bool) (turn : ℕ) (remaining : ℤ) : List ℤ :=
  if running turn = true ∧ 0 < remaining then
    min remaining 25 :: intervals running (turn + 1) (remaining - min remaining 25)
  else []
termination_by remaining.toNat
decreasing_by omega

/-- A duration times two, in 64 bits. -/
def doubled (delay : ℤ) : ℤ := Int.bmod (delay * 2) (2 ^ 64)

/-- The headers of the next request. -/
def SseClient.requestHeaders (c : SseClient) : Headers :=
  let headers := (c.headers.set (bytes "Accept") (bytes "text/event-stream")).set
    (bytes "Cache-Control") (bytes "no-cache")
  if c.lastId.isEmpty then headers else headers.set (bytes "Last-Event-ID") c.lastId

/-- The options of the parser of the next request. -/
def SseClient.parserOptions (c : SseClient) : SseParserOptions :=
  { maxLineSize := 1024 * 1024, maxEventSize := 8 * 1024 * 1024, lastEventId := c.lastId }

/-- What the callbacks of a request leave. -/
def SseClient.receiving (c : SseClient) (a : Attempt) : Receiving :=
  receive a.openHandler a.callbacks { parser := .create c.parserOptions a.handlers }

/-- The parser is finished, unless it has failed or the client was stopped. -/
def finishReceiving (running : Bool) (r : Receiving) : Receiving :=
  if r.parserError.isNone && running then
    { r with parser := r.parser.finish, parserError := r.parser.finish.failed }
  else r

/-- The error that ends an attempt. -/
def attemptError (r : Receiving) (result : Option ErrorInfo) : ErrorInfo :=
  match r.headError, r.parserError, result with
  | some e, _, _ => e
  | none, some e, _ => e
  | none, none, some e => e
  | none, none, none =>
    if !r.streamHeadValid then
      { code := .protocol, message := "SSE endpoint did not open an event stream" }
    else { code := .read, message := "SSE connection ended" }

/-- One iteration of the loop of `connect`.  It makes a request, takes over what the parser has
found, and decides whether and when there is another one. -/
def SseClient.attempt (c : SseClient) (a : Attempt) :
    Loop.Next SseClient (Option ErrorInfo × SseClient) :=
  let r := finishReceiving a.runningAtEnd (c.receiving a)
  let c :=
    { c with
      lastId := r.parser.lastId
      retryDelay :=
        match r.parser.retryDelay with
        | some retry => min retry c.options.maxRetry
        | none => c.retryDelay
      received := c.received ++ r.parser.dispatched
      given := c.given ++ [r.parser.retryDelay] }
  if !a.runningAfter then .leave (none, c)
  else
    let error := attemptError r a.result
    let c := { c with reported := c.reported ++ [error] }
    if !c.options.reconnect then .leave (some error, c)
    else
      let c :=
        { c with
          slept := c.slept ++ [intervals a.runningWaiting 0 c.retryDelay]
          retryDelay := min (doubled c.retryDelay) c.options.maxRetry }
      if a.runningNext then .again c else .leave (none, c)

/-- The loop of `connect`, up to the attempts that are given.  What an attempt receives, and whether
the client runs then, are given. -/
def SseClient.attempts (c : SseClient) : List Attempt → SseClient
  | [] => c
  | a :: rest =>
    match c.attempt a with
    | .again c => c.attempts rest
    | .leave (_, c) => c

/-! ### What the parser of an attempt has seen -/

/-- The bytes that arrive once a response has opened an event stream, which `opened` says of the
responses before. -/
def heardFrom : (opened : Bool) → List Callback → Bytes
  | _, [] => []
  | opened, .head head :: callbacks => heardFrom (opened || opensStream head) callbacks
  | opened, .data data _ :: callbacks => (if opened then data else []) ++ heardFrom opened callbacks

/-- The bytes of the event stream of an attempt. -/
def Attempt.heard (a : Attempt) : Bytes := heardFrom false a.callbacks

/-- A response head opens the stream, or leaves things as they are. -/
lemma onResponseHead_feeds (openHandler : ResponseHead → Option Thrown) (head : ResponseHead)
    (r : Receiving) : (onResponseHead openHandler head r).2.parser = r.parser ∧
      ((onResponseHead openHandler head r).1 = true →
        (onResponseHead openHandler head r).2.streamHeadValid =
          (r.streamHeadValid || opensStream head)) := by
  unfold onResponseHead opensStream
  cases hredirect : isRedirect head with
  | true => exact ⟨rfl, fun _ => (Bool.or_false _).symm⟩
  | false =>
    rw [if_neg Bool.false_ne_true]
    by_cases hstatus : head.status = 200
    · by_cases htype : mediaType head = bytes "text/event-stream"
      · rw [hstatus, htype, bne_self_eq_false, bne_self_eq_false, if_neg Bool.false_ne_true,
          if_neg Bool.false_ne_true]
        cases openHandler head with
        | none => exact ⟨rfl, fun _ => (Bool.or_true _).symm⟩
        | some thrown => exact ⟨rfl, fun h => by cases h⟩
      · rw [hstatus, bne_self_eq_false, if_neg Bool.false_ne_true, if_pos (by simpa using htype)]
        exact ⟨rfl, fun h => by cases h⟩
    · rw [if_pos (by simpa using hstatus)]
      exact ⟨rfl, fun h => by cases h⟩

/-- The parser is fed with the beginning of the event stream; with all of it, unless a callback
refuses. -/
lemma receive_feeds (openHandler : ResponseHead → Option Thrown) (callbacks : List Callback)
    (r : Receiving) : ∃ chunks : List Bytes, (receive openHandler callbacks r).parser =
      chunks.foldl SseParser.feed r.parser ∧
        chunks.flatten <+: heardFrom r.streamHeadValid callbacks := by
  induction callbacks generalizing r with
  | nil => exact ⟨[], rfl, List.prefix_refl []⟩
  | cons callback callbacks ih =>
    rw [receive]
    cases callback with
    | head head =>
      obtain ⟨hparser, hvalid⟩ := onResponseHead_feeds openHandler head r
      rw [Callback.call, heardFrom]
      rcases hcall : onResponseHead openHandler head r with ⟨_ | _, next⟩
      · rw [hcall] at hparser
        exact ⟨[], hparser, List.nil_prefix⟩
      · rw [hcall] at hparser hvalid
        obtain ⟨chunks, hchunks, hheard⟩ := ih next
        rw [hvalid rfl] at hheard
        exact ⟨chunks, hparser ▸ hchunks, hheard⟩
    | data data running =>
      rw [Callback.call, heardFrom, onData]
      cases hvalid : r.streamHeadValid with
      | false =>
        obtain ⟨chunks, hchunks, hheard⟩ := ih r
        rw [hvalid] at hheard
        exact ⟨chunks, hchunks, hheard⟩
      | true =>
        rw [Bool.not_true, if_neg Bool.false_ne_true, if_pos rfl]
        dsimp only
        cases hgoes : (r.parser.feed data).failed.isNone && running with
        | false =>
          refine ⟨[data], rfl, ?_⟩
          rw [List.flatten_singleton]
          exact List.prefix_append _ _
        | true =>
          obtain ⟨chunks, hchunks, hheard⟩ := ih
            { r with
              parser := r.parser.feed data
              parserError := (r.parser.feed data).failed
              streamHeadValid := true }
          exact ⟨data :: chunks, hchunks, (List.prefix_append_right_inj data).mpr hheard⟩

/-- Finishing a parser keeps what it has dispatched, its id and its retry time. -/
lemma finishReceiving_kept (running : Bool) (r : Receiving) :
    (finishReceiving running r).parser.dispatched = r.parser.dispatched ∧
      (finishReceiving running r).parser.lastId = r.parser.lastId ∧
      (finishReceiving running r).parser.retryDelay = r.parser.retryDelay := by
  unfold finishReceiving SseParser.finish
  split_ifs <;> exact ⟨rfl, rfl, rfl⟩

/-- The parser of an attempt. -/
def SseClient.parserOf (c : SseClient) (a : Attempt) : SseParser := (c.receiving a).parser

/-- It has made the steps of the first bytes of the event stream. -/
lemma SseClient.parserOf_same (c : SseClient) (a : Attempt) : ∃ fed, fed <+: a.heard ∧
    (c.parserOf a).Same (fed.foldl SseParser.step (.create c.parserOptions a.handlers)) := by
  obtain ⟨chunks, hchunks, hheard⟩ := receive_feeds a.openHandler a.callbacks
    { parser := .create c.parserOptions a.handlers }
  refine ⟨chunks.flatten, hheard, ?_⟩
  rw [SseClient.parserOf, SseClient.receiving, hchunks]
  exact SseParser.foldl_feed_same (SseParser.bounded_create _ _) chunks

/-! ### Waiting -/

/-- Every interval is positive and at most 25 ms, and the intervals do not exceed the delay. -/
lemma intervals_le (running : ℕ → Bool) (turn : ℕ) (remaining : ℤ) :
    (∀ t ∈ intervals running turn remaining, 0 < t ∧ t ≤ 25) ∧
      (intervals running turn remaining).sum ≤ max remaining 0 := by
  fun_induction intervals running turn remaining with
  | case1 turn remaining h ih =>
    constructor
    · intro t ht
      rcases List.mem_cons.mp ht with rfl | ht
      · omega
      · exact ih.1 t ht
    · rw [List.sum_cons]
      have := ih.2
      omega
  | case2 turn remaining h =>
    refine ⟨fun t ht => absurd ht List.not_mem_nil, ?_⟩
    rw [List.sum_nil]
    exact le_max_right _ _

/-- They make up the delay, unless the client is stopped. -/
lemma sum_intervals {running : ℕ → Bool} (h : ∀ turn, running turn = true) (turn : ℕ) (remaining : ℤ) :
    (intervals running turn remaining).sum = max remaining 0 := by
  fun_induction intervals running turn remaining with
  | case1 turn remaining hrunning ih =>
    rw [List.sum_cons, ih]
    omega
  | case2 turn remaining hstopped =>
    have : ¬ 0 < remaining := fun hpos => hstopped ⟨h turn, hpos⟩
    rw [List.sum_nil]
    omega

/-! ### Backing off -/

/-- The delay that follows attempts whose parsers had the given retry times: the last one that was
given, or the initial one, doubled for each attempt since then. -/
def backoffDelay (options : SseClientOptions) (given : List (Option ℤ)) : ℤ :=
  let quiet := (given.rtakeWhile Option.isNone).length
  match (given.rdropWhile Option.isNone).getLast? with
  | some (some retry) => min (retry * 2 ^ quiet) options.maxRetry
  | _ =>
    if quiet ≤ 1 then options.initialRetry
    else min (options.initialRetry * 2 ^ (quiet - 1)) options.maxRetry

/-- The delay with which the next attempt begins. -/
def nextDelay (options : SseClientOptions) (given : List (Option ℤ)) : ℤ :=
  if given = [] then options.initialRetry
  else min (backoffDelay options given * 2) options.maxRetry

/-- Delays that the client can be configured with.  This excludes negative ones, and those of 2 ^ 62
milliseconds and more, which may overflow when they are doubled. -/
structure SseClientOptions.Sensible (options : SseClientOptions) : Prop where
  initial : 0 ≤ options.initialRetry ∧ options.initialRetry < 2 ^ 62
  max : 0 ≤ options.maxRetry ∧ options.maxRetry < 2 ^ 62

section Backoff

variable {options : SseClientOptions}

/-- A retry time that was given is waited for. -/
lemma backoffDelay_some (given : List (Option ℤ)) (retry : ℤ) :
    backoffDelay options (given ++ [some retry]) = min retry options.maxRetry := by
  rw [backoffDelay, List.rdropWhile_concat_neg _ _ _ (by simp),
    List.rtakeWhile_concat_neg _ _ _ (by simp), List.getLast?_concat]
  dsimp only
  rw [List.length_nil, pow_zero, mul_one]

/-- Without one the delay is doubled. -/
lemma backoffDelay_none (hmax : 0 ≤ options.maxRetry) (given : List (Option ℤ)) :
    backoffDelay options (given ++ [none]) = nextDelay options given := by
  have hcap : ∀ delay : ℤ, min (min delay options.maxRetry * 2) options.maxRetry =
      min (delay * 2) options.maxRetry := by
    intro delay
    omega
  rw [nextDelay, backoffDelay, backoffDelay, List.rdropWhile_concat_pos _ _ _ rfl,
    List.rtakeWhile_concat_pos _ _ _ rfl, List.length_append, List.length_singleton]
  by_cases hall : given.rdropWhile Option.isNone = []
  · -- no retry time was ever given
    have hself : given.rtakeWhile Option.isNone = given :=
      List.rtakeWhile_eq_self_iff.mpr (List.rdropWhile_eq_nil_iff.mp hall)
    rw [hall, hself, List.getLast?_nil]
    dsimp only
    rcases given with _ | ⟨first, _ | ⟨second, rest⟩⟩
    · rfl
    · rw [if_neg (by simp), if_neg (by simp), if_pos (by simp)]
      simp
    · rw [if_neg (by simp), if_neg (by simp), if_neg (by simp), hcap, mul_assoc, ← pow_succ]
      rfl
  · have hgiven : given ≠ [] := by
      rintro rfl
      exact hall (List.rdropWhile_nil _)
    rw [if_neg hgiven, List.getLast?_eq_getLast_of_ne_nil hall]
    have hlast := List.rdropWhile_last_not Option.isNone given hall
    cases hretry : (given.rdropWhile Option.isNone).getLast hall with
    | none =>
      rw [hretry] at hlast
      exact absurd rfl hlast
    | some retry =>
      dsimp only
      rw [hcap, mul_assoc, ← pow_succ]

/-- Retry times that are read are not negative. -/
lemma retryDelay_processLine {s : SseParser} (h : ∀ r ∈ s.retryDelay, 0 ≤ r) (line : Bytes) :
    ∀ r ∈ (s.processLine line).2.retryDelay, 0 ≤ r := by
  unfold SseParser.processLine SseParser.dispatch SseParser.processField
  dsimp only
  split_ifs
  all_goals try exact h
  cases hretry : SseParser.parseRetry _ with
  | none => exact h
  | some delay =>
    rintro r ⟨rfl⟩
    unfold SseParser.parseRetry at hretry
    split at hretry
    · cases hretry
    · split_ifs at hretry
      cases hretry
      exact Int.natCast_nonneg _

/-- So they are after any bytes. -/
lemma retryDelay_foldl_step {s : SseParser} (h : ∀ r ∈ s.retryDelay, 0 ≤ r) (fed : Bytes) :
    ∀ r ∈ (fed.foldl SseParser.step s).retryDelay, 0 ≤ r := by
  induction fed generalizing s with
  | nil => exact h
  | cons c fed ih =>
    refine ih ?_
    unfold SseParser.step SseParser.accept
    dsimp only
    split_ifs
    all_goals try exact h
    have hline := @retryDelay_processLine { s with skipLf := false } h s.line
    split
    · rename_i hprocess
      rwa [hprocess] at hline
    · rename_i hprocess
      rwa [hprocess] at hline

/-- The retry time of an attempt is not negative. -/
lemma retryDelay_parserOf (c : SseClient) (a : Attempt) : ∀ r ∈ (c.parserOf a).retryDelay, 0 ≤ r := by
  obtain ⟨fed, -, hsame⟩ := c.parserOf_same a
  have hretry : (c.parserOf a).retryDelay = _ :=
    congrArg SseParser.Observation.retryDelay hsame.observe
  rw [hretry]
  exact retryDelay_foldl_step (fun r hr => by cases hr) fed

/-- A client whose next delay is the one that its attempts call for.  The delays are sensible, so
that doubling them is exact; this is the invariant of the runs of attempts. -/
structure SseClient.Paced (c : SseClient) : Prop where
  sensible : c.options.Sensible
  delay : c.retryDelay = nextDelay c.options c.given
  range : 0 ≤ c.retryDelay ∧ c.retryDelay < 2 ^ 62

/-- What an attempt leaves of the waits: its wait has the delay that the attempts call for. -/
lemma SseClient.Paced.attempt {c : SseClient} (h : c.Paced) (a : Attempt) :
    let given := c.given ++ [(c.parserOf a).retryDelay]
    let wait := intervals a.runningWaiting 0 (backoffDelay c.options given)
    0 ≤ backoffDelay c.options given ∧
    (∀ c', c.attempt a = .again c' → c'.Paced ∧ c'.options = c.options ∧ c'.given = given ∧
      c'.slept = c.slept ++ [wait]) ∧
    ∀ e c', c.attempt a = .leave (e, c') → c'.given = given ∧
      (c'.slept = c.slept ∨ c'.slept = c.slept ++ [wait]) := by
  intro given wait
  obtain ⟨hsensible, hdelay, hrange⟩ := h
  obtain ⟨hinitial, hmax⟩ := hsensible
  have hkept := (finishReceiving_kept a.runningAtEnd (c.receiving a)).2.2
  have hretry : (match (c.parserOf a).retryDelay with
      | some retry => min retry c.options.maxRetry
      | none => c.retryDelay) = backoffDelay c.options given := by
    show _ = backoffDelay c.options (c.given ++ [(c.parserOf a).retryDelay])
    cases (c.parserOf a).retryDelay with
    | none => rw [backoffDelay_none hmax.1, hdelay]
    | some retry => rw [backoffDelay_some]
  have hnonneg := retryDelay_parserOf c a
  have hdelayRange : 0 ≤ backoffDelay c.options given ∧ backoffDelay c.options given < 2 ^ 62 := by
    rw [← hretry]
    cases hgiven : (c.parserOf a).retryDelay with
    | none => exact hrange
    | some retry =>
      exact ⟨le_min (hnonneg retry hgiven) hmax.1, (min_le_right _ _).trans_lt hmax.2⟩
  -- the delay is below 2^62, so doubling it is exact in 64 bits
  have hdoubled : doubled (backoffDelay c.options given) = backoffDelay c.options given * 2 := by
    unfold doubled
    exact Int.bmod_eq_of_le (by omega) (by omega)
  refine ⟨hdelayRange.1, ?_⟩
  unfold SseClient.attempt
  dsimp only
  rw [hkept, show (c.receiving a).parser = c.parserOf a from rfl, hretry]
  have hnext : min (doubled (backoffDelay c.options given)) c.options.maxRetry =
      nextDelay c.options given := by
    rw [hdoubled, nextDelay, if_neg (by simp [given])]
  split_ifs
  · refine ⟨fun c' hc' => (by cases hc'), fun e c' hc' => ?_⟩
    cases hc'
    exact ⟨rfl, .inl rfl⟩
  · refine ⟨fun c' hc' => (by cases hc'), fun e c' hc' => ?_⟩
    cases hc'
    exact ⟨rfl, .inl rfl⟩
  · refine ⟨fun c' hc' => ?_, fun e c' hc' => by cases hc'⟩
    cases hc'
    refine ⟨⟨⟨hinitial, hmax⟩, hnext, ?_⟩, rfl, rfl, rfl⟩
    rw [hdoubled]
    dsimp only
    omega
  · refine ⟨fun c' hc' => (by cases hc'), fun e c' hc' => ?_⟩
    cases hc'
    exact ⟨rfl, .inr rfl⟩

/-- The waits of a run, after what the client has behind it. -/
lemma SseClient.Paced.attempts {c : SseClient} (h : c.Paced) (attempts : List Attempt) :
    ∃ slept given, (c.attempts attempts).slept = c.slept ++ slept ∧
      (c.attempts attempts).given = c.given ++ given ∧
      ∀ i wait, slept[i]? = some wait → ∃ a delay, attempts[i]? = some a ∧ 0 ≤ delay ∧
        delay = backoffDelay c.options (c.given ++ given.take (i + 1)) ∧ i < given.length ∧
        wait = intervals a.runningWaiting 0 delay := by
  induction attempts generalizing c with
  | nil => exact ⟨[], [], (List.append_nil _).symm, (List.append_nil _).symm, fun i wait hi => by simp at hi⟩
  | cons a rest ih =>
    obtain ⟨hnonneg, hagain, hleave⟩ := h.attempt a
    rw [SseClient.attempts]
    cases hstep : c.attempt a with
    | leave r =>
      obtain ⟨e, c'⟩ := r
      obtain ⟨hgiven, hslept⟩ := hleave e c' hstep
      dsimp only
      rcases hslept with hslept | hslept
      · exact ⟨[], _, hslept.trans (List.append_nil _).symm, hgiven, fun i wait hi => by simp at hi⟩
      · refine ⟨_, _, hslept, hgiven, fun i wait hi => ?_⟩
        cases i with
        | zero =>
          cases hi
          exact ⟨a, _, rfl, hnonneg, rfl, Nat.zero_lt_one, rfl⟩
        | succ i => simp at hi
    | again c' =>
      obtain ⟨hpaced, hoptions, hgiven, hslept⟩ := hagain c' hstep
      obtain ⟨slept, given, hsleptRest, hgivenRest, hrest⟩ := ih hpaced
      rw [hslept, List.append_assoc] at hsleptRest
      rw [hgiven, List.append_assoc] at hgivenRest
      refine ⟨_, _, hsleptRest, hgivenRest, fun i wait hi => ?_⟩
      cases i with
      | zero =>
        cases hi
        exact ⟨a, _, rfl, hnonneg, rfl, by simp, rfl⟩
      | succ i =>
        obtain ⟨a', delay, ha', hpos, hdelay, hlength, hwait⟩ := hrest i wait hi
        rw [hgiven, List.append_assoc, hoptions] at hdelay
        refine ⟨a', delay, ha', hpos, hdelay, ?_, hwait⟩
        rw [List.singleton_append, List.length_cons]
        omega

/-- After the first wait no delay exceeds the largest one. -/
lemma backoffDelay_le {given : List (Option ℤ)} (h : 1 < given.length) :
    backoffDelay options given ≤ options.maxRetry := by
  unfold backoffDelay
  dsimp only
  split
  · exact min_le_right _ _
  · rename_i hnone
    have hall : given.rdropWhile Option.isNone = [] := by
      by_contra hsome
      have hlast := List.rdropWhile_last_not Option.isNone given hsome
      cases hretry : (given.rdropWhile Option.isNone).getLast hsome with
      | none => exact hlast (by rw [hretry]; rfl)
      | some retry =>
        refine hnone retry ?_
        rw [List.getLast?_eq_getLast_of_ne_nil hsome, hretry]
    have hself : given.rtakeWhile Option.isNone = given :=
      List.rtakeWhile_eq_self_iff.mpr (List.rdropWhile_eq_nil_iff.mp hall)
    rw [hself, if_neg (by omega)]
    exact min_le_right _ _

/-- In every run of `connect`, each wait consists of intervals of at most 25 ms.  It ends early if the
client is stopped, and else it makes up the delay that the attempts so far call for; after the first
one it is never longer than the largest delay. -/
theorem backoff (c : SseClient) (hsensible : c.options.Sensible) (hstart : c.given = [] ∧ c.slept = [])
    (hdelay : c.retryDelay = c.options.initialRetry) (attempts : List Attempt) (i : ℕ)
    (wait : List ℤ) (hwait : (c.attempts attempts).slept[i]? = some wait) :
    let delay := backoffDelay c.options ((c.attempts attempts).given.take (i + 1))
    (∀ t ∈ wait, 0 < t ∧ t ≤ 25) ∧ wait.sum ≤ delay ∧
      (∀ a, attempts[i]? = some a → (∀ turn, a.runningWaiting turn = true) → wait.sum = delay) ∧
      (0 < i → wait.sum ≤ c.options.maxRetry) := by
  have hpaced : c.Paced := by
    refine ⟨hsensible, ?_, ?_⟩
    · rw [hdelay, nextDelay, if_pos hstart.1]
    · rw [hdelay]
      exact hsensible.initial
  obtain ⟨slept, given, hslept, hgiven, hall⟩ := hpaced.attempts attempts
  rw [hstart.2, List.nil_append] at hslept
  rw [hstart.1, List.nil_append] at hgiven
  rw [hslept] at hwait
  obtain ⟨a, delay, ha, hnonneg, hvalue, hlength, rfl⟩ := hall i wait hwait
  rw [hstart.1, List.nil_append] at hvalue
  rw [hgiven, ← hvalue]
  obtain ⟨hbounds, hsum⟩ := intervals_le a.runningWaiting 0 delay
  rw [max_eq_left hnonneg] at hsum
  refine ⟨hbounds, hsum, fun a' ha' hrunning => ?_, fun hpos => hsum.trans ?_⟩
  · rw [ha] at ha'
    cases ha'
    rw [sum_intervals hrunning, max_eq_left hnonneg]
  · rw [hvalue]
    refine backoffDelay_le ?_
    rw [List.length_take]
    omega

/-- A retry time of 10 ms that the server gives, then an attempt that fails. -/
def retryAttempts : List Attempt :=
  [{ callbacks := [
      .head {
        status := 200
        headers := [(bytes "content-type", bytes "Text/Event-Stream; charset=utf-8")] },
      .data (bytes "retry: 1") true, .data (bytes "0\n") true] },
    { result := some { code := .connect, message := "refused" } }]

/-- The second wait takes twice as long. -/
theorem backoff_of_retry :
    (SseClient.attempts {} retryAttempts).slept[1]? = some [20] ∧
      backoffDelay {} ((SseClient.attempts {} retryAttempts).given.take 2) = 20 :=
  ⟨by decide +kernel, ((backoff {} ⟨by decide, by decide⟩ ⟨rfl, rfl⟩ rfl retryAttempts 1 [20]
    (by decide +kernel)).2.2.1 _ rfl fun _ => rfl).symm⟩

end Backoff

end Chhttp.Sse
