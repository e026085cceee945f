import Chhttp.Server.Session

/-!
# Request boundaries

Whatever the application does, a session parses every request head where the framing of the request
before it ends (`heads_at_boundaries`).  The step is `framed_of_nextRequest`: an iteration that goes
on has consumed one request, head and body, exactly.
-/

namespace Chhttp

open Fragment

/-- The bytes of a request: the lines of its head, and the word that frames its body.  Whatever the
bytes of the word are, the head decides where it ends. -/
structure WireRequest where
  startLine : Bytes
  lines : List Bytes
  body : Bytes

/-- The request on the wire. -/
def WireRequest.encode (m : WireRequest) : Bytes :=
  headBytes m.startLine m.lines ++ (crlf ++ m.body)

/-- The head of `m` is what the session parses next, and the body of `m` is framed as this head
says. -/
def ParsesAs (options : ServerOptions) (s : Session) (m : WireRequest) : Prop :=
  ∃ result after fields routing path trailers payload,
    readRequestHead options.maxHeaderSize false s.input = (.ok result, after) ∧
    RequestHeadRead options.maxHeaderSize false s.input result after m.startLine m.lines fields
      routing path ∧
    BodyFrame options.maxHeaderSize result.body.head m.body trailers payload

/-- Dispatching to a stream route accounts for the body, whether the handler runs or not. -/
lemma accounted_dispatchStream {maxHeaderSize : ℕ} {head : ParsedHead} {start : Input}
    (app : Application) (decoder : Decoder) (handler : StreamHandler) {c : StreamCall}
    (haccounted : Accounted maxHeaderSize head start c.source)
    (hpending : c.source.consumed = false → Pending maxHeaderSize head start c.source) :
    Accounted maxHeaderSize head start (app.dispatchStream decoder handler c).2 := by
  unfold Application.dispatchStream
  dsimp only
  split_ifs
  · exact haccounted
  · exact handler.run_accounted (c := { c with request := _, response := _ }) haccounted hpending

/-- A stream route that answers with its source complete has consumed the body. -/
lemma framed_of_answerStream {options : ServerOptions} {turn : Turn} {route : StreamRoute}
    {parsed : RequestHeadResult} {input : Input} {s : Session} {request : Request}
    {response : Response} {after : Input} {output : Output}
    (h : answerStream options turn route parsed input s =
      .respond request response true after output) :
    ∃ word fields payload,
      BodyFrame options.maxHeaderSize parsed.body.head word fields payload ∧
        input.available = word ++ after.available := by
  unfold answerStream at h
  dsimp only at h
  have haccounted := accounted_dispatchStream turn.application options.decoder route.handler
    (c := { source := RequestBodySource.create parsed.body (streamOptions options turn route) input
              s.output
            request := { parsed.request with headers := parsed.body.headers }
            response := { version := parsed.request.version
                          keepAlive := parsed.request.keepAlive } })
    (accounted_create parsed.body (streamOptions options turn route) input s.output)
    (fun _ => ⟨rfl, rfl, rfl⟩)
  split at h
  · cases h
  · split at h
    · cases h
    · rename_i request' response' source hdispatch
      rw [hdispatch] at haccounted
      split at h
      · cases h
      · simp only [Answer.respond.injEq] at h
        obtain ⟨-, -, hcomplete, rfl, -⟩ := h
        exact haccounted hcomplete

/-- A request outside stream routes is answered when its body has been consumed. -/
lemma framed_of_answerBuffered {options : ServerOptions} {turn : Turn}
    {parsed : RequestHeadResult} {input : Input} {s : Session} {request : Request}
    {response : Response} {complete : Bool} {after : Input} {output : Output}
    (h : answerBuffered options turn parsed input s =
      .respond request response complete after output) :
    ∃ word fields payload,
      BodyFrame options.maxHeaderSize parsed.body.head word fields payload ∧
        input.available = word ++ after.available := by
  unfold answerBuffered at h
  dsimp only at h
  cases hr : (readBufferedBody options parsed.body input s.output).result with
  | error e =>
    rw [hr] at h
    cases h
  | ok body =>
    have hafter : after = (readBufferedBody options parsed.body input s.output).input := by
      rw [hr] at h
      simp only at h
      split at h
      · split at h <;> cases h
      · split at h
        · cases h
        · split at h
          · cases h
          · simp only [Answer.respond.injEq] at h
            exact h.2.2.2.1.symm
    rw [hafter]
    unfold readBufferedBody at hr ⊢
    by_cases hbody : hasBody parsed.body = true
    · rw [if_pos hbody] at hr ⊢
      obtain ⟨word, fields, payload, hframe, htook⟩ := bodyFrame_of_readRequestBody hr
      exact ⟨word, fields, payload, hframe, htook.available⟩
    · rw [if_neg hbody]
      simp only [hasBody, Bool.or_eq_true, not_or, Bool.not_eq_true, bne_eq_false_iff_eq] at hbody
      exact ⟨[], [], [], bodyFrame_empty hbody.1.1 hbody.1.2, rfl⟩

/-- An answer after which the connection may be reused has consumed one request exactly. -/
lemma framed_of_answer {options : ServerOptions} {turn : Turn} {s : Session} {request : Request}
    {response : Response} {after : Input} {output : Output}
    (h : answer options turn s = .respond request response true after output) :
    ∃ m, ParsesAs options s m ∧ s.input.available = m.encode ++ after.available := by
  unfold answer at h
  split_ifs at h
  split at h
  · unfold rejectHead at h
    split at h <;> cases h
  · rename_i parsed input hhead
    obtain ⟨start, lines, fields, routing, path, hread⟩ := requestHeadRead_of_ok hhead
    have hbody : ∃ word trailers payload,
        BodyFrame options.maxHeaderSize parsed.body.head word trailers payload ∧
          input.available = word ++ after.available := by
      split at h
      · exact framed_of_answerStream h
      · exact framed_of_answerBuffered h
    obtain ⟨word, trailers, payload, hframe, havail⟩ := hbody
    refine ⟨⟨start, lines, word⟩,
      ⟨parsed, input, fields, routing, path, trailers, payload, hhead, hread, hframe⟩, ?_⟩
    rw [hread.available, havail]
    simp [WireRequest.encode]

/-- The iterations that go on: the request was answered with its body consumed, and the response
was sent without an error. -/
lemma answer_of_nextRequest {options : ServerOptions} {turn : Turn} {s s' : Session}
    (h : nextRequest options s turn = some s') :
    ∃ request response output, answer options turn s =
        .respond request response true s'.input output ∧
      sendResponse options turn.openFile request response output = (none, s'.output) ∧
      response.keepAlive = true ∧ request.keepAlive = true := by
  unfold nextRequest serve at h
  split at h
  · rename_i s1 hserved
    cases h
    split at hserved
    · cases hserved
    · cases hserved
    · rename_i request response complete input output hanswer
      split at hserved
      · cases hserved
      · rename_i output' hsend
        dsimp only at hserved
        split_ifs at hserved with hreuse
        cases hserved
        rw [Bool.and_eq_true, Bool.and_eq_true] at hreuse
        obtain ⟨⟨hresponse, hrequest⟩, hcomplete⟩ := hreuse
        exact ⟨request, response, output, hcomplete ▸ hanswer, hsend, hresponse, hrequest⟩
  · cases h

/-- A session that goes on with its next request has consumed one request exactly.  This is the step
lemma of the run theorem: heads stay at boundaries because each iteration keeps them there, streamed
and buffered routes alike. -/
theorem framed_of_nextRequest {options : ServerOptions} {turn : Turn} {s s' : Session}
    (h : nextRequest options s turn = some s') :
    ∃ m, ParsesAs options s m ∧ s.input.available = m.encode ++ s'.input.available := by
  obtain ⟨request, response, output, hanswer, -, -, -⟩ := answer_of_nextRequest h
  exact framed_of_answer hanswer

/-- Request boundaries.  In every run of a session, whatever the client sends and however it is cut,
and whatever the application does, the bytes before the current position are a sequence of requests,
one for each iteration: the head that this iteration parsed, and the body that it frames.  The next
head is parsed from exactly this position on. -/
theorem heads_at_boundaries (options : ServerOptions) (s t : Session)
    (trace : List (Session × Turn)) (h : Transition.Run (nextRequest options) s trace t) :
    ∃ messages : List WireRequest,
      List.Forall₂ (fun v m => ParsesAs options v.1 m) trace messages ∧
      s.input.available = messages.flatMap WireRequest.encode ++ t.input.available ∧
      ∀ result after, readRequestHead options.maxHeaderSize false t.input = (.ok result, after) →
        ∃ start lines, s.input.available = messages.flatMap WireRequest.encode ++
          (headBytes start lines ++ (crlf ++ after.available)) := by
  have hmessages : ∃ messages : List WireRequest,
      List.Forall₂ (fun v m => ParsesAs options v.1 m) trace messages ∧
      s.input.available = messages.flatMap WireRequest.encode ++ t.input.available := by
    induction h with
    | start => exact ⟨[], .nil, rfl⟩
    | @step trace t u turn _ hnext ih =>
      obtain ⟨messages, hall, havail⟩ := ih
      obtain ⟨m, hparses, hframed⟩ := framed_of_nextRequest hnext
      refine ⟨messages ++ [m], List.rel_append hall (.cons hparses .nil), ?_⟩
      rw [havail, hframed]
      simp
  obtain ⟨messages, hall, havail⟩ := hmessages
  refine ⟨messages, hall, havail, ?_⟩
  intro result after hhead
  obtain ⟨start, lines, fields, routing, path, hread⟩ := requestHeadRead_of_ok hhead
  exact ⟨start, lines, by rw [havail, hread.available]⟩

/-- A server that greets on every path. -/
def greeter : Application where
  findRoute _ := some fun request response =>
    { request, response := { response with body := bytes "hi" }, handled := true }
  errorHandler request response := { request, response }
  exceptionHandler request response := { request, response }

/-- Two requests that arrive together. -/
def pipelined : Session where
  input := ⟨bytes "GET / HTTP/1.1\r\nHost: a\r\n\r\nGET / HTTP/1.1\r\nHost: a\r\n\r\n", []⟩

/-- A server with an upload path whose handler does not read the body. -/
def careless : Application :=
  { greeter with
    findStreamRoute := fun request =>
      if request.path = bytes "/upload" then some { handler := .finished } else none }

/-- A request with a body, one without, and an upload. -/
def mixed : Session where
  input :=
    ⟨bytes "POST / HTTP/1.1\r\nHost: a\r\nContent-Length: 4\r\n\r\nGET ",
      [.data (bytes "GET / HTTP/1.1\r\nHost: a\r\n\r\nPOST /upload HTTP/1.1\r\nHost: a\r\n"),
        .data (bytes "Content-Length: 4\r\n\r\nGET ")]⟩

/-- The second request starts behind the body of the first one, and the third one behind the second.
Behind the third one nothing is parsed, since its body has not been read. -/
theorem heads_at_boundaries_pipelined :
    ∃ s t : Session,
      nextRequest { decoder := .disabled, compressor := .disabled } mixed
        { application := careless } = some s ∧
      nextRequest { decoder := .disabled, compressor := .disabled } s
        { application := careless } = some t ∧
      nextRequest { decoder := .disabled, compressor := .disabled } t
        { application := careless } = none ∧
      ∃ messages : List WireRequest,
        List.Forall₂ (fun v m => ParsesAs { decoder := .disabled, compressor := .disabled } v.1 m)
          [(mixed, ({ application := careless } : Turn)), (s, { application := careless })]
          messages ∧
        mixed.input.available = messages.flatMap WireRequest.encode ++ t.input.available ∧
        ∀ result after, readRequestHead (64 * 1024) false t.input = (.ok result, after) →
          ∃ start lines, mixed.input.available = messages.flatMap WireRequest.encode ++
            (headBytes start lines ++ (crlf ++ after.available)) := by
  obtain ⟨s, t, hs, ht, hstops⟩ : ∃ s t : Session,
      nextRequest { decoder := .disabled, compressor := .disabled } mixed
        { application := careless } = some s ∧
      nextRequest { decoder := .disabled, compressor := .disabled } s
        { application := careless } = some t ∧
      nextRequest { decoder := .disabled, compressor := .disabled } t
        { application := careless } = none := ⟨_, _, rfl, rfl, rfl⟩
  exact ⟨s, t, hs, ht, hstops,
    heads_at_boundaries { decoder := .disabled, compressor := .disabled } mixed t
      [(mixed, { application := careless }), (s, { application := careless })]
      (.step (.step .start hs) ht)⟩

end Chhttp
