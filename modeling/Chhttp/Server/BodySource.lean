import Chhttp.Protocol.Request

/-!
# The body of a stream route

A stream route reads the request body itself, through a `RequestBodySource`.  Its handler is a tree
of the operations it performs; the consumer it passes to `consume` sees the blocks of the body and
may cancel the source while it does.

`Accounted` is what the session relies on: either the body has been consumed as its head frames it
and the source is complete, or nothing is claimed about the position.  The latter happens only while
the source is not complete (`StreamHandler.run_accounted`).
-/

namespace Chhttp

open Fragment

/-! ### The source -/

/-- An `AsyncBodyConsumer`: its reaction to the last of the blocks so far, and whether it cancels
the source. -/
structure BodyConsumer where
  react : List Bytes → Reaction
  cancels : List Bytes → Bool := fun _ => false

/-- The consumer has cancelled the source during one of the blocks.  It may do so from within its
callback, and the reader notices before the next block. -/
def BodyConsumer.cancelled (consumer : BodyConsumer) (blocks : List Bytes) : Bool :=
  blocks.inits.any fun blocks => !blocks.isEmpty && consumer.cancels blocks

/-- The class `ServerRequestBodySource`, with the connection and the buffer it shares with its
session. -/
structure RequestBodySource where
  state : RequestBodyState
  options : HttpReadOptions
  input : Input
  output : Output
  received : ℕ := 0
  consumed : Bool := false
  complete : Bool := false
  cancelled : Bool := false
  error : Option ErrorInfo := none

namespace RequestBodySource

/-- The constructor: without a body there is nothing to wait for. -/
def create (state : RequestBodyState) (options : HttpReadOptions) (input : Input)
    (output : Output) : RequestBodySource :=
  { state, options, input, output
    complete := !state.chunked && state.contentLength.getD 0 == 0 }

/-- The options that `consume` reads the body with. -/
def consumeOptions (s : RequestBodySource) (consumer : BodyConsumer) : HttpReadOptions :=
  { s.options with
    interrupted := fun blocks =>
      if consumer.cancelled blocks then some .cancelled else s.options.interrupted blocks
    onDataAsync := some fun blocks =>
      if consumer.cancelled blocks.dropLast then .rejected else consumer.react blocks }

/-- The part of `consume` that reads the body. -/
def readBody (decoder : Decoder) (consumer : BodyConsumer) (s : RequestBodySource) :
    Option ErrorInfo × RequestBodySource :=
  let r := readRequestBody decoder (s.consumeOptions consumer) s.state s.input s.output
  let cancelled := consumer.cancelled r.delivered
  let s := { s with
    state := r.state, input := r.input
    output := { r.output with isOpen := r.output.isOpen && !cancelled }
    received := (r.delivered.map List.length).sum, cancelled }
  match r.result with
  | .error e => (some e, { s with error := some e })
  | .ok _ => (none, { s with complete := true })

/-- `ServerRequestBodySource::consume`. -/
def consume (decoder : Decoder) (consumer : BodyConsumer) (s : RequestBodySource) :
    Option ErrorInfo × RequestBodySource :=
  if s.consumed then
    if s.complete then
      (some { code := .invalidArgument, message := "Request body stream was already consumed" }, s)
    else
      (some { code := .cancelled, message := "Request body stream is no longer available" }, s)
  else
    let s := { s with consumed := true }
    if s.complete then (none, s)
    else if s.cancelled then
      (some { code := .cancelled, message := "Request body stream cancelled" }, s)
    else if s.state.contentLength.any fun length => decide (s.options.maxBodySize < length) then
      let e : ErrorInfo :=
        { code := .bodyTooLarge, message := "Request body exceeds the stream route limit" }
      (some e, { s with error := some e })
    else s.readBody decoder consumer

/-- `ServerRequestBodySource::cancel`, which closes the connection. -/
def cancel (s : RequestBodySource) : RequestBodySource :=
  { s with cancelled := true, output := { s.output with isOpen := false } }

/-- What a handler can see of its `RequestBodyStream`.  The length that was announced, how much has
arrived, and whether the body was asked for and came to its end. -/
structure View where
  contentLength : Option ℕ
  received : ℕ
  consumed : Bool
  complete : Bool

/-- The view of a source. -/
def view (s : RequestBodySource) : View where
  contentLength := s.state.contentLength
  received := s.received
  consumed := s.consumed
  complete := s.complete

end RequestBodySource

/-- The behaviour of a `StreamRequestHandler`, one operation at a time.  It may look at the request
and the source, change the request and the response, consume the body or cancel it, in any order and
as often as it likes. -/
inductive StreamHandler where
  | finished
  | threw
  | modify (f : Request → Response → Request × Response) (next : StreamHandler)
  | inspect (next : Request → Response → RequestBodySource.View → StreamHandler)
  | consume (consumer : BodyConsumer) (next : Option ErrorInfo → StreamHandler)
  | cancel (next : StreamHandler)

/-- What a stream handler works on.  The handler changes its own request and response; the source
belongs to the connection. -/
structure StreamCall where
  source : RequestBodySource
  request : Request
  response : Response

/-- Run a stream handler; the flag says that it threw.  A body that was consumed to its end
refreshes the fields of the request, which may have got trailers. -/
def StreamHandler.run (decoder : Decoder) : StreamHandler → StreamCall → Bool × StreamCall
  | .finished, c => (false, c)
  | .threw, c => (true, c)
  | .modify f next, c =>
    let (request, response) := f c.request c.response
    next.run decoder { c with request, response }
  | .inspect next, c => (next c.request c.response c.source.view).run decoder c
  | .consume consumer next, c =>
    let (error, source) := c.source.consume decoder consumer
    let request :=
      if !c.source.complete && source.complete then
        { c.request with headers := source.state.headers }
      else c.request
    (next error).run decoder { c with source, request }
  | .cancel next, c => next.run decoder { c with source := c.source.cancel }

/-! ### Accounting for the body -/

/-- The position of a source in its connection: a complete source has consumed a word that its head
frames as its body, starting at `start`. -/
def Accounted (maxHeaderSize : ℕ) (head : ParsedHead) (start : Input) (s : RequestBodySource) :
    Prop :=
  s.complete = true → ∃ word fields payload, BodyFrame maxHeaderSize head word fields payload ∧
    start.available = word ++ s.input.available

/-- What a source that has not been consumed still knows about its body.  Its input is where the
head ended, so that a later call can still consume the whole body. -/
structure Pending (maxHeaderSize : ℕ) (head : ParsedHead) (start : Input) (s : RequestBodySource) :
    Prop where
  input : s.input = start
  head : s.state.head = head
  size : s.options.maxHeaderSize = maxHeaderSize

section

variable {maxHeaderSize : ℕ} {head : ParsedHead} {start : Input}

/-- A head that announces no body frames the empty word. -/
lemma bodyFrame_empty (h : head.chunked = false) (hlen : head.contentLength.getD 0 = 0) :
    BodyFrame maxHeaderSize head [] [] [] := by
  cases hlength : head.contentLength with
  | none => exact .empty h hlength
  | some n =>
    rw [hlength, Option.getD_some] at hlen
    exact .fixed h (by rw [hlength, hlen]; rfl)

/-- A new source accounts for its body. -/
lemma accounted_create (state : RequestBodyState) (options : HttpReadOptions) (input : Input)
    (output : Output) :
    Accounted maxHeaderSize state.head input
      (RequestBodySource.create state options input output) := by
  intro hcomplete
  simp only [RequestBodySource.create, Bool.and_eq_true, Bool.not_eq_true', beq_iff_eq] at hcomplete
  exact ⟨[], [], [], bodyFrame_empty hcomplete.1 hcomplete.2, rfl⟩

/-- Reading the body accounts for it, whatever its consumer does. -/
lemma accounted_readBody {decoder : Decoder} {consumer : BodyConsumer} {s : RequestBodySource}
    (h : Pending maxHeaderSize head start s) (hopen : s.complete = false) :
    Accounted maxHeaderSize head start (s.readBody decoder consumer).2 := by
  unfold RequestBodySource.readBody
  dsimp only
  cases hr : (readRequestBody decoder (s.consumeOptions consumer) s.state s.input s.output).result
    with
  | error e =>
    intro hcomplete
    rw [hopen] at hcomplete
    cases hcomplete
  | ok body =>
    intro _
    obtain ⟨word, fields, payload, hframe, htook⟩ := bodyFrame_of_readRequestBody hr
    refine ⟨word, fields, payload, ?_, ?_⟩
    · rw [← h.head, ← h.size]
      exact hframe
    · rw [← h.input]
      exact htook.available

/-- Consuming a source accounts for its body.  It is read at most once. -/
lemma accounted_consume {decoder : Decoder} {consumer : BodyConsumer} {s : RequestBodySource}
    (haccounted : Accounted maxHeaderSize head start s)
    (hpending : s.consumed = false → Pending maxHeaderSize head start s) :
    Accounted maxHeaderSize head start (s.consume decoder consumer).2 ∧
      (s.consume decoder consumer).2.consumed = true := by
  unfold RequestBodySource.consume
  by_cases hconsumed : s.consumed = true
  · rw [if_pos hconsumed]
    split_ifs <;> exact ⟨haccounted, hconsumed⟩
  · rw [if_neg hconsumed]
    dsimp only
    obtain ⟨hinput, hhead, hsize⟩ := hpending (by simpa using hconsumed)
    by_cases hcomplete : s.complete = true
    · rw [if_pos hcomplete]
      exact ⟨haccounted, rfl⟩
    · rw [if_neg hcomplete]
      rw [Bool.not_eq_true] at hcomplete
      have hvacuous : ∀ t : RequestBodySource, t.complete = false →
          Accounted maxHeaderSize head start t := by
        intro t ht hcomplete
        rw [ht] at hcomplete
        cases hcomplete
      split_ifs
      · exact ⟨hvacuous _ hcomplete, rfl⟩
      · exact ⟨hvacuous _ hcomplete, rfl⟩
      · refine ⟨accounted_readBody ⟨hinput, hhead, hsize⟩ hcomplete, ?_⟩
        unfold RequestBodySource.readBody
        dsimp only
        split <;> rfl

/-- Whatever a stream handler does, its source accounts for the body.  The induction is over the
handler; consuming settles the account, and no other operation touches the input. -/
theorem StreamHandler.run_accounted {decoder : Decoder} (handler : StreamHandler) {c : StreamCall}
    (haccounted : Accounted maxHeaderSize head start c.source)
    (hpending : c.source.consumed = false → Pending maxHeaderSize head start c.source) :
    Accounted maxHeaderSize head start (handler.run decoder c).2.source := by
  induction handler generalizing c with
  | finished => exact haccounted
  | threw => exact haccounted
  | modify f next ih => exact ih haccounted hpending
  | inspect next ih => exact ih _ _ _ haccounted hpending
  | consume consumer next ih =>
    obtain ⟨hafter, hconsumed⟩ := @accounted_consume _ _ _ decoder consumer _ haccounted
      hpending
    refine ih _ hafter fun hnot => ?_
    cases hconsumed.symm.trans hnot
  | cancel next ih =>
    refine ih haccounted ?_
    intro hnot
    obtain ⟨hinput, hhead, hsize⟩ := hpending hnot
    exact ⟨hinput, hhead, hsize⟩

end

end Chhttp
