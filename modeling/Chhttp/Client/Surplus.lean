import Chhttp.Lib.Run
import Chhttp.Protocol.Response

/-!
# Surplus bytes on a pooled connection

A lease carries its `ReadBuffer` back into the pool and into the next exchange, and what the server
sends meanwhile waits on the connection.  `Pooled` is what a pooled connection holds that has not
been parsed; its transitions are bytes that arrive and exchanges.

A response that is returned was parsed from the front of what there was to read, and its head is not
empty.  So the responses of a run are parsed from new bytes exactly if every exchange that returns
one starts with nothing unread.
-/

namespace Chhttp.AsyncClient

open Fragment Transition

/-! ### What a response consumes -/

/-- Looking for a head does not read past the end of the stream.  It does not read on once it has
found the end of a head. -/
lemma endsOnce_takeHeadBytes {maxHeaderSize : ℕ} {input after : Input} {view : Bytes}
    (h : takeHeadBytes maxHeaderSize input = (.ok view, after)) (hends : input.EndsOnce) :
    after.EndsOnce := by
  unfold takeHeadBytes at h
  split at h
  · rw [Prod.mk.injEq] at h
    exact h.2 ▸ hends
  let Post : ℕ × Input → Result Bytes × Input → Prop := fun v r =>
    v.2.EndsOnce → ∀ view, r.1 = .ok view → r.2.EndsOnce
  have hrun : Post (0, input) (readHeadBytes maxHeaderSize input) := by
    refine Loop.run_induct (headBytesStep_decreases maxHeaderSize) ?_ ?_ (0, input)
    · rintro ⟨searchFrom, input⟩ r hleave hends view hview
      unfold headBytesStep at hleave
      dsimp only at hleave
      split at hleave
      · cases hleave
        exact hends
      · split_ifs at hleave
        · cases hleave
          cases hview
        · split at hleave
          · cases hleave
            cases hview
          · cases hleave
            cases hview
          · cases hleave
    · rintro ⟨searchFrom, input⟩ ⟨searchFrom', input'⟩ r hagain ih hends
      unfold headBytesStep at hagain
      dsimp only at hagain
      split at hagain
      · cases hagain
      · split_ifs at hagain
        split at hagain
        · cases hagain
        · cases hagain
        · rename_i chunk rest hread
          cases hagain
          exact ih (hends.read hread).1
  rw [h] at hrun
  exact hrun hends view rfl

/-- A body that ends with the connection leaves nothing. -/
lemma available_readUntilEof {options : HttpReadOptions} {s : ChunkState} {body : Bytes}
    (h : (readUntilEof options s).result = .ok body) (hends : s.input.EndsOnce) :
    (readUntilEof options s).input.available = [] := by
  let Post : ChunkState → BodyRead → Prop := fun s r =>
    s.input.EndsOnce → s.input.buffer = [] → ∀ body, r.result = .ok body → r.input.available = []
  have hrun : ∀ s, Post s (Loop.run (untilEofStep options) (fun s => s.input.reads.length)
      (untilEofStep_decreases options) s) := by
    intro s
    refine Loop.run_induct (untilEofStep_decreases options) ?_ ?_ s
    · intro s r hleave hends hempty body hbody
      unfold untilEofStep at hleave
      split at hleave
      · cases hleave
        cases hbody
      · rename_i input hread
        cases hleave
        obtain ⟨-, hreads⟩ := hends.read hread
        simp only [Source.available, (Source.buffer_read hread).trans hempty, hreads (by simp)]
        rfl
      · split at hleave
        · cases hleave
          cases hbody
        · cases hleave
    · intro s s' r hagain ih hends hempty
      unfold untilEofStep at hagain
      split at hagain
      · cases hagain
      · cases hagain
      · rename_i received input hread
        split at hagain
        · cases hagain
        · cases hagain
          exact ih (hends.read hread).1 ((Source.buffer_read hread).trans hempty)
  unfold readUntilEof at h ⊢
  split at h
  · cases h
  · exact hrun _ hends (by simp [Source.consume]) body h

/-- A body that was read was there. -/
lemma available_readBody {options : HttpReadOptions} {head : ParsedHead} {untilEof : Bool}
    {input : Input} {body : Bytes}
    (h : (readBody options head untilEof false input).result = .ok body) (hends : input.EndsOnce) :
    ∃ p, input.available = p ++ (readBody options head untilEof false input).input.available := by
  unfold readBody at h ⊢
  dsimp only at h ⊢
  rw [if_neg Bool.false_ne_true] at h ⊢
  by_cases hchunked : head.chunked = true
  · rw [if_pos hchunked] at h ⊢
    obtain ⟨frame, fields, htaken⟩ := readChunked_sound h
    exact ⟨frame.encode, htaken.took.available⟩
  rw [if_neg hchunked] at h ⊢
  cases hlength : head.contentLength with
  | some total =>
    rw [hlength] at h
    obtain ⟨data, -, -, htook, -⟩ := readFixed_sound h
    exact ⟨data, htook.available⟩
  | none =>
    rw [hlength] at h
    dsimp only at h ⊢
    by_cases huntil : untilEof = true
    · rw [if_pos huntil] at h ⊢
      exact ⟨input.available, by rw [available_readUntilEof h hends, List.append_nil]⟩
    · rw [if_neg huntil]
      exact ⟨[], rfl⟩

/-- A response body that was read was there, whatever its content coding. -/
lemma available_readResponseBody {decoder : Decoder} {options : HttpReadOptions} {untilEof : Bool}
    {head : ParsedHead} {input after : Input} {body : Bytes × Headers}
    (h : readResponseBody decoder options untilEof head input = (.ok body, after))
    (hends : input.EndsOnce) : ∃ p, input.available = p ++ after.available := by
  unfold readResponseBody at h
  split at h
  · rw [Prod.mk.injEq] at h
    obtain ⟨hresult, rfl⟩ := h
    cases hbody : (readBody options head untilEof false input).result with
    | error e =>
      rw [hbody] at hresult
      cases hresult
    | ok body => exact available_readBody hbody hends
  · split at h
    · cases h
    · dsimp only at h
      split at h
      · cases h
      · rename_i body hbody
        split at h
        · cases h
        · cases h
          exact available_readBody hbody hends

/-- A response that is returned was parsed from the front of what there was to read, and not from
nothing. -/
theorem available_readResponse {decoder : Decoder} {method : Bytes} {options : HttpReadOptions}
    {input after : Input} {response : Response}
    (h : readResponse decoder method options input = (.ok response, after))
    (hends : input.EndsOnce) : ∃ p ≠ [], input.available = p ++ after.available := by
  let Post : Input → Result Response × Input → Prop := fun input r =>
    input.EndsOnce → ∀ response, r.1 = .ok response → ∃ p ≠ [], input.available = p ++ r.2.available
  have hrun : Post input (readResponse decoder method options input) := by
    refine Loop.run_induct (responseStep_decreases decoder method options) ?_ ?_ input
    · -- the last round: it parses the final head, and the body if there is one
      intro input r hleave hends response hresponse
      unfold responseStep at hleave
      split at hleave
      · cases hleave
        cases hresponse
      · rename_i view middle htake
        obtain ⟨havail, -⟩ := (headTaken_of_takeHeadBytes htake).consume
        have hends' : (middle.consume (view.length + 2)).EndsOnce :=
          (endsOnce_takeHeadBytes htake hends).consume _
        have hrest : ∀ p, (middle.consume (view.length + 2)).available = p ++ r.2.available →
            ∃ p ≠ [], input.available = p ++ r.2.available := by
          intro p hp
          refine ⟨view ++ (crlf ++ p), by simp [crlf], ?_⟩
          rw [havail, hp]
          simp only [List.append_assoc]
        split at hleave
        · cases hleave
          cases hresponse
        · split at hleave
          · cases hleave
            cases hresponse
          · unfold responseOfHead at hleave
            dsimp only at hleave
            split_ifs at hleave
            · split at hleave
              · cases hleave
                cases hresponse
              · cases hleave
                exact hrest [] rfl
            · split at hleave
              · cases hleave
                cases hresponse
              · split at hleave
                · cases hleave
                  cases hresponse
                · rename_i hbody
                  cases hleave
                  obtain ⟨p, hp⟩ := available_readResponseBody hbody hends'
                  exact hrest p hp
    · -- a round that reads an informational response and goes on
      intro input input' r hagain ih hends response hresponse
      unfold responseStep at hagain
      split at hagain
      · cases hagain
      · rename_i view middle htake
        obtain ⟨havail, -⟩ := (headTaken_of_takeHeadBytes htake).consume
        have hends' : (middle.consume (view.length + 2)).EndsOnce :=
          (endsOnce_takeHeadBytes htake hends).consume _
        split at hagain
        · cases hagain
        · split at hagain
          · cases hagain
          · obtain rfl := responseOfHead_again hagain
            obtain ⟨p, -, hp⟩ := ih hends' response hresponse
            refine ⟨view ++ (crlf ++ p), by simp [crlf], ?_⟩
            rw [havail, hp]
            simp only [List.append_assoc]
  rw [h] at hrun
  exact hrun hends response rfl

/-! ### A connection that is used again -/

/-- What a pooled connection holds: the `buffer` of its lease, and what has arrived and not been
read, in the pieces in which it will be. -/
structure Pooled where
  buffer : Bytes := []
  queued : List Bytes := []
  deriving DecidableEq

/-- The bytes that have arrived and not been parsed. -/
def Pooled.unread (s : Pooled) : Bytes := s.buffer ++ s.queued.flatten

/-- An exchange on a pooled connection: what arrives from the moment the client begins to write, how
the stream ends, if it does, and whether the client would keep the connection. -/
structure Reuse where
  method : Bytes
  options : HttpReadOptions
  sent : List Bytes
  ending : Option ErrorInfo := none
  keepAlive : Bool := true

/-- What `read_response` has to read in an exchange. -/
def Pooled.input (s : Pooled) (x : Reuse) : Input where
  buffer := s.buffer
  reads := (s.queued ++ x.sent).map .data ++ [x.ending.elim .eof .failed]

/-- What can happen to a pooled connection.  Bytes may arrive at any time, and an exchange reads
from what has arrived so far. -/
inductive Traffic where
  | arrive (bytes : Bytes)
  | exchange (x : Reuse)

/-- The pieces that are still to be read. -/
def dataChunks : List (Fragment.Event UInt8 ErrorInfo) → List Bytes
  | .data xs :: reads => xs :: dataChunks reads
  | _ => []

/-- `read_response` in an exchange. -/
def Pooled.receive (decoder : Decoder) (s : Pooled) (x : Reuse) : Result Response × Input :=
  readResponse decoder x.method x.options (s.input x)

/-- What happens to a connection while it is in the pool or used; it does not return there after an
error, or when it is not to be kept. -/
def Pooled.next (decoder : Decoder) (s : Pooled) : Traffic → Option Pooled
  | .arrive bytes => some { s with queued := s.queued ++ [bytes] }
  | .exchange x =>
    match s.receive decoder x with
    | (.ok response, after) =>
      if x.keepAlive && response.keepAlive then
        some { buffer := after.buffer, queued := dataChunks after.reads }
      else none
    | (.error _, _) => none

/-- The number of bytes that the response of an exchange is parsed from. -/
def Pooled.parsedLength (decoder : Decoder) (s : Pooled) (x : Reuse) : ℕ :=
  (s.input x).available.length - (s.receive decoder x).2.available.length

/-- The response of an exchange is parsed only from bytes behind those that were there before.
Otherwise part of it was sent before the request, and so does not answer it. -/
def Pooled.InSync (decoder : Decoder) (s : Pooled) (x : Reuse) : Prop :=
  ∀ k < s.parsedLength decoder x, s.unread.length ≤ k

/-- An exchange returns a response. -/
def Pooled.Responds (decoder : Decoder) (s : Pooled) (x : Reuse) : Prop :=
  ∃ response, (s.receive decoder x).1 = .ok response

/-- The bytes that arrive in a step. -/
def arrived : Traffic → Bytes
  | .arrive bytes => bytes
  | .exchange x => x.sent.flatten

/-- The bytes that the response of a step is parsed from. -/
def parsedIn (decoder : Decoder) (s : Pooled) : Traffic → Bytes
  | .arrive _ => []
  | .exchange x => (s.input x).available.take (s.parsedLength decoder x)

/-- The bytes that arrive in a run. -/
def received (trace : List (Pooled × Traffic)) : Bytes := trace.flatMap fun v => arrived v.2

/-- The bytes that the responses of a run are parsed from.  They are in the order of the exchanges,
heads and bodies together. -/
def parsed (decoder : Decoder) (trace : List (Pooled × Traffic)) : Bytes :=
  trace.flatMap fun v => parsedIn decoder v.1 v.2

/-- The pieces that are still to be read make up what arrives. -/
lemma flatten_dataChunks (reads : List (Fragment.Event UInt8 ErrorInfo)) :
    (dataChunks reads).flatten = arriving reads := by
  induction reads with
  | nil => rfl
  | cons e reads ih =>
    cases e with
    | data xs => rw [dataChunks, arriving, List.flatten_cons, ih]
    | eof => rfl
    | failed e => rfl

/-- What an exchange has to read is what was unread and what arrives. -/
lemma Pooled.available_input (s : Pooled) (x : Reuse) :
    (s.input x).available = s.unread ++ x.sent.flatten := by
  have harriving : ∀ chunks : List Bytes,
      arriving (chunks.map .data ++ [x.ending.elim .eof .failed]) = chunks.flatten := by
    intro chunks
    induction chunks with
    | nil => cases x.ending <;> rfl
    | cons chunk chunks ih => rw [List.map_cons, List.cons_append, arriving, ih, List.flatten_cons]
  rw [Source.available, input, harriving, List.flatten_append, unread, List.append_assoc]

/-- The stream of an exchange ends once. -/
lemma Pooled.endsOnce_input (s : Pooled) (x : Reuse) : (s.input x).EndsOnce :=
  ⟨s.queued ++ x.sent, some (x.ending.elim .eof .failed), rfl, by cases x.ending <;> simp⟩

/-- A response is parsed from the front of what there is to read, and not from nothing. -/
lemma Pooled.available_receive {decoder : Decoder} {s : Pooled} {x : Reuse}
    (h : s.Responds decoder x) :
    (s.input x).available = (s.input x).available.take (s.parsedLength decoder x) ++
        (s.receive decoder x).2.available ∧ 0 < s.parsedLength decoder x := by
  obtain ⟨response, hresponse⟩ := h
  obtain ⟨p, hne, hp⟩ :=
    available_readResponse (Prod.ext hresponse rfl) (s.endsOnce_input x)
  have hlength : s.parsedLength decoder x = p.length := by
    rw [Pooled.parsedLength, hp, List.length_append]
    exact Nat.add_sub_cancel _ _
  refine ⟨?_, hlength ▸ List.length_pos_iff.mpr hne⟩
  rw [hlength]
  conv_rhs => rw [hp, List.take_left]
  exact hp

/-- The response of an exchange is parsed only from new bytes exactly if nothing was unread. -/
lemma Pooled.inSync_iff {decoder : Decoder} {s : Pooled} {x : Reuse} (h : s.Responds decoder x) :
    s.InSync decoder x ↔ s.unread = [] := by
  obtain ⟨-, hpos⟩ := Pooled.available_receive h
  constructor
  · intro hsync
    exact List.length_eq_zero_iff.mp (Nat.le_zero.mp (hsync 0 hpos))
  · intro hunread k _
    rw [hunread]
    exact Nat.zero_le k

/-- What has arrived in a run has been parsed or is unread.  So a connection is in sync exactly as
long as nothing is unread between two exchanges. -/
theorem received_eq_parsed {decoder : Decoder} {trace : List (Pooled × Traffic)} {t : Pooled}
    (h : Run (Pooled.next decoder) {} trace t) :
    received trace = parsed decoder trace ++ t.unread := by
  induction h with
  | start => rfl
  | @step trace s t a _ hnext ih =>
    have hstep : s.unread ++ arrived a = parsedIn decoder s a ++ t.unread := by
      cases a with
      | arrive bytes =>
        rw [Pooled.next, Option.some.injEq] at hnext
        subst hnext
        simp [Pooled.unread, arrived, parsedIn]
      | exchange x =>
        simp only [Pooled.next] at hnext
        split at hnext
        · rename_i response after hreceive
          split_ifs at hnext
          rw [Option.some.injEq] at hnext
          subst hnext
          have hresponds : s.Responds decoder x := ⟨response, by rw [hreceive]⟩
          have havailable := (Pooled.available_receive hresponds).1
          rw [hreceive] at havailable
          rw [arrived, ← s.available_input x, Pooled.unread, flatten_dataChunks]
          exact havailable
        · cases hnext
    calc received (trace ++ [(s, a)]) = received trace ++ arrived a := by simp [received]
      _ = parsed decoder trace ++ (s.unread ++ arrived a) := by rw [ih, List.append_assoc]
      _ = parsed decoder (trace ++ [(s, a)]) ++ t.unread := by
        rw [hstep]
        simp [parsed]

/-- On a connection that is used again and again, every response is parsed only from bytes that
arrived after the client began to write its request, exactly if no exchange that returns one starts
before everything that has arrived has been parsed. -/
theorem responses_in_sync_iff (decoder : Decoder) {trace : List (Pooled × Traffic)} {t : Pooled}
    (h : Run (Pooled.next decoder) {} trace t) (last : Reuse) :
    (∀ s x, (s, Traffic.exchange x) ∈ trace ++ [(t, Traffic.exchange last)] → s.Responds decoder x →
      s.InSync decoder x) ↔
    ∀ (j : ℕ) (s : Pooled) (x : Reuse),
      (trace ++ [(t, Traffic.exchange last)])[j]? = some (s, Traffic.exchange x) → s.Responds decoder x →
      received ((trace ++ [(t, Traffic.exchange last)]).take j) =
        parsed decoder ((trace ++ [(t, Traffic.exchange last)]).take j) := by
  have hunread : ∀ (j : ℕ) (s : Pooled) (x : Reuse),
      (trace ++ [(t, Traffic.exchange last)])[j]? = some (s, Traffic.exchange x) →
      (received ((trace ++ [(t, Traffic.exchange last)]).take j) =
        parsed decoder ((trace ++ [(t, Traffic.exchange last)]).take j) ↔ s.unread = []) := by
    intro j s x hj
    rw [received_eq_parsed (h.take _ hj), List.append_right_eq_self]
  constructor
  · intro hsync j s x hj hresponds
    exact (hunread j s x hj).mpr
      ((Pooled.inSync_iff hresponds).mp (hsync s x (List.mem_of_getElem? hj) hresponds))
  · intro hparsed s x hmem hresponds
    obtain ⟨j, hj⟩ := List.mem_iff_getElem?.mp hmem
    exact (Pooled.inSync_iff hresponds).mpr ((hunread j s x hj).mp (hparsed j s x hj hresponds))

/-- An exchange in which the server sends `sent` at once. -/
def answered (sent : String) : Reuse where
  method := bytes "GET"
  options := bufferedOptions 1024 1024
  sent := [bytes sent]

/-- After a server has sent two responses at once, the next request is answered with the second.
The pool does not look whether an idle connection has bytes to read. -/
theorem surplus_response_taken :
    ∃ (trace : List (Pooled × Traffic)) (t : Pooled),
      Run (Pooled.next Decoder.disabled) {} trace t ∧
      (t.receive Decoder.disabled (answered "HTTP/1.1 204 New\r\n\r\n")).1.map Response.status =
        .ok 299 ∧
      ¬t.InSync Decoder.disabled (answered "HTTP/1.1 204 New\r\n\r\n") := by
  let t : Pooled := { buffer := bytes "HTTP/1.1 299 Old\r\nContent-Length: 0\r\n\r\n" }
  have hnext : Pooled.next Decoder.disabled {} (.exchange (answered
      "HTTP/1.1 204 First\r\n\r\nHTTP/1.1 299 Old\r\nContent-Length: 0\r\n\r\n")) = some t := by
    decide +kernel
  have hstatus : (t.receive Decoder.disabled (answered "HTTP/1.1 204 New\r\n\r\n")).1.map
      Response.status = .ok 299 := by decide +kernel
  have hlost : ¬t.InSync Decoder.disabled (answered "HTTP/1.1 204 New\r\n\r\n") := by
    intro h
    exact absurd (h 0 (by decide +kernel)) (by decide +kernel)
  exact ⟨_, t, Run.start.step hnext, hstatus, hlost⟩

/-- Without surplus, a connection that is used twice stays in sync. -/
theorem responses_in_sync_without_surplus :
    ∃ (trace : List (Pooled × Traffic)) (t : Pooled),
      Run (Pooled.next Decoder.disabled) {} trace t ∧ trace.length = 1 ∧
      ∀ s x, (s, Traffic.exchange x) ∈
          trace ++ [(t, .exchange (answered "HTTP/1.1 204 Second\r\n\r\n"))] →
        s.Responds Decoder.disabled x → s.InSync Decoder.disabled x := by
  have hnext : Pooled.next Decoder.disabled {}
      (.exchange (answered "HTTP/1.1 204 First\r\n\r\n")) = some {} := by
    decide +kernel
  have hrun := Run.start.step hnext
  refine ⟨_, _, hrun, rfl, (responses_in_sync_iff Decoder.disabled hrun _).mpr ?_⟩
  intro j s x hj _
  rcases j with _ | _ | j
  · rfl
  · decide +kernel
  · simp at hj

end Chhttp.AsyncClient
