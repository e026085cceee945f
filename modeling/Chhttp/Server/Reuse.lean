import Chhttp.Server.Boundaries

/-!
# Announced and actual reuse

The head of a response announces whether the connection persists, and `serve` decides whether it
does.  The decision falls before the response is sent.  A response that closes late, a stream to a
client before HTTP/1.1 or a file that does not open, is announced with `Connection: close` although
the session goes on; every other response is announced as it was decided.
-/

namespace Chhttp

/-- What a head announces is determined by what was handed on. -/
lemma Announced.unique {output output' : Output} {keep keep' : Bool}
    (h : Announced output output' keep) (h' : Announced output output' keep') : keep = keep' := by
  obtain ⟨head, startLine, fields, ⟨rest, more, hblocks⟩, hhead, hconnection⟩ := h
  obtain ⟨head', startLine', fields', ⟨rest', more', hblocks'⟩, hhead', hconnection'⟩ := h'
  rw [hblocks] at hblocks'
  have hcons := List.append_cancel_left hblocks'
  rw [List.cons.injEq] at hcons
  have hfields := hhead.fields_unique hhead' hcons.1
  rw [← hfields, hconnection] at hconnection'
  revert hconnection'
  cases keep <;> cases keep' <;> decide

/-- If the session goes on after a response, then the head of this response announced it.  A client
that keeps to the head would otherwise drop a connection that the server keeps, or the other way
round. -/
def ReuseAnnounced (options : ServerOptions) (s : Session) (turn : Turn) : Prop :=
  ∀ request response complete input output s',
    answer options turn s = .respond request response complete input output →
    nextRequest options s turn = some s' →
    Announced output s'.output true ∧ ¬ Announced output s'.output false

/-- The answer of an iteration closes late.  The connection was taken for reusable before, and the
head then says `close`. -/
def AnswersLate (options : ServerOptions) (s : Session) (turn : Turn) : Prop :=
  ∃ request response complete input output,
    answer options turn s = .respond request response complete input output ∧
      ClosesLate turn.openFile request response

/-- An iteration that goes on was announced, unless its answer closes late: then its head announces
that the connection closes. -/
lemma reuseAnnounced_iff {options : ServerOptions} {s s' : Session} {turn : Turn}
    (h : nextRequest options s turn = some s') :
    ReuseAnnounced options s turn ↔ ¬ AnswersLate options s turn := by
  obtain ⟨request, response, output, hanswer, hsend, hresponse, hrequest⟩ :=
    answer_of_nextRequest h
  obtain ⟨hintime, hlate⟩ := announced_of_sendResponse hsend
  rw [hresponse, hrequest, Bool.and_self] at hintime
  constructor
  · rintro hannounced ⟨request', response', complete, input, output', hanswer', hcloses⟩
    rw [hanswer, Answer.respond.injEq] at hanswer'
    obtain ⟨rfl, rfl, -, -, rfl⟩ := hanswer'
    exact (hannounced _ _ _ _ _ _ hanswer h).2 (hlate hcloses)
  · intro hnot request' response' complete input output' t hanswer' ht
    rw [h, Option.some.injEq] at ht
    rw [hanswer, Answer.respond.injEq] at hanswer'
    obtain ⟨rfl, rfl, -, rfl, rfl⟩ := hanswer'
    have htrue := hintime fun hcloses => hnot ⟨_, _, _, _, _, hanswer, hcloses⟩
    rw [← ht]
    refine ⟨htrue, fun hfalse => ?_⟩
    cases htrue.unique hfalse

/-- Announced and actual reuse.  In a run of a session, all iterations that go on were announced
with `Connection: keep-alive` if and only if none of their answers closes late. -/
theorem reuse_announced_iff (options : ServerOptions) (s t : Session)
    (trace : List (Session × Turn)) (h : Transition.Run (nextRequest options) s trace t) :
    (∀ v ∈ trace, ReuseAnnounced options v.1 v.2) ↔
      ∀ v ∈ trace, ¬ AnswersLate options v.1 v.2 := by
  have hsteps := h.forall_mem (I := fun _ => True)
    (P := fun s turn _ => ReuseAnnounced options s turn ↔ ¬ AnswersLate options s turn)
    (fun _ _ _ _ _ => trivial) (fun _ _ _ _ hnext => reuseAnnounced_iff hnext) trivial
  constructor
  · intro hall v hv
    obtain ⟨-, -, hiff⟩ := hsteps v hv
    exact hiff.mp (hall v hv)
  · intro hall v hv
    obtain ⟨-, -, hiff⟩ := hsteps v hv
    exact hiff.mpr (hall v hv)

/-- A server that streams an empty body on every path. -/
def streamer : Application where
  findRoute _ := some fun request response =>
    { request, response := { response with streamHandler := some .finished }, handled := true }
  errorHandler request response := { request, response }
  exceptionHandler request response := { request, response }

/-- A client of HTTP/1.0 that asks for persistence. -/
def persistent : Session where
  input := ⟨bytes "GET / HTTP/1.0\r\nConnection: keep-alive\r\n\r\n", []⟩

/-- The reuse after a greeting is announced, the one after a stream to a client of HTTP/1.0 is not. -/
theorem reuse_announced_pipelined :
    (∃ t, nextRequest { decoder := .disabled, compressor := .disabled } pipelined
        { application := greeter } = some t ∧
      ReuseAnnounced { decoder := .disabled, compressor := .disabled } pipelined
        { application := greeter }) ∧
    ∃ t, nextRequest { decoder := .disabled, compressor := .disabled } persistent
        { application := streamer } = some t ∧
      ¬ ReuseAnnounced { decoder := .disabled, compressor := .disabled } persistent
        { application := streamer } := by
  constructor
  · obtain ⟨t, hnext⟩ : ∃ t, nextRequest { decoder := .disabled, compressor := .disabled } pipelined
        { application := greeter } = some t := ⟨_, rfl⟩
    obtain ⟨request, response, complete, input, output, hanswer, hfile, hstream⟩ :
        ∃ request response complete input output,
          answer { decoder := .disabled, compressor := .disabled } { application := greeter }
            pipelined = .respond request response complete input output ∧
          response.filePath = none ∧ response.streamHandler = none :=
      ⟨_, _, _, _, _, rfl, rfl, rfl⟩
    refine ⟨t, hnext, (reuse_announced_iff _ pipelined t _ (.step .start hnext)).mpr ?_
      (pipelined, { application := greeter }) (by simp)⟩
    intro v hv
    obtain rfl := List.mem_singleton.mp hv
    rintro ⟨request', response', complete', input', output', hanswer', hlate⟩
    rw [hanswer, Answer.respond.injEq] at hanswer'
    obtain ⟨rfl, rfl, -, -, -⟩ := hanswer'
    simp only [ClosesLate, hfile, hstream] at hlate
    exact absurd hlate.1 Bool.false_ne_true
  · obtain ⟨t, hnext⟩ : ∃ t, nextRequest { decoder := .disabled, compressor := .disabled } persistent
        { application := streamer } = some t := ⟨_, rfl⟩
    refine ⟨t, hnext, fun hannounced => ?_⟩
    refine (reuse_announced_iff _ persistent t [(persistent, { application := streamer })]
      (.step .start hnext)).mp (fun v hv => ?_) (persistent, { application := streamer }) (by simp)
      ⟨_, _, _, _, _, rfl, rfl, by decide⟩
    obtain rfl := List.mem_singleton.mp hv
    exact hannounced

/-- The stream to a persistent client of HTTP/1.0 is announced to close the connection, which stays
open. -/
theorem reuse_not_announced :
    ¬ ∀ (options : ServerOptions) (s t : Session) (trace : List (Session × Turn)),
      Transition.Run (nextRequest options) s trace t →
      ∀ v ∈ trace, ReuseAnnounced options v.1 v.2 := by
  intro h
  have hnext : ∃ t, nextRequest { decoder := .disabled, compressor := .disabled } persistent
      { application := streamer } = some t := ⟨_, rfl⟩
  obtain ⟨t, hnext⟩ := hnext
  have hannounced := h _ persistent t _ (Transition.Run.start.step hnext)
    (persistent, { application := streamer }) (by simp)
  refine (reuseAnnounced_iff hnext).mp hannounced ?_
  exact ⟨_, _, _, _, _, rfl, rfl, by decide⟩

end Chhttp
