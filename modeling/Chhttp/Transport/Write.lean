import Chhttp.Protocol.Output
import Chhttp.Transport.Connection

/-!
# The bytes of a write

`Connection::write` on a plain connection, with the bytes that it hands to libuv.  A short write is
tried at once, and what it leaves is queued with a request of its own.  Both describe the bytes by
a buffer whose length is an `unsigned int`.

What is handed on is always a prefix of the data.  It is all of the data after every write that
reports success, exactly when the data has less than 2 ^ 32 bytes (`writeData_transmits`): from
there on the length of the buffer wraps.
-/

namespace Chhttp.Transport

/-! ### libuv -/

/-- What `uv_try_write` reports about a buffer of `size` bytes: how many it took, `UV_EAGAIN` or
`UV_ENOSYS`, or another error. -/
inductive TryWrite (size : ℕ) where
  | sent (count : Fin (size + 1))
  | notNow
  | failed (reason : String)

/-- How a request of `uv_write` ends.  A request that succeeds has written its whole buffer, the
others some of it. -/
inductive WriteEnd where
  | done
  | failed (reason : String) (count : ℕ)
  | timedOut (count : ℕ)
  | closed (count : ℕ)

/-- Everything that a write of `size` bytes meets: the connection when it is issued and when the
posted callback runs, and what libuv does. -/
structure WriteCircumstances (size : ℕ) where
  onLoop : Bool
  now : Connection
  attempt : TryWrite size
  later : Connection
  refusal : Option String
  finish : WriteEnd

/-! ### The source -/

/-- The write errors. -/
def writeError (message : String) : ErrorInfo := { code := .write, message }

/-- The size up to which a write is tried at once. -/
def immediateLimit : ℕ := 16 * 1024

/-- `WriteAwaiter::await_ready`: the result of a write that need not be suspended, and `offset`. -/
def awaitReady (data : Bytes) (c : WriteCircumstances data.length) : Option (Option ErrorInfo) × ℕ :=
  if !c.onLoop then (none, 0)
  else if !c.now.isOpen then (some (some (writeError "Connection is closed")), 0)
  else if (c.now.pending .write).isSome then
    (some (some (writeError "Concurrent writes are not supported")), 0)
  else if decide (immediateLimit < data.length) || decide (64 ≤ c.now.immediateWrites) then (none, 0)
  else
    match c.attempt with
    | .sent count => (if count.val = data.length then some none else none, count)
    | .notNow => (none, 0)
    | .failed reason => (some (some (writeError ("Socket write failed: " ++ reason))), 0)

/-- `WriteAwaiter::await_suspend` and the end of its request: the result, and the bytes that the
request has written. -/
def awaitSuspend (data : Bytes) (c : WriteCircumstances data.length) (offset : ℕ) :
    Option ErrorInfo × Bytes :=
  if !c.later.isOpen then (some (writeError "Connection is closed"), [])
  else if (c.later.pending .write).isSome then
    (some (writeError "Concurrent writes are not supported"), [])
  else
    let buffer := uvBufInit (data.drop offset)
    match c.refusal with
    | some reason => (some (writeError ("Unable to start write: " ++ reason)), [])
    | none =>
      match c.finish with
      | .done => (none, buffer)
      | .failed reason count =>
        (some (writeError ("Socket write failed: " ++ reason)), buffer.take count)
      | .timedOut count =>
        (some { code := .timeout, message := "Socket write timed out" }, buffer.take count)
      | .closed count =>
        (some { code := .cancelled, message := "Connection closed" }, buffer.take count)

/-- `Connection::write` without TLS: the result, and the bytes that libuv has written.  It first
tries to write at once, and queues what is left. -/
def writeData (data : Bytes) (c : WriteCircumstances data.length) : Option ErrorInfo × Bytes :=
  if data.isEmpty then (none, [])
  else
    let tried := (uvBufInit data).take (awaitReady data c).2
    match (awaitReady data c).1 with
    | some result => (result, tried)
    | none =>
      let queued := awaitSuspend data c (awaitReady data c).2
      (queued.1, tried ++ queued.2)

/-! ### The steps of the connection -/

/-- The attempt, as the steps of a connection see it. -/
def TryWrite.kind {size : ℕ} : TryWrite size → Attempt
  | .sent count => if count.val = size then .wholly else .partly
  | .notNow => .notNow
  | .failed _ => .failed

/-- The connection after `await_ready`. -/
def afterAttempt (data : Bytes) (c : WriteCircumstances data.length) : Connection :=
  match c.attempt with
  | .sent _ =>
    if !c.now.isOpen || (c.now.pending .write).isSome || decide (immediateLimit < data.length) ||
        decide (64 ≤ c.now.immediateWrites) then c.now
    else { c.now with immediateWrites := c.now.immediateWrites + 1 }
  | _ => c.now

/-- The write with its bytes takes the step of the connection: what `await_ready` settles is not
suspended, and the rest is queued. -/
theorem write_eq_awaitReady {data : Bytes} {c : WriteCircumstances data.length}
    (hloop : c.onLoop = true) (started : Bool) :
    c.now.write (decide (immediateLimit < data.length)) c.attempt.kind started =
      match (awaitReady data c).1 with
      | some _ => afterAttempt data c
      | none => (afterAttempt data c).startWrite started := by
  unfold Connection.write awaitReady afterAttempt
  rw [hloop, Bool.not_true, if_neg Bool.false_ne_true]
  by_cases hopen : (!c.now.isOpen) = true
  · simp only [hopen, if_true, Bool.true_or]
    cases c.attempt <;> rfl
  by_cases hpending : (c.now.pending .write).isSome = true
  · simp only [hopen, hpending, if_false, if_true, Bool.true_or, Bool.or_true, Bool.false_eq_true]
    cases c.attempt <;> rfl
  by_cases hlong : (decide (immediateLimit < data.length) ||
      decide (64 ≤ c.now.immediateWrites)) = true
  · rw [if_neg hopen, if_neg hpending, if_pos hlong, if_neg hopen, if_neg hpending, if_pos hlong]
    rw [Bool.or_eq_true] at hlong
    cases c.attempt with
    | sent count =>
      dsimp only
      rw [if_pos]
      rcases hlong with hlong | hlong <;> simp [hlong]
    | notNow => rfl
    | failed reason => rfl
  · rw [if_neg hopen, if_neg hpending, if_neg hlong, if_neg hopen, if_neg hpending, if_neg hlong]
    cases c.attempt with
    | sent count =>
      have hattempt : ¬(!c.now.isOpen || (c.now.pending .write).isSome ||
          decide (immediateLimit < data.length) || decide (64 ≤ c.now.immediateWrites)) = true := by
        simp only [Bool.or_eq_true, not_or] at hlong ⊢
        exact ⟨⟨⟨hopen, hpending⟩, hlong.1⟩, hlong.2⟩
      dsimp only [TryWrite.kind]
      rw [if_neg hattempt]
      split_ifs <;> rfl
    | notNow => rfl
    | failed reason => rfl

/-! ### What is transmitted -/

/-- What `await_ready` settles: nothing was tried, or the data is short; and a success is complete. -/
lemma awaitReady_spec (data : Bytes) (c : WriteCircumstances data.length) :
    ((awaitReady data c).2 = 0 ∨ data.length ≤ immediateLimit) ∧
      ((awaitReady data c).1 = some none → (awaitReady data c).2 = data.length) := by
  unfold awaitReady
  split_ifs with hloop hopen hpending hlong
  · exact ⟨.inl rfl, by simp⟩
  · exact ⟨.inl rfl, by simp⟩
  · exact ⟨.inl rfl, by simp⟩
  · exact ⟨.inl rfl, by simp⟩
  · simp only [Bool.or_eq_true, decide_eq_true_eq, not_or, not_lt] at hlong
    cases c.attempt with
    | sent count =>
      refine ⟨.inr hlong.1, fun h => ?_⟩
      dsimp only at h
      split_ifs at h with hall
      exact hall
    | notNow => exact ⟨.inl rfl, by simp⟩
    | failed reason => exact ⟨.inl rfl, by simp⟩

/-- What the attempt has written. -/
lemma take_uvBufInit (data : Bytes) (c : WriteCircumstances data.length) :
    (uvBufInit data).take (awaitReady data c).2 = data.take (awaitReady data c).2 := by
  rcases (awaitReady_spec data c).1 with hzero | hshort
  · rw [hzero, List.take_zero, List.take_zero]
  · have hfits : data.length < 2 ^ 32 := by
      unfold immediateLimit at hshort
      omega
    rw [(uvBufInit_eq_iff).mpr hfits]

/-- A request writes the beginning of its buffer, and all of it when it succeeds. -/
lemma awaitSuspend_spec (data : Bytes) (c : WriteCircumstances data.length) (offset : ℕ) :
    (awaitSuspend data c offset).2 <+: uvBufInit (data.drop offset) ∧
      ((awaitSuspend data c offset).1 = none →
        (awaitSuspend data c offset).2 = uvBufInit (data.drop offset)) := by
  unfold awaitSuspend
  split_ifs with hopen hpending
  · exact ⟨List.nil_prefix, by simp⟩
  · exact ⟨List.nil_prefix, by simp⟩
  · cases c.refusal with
    | some reason => exact ⟨List.nil_prefix, by simp⟩
    | none =>
      cases c.finish with
      | done => exact ⟨List.prefix_rfl, fun _ => rfl⟩
      | failed reason count => exact ⟨List.take_prefix _ _, by simp⟩
      | timedOut count => exact ⟨List.take_prefix _ _, by simp⟩
      | closed count => exact ⟨List.take_prefix _ _, by simp⟩

/-- What is written is a prefix of the data. -/
lemma writeData_isPrefix (data : Bytes) (c : WriteCircumstances data.length) :
    (writeData data c).2 <+: data := by
  unfold writeData
  by_cases hempty : data.isEmpty = true
  · rw [if_pos hempty]
    exact List.nil_prefix
  · rw [if_neg hempty, take_uvBufInit]
    dsimp only
    cases (awaitReady data c).1 with
    | some result => exact List.take_prefix _ _
    | none =>
      have hqueued := ((awaitSuspend_spec data c (awaitReady data c).2).1).trans (uvBufInit_isPrefix _)
      have hwhole := (List.prefix_append_right_inj (data.take (awaitReady data c).2)).mpr hqueued
      rwa [List.take_append_drop] at hwhole

/-- A write that succeeds has written what a buffer of all its data describes. -/
theorem writeData_eq_uvBufInit {data : Bytes} {c : WriteCircumstances data.length}
    (h : (writeData data c).1 = none) : (writeData data c).2 = uvBufInit data := by
  unfold writeData at h ⊢
  by_cases hempty : data.isEmpty = true
  · rw [if_pos hempty, List.isEmpty_iff.mp hempty]
    rfl
  rw [if_neg hempty] at h ⊢
  dsimp only at h ⊢
  rw [take_uvBufInit]
  obtain ⟨htried, hall⟩ := awaitReady_spec data c
  -- short data fits into the buffers of both attempts
  have hfits : data.length ≤ immediateLimit → data.length < 2 ^ 32 := by
    unfold immediateLimit
    omega
  cases hready : (awaitReady data c).1 with
  | some result =>
    rw [hready] at h
    subst h
    have hoffset := hall hready
    have hshort : data.length ≤ immediateLimit := by omega
    rw [hoffset, (uvBufInit_eq_iff).mpr (hfits hshort)]
    exact List.take_length
  | none =>
    rw [hready] at h
    dsimp only
    rw [(awaitSuspend_spec data c _).2 h]
    rcases htried with hzero | hshort
    · rw [hzero, List.take_zero, List.drop_zero, List.nil_append]
    · have hrest : (data.drop (awaitReady data c).2).length < 2 ^ 32 := by
        have := hfits hshort
        rw [List.length_drop]
        omega
      rw [(uvBufInit_eq_iff).mpr hrest, (uvBufInit_eq_iff).mpr (hfits hshort),
        List.take_append_drop]

/-- A short write that succeeds has written everything. -/
lemma writeData_eq {data : Bytes} (hfits : data.length < 2 ^ 32)
    {c : WriteCircumstances data.length} (h : (writeData data c).1 = none) :
    (writeData data c).2 = data := by
  rw [writeData_eq_uvBufInit h, (uvBufInit_eq_iff).mpr hfits]

/-- Nothing goes wrong: the write is queued from another thread, and its request succeeds. -/
def undisturbed (size : ℕ) : WriteCircumstances size where
  onLoop := false
  now := Connection.accepted
  attempt := .notNow
  later := Connection.accepted
  refusal := none
  finish := .done

/-- An undisturbed write reports success for what the buffer describes. -/
lemma writeData_undisturbed {data : Bytes} (hne : data ≠ []) :
    writeData data (undisturbed data.length) = (none, uvBufInit data) := by
  rw [writeData, if_neg (by simpa using hne)]
  rfl

/-- **Writing.**  What is written is always a prefix of the data, and every write that reports
success has written all of it exactly when the data has less than 2 ^ 32 bytes. -/
theorem writeData_transmits (data : Bytes) :
    ((∀ c : WriteCircumstances data.length, (writeData data c).1 = none → (writeData data c).2 = data) ↔
      data.length < 2 ^ 32) ∧
    ∀ c : WriteCircumstances data.length, (writeData data c).2 <+: data := by
  refine ⟨⟨fun h => ?_, fun hfits c => writeData_eq hfits⟩, writeData_isPrefix data⟩
  by_contra hlong
  have hne : data ≠ [] := by
    rintro rfl
    exact hlong (Nat.two_pow_pos 32)
  have hall := h (undisturbed data.length)
  rw [writeData_undisturbed hne] at hall
  exact hlong ((uvBufInit_eq_iff).mp (hall rfl))

/-- A block of 2 ^ 32 bytes is reported as written when nothing of it is. -/
theorem not_writeData_transmits :
    ¬∀ (data : Bytes) (c : WriteCircumstances data.length), (writeData data c).1 = none →
      (writeData data c).2 = data := by
  intro h
  have hdata : ∀ n : ℕ, ∃ data : Bytes, data.length = n :=
    fun n => ⟨List.replicate n 0, List.length_replicate⟩
  obtain ⟨data, hlen⟩ := hdata (2 ^ 32)
  have hne : data ≠ [] := by
    rw [Ne, ← List.length_eq_zero_iff, hlen]
    exact Nat.ne_of_gt (Nat.two_pow_pos 32)
  have hall := h data (undisturbed _)
  rw [writeData_undisturbed hne] at hall
  have hfits := (uvBufInit_eq_iff).mp (hall rfl)
  rw [hlen] at hfits
  exact lt_irrefl _ hfits

end Chhttp.Transport
